import TraitLang.Check.Names

/-! The questions that lead to each other while a program is checked. The answer to a question is
written against an answerer of questions, which stands for the rules of the questions it leads
to. -/
namespace TraitLang.Check

inductive Query : Type → Type where
  /-- Is a declaration, with everything in it, free of type errors? -/
  | verdict (id : DeclId) : Query Bool
  /-- What type does a declaration have? -/
  | declType (id : DeclId) : Query Ty
  /-- What type does an expression have, as seen from a scope? -/
  | exprType (id : ExprId) (useSite : ScopeId) : Query Ty

/-- An answerer of questions. -/
abbrev Answerer := ⦃α : Type⦄ → Query α → Check α

end TraitLang.Check
