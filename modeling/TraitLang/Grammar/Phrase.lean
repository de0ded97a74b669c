import TraitLang.Grammar.Cursor
import TraitLang.Grammar.Power

/-! The phrases of the grammar that contain each other, each with what reading it yields. The rule
of a phrase is written against a reader of phrases, which stands for the rules of the phrases inside
it. -/
namespace TraitLang

inductive Phrase : Type → Type where
  /-- An expression whose operators bind more tightly than a power. -/
  | expr (floor : Power) : Phrase ExprId
  /-- An `if` expression. -/
  | conditional : Phrase ExprId
  | typeExpr : Phrase TypeExpr
  | bindingPattern : Phrase Pattern
  | casePattern : Phrase Pattern
  | block : Phrase StmtId
  /-- An `if` statement. -/
  | branch : Phrase StmtId

/-- A reader of phrases. -/
abbrev Reader := ⦃α : Type⦄ → Phrase α → Parse α

end TraitLang
