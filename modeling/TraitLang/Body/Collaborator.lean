import TraitLang.Diagnostic.Defect
import TraitLang.Diagnostic.Render
import TraitLang.Settings.Basic
import TraitLang.Types.Generics

/-! What the checking of statements asks of others. Statements only see to it that every declaration
and expression in them is checked, against the right type and from the right scope. -/
namespace TraitLang

/-- An expression after checking, with the node that takes its place. -/
structure CheckedExpr where
  expr : ExprId
  type : Ty

/-- Answers the questions of a statement checker, with a state of its own. -/
structure Collaborator (σ : Type) where
  program : σ → Program
  /-- For slots of statements only. -/
  setProgram : Program → σ → σ
  checkDecl : DeclId → EStateM Halt σ Bool
  /-- Checks an expression, against a type if one is expected, as seen from a scope. -/
  checkExpr : ExprId → Option Ty → ScopeId → FreePolicy → EStateM Halt σ CheckedExpr
  /-- The signature of a function, if it is known already. -/
  signature? : σ → DeclId → Option Signature
  generics : DeclId → EStateM Halt σ (Option Generics)
  instantiate : Generics → Ty → ScopeId → EStateM Halt σ (Ty × Substitution)
  report : Diagnostic → σ → σ

/-- A return statement met in the body of a function. -/
structure ReturnRecord where
  stmt : StmtId
  function : DeclId
  /-- The type that the value was checked against. -/
  expected : Ty
deriving DecidableEq, Repr

end TraitLang
