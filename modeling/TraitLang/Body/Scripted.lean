import TraitLang.Body.Check

/-! A collaborator that answers from a script and keeps a log of what it was asked. Literals have
their own type and all else is an integer; every checked expression is replaced by a copy of it, so
that the slots of statements show what was stored in them. -/
namespace TraitLang

namespace Scripted

inductive Event where
  | decl (id : DeclId)
  | expr (id replacement : ExprId) (expected : Option Ty) (useSite : ScopeId) (policy : FreePolicy)
    (type : Ty)
  | generics (function : DeclId)
  | instantiate (type : Ty) (useSite : ScopeId)
  | report (message : String)

/-- The script, the program, and the log in order. -/
structure State where
  program : Program
  signatures : NodeMap Signature
  generics : Option Generics
  substitution : Substitution
  failing : List ExprId
  log : List Event

def record (event : Event) : EStateM Halt State Unit :=
  modify fun state => { state with log := state.log ++ [event] }

/-- The type of an expression by its outermost form. -/
def literalType : ExprKind → Ty
  | .str _ => .string
  | .bool _ => .bool
  | _ => .int

def checkExpr (id : ExprId) (expected : Option Ty) (useSite : ScopeId) (policy : FreePolicy) :
    EStateM Halt State CheckedExpr := do
  let state ← get
  let some expr := state.program.tree.expr? id | throw (.missing id)
  let type := literalType expr.kind
  let refused := state.failing.contains id || expected.any (· ≠ type)
  let type := if refused then Ty.error else type
  let (replacement, program) := state.program.push (.expr expr)
  let scope := (state.program.scopeOf id).getD useSite
  set { state with program := program.register replacement scope }
  record (.expr id replacement expected useSite policy type)
  return ⟨replacement, type⟩

end Scripted

/-- The scripted collaborator. -/
def scripted : Collaborator Scripted.State where
  program state := state.program
  setProgram program state := { state with program }
  checkDecl id := do
    Scripted.record (.decl id)
    return true
  checkExpr := Scripted.checkExpr
  signature? state id := state.signatures[id]?
  generics function := do
    Scripted.record (.generics function)
    return (← get).generics
  instantiate _ type useSite := do
    Scripted.record (.instantiate type useSite)
    let substitution := (← get).substitution
    return (type.substitute substitution, substitution)
  report diagnostic state := { state with log := state.log ++ [.report diagnostic.message] }

end TraitLang
