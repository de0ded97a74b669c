import TraitLang.Body.Collaborator
import TraitLang.Traits.Refinement

/-! What is known about a program while it is checked. Types of declarations are found on demand, so
a declaration may be used before it is checked; everything found is kept, also when the work
halts. -/
namespace TraitLang.Check

structure State where
  program : Program
  settings : Settings
  solver : Solver
  declTypes : NodeMap Ty
  exprTypes : NodeMap Ty
  signatures : NodeMap Signature
  /-- The declarations whose checking has begun, with its outcome. -/
  verdicts : NodeMap Bool
  /-- The bindings whose initializers are being checked. -/
  inProgress : List DeclId
  conformances : NodeMap (List Conformance)
  returns : NodeMap (List ReturnRecord)
  generics : NodeMap (Option Generics)
  diagnostics : List Diagnostic

def State.new (program : Program) (settings : Settings) : State where
  program := program
  settings := settings
  solver := .empty
  declTypes := ∅
  exprTypes := ∅
  signatures := ∅
  verdicts := ∅
  inProgress := []
  conformances := ∅
  returns := ∅
  generics := ∅
  diagnostics := []

end Check

abbrev Check := EStateM Halt Check.State

namespace Check

/-! ### The program -/

def tree : Check Tree := return (← get).program.tree

def decl (id : DeclId) : Check Decl := do
  match (← tree).decl? id with
  | some decl => return decl
  | none => throw (.missing id)

def expr (id : ExprId) : Check Expr := do
  match (← tree).expr? id with
  | some expr => return expr
  | none => throw (.missing id)

def case (id : CaseId) : Check MatchCase := do
  match (← tree).case? id with
  | some case => return case
  | none => throw (.missing id)

/-- Goes on if what a program demands is there. -/
def need (demanded : Program → Except Halt Unit) : Check Unit := do
  match demanded (← get).program with
  | .ok _ => return
  | .error halt => throw halt

def demand (ids : List DeclId) : Check Unit := need (·.demand ids)

def demandFrom (scope : ScopeId) : Check Unit := need (·.demandFrom scope)

def declName (id : DeclId) : Check String := do
  demand [id]
  return (← get).program.declName id

/-- The scope that a node stands in. -/
def enclosingScope (id : NodeId) : Check ScopeId := do
  match (← get).program.enclosingScope id with
  | .ok scope => return scope
  | .error halt => throw halt

/-- The scope that a node introduces. -/
def ownScope (id : NodeId) : Check ScopeId := do
  match (← tree).scope? id with
  | some scope => return scope
  | none => throw (.defect (.malformedTree id "expected a scope"))

/-- The scope that an expression stands in, or else the one it is used from. -/
def scopeOr (id : NodeId) (useSite : ScopeId) : Check ScopeId :=
  return ((← get).program.scopeOf id).getD useSite

/-- Changes a node of the tree, which has to be there with what is changed in it. -/
def updateTree (id : NodeId) (change : Tree → Option Tree) : Check Unit := do
  match change (← tree) with
  | some tree => modify fun state => { state with program.tree := tree }
  | none => throw (.missing id)

/-! ### Findings -/

def report (diagnostic : Diagnostic) : Check Unit :=
  modify fun state => { state with diagnostics := state.diagnostics ++ [diagnostic] }

/-- Reports a problem where a node starts. -/
def reportAt (problem : Problem) (id : NodeId) : Check Unit := do
  match (← tree).span? id with
  | some span => report ⟨problem, span.start⟩
  | none => throw (.missing id)

def setDeclType (id : DeclId) (type : Ty) : Check Unit :=
  modify fun state => { state with declTypes := state.declTypes.insert id type }

def setExprType (id : ExprId) (type : Ty) : Check Unit :=
  modify fun state => { state with exprTypes := state.exprTypes.insert id type }

/-! ### Inference variables -/

def fresh : Check Ty :=
  modifyGet fun state =>
    let (type, solver) := state.solver.fresh
    (type, { state with solver })

def resolve (type : Ty) : Check Ty := return (← get).solver.resolve type

def unify (first second : Ty) : Check Bool :=
  modifyGet fun state =>
    let (equal, solver) := state.solver.unify first second
    (equal, { state with solver })

end TraitLang.Check
