import TraitLang.Body.Collaborator

/-! Statements. One checker is used for the body of a function; it keeps the scope it is in and the
return statements it has met. -/
namespace TraitLang

structure Body where
  useSite : ScopeId
  policy : FreePolicy
  diagnoseMissingReturns : Bool
  returns : List ReturnRecord

namespace Body

def new (useSite : ScopeId) (policy : FreePolicy) (diagnoseMissingReturns : Bool) : Body :=
  ⟨useSite, policy, diagnoseMissingReturns, []⟩

/-- A checker together with its collaborator's state. Both are kept when the work halts. -/
structure Run (σ : Type) where
  body : Body
  context : σ

abbrev Steps (σ : Type) := EStateM Halt (Run σ)

variable {σ α : Type} (collaborator : Collaborator σ)

/-- Lets the collaborator work. -/
def ask (work : EStateM Halt σ α) : Steps σ α := fun run =>
  match work run.context with
  | .ok answer context => .ok answer { run with context }
  | .error halt context => .error halt { run with context }

/-- Works inside a scope and comes back, also when the work halts. -/
def within (scope : ScopeId) (work : Steps σ α) : Steps σ α := fun run =>
  match work { run with body := { run.body with useSite := scope } } with
  | .ok answer after => .ok answer { after with body.useSite := run.body.useSite }
  | .error halt after => .error halt { after with body.useSite := run.body.useSite }

def program : Steps σ Program := return collaborator.program (← get).context

def stmt (id : StmtId) : Steps σ Stmt := do
  match (← program collaborator).tree.stmt? id with
  | some stmt => return stmt
  | none => throw (.missing id)

/-- Changes the slots of a statement, which has to be there with the slots that are changed. -/
def updateSlots (id : StmtId) (change : StmtKind → Option StmtKind) : Steps σ Unit := do
  let program ← program collaborator
  match program.tree.updateStmt id change with
  | some tree => modify fun run =>
    { run with context := collaborator.setProgram { program with tree } run.context }
  | none => throw (.missing id)

/-- The scope of a node that is expected to introduce one. -/
def scopeFor (id : NodeId) (what : String) : Steps σ ScopeId := do
  match (← program collaborator).tree.scope? id with
  | some scope => return scope
  | none => throw (.defect (.malformedTree id s!"{what} does not introduce a scope"))

def checkExpr (expr : ExprId) (expected : Option Ty) (useSite : ScopeId) (policy : FreePolicy) :
    Steps σ CheckedExpr :=
  ask (collaborator.checkExpr expr expected useSite policy)

/-! ### Slots -/

def setMember (index : Nat) (expr : ExprId) : StmtKind → Option StmtKind
  | .block members => (Tree.setSlot members index (.expr expr)).map .block
  | kind => some kind

def setTest (index : Nat) (expr : ExprId) : StmtKind → Option StmtKind
  | .cond condition success failure =>
    (Tree.setSlot condition index (.expr expr)).map (.cond · success failure)
  | .whileLoop condition body => (Tree.setSlot condition index (.expr expr)).map (.whileLoop · body)
  | kind => some kind

def setReturned (expr : ExprId) : StmtKind → Option StmtKind
  | .ret _ => some (.ret (some expr))
  | kind => some kind

def setLoopTest (expr : ExprId) : StmtKind → Option StmtKind
  | .doWhile body _ => some (.doWhile body expr)
  | kind => some kind

/-! ### Parts of statements -/

/-- Checks the members of a block from an index on, also after a failure. -/
def checkMembers (nested : StmtId → Steps σ Bool) (id : StmtId) :
    (index : Nat) → List BlockMember → Steps σ Bool
  | _, [] => return true
  | index, member :: members => do
    let good ←
      match member with
      | .decl decl => ask (collaborator.checkDecl decl)
      | .stmt inner => nested inner
      | .expr expr => do
        let body := (← get).body
        let checked ← checkExpr collaborator expr none body.useSite body.policy
        updateSlots collaborator id (setMember index checked.expr)
        pure (!checked.type.hasErrors)
    let rest ← checkMembers nested id (index + 1) members
    return good && rest

/-- Checks the clauses of a condition from an index on. Tests are boolean. -/
def checkConditions (id : StmtId) (scope : ScopeId) :
    (index : Nat) → List ConditionItem → Steps σ Bool
  | _, [] => return true
  | index, item :: items => do
    let good ←
      match item with
      | .decl decl => ask (collaborator.checkDecl decl)
      | .expr expr => do
        let body := (← get).body
        let checked ← checkExpr collaborator expr (some .bool) scope body.policy
        updateSlots collaborator id (setTest index checked.expr)
        pure (!checked.type.hasErrors)
    let rest ← checkConditions id scope (index + 1) items
    return good && rest

/-- The function that a return statement leaves, and the type that it has to return. -/
def returnTarget (id : StmtId) : Steps σ (DeclId × Ty) := do
  let program ← program collaborator
  let some function := (program.scopeOf id).bind program.enclosingFunction?
    | throw (.defect (.returnOutsideFunction id))
  let some signature := collaborator.signature? (← get).context function
    | throw (.defect (.unrealizedSignature function))
  if signature.output.hasParams then
    match ← ask (collaborator.generics function) with
    | some generics =>
      let useSite := (← get).body.useSite
      let (type, _) ← ask (collaborator.instantiate generics signature.output useSite)
      return (function, type)
    | none => return (function, .error)
  else
    return (function, signature.output)

def checkReturn (id : StmtId) (value : Option ExprId) : Steps σ Bool := do
  let (function, expected) ← returnTarget collaborator id
  modify fun run =>
    { run with body.returns := run.body.returns ++ [⟨id, function, expected⟩] }
  match value with
  | none =>
    if (← get).body.diagnoseMissingReturns && !expected.isUnit && !expected.hasErrors then
      let position := (← stmt collaborator id).span.start
      modify fun run =>
        { run with context := collaborator.report ⟨.missingReturnValue, position⟩ run.context }
      return false
    else
      return true
  | some expr =>
    let useSite := (← get).body.useSite
    let checked ← checkExpr collaborator expr (some expected) useSite .reject
    updateSlots collaborator id (setReturned checked.expr)
    return !checked.type.hasErrors

/-! ### Statements -/

/-- Checks a statement, given how to check the statements inside it. -/
def checkKind (nested : StmtId → Steps σ Bool) (id : StmtId) : StmtKind → Steps σ Bool
  | .block members => do
    let scope ← scopeFor collaborator id "brace statement"
    within scope (checkMembers collaborator nested id 0 members)
  | .ret value => checkReturn collaborator id value
  | .cond condition success failure => do
    let scope ← scopeFor collaborator id "conditional statement"
    let tested ← checkConditions collaborator id scope 0 condition
    let taken ← nested success
    let other ← failure.elim (pure true) nested
    return tested && taken && other
  | .whileLoop condition body => do
    let scope ← scopeFor collaborator id "while loop"
    let tested ← checkConditions collaborator id scope 0 condition
    let repeated ← nested body
    return tested && repeated
  | .doWhile body condition => do
    let repeated ← nested body
    let scope ← scopeFor collaborator body "do/while body"
    let policy := (← get).body.policy
    let checked ← checkExpr collaborator condition (some .bool) scope policy
    updateSlots collaborator id (setLoopTest checked.expr)
    return repeated && !checked.type.hasErrors

def checkWithin : (depth : Nat) → StmtId → Steps σ Bool
  | 0, _ => throw .exhausted
  | depth + 1, id => do
    checkKind collaborator (checkWithin depth) id (← stmt collaborator id).kind

/-- Checks a statement and everything inside it; answers whether no type error was found. No path
down a tree is longer than the tree has nodes. -/
def check (id : StmtId) : Steps σ Bool := do
  checkWithin collaborator ((← program collaborator).tree.size + 1) id

end Body

end TraitLang
