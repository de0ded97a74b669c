import TraitLang.Body.Check
import TraitLang.Check.Infer

/-! Types of declarations, and their verdicts. -/
namespace TraitLang.Check

/-! ### Bindings and variables -/

def setInitializer (initializer : ExprId) : DeclKind → Option DeclKind
  | .binding decl => some (.binding { decl with initializer := some initializer })
  | kind => some kind

/-- Checks the initializer of a binding, from its scope, and stores it. -/
def checkInitializer (ask : Answerer) (id : DeclId) (initializer : ExprId) (expected : Option Ty)
    (scope : ScopeId) : Check Ty := do
  let policy := (← get).settings.freePolicy
  let checked ← checkExpr ask initializer expected scope policy
  updateTree id fun tree => tree.updateDecl id (setInitializer checked.expr)
  return checked.type

/-- The type that a binding gives to its pattern, and whether its initializer has that type. -/
def bindingType (ask : Answerer) (id : DeclId) (decl : BindingDecl) (scope : ScopeId) :
    Check (Ty × Bool) := do
  match decl.ascription, decl.initializer with
  | some ascription, some initializer => do
    let type ← resolveType scope ascription
    let found ← checkInitializer ask id initializer (some type) scope
    return (type, !found.hasErrors)
  | some ascription, none => return (← resolveType scope ascription, true)
  | none, some initializer => return (← checkInitializer ask id initializer none scope, true)
  | none, none => do
    reportAt .expectedExplicitValue id
    return (.error, true)

/-- The type of a binding, found on first use. A binding that depends on itself is reported. -/
def realizeBinding (ask : Answerer) (id : DeclId) : Check Ty := do
  if let some known := (← get).declTypes[id]? then return known
  match (← decl id).kind with
  | .binding decl =>
    if (← get).inProgress.contains id then
      let name ← decl.pattern.vars.head?.elim (pure "_") declName
      reportAt (.circularReference name) id
      return .error
    modify fun state => { state with inProgress := id :: state.inProgress }
    let scope ← enclosingScope id
    let (type, fits) ← bindingType ask id decl scope
    let bound ← bindPattern ask scope id decl.pattern type
    modify fun state => { state with inProgress := state.inProgress.erase id }
    let type := if fits && bound then type else .error
    setDeclType id type
    return type
  | _ => throw (.defect (.malformedTree id "expected a binding"))

/-- The type of a variable. Those of match cases are known only while their case is checked. -/
def realizeVar (ask : Answerer) (id : DeclId) : Check Ty := do
  if let some known := (← get).declTypes[id]? then return known
  demand ((← get).program.bindingOf id).toList
  if let some binding := (← get).program.owningBinding? id then
    let _ ← realizeBinding ask binding
  return (← get).declTypes.getD id .error

/-- The type of a declaration, found on first use. -/
def realize (ask : Answerer) (id : DeclId) : Check Ty := do
  if let some known := (← get).declTypes[id]? then return known
  let keep (type : Ty) : Check Ty := do
    setDeclType id type
    return type
  match (← decl id).kind with
  | .function _ => do keep (← signatureOf ask id).toTy
  | .param _ ascription => do
    let scope ← enclosingScope id
    keep (← resolveType scope ascription)
  | .genericParam name => keep (.param id name)
  | .binding _ => realizeBinding ask id
  | .var _ => realizeVar ask id
  | .trait decl => keep (.trait id decl.name)
  | .product decl => keep (.product id decl.name)
  | .module _ _ => keep .error

/-! ### Bodies -/

/-- The checker as the collaborator of statements. -/
def collaborator (ask : Answerer) : Collaborator State where
  program state := state.program
  setProgram program state := { state with program }
  checkDecl id := ask (.verdict id)
  checkExpr := checkExpr ask
  signature? state id := state.signatures[id]?
  generics := genericsOf
  instantiate := instantiate
  report diagnostic state := { state with diagnostics := state.diagnostics ++ [diagnostic] }

/-- Checks a statement with a checker of statements; answers the checker afterwards too. -/
def runBody (ask : Answerer) (body : Body) (id : StmtId) :
    State → Except Halt Bool × Body × State :=
  fun state =>
    match Body.check (collaborator ask) id ⟨body, state⟩ with
    | .ok good run => (.ok good, run.body, run.context)
    | .error halt run => (.error halt, run.body, run.context)

/-- Checks the body of a function and keeps its return statements. -/
def checkBody (ask : Answerer) (function : DeclId) (stmt : StmtId) : Check Bool := do
  let settings := (← get).settings
  let scope ← ownScope function
  let body := Body.new scope settings.freePolicy settings.diagnoseMissingReturns
  let (answer, body) ← modifyGet fun state =>
    let (answer, body, state) := runBody ask body stmt state
    ((answer, body), state)
  match answer with
  | .error halt => throw halt
  | .ok good =>
    modify fun state =>
      let returns := state.returns.getD function [] ++ body.returns
      { state with returns := state.returns.insert function returns }
    return good

def checkFunction (ask : Answerer) (id : DeclId) (function : FunctionDecl) : Check Bool := do
  let signature ← signatureOf ask id
  let typed := !signature.toTy.hasErrors
  let constrained ←
    if function.genericParams.isEmpty && function.whereClause.isEmpty then pure true
    else do pure (← genericsOf id).isSome
  let checked ← function.body.elim (pure true) (checkBody ask id)
  return typed && constrained && checked

/-! ### Verdicts -/

/-- Asks for the verdicts of declarations, also after a bad one. -/
def verdicts (ask : Answerer) : List DeclId → Check Bool
  | [] => return true
  | id :: ids => do
    let good ← ask (.verdict id)
    let rest ← verdicts ask ids
    return good && rest

/-- Whether all refinements of a trait name traits. -/
def checkRefinements (scope : ScopeId) : List TraitName → Check Bool
  | [] => return true
  | name :: names => do
    let found ← resolveTrait name scope
    let rest ← checkRefinements scope names
    return found.isSome && rest

def checkKind (ask : Answerer) (id : DeclId) : DeclKind → Check Bool
  | .module _ members => verdicts ask members
  | .function function => checkFunction ask id function
  | .param _ _ | .binding _ | .var _ => do
    return !(← realize ask id).hasErrors
  | .genericParam _ => return true
  | .trait decl => do
    let scope ← enclosingScope id
    let refined ← checkRefinements scope decl.refinements
    let members ← verdicts ask decl.members
    return refined && members
  | .product decl => do
    let conforming ← checkConformances ask id
    let members ← verdicts ask decl.members
    return conforming && members

/-- Checks a declaration once. While that goes on it counts as good. -/
def checkDeclaration (ask : Answerer) (id : DeclId) : Check Bool := do
  if let some known := (← get).verdicts[id]? then return known
  modify fun state => { state with verdicts := state.verdicts.insert id true }
  let good ← checkKind ask id (← decl id).kind
  modify fun state => { state with verdicts := state.verdicts.insert id good }
  return good

end TraitLang.Check
