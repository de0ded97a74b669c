import TraitLang.Check.Coercion

/-! Types of expressions. -/
namespace TraitLang.Check

/-! ### Names -/

/-- The stored properties of a product, in order. -/
def propertyVars (tree : Tree) (members : List DeclId) : List DeclId :=
  members.flatMap fun member =>
    match tree.decl? member with
    | some ⟨.binding decl, _⟩ => decl.pattern.vars
    | _ => []

def inferName (ask : Answerer) (id : ExprId) (name : String) (useSite : ScopeId) : Check Ty := do
  match ← lookupValue id name useSite with
  | none =>
    reportAt (.notDeclared name) id
    return .error
  | some found =>
    match (← decl found).kind with
    | .var _ | .param _ _ | .binding _ => ask (.declType found)
    | .function function => do
      let type := (← signatureOf ask found).toTy
      if function.genericParams.isEmpty then return type
      let scope ← scopeOr id useSite
      match ← genericsOf found with
      | some generics => return (← instantiate generics type scope).1
      | none => return .error
    | .product product => do
      -- The constructor takes the stored properties.
      demand product.members
      let params ← (propertyVars (← tree) product.members).mapM fun var => ask (.declType var)
      let output ← ask (.declType found)
      return .function params output
    | .trait _ | .module _ _ | .genericParam _ => do
      reportAt (.notAValue name) id
      return .error

/-! ### Members -/

/-- The property of a name that a binding introduces. -/
def propertyNamed? (tree : Tree) (decl : BindingDecl) (name : String) : Option DeclId :=
  decl.pattern.vars.find? fun var => tree.declName? var = some name

/-- The type of the first function or property of a name among the members of a product. -/
def memberType (ask : Answerer) (name : String) : List DeclId → Check (Option Ty)
  | [] => return none
  | member :: members => do
    match (← decl member).kind with
    | .function function =>
      if function.name = name then return some (← signatureOf ask member).toTy
    | .binding binding =>
      demand binding.pattern.vars
      if let some var := propertyNamed? (← tree) binding name then
        return some (← ask (.declType var))
    | _ => pure ()
    memberType ask name members

/-- The type of a requirement of a name in some traits. -/
def requirementType (ask : Answerer) (traits : List DeclId) (name : String) :
    Check (Option Ty) := do
  match (← get).program.requirement? traits name with
  | .error halt => throw halt
  | .ok none => return none
  | .ok (some requirement) => return some (← signatureOf ask requirement).toTy

/-- The traits that bound a generic parameter. -/
def boundsOf (param : DeclId) : Check (List DeclId) := do
  let program := (← get).program
  match (program.scopeOf param).bind program.tree.asDecl? with
  | none => return []
  | some function =>
    match ← genericsOf function with
    | some generics => return Ty.traitDeclsAll (generics.bounds param)
    | none => return []

def inferMember (ask : Answerer) (id : ExprId) (base : Ty) (name : String) : Check Ty := do
  let base ← resolve base
  let found ←
    match base with
    | .error => pure (some .error)
    | .product product _ => do memberType ask name (← membersOf product)
    | .existential _ | .trait _ _ => requirementType ask base.traitDecls name
    | .param param _ => do requirementType ask (← boundsOf param) name
    | _ => pure none
  match found with
  | some type => return type
  | none =>
    reportAt (.unknownMember base.describe name) id
    return .error

/-! ### Operators -/

/-- The type of the operand and of the result of a unary operator. -/
def unaryType : UnaryOperator → Ty
  | .neg => .int
  | .not => .bool

/-- The type of the operands and of the result of an operator that fixes them. -/
def operatorTypes (left : Ty) : BinaryOperator → Option (Ty × Ty)
  | .add => some (if left = .string then (.string, .string) else (.int, .int))
  | .sub | .mul | .div | .rem => some (.int, .int)
  | .lt | .le | .gt | .ge => some (.int, .bool)
  | .and | .or => some (.bool, .bool)
  | .eq | .ne => none

def inferUnary (ask : Answerer) (operator : UnaryOperator) (operand : ExprId) (useSite : ScopeId) :
    Check Ty := do
  let type ← ask (.exprType operand useSite)
  let fits ← expectType operand type (unaryType operator)
  return if fits && !type.hasErrors then unaryType operator else .error

def inferBinary (ask : Answerer) (operator : BinaryOperator) (left right : ExprId)
    (useSite : ScopeId) : Check Ty := do
  let leftType ← ask (.exprType left useSite)
  let rightType ← ask (.exprType right useSite)
  match operatorTypes (← resolve leftType) operator with
  | some (operands, output) => do
    let leftFits ← expectType left leftType operands
    let rightFits ← expectType right rightType operands
    let sound := !(← resolve leftType).hasErrors && !(← resolve rightType).hasErrors
    return if leftFits && rightFits && sound then output else .error
  | none => do
    let equal ← expectType right rightType leftType
    let leftType ← resolve leftType
    return if equal && !leftType.hasErrors && !rightType.hasErrors then .bool else .error

/-! ### Calls and assignments -/

def setArgument (index : Nat) (argument : ExprId) : ExprKind → Option ExprKind
  | .call callee arguments => (Tree.setSlot arguments index argument).map (.call callee)
  | kind => some kind

/-- Checks the arguments of a call from an index on and stores them. -/
def checkArguments (ask : Answerer) (id : ExprId) (useSite : ScopeId) :
    (index : Nat) → List ExprId → List Ty → Check Bool
  | index, argument :: arguments, param :: params => do
    let (checked, type) ← coerce ask argument param useSite .argument
    updateTree id fun tree => tree.updateExpr id (setArgument index checked)
    let rest ← checkArguments ask id useSite (index + 1) arguments params
    return !type.hasErrors && rest
  | _, _, _ => return true

/-- Says why a value cannot be called with some number of arguments. -/
def reportCall (id callee : ExprId) (received : Nat) : Ty → Check Unit
  | .function params _ =>
    if params.length < received then
      reportAt (.unexpectedArguments params.length received) id
    else
      reportAt (.missingArguments params.length received) id
  | .error => return
  | type => reportAt (.notCallable type.describe) callee

def inferCall (ask : Answerer) (id callee : ExprId) (arguments : List ExprId)
    (useSite : ScopeId) : Check Ty := do
  let type ← resolve (← ask (.exprType callee useSite))
  let refuse : Check Ty := do
    reportCall id callee arguments.length type
    arguments.forM fun argument => do
      let _ ← ask (.exprType argument useSite)
    return .error
  match type with
  | .function params output =>
    if params.length = arguments.length then do
      let sound ← checkArguments ask id useSite 0 arguments params
      return if sound then output else .error
    else refuse
  | _ => refuse

/-- Whether a declaration is a variable that a `var` introduces. -/
def isAssignable (program : Program) (id : DeclId) : Bool :=
  match program.tree.decl? id, (program.owningBinding? id).bind program.tree.decl? with
  | some ⟨.var _, _⟩, some ⟨.binding decl, _⟩ => decl.introducer = .variable
  | _, _ => false

/-- Whether an expression may stand on the left of an assignment; if not, that is reported. A name
that is not declared passes here and is reported as such. -/
def checkAssignee (id : ExprId) (useSite : ScopeId) : Check Bool := do
  match (← expr id).kind with
  | .name name =>
    match ← lookupValue id name useSite with
    | none => return true
    | some found =>
      demand (found :: ((← get).program.bindingOf found).toList)
      let assignable := isAssignable (← get).program found
      unless assignable do reportAt (.assignmentToConstant name) id
      return assignable
  | .member _ _ => return true
  | _ =>
    reportAt .invalidAssignee id
    return false

def setAssigned (value : ExprId) : ExprKind → Option ExprKind
  | .assign assignee _ => some (.assign assignee value)
  | kind => some kind

def inferAssign (ask : Answerer) (id assignee value : ExprId) (useSite : ScopeId) : Check Ty := do
  let assignable ← checkAssignee assignee useSite
  let target ← ask (.exprType assignee useSite)
  let (checked, type) ← coerce ask value target useSite .value
  updateTree id fun tree => tree.updateExpr id (setAssigned checked)
  return if assignable && !type.hasErrors && !target.hasErrors then .unit else .error

/-! ### Conditionals and matches -/

def setTest (index : Nat) (test : ExprId) : ExprKind → Option ExprKind
  | .cond condition success failure =>
    (Tree.setSlot condition index (.expr test)).map (.cond · success failure)
  | kind => some kind

def setFailure (failure : ExprId) : ExprKind → Option ExprKind
  | .cond condition success _ => some (.cond condition success failure)
  | kind => some kind

/-- Checks the clauses of a condition from an index on. -/
def checkConditions (ask : Answerer) (id : ExprId) (scope : ScopeId) :
    (index : Nat) → List ConditionItem → Check Bool
  | _, [] => return true
  | index, item :: items => do
    let good ←
      match item with
      | .decl decl => ask (.verdict decl)
      | .expr test => do
        let (checked, type) ← coerce ask test .bool scope .value
        updateTree id fun tree => tree.updateExpr id (setTest index checked)
        pure (!type.hasErrors)
    let rest ← checkConditions ask id scope (index + 1) items
    return good && rest

def inferCond (ask : Answerer) (id : ExprId) (condition : List ConditionItem)
    (success failure : ExprId) (useSite : ScopeId) : Check Ty := do
  let scope ← ownScope id
  let tested ← checkConditions ask id scope 0 condition
  let type ← ask (.exprType success scope)
  let (checked, failureType) ← coerce ask failure type useSite .value
  updateTree id fun tree => tree.updateExpr id (setFailure checked)
  if tested && !failureType.hasErrors then resolve type else return .error

/-- Checks the cases of a match against the types of its subject and of its result. -/
def checkCases (ask : Answerer) (subject result : Ty) : List CaseId → Check Bool
  | [] => return true
  | id :: ids => do
    let case ← case id
    let scope ← ownScope id
    let bound ← bindPattern ask scope id case.pattern subject
    let (checked, type) ← coerce ask case.body result scope .value
    updateTree id fun tree => tree.updateCase id fun case => { case with body := checked }
    let rest ← checkCases ask subject result ids
    return bound && !type.hasErrors && rest

def inferSelect (ask : Answerer) (subject : ExprId) (cases : List CaseId) (useSite : ScopeId) :
    Check Ty := do
  let subjectType ← ask (.exprType subject useSite)
  let result ← fresh
  if cases.isEmpty then
    let _ ← unify result .unit
  let known := !(← resolve subjectType).hasErrors
  let sound ← checkCases ask subjectType result cases
  if known && sound then resolve result else return .error

/-! ### All expressions -/

def inferKind (ask : Answerer) (id : ExprId) (useSite : ScopeId) : ExprKind → Check Ty
  | .int _ => return .int
  | .str _ => return .string
  | .bool _ => return .bool
  | .name name => inferName ask id name useSite
  | .call callee arguments => inferCall ask id callee arguments useSite
  | .binary operator left right => inferBinary ask operator left right useSite
  | .unary operator operand => inferUnary ask operator operand useSite
  | .assign assignee value => inferAssign ask id assignee value useSite
  | .tuple elements => do
    return .tuple (← elements.mapM fun element => ask (.exprType element useSite))
  | .member base name => do
    inferMember ask id (← ask (.exprType base useSite)) name
  | .cond condition success failure => inferCond ask id condition success failure useSite
  | .select subject cases => inferSelect ask subject cases useSite
  | .existential _ traits => do
    demand traits
    let program := (← get).program
    return .existential (traits.map fun trait => .trait trait (program.declName trait))

/-- Finds and records the type of an expression. -/
def infer (ask : Answerer) (id : ExprId) (useSite : ScopeId) : Check Ty := do
  let type ← inferKind ask id useSite (← expr id).kind
  setExprType id type
  return type

end TraitLang.Check
