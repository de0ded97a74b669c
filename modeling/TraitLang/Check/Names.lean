import TraitLang.Check.State

/-! What names and written types stand for. -/
namespace TraitLang.Check

/-- The trait that a name stands for; an unknown one is reported. -/
def resolveTrait (name : TraitName) (scope : ScopeId) : Check (Option DeclId) := do
  demandFrom scope
  let found := (← get).program.trait? name.name scope
  if found.isNone then report ⟨.unknownTrait name.name, name.span.start⟩
  return found

/-- The types that need no declaration. -/
def builtinType? (name : String) : Option Ty :=
  [("Int", Ty.int), ("Bool", Ty.bool), ("String", Ty.string)].lookup name

/-- The generic parameter or product that a name stands for. -/
def declaredType? (program : Program) (name : String) (scope : ScopeId) : Option Ty :=
  (program.find name scope).getLast?.bind fun id =>
    match program.tree.decl? id with
    | some ⟨.genericParam name, _⟩ => some (.param id name)
    | some ⟨.product decl, _⟩ => some (.product id decl.name)
    | _ => none

/-- The type of a name. Declarations go before the types that need none. -/
def resolveTypeName (name : String) (span : Span) (scope : ScopeId) : Check Ty := do
  demandFrom scope
  let declared := declaredType? (← get).program name scope
  match declared.or (builtinType? name) with
  | some type => return type
  | none =>
    report ⟨.unknownType name, span.start⟩
    return .error

/-- The types of the traits named, up to the first one that is unknown. -/
def resolveTraits (scope : ScopeId) : List TraitName → Check (Option (List Ty))
  | [] => return some []
  | name :: names => do
    match ← resolveTrait name scope with
    | none => return none
    | some id =>
      let rest ← resolveTraits scope names
      return rest.map (Ty.trait id name.name :: ·)

mutual

/-- The type that a written type stands for in a scope. -/
def resolveType (scope : ScopeId) : TypeExpr → Check Ty
  | .name name span => resolveTypeName name span scope
  | .tuple elements _ => return .tuple (← resolveTypes scope elements)
  | .existential traits _ => do
    match ← resolveTraits scope traits with
    | some types => return .existential types
    | none => return .error

def resolveTypes (scope : ScopeId) : List TypeExpr → Check (List Ty)
  | [] => return []
  | element :: elements => do
    let type ← resolveType scope element
    return type :: (← resolveTypes scope elements)

end

/-! ### Values -/

/-- Whether a declaration found in a scope can be seen by a use that starts at an offset. Variables
in statements are seen only after the binding that introduces them. -/
def isVisible (program : Program) (offset : Nat) (scope : ScopeId) (id : DeclId) : Bool :=
  match program.tree.decl? scope, program.tree.decl? id with
  | none, some ⟨.var _, span⟩ =>
    let introducer := (program.owningBinding? id).bind program.tree.decl?
    (introducer.elim span Decl.span).stop.offset ≤ offset
  | _, _ => true

/-- The declaration that a name stands for in an expression. -/
def lookupValue (id : ExprId) (name : String) (useSite : ScopeId) : Check (Option DeclId) := do
  let scope ← scopeOr id useSite
  let start := (← expr id).span.start.offset
  demandFrom scope
  let program := (← get).program
  return (program.findWhere name scope (isVisible program start)).getLast?

/-! ### Generic functions -/

/-- Adds the bounds of a parameter by the traits named. -/
def addBounds (program : Program) (param : DeclId) (generics : Generics) :
    List TraitName → Except String Generics
  | [] => .ok generics
  | name :: names =>
    match program.trait? name.name generics.scope with
    | none => .error s!"`{name.name}` is not a trait"
    | some trait =>
      addBounds program param (generics.requireTrait param (.trait trait name.name)) names

/-- Adds the requirements of a where clause, up to the first one that cannot be met. -/
def addRequirements (generics : Generics) : List Requirement → Check (Except String Generics)
  | [] => return .ok generics
  | requirement :: requirements => do
    let some param := generics.paramNamed? requirement.param
      | return .error s!"`{requirement.param}` is not a generic parameter"
    let extended ←
      match requirement with
      | .equality _ type _ => do
        let type ← resolveType generics.scope type
        pure (generics.requireEqual param type)
      | .conformance _ traits _ => do
        demandFrom generics.scope
        pure (addBounds (← get).program param generics traits)
    match extended with
    | .error reason => return .error reason
    | .ok generics => addRequirements generics requirements

def buildGenerics (id : DeclId) : Check (Except String Generics) := do
  match (← decl id).kind with
  | .function function =>
    let program := (← get).program
    match program.tree.scope? id with
    | none => return .error "function has no scope"
    | some scope =>
      demand function.genericParams
      let params := function.genericParams.map fun param => (param, program.declName param)
      addRequirements (.new id scope params) function.whereClause
  | _ => return .error "not a function"

/-- The generic parameters of a function with their requirements. If these cannot be met, that is
reported once. -/
def genericsOf (id : DeclId) : Check (Option Generics) := do
  if let some known := (← get).generics[id]? then return known
  let found ←
    match ← buildGenerics id with
    | .ok generics => pure (some generics)
    | .error reason => do
      reportAt (.invalidGenerics (← declName id) reason) id
      pure none
  modify fun state => { state with generics := state.generics.insert id found }
  return found

/-- A type of a generic function as it is seen from a scope. -/
def instantiate (generics : Generics) (type : Ty) (useSite : ScopeId) :
    Check (Ty × Substitution) :=
  modifyGet fun state =>
    let (answer, solver) := generics.instantiate state.program type useSite state.solver
    (answer, { state with solver })

end TraitLang.Check
