import TraitLang.Check.Conformance

/-! Expressions against expected types. A product value goes where an existential is expected if it
conforms to the traits; it is then wrapped in a new node. -/
namespace TraitLang.Check

/-- Which words a mismatch is reported in. -/
inductive Role where
  | value
  | argument
deriving DecidableEq, Repr

def Role.mismatch (role : Role) (expected received : Ty) : Problem :=
  match role with
  | .value => .typeMismatch expected.describe received.describe
  | .argument => .argumentMismatch expected.describe received.describe

/-- Unifies the type of an expression with the expected one and reports a mismatch at it. -/
def expectType (id : ExprId) (actual expected : Ty) : Check Bool := do
  if ← unify actual expected then return true
  reportAt (.typeMismatch (← resolve expected).describe (← resolve actual).describe) id
  return false

/-- What the conformances of a product say about the traits of an existential. -/
inductive Support where
  | sound
  /-- Some conformance failed, which was reported. -/
  | broken
  /-- Some trait is not conformed to. -/
  | absent
deriving DecidableEq, Repr

def supportFor (conformances : List Conformance) (support : Support) : List DeclId → Support
  | [] => support
  | trait :: traits =>
    match (conformances.find? fun conformance => conformance.trait = trait).map
        Conformance.state with
    | some .checked => supportFor conformances support traits
    | some .invalid => supportFor conformances .broken traits
    | some .realized | none => .absent

/-- A new node around a product value, in its scope and of its span. -/
def wrap (id : ExprId) (expected : Ty) (useSite : ScopeId) : Check ExprId := do
  let span := (← expr id).span
  let scope ← scopeOr id useSite
  let wrapper ← modifyGet fun state =>
    let (wrapper, program) :=
      state.program.push (.expr ⟨.existential id expected.traitDecls, span⟩)
    (wrapper, { state with program := program.register wrapper scope })
  setExprType wrapper expected
  return wrapper

/-- Makes an existential of a product value. -/
def coerceProduct (ask : Answerer) (id : ExprId) (product : DeclId) (actual expected : Ty)
    (useSite : ScopeId) : Check (ExprId × Ty) := do
  let _ ← checkConformances ask product
  let conformances := (← get).conformances.getD product []
  match supportFor conformances .sound expected.traitDecls with
  | .absent =>
    reportAt (Role.value.mismatch expected actual) id
    return (id, .error)
  | .broken => return (id, .error)
  | .sound => return (← wrap id expected useSite, expected)

/-- Checks an expression against a type. Answers the expression to store in its slot, which is a
wrapper if the value had to be wrapped. -/
def coerce (ask : Answerer) (id : ExprId) (expected : Ty) (useSite : ScopeId) (role : Role) :
    Check (ExprId × Ty) := do
  let expected ← resolve expected
  let type ← ask (.exprType id useSite)
  if expected = .error then return (id, .error)
  let resolved ← resolve type
  match resolved, expected with
  | .product product _, .existential _ => coerceProduct ask id product resolved expected useSite
  | _, _ =>
    if ← unify type expected then return (id, ← resolve type)
    reportAt (role.mismatch expected resolved) id
    return (id, .error)

/-- Checks an expression, against a type if one is expected, and applies the policy on variables
that are still free. -/
def checkExpr (ask : Answerer) (id : ExprId) (expected : Option Ty) (useSite : ScopeId)
    (policy : FreePolicy) : Check CheckedExpr := do
  let (id, type) ←
    match expected with
    | some expected => coerce ask id expected useSite .value
    | none => do pure (id, ← ask (.exprType id useSite))
  let type ← resolve type
  let type ←
    if type.hasVars && policy = .reject then do
      reportAt (.ambiguousType type.describe) id
      pure Ty.error
    else pure type
  setExprType id type
  return ⟨id, type⟩

/-! ### Patterns -/

/-- The types of the elements of a tuple pattern over a type, or nothing if the type is no such
tuple. -/
def elementTypes (count : Nat) (type : Ty) : Check (Option (List Ty)) := do
  match type with
  | .tuple types => return if types.length = count then some types else none
  | .var _ =>
    let types ← (List.range count).mapM fun _ => fresh
    let _ ← unify type (.tuple types)
    return some types
  | .error => return some (List.replicate count .error)
  | _ => return none

mutual

/-- Gives types to the variables of a pattern by taking a type apart. -/
def bindPattern (ask : Answerer) (scope : ScopeId) (place : NodeId) : Pattern → Ty → Check Bool
  | .name var, type => do
    setDeclType var type
    return true
  | .wildcard, _ => return true
  | .expr id, type => do
    let (_, checked) ← coerce ask id type scope .value
    return !checked.hasErrors
  | .tuple elements, type => do
    let resolved ← resolve type
    match ← elementTypes elements.length resolved with
    | some types => bindPatterns ask scope place elements types
    | none =>
      reportAt (.patternMismatch resolved.describe) place
      (Pattern.varsAll elements).forM fun var => setDeclType var .error
      return false

def bindPatterns (ask : Answerer) (scope : ScopeId) (place : NodeId) :
    List Pattern → List Ty → Check Bool
  | element :: elements, type :: types => do
    let good ← bindPattern ask scope place element type
    let rest ← bindPatterns ask scope place elements types
    return good && rest
  | _, _ => return true

end

end TraitLang.Check
