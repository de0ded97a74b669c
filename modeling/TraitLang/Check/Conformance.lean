import TraitLang.Check.Query

/-! Signatures of functions, and the verification that products implement what their traits
require. -/
namespace TraitLang.Check

/-- The signature of a function, found on first use. -/
def signatureOf (ask : Answerer) (id : DeclId) : Check Signature := do
  if let some known := (← get).signatures[id]? then return known
  match (← decl id).kind with
  | .function function =>
    let scope ← ownScope id
    let params ← function.params.mapM fun param => ask (.declType param)
    let output ← function.output.elim (pure Ty.unit) (resolveType scope)
    let signature : Signature := ⟨params, output⟩
    modify fun state => { state with signatures := state.signatures.insert id signature }
    return signature
  | _ => throw (.defect (.malformedTree id "expected a function"))

/-! ### Claims of a product -/

/-- The conformances that a product declares. Unknown traits are reported and a repeated one counts
once. -/
def declaredConformances (scope : ScopeId) (claimed : List Conformance) :
    List TraitName → Check (List Conformance)
  | [] => return claimed
  | name :: names => do
    match ← resolveTrait name scope with
    | none => declaredConformances scope claimed names
    | some trait =>
      if claimed.any fun conformance => conformance.trait = trait then
        declaredConformances scope claimed names
      else
        declaredConformances scope (claimed ++ [.new trait (some name.span)]) names

/-- Enters the conformances of a product, declared and implied, on first use. -/
def ensureConformances (product : DeclId) : Check Unit := do
  if ((← get).conformances[product]?).isSome then return
  match (← decl product).kind with
  | .product claims =>
    let scope ← enclosingScope product
    let declared ← declaredConformances scope [] claims.conformances
    match (← get).program.implied declared with
    | .error halt => throw halt
    | .ok all =>
      modify fun state => { state with conformances := state.conformances.insert product all }
  | _ => return

/-! ### Verification -/

/-- The first member that implements a requirement: a function of its name and signature. -/
def findImplementation (ask : Answerer) (name : String) (required : Signature) :
    List DeclId → Check (Option DeclId)
  | [] => return none
  | member :: members => do
    demand [member]
    let program := (← get).program
    if program.tree.isFunction member && program.declName member = name then
      if (← signatureOf ask member) = required then return some member
    findImplementation ask name required members

/-- The entries for the requirements that are implemented, and the names of the others. -/
def matchRequirements (ask : Answerer) (members : List DeclId) :
    List DeclId → Check (List ConformanceEntry × List String)
  | [] => return ([], [])
  | requirement :: requirements => do
    let name ← declName requirement
    let required ← signatureOf ask requirement
    let found ← findImplementation ask name required members
    let (entries, missing) ← matchRequirements ask members requirements
    match found with
    | some implementation => return (⟨requirement, implementation⟩ :: entries, missing)
    | none => return (entries, name :: missing)

def productMembers (tree : Tree) (product : DeclId) : List DeclId :=
  match tree.decl? product with
  | some ⟨.product decl, _⟩ => decl.members
  | _ => []

/-- The members of a product. -/
def membersOf (product : DeclId) : Check (List DeclId) := do
  demand [product]
  return productMembers (← tree) product

/-- The functions that the trait of a conformance requires. -/
def requirementsOf (conformance : Conformance) : Check (List DeclId) := do
  demand (conformance.trait :: (← tree).children conformance.trait)
  return conformance.requirements (← tree)

/-- Settles one conformance. What is missing is reported where the conformance is declared, or else
at the product. -/
def verifyConformance (ask : Answerer) (product : DeclId) (conformance : Conformance) :
    Check Conformance.Outcome := do
  let members ← membersOf product
  let (entries, missing) ← matchRequirements ask members (← requirementsOf conformance)
  if missing.isEmpty then
    let _ ← requirementsOf conformance
    return conformance.accept entries (← tree)
  else
    let position := (conformance.span.getD (← decl product).span).start
    let type ← declName product
    demand [conformance.trait]
    let trait := (conformance.traitType (← tree)).describe
    missing.forM fun requirement => report ⟨.nonConforming type trait requirement, position⟩
    return conformance.reject

/-- The outcome of some work as a value. -/
def outcome {α : Type} (work : Check α) : Check (Except Halt α) := fun state =>
  match work state with
  | .ok answer state => .ok (.ok answer) state
  | .error halt state => .ok (.error halt) state

/-- Settles the open conformances in order, up to the first one at which the work halts. -/
def verifyAll (ask : Answerer) (product : DeclId) :
    List Conformance → Check (List Conformance × Option Halt)
  | [] => return ([], none)
  | conformance :: conformances => do
    if conformance.state = .realized then
      match ← outcome (verifyConformance ask product conformance) with
      | .error halt => return (conformance :: conformances, some halt)
      | .ok (.error defect left) => return (left :: conformances, some (.defect defect))
      | .ok (.ok _ settled) =>
        let (rest, halt) ← verifyAll ask product conformances
        return (settled :: rest, halt)
    else
      let (rest, halt) ← verifyAll ask product conformances
      return (conformance :: rest, halt)

/-- Settles the conformances of a product; answers whether none failed. While this goes on they are
out of the table. -/
def checkConformances (ask : Answerer) (product : DeclId) : Check Bool := do
  ensureConformances product
  let claimed := (← get).conformances.getD product []
  modify fun state => { state with conformances := state.conformances.erase product }
  let (settled, halt) ← verifyAll ask product claimed
  modify fun state => { state with conformances := state.conformances.insert product settled }
  match halt with
  | some halt => throw halt
  | none => return settled.all fun conformance => conformance.state ≠ .invalid

end TraitLang.Check
