import TraitLang.Diagnostic.Defect
import TraitLang.Types.Ty

/-! The claim that a product conforms to a trait. It is verified once: from the first state it goes
to one of the two others and stays there. -/
namespace TraitLang

structure ConformanceEntry where
  requirement : DeclId
  implementation : DeclId
deriving DecidableEq, Repr

structure Conformance where
  trait : DeclId
  /-- Where the conformance is declared. Refinement implies others, which stand nowhere. -/
  span : Option Span
  entries : List ConformanceEntry
  state : ConformanceState
deriving DecidableEq, Repr

namespace Conformance

def new (trait : DeclId) (span : Option Span) : Conformance :=
  ⟨trait, span, [], .realized⟩

def isImplicit (conformance : Conformance) : Bool := conformance.span.isNone

/-- The trait as a type. -/
def traitType (conformance : Conformance) (tree : Tree) : Ty :=
  .trait conformance.trait ((tree.declName? conformance.trait).getD "")

/-- The functions that the trait requires, in the order declared. -/
def requirements (conformance : Conformance) (tree : Tree) : List DeclId :=
  match tree.decl? conformance.trait with
  | some ⟨.trait decl, _⟩ => decl.members.filter tree.isFunction
  | _ => []

/-- What a change leaves of a conformance, also when it fails. -/
abbrev Outcome := EStateM.Result Defect Conformance Unit

instance : Coe Outcome (Except Defect Conformance) where
  coe
    | .ok _ conformance => .ok conformance
    | .error defect _ => .error defect

/-- Settles a conformance that is still open. -/
def transition (conformance : Conformance) (target : ConformanceState) : Outcome :=
  if conformance.state ≠ .realized then
    .error (.illegalTransition conformance.state target) conformance
  else .ok () { conformance with state := target }

/-- Records that verification succeeded. The entries have to name each requirement exactly once. -/
def accept (conformance : Conformance) (entries : List ConformanceEntry) (tree : Tree) : Outcome :=
  if conformance.state ≠ .realized then
    .error (.illegalTransition conformance.state .checked) conformance
  else if (entries.map ConformanceEntry.requirement).isPerm (conformance.requirements tree) then
    match conformance.transition .checked with
    | .ok _ settled => .ok () { settled with entries }
    | .error defect left => .error defect left
  else .error (.incompleteConformance conformance.trait) conformance

/-- Records that verification failed. -/
def reject (conformance : Conformance) : Outcome := conformance.transition .invalid

/-- The implementation of a requirement, once the conformance is checked. -/
def implementation? (conformance : Conformance) (requirement : DeclId) : Option DeclId :=
  if conformance.state = .checked then
    (conformance.entries.find? fun entry => entry.requirement = requirement).map
      ConformanceEntry.implementation
  else none

end Conformance

end TraitLang
