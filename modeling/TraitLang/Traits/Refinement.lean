import TraitLang.Types.Conformance

/-! Traits by name, and the traits that a trait refines, directly or through others. Refinement may
be cyclic: both searches go through each trait once. -/
namespace TraitLang.Program

/-- The trait that a name stands for in a scope. -/
def trait? (program : Program) (name : String) (scope : ScopeId) : Option DeclId :=
  (program.find name scope).getLast?.filter fun decl =>
    match program.tree.decl? decl with
    | some ⟨.trait _, _⟩ => true
    | _ => false

/-- The scope that a node stands in. -/
def enclosingScope (program : Program) (id : NodeId) : Except Halt ScopeId :=
  match program.scopeOf id with
  | some scope => .ok scope
  | none => .error (.defect (.orphanNode id))

/-- The traits that a trait refines directly, in the order written; unknown names are passed
over. -/
def refined (program : Program) (trait : DeclId) : Except Halt (List DeclId) :=
  match program.tree.decl? trait with
  | none => .error (.missing trait)
  | some ⟨.trait decl, _⟩ => do
    let scope ← program.enclosingScope trait
    program.demandFrom scope
    return decl.refinements.filterMap fun refinement => program.trait? refinement.name scope
  | some _ => .ok []

/-! ### Conformances implied by refinement -/

/-- Adds the traits that are not claimed yet as implicit conformances, and lists them. -/
def addImplied (claimed : List Conformance) : List DeclId → List Conformance × List DeclId
  | [] => (claimed, [])
  | trait :: traits =>
    if claimed.any fun conformance => conformance.trait = trait then addImplied claimed traits
    else
      let (claimed, added) := addImplied (claimed ++ [.new trait none]) traits
      (claimed, trait :: added)

/-- Closes a list of conformances under refinement. The traits to look at are a stack. -/
def impliedWithin (program : Program) :
    (bound : Nat) → (pending : List DeclId) → List Conformance → Except Halt (List Conformance)
  | _, [], claimed => .ok claimed
  | 0, _, _ => .error .exhausted
  | bound + 1, trait :: pending, claimed => do
    let (claimed, added) := addImplied claimed (← program.refined trait)
    impliedWithin program bound (added.reverse ++ pending) claimed

/-- The declared conformances and those that follow from them. Each step takes one trait off the
stack, and none comes back. -/
def implied (program : Program) (declared : List Conformance) : Except Halt (List Conformance) :=
  let traits := declared.map Conformance.trait
  program.impliedWithin (program.tree.size + traits.length) traits.reverse declared

/-! ### Requirements by name -/

/-- The function of a given name among some members. -/
def memberNamed? (program : Program) (members : List DeclId) (name : String) : Option DeclId :=
  members.find? fun decl => program.tree.declName? decl = some name

def requirementWithin (program : Program) (name : String) :
    (bound : Nat) → (pending seen : List DeclId) → Except Halt (Option DeclId)
  | _, [], _ => .ok none
  | 0, _, _ => .error .exhausted
  | bound + 1, trait :: pending, seen =>
    if seen.contains trait then requirementWithin program name bound pending seen
    else
      match program.tree.decl? trait with
      | none => .error (.missing trait)
      | some ⟨.trait decl, _⟩ => do
        program.demand decl.members
        match program.memberNamed? decl.members name with
        | some requirement => return some requirement
        | none =>
          let bases ← program.refined trait
          requirementWithin program name bound (bases.reverse ++ pending) (trait :: seen)
      | some _ => requirementWithin program name bound pending (trait :: seen)

/-- The number of refinements that the traits of a tree name. -/
def refinementCount (program : Program) : Nat :=
  program.tree.nodes.toList.foldr (fun node count => named node + count) 0
where
  named : Node → Nat
    | .decl ⟨.trait decl, _⟩ => decl.refinements.length
    | _ => 0

/-- A requirement of a name in some traits or the traits that they refine. Each trait is looked into
once, so no more traits come up than are named. -/
def requirement? (program : Program) (traits : List DeclId) (name : String) :
    Except Halt (Option DeclId) :=
  program.requirementWithin name (traits.length + program.refinementCount) traits.reverse []

end TraitLang.Program
