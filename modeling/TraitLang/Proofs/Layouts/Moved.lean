import TraitLang.Proofs.Layouts.Scopes

/-! Programs at other places. What names, traits and generic parameters stand for does not depend on
where nodes stand, with one exception: variables in statements are seen only after the binding that
introduces them. -/
namespace TraitLang

open Program Conformance List

namespace Relabeling

def conformance (r : Relabeling) (conformance : Conformance) : Conformance :=
  { conformance with span := conformance.span.map r.span }

variable (start stop : Position → Position)

/-! ### Declarations -/

variable (tree : Tree)

@[simp]
lemma declName?_moved (id : DeclId) : ((move start stop).tree tree).declName? id = tree.declName? id := by
  unfold Tree.declName?
  rw [decl?_tree]
  rcases tree.decl? id with _ | ⟨kind, _⟩
  · rfl
  · cases kind <;> rfl

@[simp]
lemma isFunction_moved (id : DeclId) : ((move start stop).tree tree).isFunction id = tree.isFunction id := by
  unfold Tree.isFunction
  rw [decl?_tree]
  rcases tree.decl? id with _ | ⟨kind, _⟩
  · rfl
  · cases kind <;> rfl

@[simp]
lemma asDecl?_moved (id : NodeId) : ((move start stop).tree tree).asDecl? id = tree.asDecl? id := by
  simp only [Tree.asDecl?, decl?_tree, Option.map_map]
  rfl

lemma span?_tree (r : Relabeling) (tree : Tree) (id : NodeId) :
    (r.tree tree).span? id = (tree.span? id).map r.span := by
  simp only [Tree.span?, node?_tree, Option.map_map]
  congr 1
  funext node
  cases node <;> rfl

lemma productMembers_moved (product : DeclId) : Check.productMembers ((move start stop).tree tree)
    product = Check.productMembers tree product := by
  unfold Check.productMembers
  rw [decl?_tree]
  rcases tree.decl? product with _ | ⟨kind, _⟩
  · rfl
  · cases kind with
    | product decl => exact map_id_move start stop decl.members
    | _ => rfl

lemma propertyVars_moved (members : List DeclId) :
    Check.propertyVars ((move start stop).tree tree) members = Check.propertyVars tree members := by
  unfold Check.propertyVars
  congr 1
  funext member
  rw [decl?_tree]
  rcases tree.decl? member with _ | ⟨kind, _⟩
  · rfl
  · cases kind with
    | binding decl => exact congrArg Pattern.vars (pattern_move start stop decl.pattern)
    | _ => rfl

lemma requirements_moved (c : Conformance) : ((move start stop).conformance c).requirements
    ((move start stop).tree tree) = c.requirements tree := by
  have hfunctions : ((move start stop).tree tree).isFunction = tree.isFunction :=
    funext (isFunction_moved start stop tree)
  have htrait : ((move start stop).conformance c).trait = c.trait := rfl
  unfold requirements
  rw [htrait, decl?_tree, hfunctions]
  rcases tree.decl? c.trait with _ | ⟨kind, _⟩
  · rfl
  · cases kind with
    | trait decl => exact congrArg (List.filter tree.isFunction) (map_id_move start stop decl.members)
    | _ => rfl

/-! ### Programs -/

variable (p : Program)

@[simp]
lemma tree_program (r : Relabeling) : (r.program p).tree = r.tree p.tree := rfl

@[simp]
lemma declName_moved (id : DeclId) : ((move start stop).program p).declName id = p.declName id := by
  simp [declName]

lemma chainWithin_program (r : Relabeling) (length : Nat) : ∀ scope : ScopeId,
    (r.program p).chainWithin length scope = p.chainWithin length scope := by
  induction length with
  | zero => exact fun _ => rfl
  | succ length ih =>
    intro scope
    simp only [chainWithin, ih]
    rfl

@[simp]
lemma chain_program (r : Relabeling) (scope : ScopeId) : (r.program p).chain scope = p.chain scope :=
  chainWithin_program p r _ scope

@[simp]
lemma enclosingFunction?_moved (scope : ScopeId) :
    ((move start stop).program p).enclosingFunction? scope = p.enclosingFunction? scope := by
  have hfunctions : ((move start stop).tree p.tree).isFunction = p.tree.isFunction :=
    funext (isFunction_moved start stop p.tree)
  unfold enclosingFunction?
  rw [chain_program, tree_program, hfunctions]

variable (name : String)

@[simp]
lemma findWhere_moved (scope : ScopeId) (visible : ScopeId → DeclId → Bool) :
    ((move start stop).program p).findWhere name scope visible = p.findWhere name scope visible := by
  simp only [findWhere, chain_program, tree_program, declName?_moved]
  rfl

@[simp]
lemma trait?_moved (scope : ScopeId) : ((move start stop).program p).trait? name scope = p.trait? name scope := by
  unfold trait? find
  rw [findWhere_moved]
  congr 1
  funext id
  rw [tree_program, decl?_tree]
  rcases p.tree.decl? id with _ | ⟨kind, _⟩
  · rfl
  · cases kind <;> rfl

lemma declaredType?_moved (scope : ScopeId) : Check.declaredType? ((move start stop).program p)
    name scope = Check.declaredType? p name scope := by
  unfold Check.declaredType? find
  rw [findWhere_moved]
  congr 1
  funext id
  rw [tree_program, decl?_tree]
  rcases p.tree.decl? id with _ | ⟨kind, _⟩
  · rfl
  · cases kind <;> rfl

@[simp]
lemma owningBinding?_moved (var : DeclId) :
    ((move start stop).program p).owningBinding? var = p.owningBinding? var := by
  unfold owningBinding?
  congr 1
  funext id
  rw [tree_program, decl?_tree]
  rcases p.tree.decl? id with _ | ⟨kind, _⟩
  · rfl
  · cases kind with
    | binding decl => exact congrArg (Pattern.introduces · var) (pattern_move start stop decl.pattern)
    | _ => rfl

lemma isAssignable_moved (id : DeclId) :
    Check.isAssignable ((move start stop).program p) id = Check.isAssignable p id := by
  unfold Check.isAssignable
  rw [owningBinding?_moved, tree_program, decl?_tree]
  have hbinder : (p.owningBinding? id).bind ((move start stop).tree p.tree).decl? =
      ((p.owningBinding? id).bind p.tree.decl?).map fun decl =>
      ⟨(move start stop).declKind decl.kind, (move start stop).span decl.span⟩ := by
    cases p.owningBinding? id with
    | none => rfl
    | some binding => exact decl?_tree _ _ _
  rw [hbinder]
  rcases p.tree.decl? id with _ | ⟨kind, span⟩
  · rfl
  · cases kind with
    | var name =>
      rcases (p.owningBinding? id).bind p.tree.decl? with _ | ⟨kind, _⟩
      · rfl
      · cases kind <;> rfl
    | _ => rfl

/-! ### Traits -/

lemma demand_program (r : Relabeling) (ids : List DeclId) : (r.program p).demand ids = p.demand ids := by
  have hnone (id : DeclId) : ((r.program p).tree.decl? id).isNone = (p.tree.decl? id).isNone := by
    rw [tree_program, decl?_tree, Option.isNone_map]
  simp only [demand, hnone]

lemma demandFrom_program (r : Relabeling) (scope : ScopeId) :
    (r.program p).demandFrom scope = p.demandFrom scope := by
  simp only [demandFrom, chain_program, demand_program]
  rfl

lemma refined_moved (trait : DeclId) : ((move start stop).program p).refined trait = p.refined trait := by
  unfold refined
  rw [tree_program, decl?_tree]
  rcases p.tree.decl? trait with _ | ⟨kind, _⟩
  · rfl
  · cases kind with
    | trait decl =>
      have hnames (scope : ScopeId) : ((decl.refinements.map (move start stop).traitName).filterMap fun refinement =>
          ((move start stop).program p).trait? refinement.name scope) =
            decl.refinements.filterMap fun refinement => p.trait? refinement.name scope := by
        rw [filterMap_map]
        congr 1
        funext refinement
        exact trait?_moved start stop p refinement.name scope
      refine bind_congr fun scope => ?_
      rw [demandFrom_program]
      exact bind_congr fun _ => congrArg Except.ok (hnames scope)
    | _ => rfl

lemma refinementCount_moved : ((move start stop).program p).refinementCount = p.refinementCount := by
  unfold refinementCount
  simp only [tree_program, Relabeling.tree, Array.toList_map, foldr_map]
  congr 1
  funext node count
  cases node with
  | decl decl =>
    obtain ⟨kind, _⟩ := decl
    cases kind with
    | trait decl => exact congrArg (· + count) (length_map _)
    | _ => rfl
  | _ => rfl

lemma requirementWithin_moved (bound : Nat) : ∀ pending seen : List DeclId,
    ((move start stop).program p).requirementWithin name bound pending seen =
    p.requirementWithin name bound pending seen := by
  induction bound with
  | zero =>
    intro pending seen
    cases pending <;> rfl
  | succ bound ih =>
    intro pending seen
    cases pending with
    | nil => rfl
    | cons trait pending =>
      simp only [requirementWithin, ih, refined_moved, tree_program, decl?_tree]
      rcases p.tree.decl? trait with _ | ⟨kind, _⟩
      · rfl
      · cases kind with
        | trait decl =>
          simp only [Option.map_some, declKind, map_id_move, demand_program, memberNamed?,
            tree_program, declName?_moved]
        | _ => rfl

lemma requirement?_moved (traits : List DeclId) (name : String) :
    ((move start stop).program p).requirement? traits name = p.requirement? traits name := by
  unfold requirement?
  rw [refinementCount_moved, requirementWithin_moved]

section

variable (r : Relabeling)

lemma any_conformances (claimed : List Conformance) (trait : DeclId) :
    ((claimed.map r.conformance).any fun c => c.trait = trait) = claimed.any fun c => c.trait = trait := by
  rw [any_map]
  rfl

lemma addImplied_conformances (traits : List DeclId) : ∀ claimed, addImplied (claimed.map r.conformance) traits =
      ((addImplied claimed traits).1.map r.conformance, (addImplied claimed traits).2) := by
  induction traits with
  | nil => exact fun _ => rfl
  | cons trait traits ih =>
    intro claimed
    have hnew : (claimed ++ [new trait none]).map r.conformance = claimed.map r.conformance ++ [.new trait none] :=
      map_append
    unfold addImplied
    rw [any_conformances]
    split
    · exact ih claimed
    · rw [← hnew, ih]

end

lemma impliedWithin_moved (bound : Nat) : ∀ (pending : List DeclId) claimed,
    ((move start stop).program p).impliedWithin bound pending (claimed.map (move start stop).conformance) =
      (p.impliedWithin bound pending claimed).map (List.map (move start stop).conformance) := by
  induction bound with
  | zero =>
    intro pending claimed
    cases pending <;> rfl
  | succ bound ih =>
    intro pending claimed
    cases pending with
    | nil => rfl
    | cons trait pending =>
      simp only [impliedWithin, refined_moved]
      cases p.refined trait with
      | error halt => rfl
      | ok traits =>
        show impliedWithin _ bound ((addImplied (claimed.map _) traits).2.reverse ++ pending)
          (addImplied (claimed.map _) traits).1 = (p.impliedWithin bound
            ((addImplied claimed traits).2.reverse ++ pending) (addImplied claimed traits).1).map _
        rw [addImplied_conformances]
        exact ih _ _

lemma implied_moved (declared : List Conformance) :
    ((move start stop).program p).implied (declared.map (move start stop).conformance) =
      (p.implied declared).map (List.map (move start stop).conformance) := by
  have htraits : (declared.map (move start stop).conformance).map trait = declared.map trait := by
    rw [map_map]
    rfl
  unfold implied
  rw [htraits, tree_program, size_tree]
  exact impliedWithin_moved start stop p _ _ declared

/-! ### Settled conformances -/

def outcome (r : Relabeling) : Outcome → Outcome
  | .ok answer settled => .ok answer (r.conformance settled)
  | .error defect left => .error defect (r.conformance left)

lemma transition_conformance (r : Relabeling) (c : Conformance) (target : ConformanceState) :
    (r.conformance c).transition target = r.outcome (c.transition target) := by
  unfold transition
  show (if c.state ≠ .realized then _ else _) = _
  split <;> rfl

lemma accept_moved (c : Conformance) (entries : List ConformanceEntry) (tree : Tree) :
    ((move start stop).conformance c).accept entries ((move start stop).tree tree) =
      (move start stop).outcome (c.accept entries tree) := by
  unfold accept
  rw [requirements_moved, transition_conformance]
  show (if c.state ≠ .realized then _ else _) = _
  split
  · rfl
  · split
    · cases c.transition .checked <;> rfl
    · rfl

lemma supportFor_conformances (r : Relabeling) (cs : List Conformance)
    (traits : List DeclId) : ∀ support, Check.supportFor (cs.map r.conformance)
    support traits = Check.supportFor cs support traits := by
  induction traits with
  | nil => exact fun _ => rfl
  | cons trait traits ih =>
    intro support
    have hfind : ((cs.map r.conformance).find? fun c => c.trait = trait).map state =
        (cs.find? fun c => c.trait = trait).map state := by
      rw [find?_map, Option.map_map]
      rfl
    simp only [Check.supportFor, hfind, ih]

/-! ### Generic functions -/

lemma addBounds_moved (param : DeclId) (names : List TraitName) : ∀ generics, Check.addBounds
    ((move start stop).program p) param generics (names.map (move start stop).traitName) =
      Check.addBounds p param generics names := by
  induction names with
  | nil => exact fun _ => rfl
  | cons name names ih =>
    intro generics
    simp only [map_cons, Check.addBounds, trait?_moved, ih]
    rfl

lemma instantiate_program (r : Relabeling) (generics : Generics) (type : Ty)
    (useSite : ScopeId) (solver : Solver) : generics.instantiate (r.program p)
    type useSite solver = generics.instantiate p type useSite solver := by
  simp only [Generics.instantiate, isWithin, chain_program]

end Relabeling

end TraitLang
