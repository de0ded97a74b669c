import TraitLang.Proofs.Evolution
import TraitLang.Proofs.Refinement

/-! What members and assignments refer to. A member of a product is the first declaration of its
name in the product, and a member of any other value is what one of its traits requires. -/
namespace TraitLang

open Solver Check

/-- Traits that a type mentions stay when more becomes known about it. -/
lemma Ty.mem_traitDecls_resolveBy (bindings : List (Nat × Ty)) {trait} :
    ∀ {type}, trait ∈ type.traitDecls → trait ∈ (resolveBy bindings type).traitDecls
  | .trait decl name, h => by rwa [resolveBy_leaf _ rfl (by simp)]
  | .existential types, h => by
    rw [resolveBy_existential]
    simp only [traitDecls, traitDeclsAll_eq, List.mem_flatMap, List.mem_map, exists_exists_and_eq_and] at h ⊢
    obtain ⟨type, hm, ht⟩ := h
    exact ⟨type, hm, mem_traitDecls_resolveBy bindings ht⟩

/-- Expressions that refer to something besides their parts. -/
def ExprKind.refers : ExprKind → Bool
  | .name _ | .member _ _ | .assign _ _ => true
  | _ => false

/-! ### What can be assigned to -/

namespace Program

/-- A variable is introduced by a `var`. -/
def IntroducedByVar (program : Program) (var : DeclId) : Prop :=
  ∃ binding decl span, program.tree.decl? binding = some ⟨.binding decl, span⟩ ∧
    var ∈ decl.pattern.vars ∧ decl.introducer = .variable

lemma Surveyed.isAssignable_iff {program root} (hs : program.Surveyed root) {var} :
    isAssignable program var ↔ program.IntroducedByVar var := by
  constructor
  · intro h
    unfold isAssignable at h
    split at h
    next name place decl span hvar hbinding =>
      obtain ⟨binding, howner, hdecl⟩ := Option.bind_eq_some_iff.1 hbinding
      obtain ⟨_, _, hother, hmem⟩ := hs.owningBinding?_eq_some.1 howner
      cases hdecl.symm.trans hother
      exact ⟨binding, decl, span, hdecl, hmem, of_decide_eq_true h⟩
    next => cases h
  · rintro ⟨binding, decl, span, hdecl, hmem, hvariable⟩
    obtain ⟨⟨kind, _⟩, hvar, hkind⟩ := (hs.rooted.below (Tree.decl?_eq_some.1 hdecl)).1.1.1 var hmem
    have howner := hs.owningBinding?_eq_some.2 ⟨decl, span, hdecl, hmem⟩
    cases kind with
    | var name => simp [isAssignable, hvar, howner, hdecl, hvariable]
    | _ => cases hkind

lemma Descends.isAssignable_eq {base program} (h : Descends base program) (id : DeclId) :
    isAssignable program id = isAssignable base id := by
  unfold isAssignable
  rw [h.owningBinding?_eq]
  cases base.owningBinding? id with
  | none => exact h.decl?_induct id (fun _ => rfl) fun _ _ _ => rfl
  | some binding =>
    rw [Option.bind_some, Option.bind_some]
    refine h.decl?_induct id (fun found => ?_) fun _ _ _ => rfl
    rcases found with _ | ⟨⟨⟩, _⟩
    case some.var => exact h.decl?_induct binding (fun _ => rfl) fun _ _ _ => rfl
    all_goals rfl

/-- An expression on the left of an assignment: a member, or a name that stands for no other
declaration than a variable that a `var` introduces. -/
inductive Assignable (program : Program) (id : ExprId) : Prop
  | name {name : String} {span : Span} : program.tree.expr? id = some ⟨.name name, span⟩ → (∀ found,
    program.valueNamed id name = some found → program.IntroducedByVar found) → Assignable program id
  | member {value : ExprId} {name : String} {span : Span} :
    program.tree.expr? id = some ⟨.member value name, span⟩ → Assignable program id

/-! ### What members stand for -/

/-- What a name stands for in one member of a product: the function itself, or a property that is
bound. -/
def memberIn? (program : Program) (name : String) (member : DeclId) : Option DeclId :=
  match program.tree.decl? member with
  | some ⟨.function function, _⟩ => if function.name = name then some member else none
  | some ⟨.binding binding, _⟩ => propertyNamed? program.tree binding name
  | _ => none

end Program

namespace Check

/-- A trait bounds a generic parameter, by the where clause of a function. -/
def State.Bounds (s : State) (param trait : DeclId) : Prop :=
  ∃ (function : DeclId) (generics : Generics), s.generics[function]? = some (some generics) ∧
    trait ∈ Ty.traitDeclsAll (generics.bounds param)

/-- A value of a type has the requirements of a trait for its members. -/
def State.Offers (s : State) (type : Ty) (trait : DeclId) : Prop :=
  trait ∈ type.traitDecls ∨ ∃ param name, type = .param param name ∧ s.Bounds param trait

/-- What a member of a value of a type stands for. -/
inductive State.Member (base : Program) (s : State) (name : String) : Ty → DeclId → Prop
  | product {product found : DeclId} {productName : String} :
    (productMembers base.tree product).findSome? (base.memberIn? name) = some found →
    Member base s name (.product product productName) found
  | requirement {type : Ty} {start trait found : DeclId} : s.Offers type start →
    base.Leads start trait → base.Requires trait name found → Member base s name type found

/-! ### What expressions refer to -/

/-- What an expression refers to is there. -/
structure Meant (base : Program) (s : State) (id : Nat) : Prop where
  timely : ∀ var, ¬base.EarlyUse id var
  name : ∀ {name : String} {span : Span}, base.tree.expr? id = some ⟨.name name, span⟩ →
    ∃ found, base.valueNamed id name = some found
  member : ∀ {value : ExprId} {name : String} {span : Span},
  base.tree.expr? id = some ⟨.member value name, span⟩ →
    ∃ type found, s.exprType? value = some type ∧ s.Member base name type found
  assign : ∀ {assignee value : ExprId} {span : Span},
  base.tree.expr? id = some ⟨.assign assignee value, span⟩ → base.Assignable assignee

variable {base : Program} {s s' : State} {id : Nat}

section

variable (hgenerics : s.generics.Grows s'.generics)

include hgenerics

lemma State.Offers.refine {type trait} (bindings : List (Nat × Ty)) (h : s.Offers type trait) :
    s'.Offers (resolveBy bindings type) trait := by
  rcases h with h | ⟨param, name, rfl, function, generics, hknown, hbound⟩
  · exact .inl (Ty.mem_traitDecls_resolveBy bindings h)
  · rw [resolveBy_leaf _ rfl (by simp)]
    exact .inr ⟨param, name, rfl, function, generics, hgenerics hknown, hbound⟩

lemma State.Member.refine {name type found} (bindings : List (Nat × Ty))
    (h : s.Member base name type found) : s'.Member base name (resolveBy bindings type) found := by
  cases h with
  | product hfound =>
    rw [resolveBy_leaf _ rfl (by simp)]
    exact .product hfound
  | requirement hoffers hleads hrequires => exact .requirement (hoffers.refine hgenerics bindings) hleads hrequires

lemma Meant.refine (bindings : List (Nat × Ty)) (h : Meant base s id)
    (hexpr : ∀ child ∈ base.tree.children id, ∀ type, s.exprType? child = some type →
      s'.exprType? child = some (resolveBy bindings type)) : Meant base s' id := by
  refine ⟨h.timely, h.name, fun {value name span} he => ?_, h.assign⟩
  obtain ⟨type, found, htype, hmember⟩ := h.member he
  have hvalue : value ∈ base.tree.children id := by
    simp [Tree.children_of_node? (Tree.expr?_eq_some.1 he), Node.children, ExprKind.children]
  exact ⟨_, found, hexpr value hvalue type htype, hmember.refine hgenerics bindings⟩

omit hgenerics in
lemma Meant.congr (h : Meant base s id) (hgenerics : s'.generics = s.generics)
    (hexpr : s'.exprType? = s.exprType?) : Meant base s' id :=
  h.refine (fun hknown => by rwa [hgenerics]) [] fun child _ type ht => by rwa [hexpr]

end

section

variable {kind : ExprKind} {span : Span}

/-- Only expressions refer to anything. -/
lemma Meant.other {node} (hn : base.tree.node? id = some node) (hnot : ∀ expr, node ≠ .expr expr) :
    Meant base s id := by
  have hnone (expr : Expr) : base.tree.expr? id ≠ some expr := fun he =>
    hnot expr (Option.some.inj (hn.symm.trans (Tree.expr?_eq_some.1 he)))
  exact ⟨fun var ⟨_, _, he, _⟩ => hnone _ he, fun he => absurd he (hnone _),
    fun he => absurd he (hnone _), fun he => absurd he (hnone _)⟩

lemma not_earlyUse (he : base.tree.expr? id = some ⟨kind, span⟩) (hk : ∀ name, kind ≠ .name name)
    (var : Nat) : ¬base.EarlyUse id var := by
  rintro ⟨name, other, hname, -⟩
  cases he.symm.trans hname
  exact hk name rfl

/-- Most expressions refer to nothing by themselves. -/
lemma Meant.plain (he : base.tree.expr? id = some ⟨kind, span⟩) (hk : kind.refers = false) : Meant base s id := by
  refine ⟨not_earlyUse he ?_, fun he' => ?_, fun he' => ?_, fun he' => ?_⟩
  · rintro name rfl
    cases hk
  all_goals
    cases he.symm.trans he'
    cases hk

variable {name : String}

lemma Meant.ofName (he : base.tree.expr? id = some ⟨.name name, span⟩) (htimely : ∀ var, ¬base.EarlyUse id var)
    (hfound : ∃ found, base.valueNamed id name = some found) : Meant base s id := by
  refine ⟨htimely, fun he' => ?_, fun he' => ?_, fun he' => ?_⟩ <;> cases he.symm.trans he'
  exact hfound

lemma Meant.ofMember {value type found} (he : base.tree.expr? id = some ⟨.member value name, span⟩)
    (htype : s.exprType? value = some type) (hmember : s.Member base name type found) : Meant base s id := by
  refine ⟨not_earlyUse he (by simp), fun he' => ?_, fun he' => ?_, fun he' => ?_⟩ <;> cases he.symm.trans he'
  exact ⟨type, found, htype, hmember⟩

lemma Meant.ofAssign {assignee value} (he : base.tree.expr? id = some ⟨.assign assignee value, span⟩)
    (hassignee : base.Assignable assignee) : Meant base s id := by
  refine ⟨not_earlyUse he (by simp), fun he' => ?_, fun he' => ?_, fun he' => ?_⟩ <;> cases he.symm.trans he'
  exact hassignee

end

end Check

end TraitLang
