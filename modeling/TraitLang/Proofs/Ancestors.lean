import TraitLang.Proofs.Packing

/-! Scopes and bindings against the nodes above a node. The chain of scopes need not go along with
the tree: the test of a do/while loop is in the block before it, and a branch that is tested last is
outside of its conditional. All the same chains order the scopes as a tree does, and the function
and the binding around a node are the nearest ones above it. -/
namespace TraitLang

open List TraitLang.Tree Nat

namespace Tree

/-- A strict ancestor of a node. -/
def Above (tree : Tree) : NodeId → NodeId → Prop :=
  Relation.TransGen fun parent child => child ∈ tree.children parent

/-- The nearest ancestor with a declaration of some kind: the other ones are above it. -/
structure Nearest (tree : Tree) (test : DeclKind → Bool) (outer id : NodeId) : Prop where
  declares : tree.Declares test outer
  above : tree.Above outer id
  least : ∀ other, tree.Declares test other → tree.Above other id → other = outer ∨
  tree.Above other outer

lemma above_of_reaches {tree : Tree} {outer id} (h : tree.Reaches outer id) (hne : id ≠ outer) :
    tree.Above outer id :=
  (Relation.reflTransGen_iff_eq_or_transGen.1 h).resolve_left hne

namespace Rooted

variable {tree : Tree} {root : Nat} (h : tree.Rooted root) {outer id : Nat} {test : DeclKind → Bool}
  {around : Surroundings}

include h

lemma above_iff : tree.Above outer id ↔ outer < tree.size ∧ tree.Encloses outer id := by
  constructor
  · intro ha
    induction ha with
    | single hc => exact ⟨(h.child hc).1, h.encloses_child hc⟩
    | tail _ hc ih => exact ⟨ih.1, h.encloses_trans ih.1 ih.2 (h.encloses_child hc)⟩
  · rintro ⟨hlt, he⟩
    exact above_of_reaches (h.descend (P := tree.Reaches outer) (fun _ _ => .tail) .refl he hlt) he.2.ne

/-- Of the nodes above a node the nearest has the lowest number. -/
lemma nearest_iff : tree.Nearest test outer id ↔ tree.Declares test outer ∧ tree.Encloses outer id ∧
    ∀ other, tree.Declares test other → tree.Encloses other id → outer ≤ other := by
  constructor
  · rintro ⟨hd, ha, hleast⟩
    refine ⟨hd, (h.above_iff.1 ha).2, fun other ho he => ?_⟩
    rcases hleast other ho (h.above_iff.2 ⟨ho.lt_size, he⟩) with rfl | ha
    · exact le_rfl
    · exact (h.above_iff.1 ha).2.2.le
  · rintro ⟨hd, he, hleast⟩
    refine ⟨hd, h.above_iff.2 ⟨hd.lt_size, he⟩, fun other ho ha => ?_⟩
    obtain ⟨hlt, hother⟩ := h.above_iff.1 ha
    rcases eq_or_lt_of_le (hleast other ho hother) with rfl | hgt
    · exact .inl rfl
    · exact .inr (h.above_iff.2 ⟨hlt, hother.1.trans he.2.le, hgt⟩)

lemma exists_nearest (hd : tree.Declares test outer) (ha : tree.Above outer id) :
    ∃ nearest, tree.Nearest test nearest id := by
  classical
  have hex : ∃ nearest, tree.Declares test nearest ∧ tree.Encloses nearest id :=
    ⟨outer, hd, (h.above_iff.1 ha).2⟩
  exact ⟨Nat.find hex, h.nearest_iff.2 ⟨(Nat.find_spec hex).1, (Nat.find_spec hex).2,
    fun other ho he =>
    Nat.find_min' hex ⟨ho, he⟩⟩⟩

/-- The binding that is open when a node is visited. -/
lemma binding_of_stands (hs : tree.Stands id around) : around.binding = tree.owner id := by
  induction hs with
  | root hm =>
    obtain rfl := mem_singleton.1 (h.modules_eq ▸ hm)
    refine (owner_eq_none.2 fun other ho he => ?_).symm
    have := (isBinding_iff.1 ho).lt_size
    have := h.size_eq
    have := he.2
    omega
  | @child parent id outer node _ hn hc ih =>
    have hunit : (node.around parent outer id).binding = tree.unit parent := by
      by_cases hb : tree.isBinding parent
      · obtain ⟨⟨kind, _⟩, hd, hk⟩ := isBinding_iff.1 hb
        cases (decl?_eq_some.1 hd).symm.trans hn
        rw [unit_of_binding hb]
        cases kind with
        | binding => rfl
        | _ => cases hk
      · rw [unit_of_not_binding (by simpa using hb), ← ih]
        unfold Node.around
        split
        next => exact absurd (by simp [isBinding, decl?, hn, DeclKind.isBinding]) hb
        all_goals split <;> rfl
    rw [hunit, h.owner_child (by rwa [children_of_node? hn])]

end Rooted

end Tree

namespace Program

/-! ### Bindings -/

/-- The binding around a variable in the tree, and the binding that has it in its pattern. -/
structure Bound (program : Program) (var : DeclId) : Prop where
  bindingOf_eq_some : ∀ binding, program.bindingOf var = some binding ↔
    program.tree.Nearest DeclKind.isBinding binding var
  bindingOf_eq_none : program.bindingOf var = none ↔
    ∀ binding, program.tree.Declares DeclKind.isBinding binding → ¬program.tree.Above binding var
  owningBinding?_eq_some : ∀ binding, program.owningBinding? var = some binding ↔
    ∃ decl span, program.tree.decl? binding = some ⟨.binding decl, span⟩ ∧ var ∈ decl.pattern.vars

namespace Surveyed

variable {program : Program} {root : Nat} (h : program.Surveyed root) {scope outer : Nat}

include h

lemma bindingOf_eq_owner {var} (hv : program.tree.Declares DeclKind.isVar var) :
    program.bindingOf var = program.tree.owner var := by
  cases hb : program.bindingOf var with
  | some binding =>
    obtain ⟨_, hs⟩ := h.stands_of_bindingOf hb
    exact h.rooted.binding_of_stands hs
  | none =>
    obtain ⟨⟨scope, binding⟩, hs⟩ := h.rooted.stands_exists hv.lt_size
    rw [← h.rooted.binding_of_stands hs]
    cases binding with
    | none => rfl
    | some binding => simpa [hb] using h.bindingOf_isSome hv hs

lemma bound {var} (hv : program.tree.Declares DeclKind.isVar var) : program.Bound var where
  bindingOf_eq_some := fun binding => by
    simp only [h.bindingOf_eq_owner hv, owner_eq_some, h.rooted.nearest_iff, isBinding_iff]
  bindingOf_eq_none := by
    rw [h.bindingOf_eq_owner hv, owner_eq_none]
    simp only [isBinding_iff]
    exact forall₂_congr fun binding hb => not_congr (by simp [h.rooted.above_iff, hb.lt_size])
  owningBinding?_eq_some := fun _ => h.owningBinding?_eq_some

end Surveyed

/-- Every variable of a program is found to be bound as the tree has it. -/
theorem exists_ofTree_bound {files name tree} (hread : Tree.ofFiles files name = .ok tree) :
    ∃ program, ofTree tree = .ok program ∧ program.tree = tree ∧ ∀ var,
    tree.Declares DeclKind.isVar var → program.Bound var := by
  obtain ⟨root, hr⟩ := rooted_ofFiles hread
  obtain ⟨program, hprogram, rfl, hs⟩ := exists_ofTree hr
  exact ⟨program, hprogram, rfl, fun _ => hs.bound⟩

/-- Bindings in an initializer and in the cases of a match, and variables of the cases
themselves. -/
def initializing : List SourceFile :=
  [⟨"a", "let x = match (1, 2) { case (let a, 2) { if let b = match a { case let c { c } } { b } else { a } } };"⟩]

theorem exists_ofTree_bound_initializing : ∃ tree, Tree.ofFiles initializing "main" = .ok tree ∧
    ∃ program, ofTree tree = .ok program ∧ program.tree = tree ∧ ∀ var,
    tree.Declares DeclKind.isVar var → program.Bound var := by
  have hread : (Tree.ofFiles initializing "main").isOk := by decide +kernel
  obtain ⟨tree, h⟩ := exists_eq_ok hread
  exact ⟨tree, h, exists_ofTree_bound h⟩

/-! ### Scopes -/

/-- Chains of scopes order the scopes as a tree whose root is the module. The function that they
lead to is the nearest one above a node. -/
structure Nested (program : Program) (module : DeclId) : Prop where
  modules_eq : program.tree.modules = [module]
  nodup : ∀ scope, program.tree.isScope scope → (program.chain scope).Nodup
  last : ∀ scope, program.tree.isScope scope → (program.chain scope).getLast? = some module
  isWithin_refl : ∀ scope, program.tree.isScope scope → program.isWithin scope scope
  isWithin_trans : ∀ inner scope outer, program.tree.isScope inner → program.isWithin inner scope →
    program.isWithin scope outer → program.isWithin inner outer
  isWithin_antisymm : ∀ scope outer, program.tree.isScope scope → program.isWithin scope outer →
    program.isWithin outer scope → scope = outer
  isWithin_total : ∀ inner scope outer, program.tree.isScope inner → program.isWithin inner scope →
    program.isWithin inner outer → program.isWithin scope outer ∨ program.isWithin outer scope
  function : ∀ id function, program.tree.Declares DeclKind.isFunction function →
  program.tree.Above function id → ∃ scope nearest,
    program.scopeOf id = some scope ∧ program.enclosingFunction? scope = some nearest ∧
      program.tree.Nearest DeclKind.isFunction nearest id

namespace Surveyed

variable {program : Program} {root : Nat} (h : program.Surveyed root) {scope outer : Nat}

include h

lemma chain_root : program.chain root = [root] := by
  rw [h.chain_eq le_rfl, h.scopeOf_root]

lemma root_mem_chain (hscope : scope ≤ root) : root ∈ program.chain scope := by
  induction hk : (program.chain scope).length using Nat.strong_induction_on generalizing scope with
  | _ k ih =>
    rcases Nat.eq_or_lt_of_le hscope with rfl | hlt
    · exact h.mem_chain_self le_rfl
    · obtain ⟨next, hs⟩ := Option.isSome_iff_exists.1 (h.scopeOf_isSome hlt)
      rw [h.chain_eq hscope, hs] at hk ⊢
      exact mem_cons_of_mem _ (ih _ (by simp [← hk]) (h.le_root_of_scopeOf hs) rfl)

lemma getLast?_chain (hscope : scope ≤ root) : (program.chain scope).getLast? = some root := by
  obtain ⟨before, hb⟩ := ((h.mem_chain_iff hscope).1 (h.root_mem_chain hscope)).2
  rw [← hb, h.chain_root, getLast?_concat]

lemma nodup_chain (hscope : scope ≤ root) : (program.chain scope).Nodup := by
  refine h.chain_induct (motive := fun scope => (program.chain scope).Nodup)
    (by simp [h.chain_root]) ?_ hscope (h.root_mem_chain hscope)
  intro scope next hs ih
  have hchain : program.chain scope = scope :: program.chain next := by
    rw [h.chain_eq (h.lt_root_of_scopeOf hs).le, hs]
  rw [hchain, nodup_cons]
  refine ⟨fun hm => ?_, ih⟩
  have hle := ((h.mem_chain_iff (h.le_root_of_scopeOf hs)).1 hm).2.length_le
  simp [hchain] at hle

lemma eq_of_mem_chain (hscope : scope ≤ root) (hm : outer ∈ program.chain scope)
    (hback : scope ∈ program.chain outer) : scope = outer := by
  obtain ⟨houter, hsuffix⟩ := (h.mem_chain_iff hscope).1 hm
  have heq := hsuffix.eq_of_length_le ((h.mem_chain_iff houter).1 hback).2.length_le
  rw [h.chain_eq hscope, h.chain_eq houter] at heq
  exact (List.cons.inj heq).1.symm

lemma mem_chain_total {inner} (hinner : inner ≤ root) (hs : scope ∈ program.chain inner)
    (ho : outer ∈ program.chain inner) : outer ∈ program.chain scope ∨
    scope ∈ program.chain outer := by
  obtain ⟨hscope, hs⟩ := (h.mem_chain_iff hinner).1 hs
  obtain ⟨houter, ho⟩ := (h.mem_chain_iff hinner).1 ho
  exact (suffix_or_suffix_of_suffix ho hs).imp (fun hsuffix => (h.mem_chain_iff hscope).2 ⟨houter,
    hsuffix⟩) fun hsuffix => (h.mem_chain_iff houter).2 ⟨hscope, hsuffix⟩

end Surveyed

namespace Descends

variable {base program : Program} {root : Nat} (h : Descends base program)
  (hr : base.tree.Rooted root) {outer id : Nat}

include h hr

/-- With packed values replaced by what they pack, a child is a child or what its parent packs. -/
lemma unpack_child {parent child} (hc : child ∈ program.tree.children parent) :
    program.scopeOf child = base.scopeOf (program.tree.unpack child) ∧ (parent < base.tree.size ∧
      program.tree.unpack child ∈ base.tree.children parent ∨ base.tree.size ≤ parent ∧
        child = program.tree.unpack parent ∧ program.tree.unpack child = child) := by
  have hold {id} (hid : id < base.tree.size) : program.scopeOf id = base.scopeOf (program.tree.unpack id) := by
    rw [h.unpack_of_lt hr hid, h.scopeOf_eq id hid]
  by_cases hp : parent < base.tree.size
  · rcases h.child_cases hr hp hc with hb | ⟨hge, hlt⟩
    · have hid : child < base.tree.size := (hr.child hb).2.1.trans hp
      exact ⟨hold hid, .inl ⟨hp, by rwa [h.unpack_of_lt hr hid]⟩⟩
    · obtain ⟨_, _, _, -, he, hs⟩ := h.added child hge hlt
      obtain ⟨_, hi⟩ := mem_iff_getElem?.1 hc
      rw [unpack_of_packed he]
      exact ⟨hs, .inl ⟨hp, mem_of_getElem? (h.slot_of_packed hr he hi)⟩⟩
  · have hlt : parent < program.tree.size := by
      by_contra hge
      simp [children, node?, Array.getElem?_eq_none (not_lt.1 hge)] at hc
    obtain ⟨witness, _, _, hw, he, -⟩ := h.added parent (not_lt.1 hp) hlt
    rw [children_of_node? (expr?_eq_some.1 he)] at hc
    obtain rfl : child = witness := by simpa [Node.children, ExprKind.children] using hc
    have hid := lt_size (expr?_eq_some.1 hw)
    exact ⟨hold hid, .inr ⟨not_lt.1 hp, (unpack_of_packed he).symm, h.unpack_of_lt hr hid⟩⟩

lemma above_unpack (hlt : outer < base.tree.size) (ha : program.tree.Above outer id) :
    base.tree.Above outer (program.tree.unpack id) := by
  induction ha with
  | single hc =>
    exact .single ((h.unpack_child hr hc).2.resolve_right fun hge => absurd hge.1 (not_le.2 hlt)).2
  | tail _ hc ih =>
    rcases (h.unpack_child hr hc).2 with ⟨hp, hc⟩ | ⟨-, rfl, hu⟩
    · exact (h.unpack_of_lt hr hp ▸ ih).tail hc
    · rwa [hu]

lemma above_of_base (ha : base.tree.Above outer id) : program.tree.Above outer id :=
  Relation.TransGen.closed (fun _ _ hc =>
    above_of_reaches (h.reaches_child hr hc) (hr.child hc).2.1.ne) _ _ ha

/-- The function around a node is the nearest one above it, also in a packed value. -/
lemma exists_nearest_function (hs : base.Surveyed root)
    (hd : program.tree.Declares DeclKind.isFunction outer) (ha : program.tree.Above outer id) :
    ∃ scope nearest, program.scopeOf id = some scope ∧ program.enclosingFunction? scope =
      some nearest ∧ program.tree.Nearest DeclKind.isFunction nearest id := by
  have hfunction {other} : program.tree.Declares DeclKind.isFunction other ↔
      base.tree.Declares DeclKind.isFunction other :=
    h.declares_iff fun _ _ => rfl
  obtain ⟨_, -, hc⟩ := Relation.TransGen.tail'_iff.1 ha
  obtain ⟨hscope, hparent⟩ := h.unpack_child hr hc
  obtain ⟨nearest, hn⟩ :=
    hr.exists_nearest (hfunction.1 hd) (h.above_unpack hr (hfunction.1 hd).lt_size ha)
  obtain ⟨hdeclares, he, hleast⟩ := hr.nearest_iff.1 hn
  have hroot := lt_of_lt_of_le he.2 (Nat.lt_succ_iff.1 (hr.size_eq ▸ hdeclares.lt_size))
  obtain ⟨scope, hplace⟩ := Option.isSome_iff_exists.1 (hs.scopeOf_isSome hroot)
  have habove : program.tree.Above nearest id := by
    rcases hparent with ⟨-, hb⟩ | ⟨-, -, hu⟩
    · rcases hr.encloses_parent hb he with rfl | he
      · exact .single hc
      · exact (h.above_of_base hr (hr.above_iff.2 ⟨hdeclares.lt_size, he⟩)).tail hc
    · exact h.above_of_base hr (hu ▸ hn.above)
  refine ⟨scope, nearest, hscope.trans hplace, ?_, hfunction.2 hdeclares, habove,
    fun other ho hother => ?_⟩
  · rw [h.enclosingFunction?_eq hs (hs.le_root_of_scopeOf hplace)]
    exact hs.enclosingFunction?_eq ⟨hdeclares, he, hleast⟩ hplace
  · exact (hn.least other (hfunction.1 ho)
      (h.above_unpack hr (hfunction.1 ho).lt_size hother)).imp_right (h.above_of_base hr)

omit hr

lemma nested (hs : base.Surveyed root) : program.Nested root := by
  have hsize := hs.rooted.size_eq
  have hchain {scope} (hscope : scope ≤ root) : program.chain scope = base.chain scope :=
    hs.chain_eq_of_agree (fun id hid => h.scopeOf_eq id (by omega)) hscope
  have hold {scope : Nat} (hscope : program.tree.isScope scope) : scope ≤ root := by
    by_contra hgt
    obtain ⟨_, hn, hnode⟩ := Option.any_eq_true _ _ |>.1 hscope
    obtain ⟨_, _, _, -, he, -⟩ := h.added scope (by omega) (lt_size hn)
    cases hn.symm.trans (expr?_eq_some.1 he)
    cases hnode
  have hwithin {scope outer} (hscope : scope ≤ root) : program.isWithin scope outer ↔ outer ∈ base.chain scope := by
    rw [isWithin, hchain hscope, contains_iff_mem]
  have hout {scope outer} (hscope : scope ≤ root) (hw : program.isWithin scope outer) : outer ≤ root :=
    hs.le_root_of_mem_chain hscope ((hwithin hscope).1 hw)
  refine ⟨h.modules_eq.trans hs.rooted.modules_eq, fun scope hscope => ?_, fun scope hscope => ?_,
    fun scope hscope => ?_, fun inner scope outer hinner hi ho => ?_,
    fun scope outer hscope ho hi => ?_, fun inner scope outer hinner hi ho => ?_,
    fun id function hd ha => h.exists_nearest_function hs.rooted hs hd ha⟩
  all_goals first | have hscope := hold hscope | have hinner := hold hinner
  · exact hchain hscope ▸ hs.nodup_chain hscope
  · exact hchain hscope ▸ hs.getLast?_chain hscope
  · exact (hwithin hscope).2 (hs.mem_chain_self hscope)
  · have hscope := hout hinner hi
    rw [hwithin hinner] at hi ⊢
    exact hs.mem_chain_trans hinner hi ((hwithin hscope).1 ho)
  · exact hs.eq_of_mem_chain hscope ((hwithin hscope).1 ho) ((hwithin (hout hscope ho)).1 hi)
  · rw [hwithin (hout hinner hi), hwithin (hout hinner ho)]
    exact hs.mem_chain_total hinner ((hwithin hinner).1 hi) ((hwithin hinner).1 ho)

end Descends

/-- Chains order the scopes of a program, before it is checked and after that. -/
theorem exists_nested {files name tree}
    (hread : Tree.ofFiles files name = .ok tree) (settings : Settings) :
    ∃ program good s module, Check.Checked files name settings program good s ∧
    program.Nested module ∧ s.program.Nested module := by
  obtain ⟨program, root, hprogram, hs⟩ := Check.exists_surveyed hread
  obtain ⟨good, s, hrun, -⟩ := Check.ensures_checkProgram settings hs
  have hchecked : Check.Checked files name settings program good s :=
    ⟨⟨tree, hread, hprogram⟩, hrun⟩
  exact ⟨program, good, s, root, hchecked, (Descends.refl program).nested hs,
    hchecked.inv.descends.nested hs⟩

theorem exists_nested_branching : ∃ tree, Tree.ofFiles branching "main" = .ok tree ∧
    ∃ program good s module, Check.Checked branching "main"
    {} program good s ∧ program.Nested module ∧ s.program.Nested module := by
  have hread : (Tree.ofFiles branching "main").isOk := by decide +kernel
  obtain ⟨tree, h⟩ := exists_eq_ok hread
  exact ⟨tree, h, exists_nested h {}⟩

end Program

end TraitLang
