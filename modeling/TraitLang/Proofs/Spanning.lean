import Mathlib.Data.List.Perm.Subperm
import TraitLang.Proofs.Shape
import TraitLang.Scope.Visitor

/-! Where nodes stand in a forest. The surroundings of a node follow from those of its parent, so
when the nodes below the modules of a tree have one parent each, they have exactly one scope and at
most one innermost binding. -/
namespace TraitLang

/-! ### Surroundings -/

/-- The innermost scope and the innermost binding around a node. -/
structure Surroundings where
  scope : Option ScopeId
  binding : Option DeclId
deriving DecidableEq, Repr

/-- What surrounds a child of a node. -/
def Node.around (id : NodeId) (outer : Surroundings) (child : NodeId) : Node → Surroundings
  | .decl ⟨.binding _, _⟩ => ⟨outer.scope, some id⟩
  | .stmt ⟨.cond _ _ failure, _⟩ => if failure = some child then outer else ⟨some id, outer.binding⟩
  | .expr ⟨.cond _ _ failure, _⟩ => if failure = child then outer else ⟨some id, outer.binding⟩
  | .stmt ⟨.doWhile body _, _⟩ => if body = child then outer else ⟨some body, outer.binding⟩
  | node => if node.isScope then ⟨some id, outer.binding⟩ else outer

/-- A child has the scope of its parent, or is in the scope that the parent opens, or is tested
after the block of a loop and in its scope. -/
lemma Node.scope_around (id : NodeId) (outer : Surroundings) (child : NodeId) (node : Node) :
    (node.around id outer child).scope = outer.scope ∨
      (node.isScope ∧ (node.around id outer child).scope = some id) ∨
      ∃ body condition span, node = .stmt ⟨.doWhile body condition, span⟩ ∧ body ≠ child ∧
        (node.around id outer child).scope = some body := by
  unfold Node.around
  split
  · exact .inl rfl
  · split
    · exact .inl rfl
    · exact .inr (.inl ⟨rfl, rfl⟩)
  · split
    · exact .inl rfl
    · exact .inr (.inl ⟨rfl, rfl⟩)
  · grind
  · grind

/-- The children of a module are in it. -/
lemma Node.scope_around_of_isModule {id outer child} {node : Node}
    (h : node.isModule) : (node.around id outer child).scope = some id := by
  match node, h with
  | .decl ⟨.module _ _, _⟩, _ => rfl

namespace Tree

/-- A node stands in some surroundings. -/
inductive Stands (tree : Tree) : Nat → Surroundings → Prop
  | root {id : Nat} : id ∈ tree.modules → Stands tree id ⟨none, none⟩
  | child {id child : Nat} {outer : Surroundings} {node : Node} : Stands tree id outer →
    tree.node? id = some node → child ∈ node.children → Stands tree child (node.around id outer child)

/-! ### Forests -/

/-- A node is a module of the tree or below one. -/
def Attached (tree : Tree) (id : Nat) : Prop := ∃ root ∈ tree.modules, tree.Reaches root id

/-- A node is below a module of the tree. -/
def Nested (tree : Tree) (id : Nat) : Prop :=
  ∃ parent, tree.Attached parent ∧ id ∈ tree.children parent

/-- The modules of a tree span a forest: whatever is below them is there, and once. -/
structure Spanned (tree : Tree) : Prop where
  exists_node : ∀ {id : Nat}, tree.Attached id → ∃ node, tree.node? id = some node
  nodup_children : ∀ {id : Nat}, tree.Attached id → (tree.children id).Nodup
  parent_unique : ∀ {id p q : Nat}, tree.Attached p → tree.Attached q → id ∈ tree.children p →
    id ∈ tree.children q → p = q

/-- The modules of a tree are modules, all else is not, and do/while loops repeat blocks. -/
structure Placeable (tree : Tree) : Prop where
  roots : ∀ root ∈ tree.modules, tree.isModule root
  nested : ∀ id, tree.Nested id → tree.isModule id = false
  loops : ∀ id body condition span, tree.Attached id → tree.stmt? id = some ⟨.doWhile body condition, span⟩ →
    ∃ members place, tree.stmt? body = some ⟨.block members, place⟩

/-- What is wrong with a tree that is not so. -/
inductive Fault (tree : Tree) : Defect → Prop
  | orphan {id : Nat} : id ∈ tree.modules → tree.isModule id = false → Fault tree (.orphanNode id)
  | nested {id : Nat} : tree.Nested id → tree.isModule id → Fault tree (.nestedModule id)
  | loop {id body condition : Nat} {span : Span} : tree.Attached id →
    tree.stmt? id = some ⟨.doWhile body condition, span⟩ →
    (∀ members place, tree.stmt? body ≠ some ⟨.block members, place⟩) →
    Fault tree (.malformedTree id "do/while body is not a brace statement")

variable {tree : Tree}

lemma Fault.not_placeable {defect} (h : tree.Fault defect) : ¬tree.Placeable := by
  intro hp
  cases h with
  | orphan hm hnot => simp [hp.roots _ hm] at hnot
  | nested hn hm => simp [hp.nested _ hn] at hm
  | loop ha hl hnot =>
    obtain ⟨members, place, hb⟩ := hp.loops _ _ _ _ ha hl
    exact hnot members place hb

variable {id : Nat}

lemma isModule_of_node? {node} (hn : tree.node? id = some node) : tree.isModule id = node.isModule := by
  simp [isModule, hn]

lemma Attached.root (h : id ∈ tree.modules) : tree.Attached id := ⟨id, h, .refl⟩

lemma Attached.child {id child} (h : tree.Attached id) (hc : child ∈ tree.children id) : tree.Attached child := by
  obtain ⟨root, hroot, hr⟩ := h
  exact ⟨root, hroot, hr.tail hc⟩

lemma Nested.attached (h : tree.Nested id) : tree.Attached id := by
  obtain ⟨_, hp, hc⟩ := h
  exact hp.child hc

lemma Attached.root_or_nested (h : tree.Attached id) : id ∈ tree.modules ∨ tree.Nested id := by
  obtain ⟨root, hroot, hr⟩ := h
  rcases hr.cases_tail with rfl | ⟨parent, hp, hc⟩
  · exact .inl hroot
  · exact .inr ⟨parent, ⟨root, hroot, hp⟩, hc⟩

lemma exists_node_of_child {parent child} (h : child ∈ tree.children parent) :
    ∃ node, tree.node? parent = some node ∧ child ∈ node.children := by
  cases hn : tree.node? parent with
  | none => simp [children, hn] at h
  | some node => exact ⟨node, rfl, by rwa [children_of_node? hn] at h⟩

lemma Stands.attached {around} (h : tree.Stands id around) : tree.Attached id := by
  induction h with
  | root hm => exact .root hm
  | child _ hn hc ih => exact ih.child (by rwa [children_of_node? hn])

lemma Stands.isSome_decl? {around binding} (h : tree.Stands id around)
    (hb : around.binding = some binding) : (tree.decl? binding).isSome := by
  induction h with
  | root => cases hb
  | child _ hn _ ih =>
    unfold Node.around at hb
    split at hb
    · cases hb
      simp [decl?, hn]
    all_goals split at hb <;> exact ih hb

lemma Attached.stands (h : tree.Attached id) : ∃ around, tree.Stands id around := by
  obtain ⟨root, hroot, hr⟩ := h
  induction hr with
  | refl => exact ⟨_, .root hroot⟩
  | tail _ hc ih =>
    obtain ⟨_, ho⟩ := ih
    obtain ⟨_, hn, hc⟩ := exists_node_of_child hc
    exact ⟨_, .child ho hn hc⟩

namespace Placeable

variable (hp : tree.Placeable) {id : Nat}

include hp

lemma nested_iff (h : tree.Attached id) : tree.Nested id ↔ id ∉ tree.modules := by
  refine ⟨fun hn hm => ?_, fun hnot => h.root_or_nested.resolve_left hnot⟩
  simpa [hp.nested id hn] using hp.roots id hm

/-- All nodes but the modules are in a scope. -/
lemma scope_isSome {around} (h : tree.Stands id around) (hid : id ∉ tree.modules) : (around.scope).isSome := by
  induction h with
  | root hm => exact absurd hm hid
  | @child parent id outer node _ hn _ ih =>
    by_cases hm : parent ∈ tree.modules
    · rw [Node.scope_around_of_isModule (by simpa [isModule_of_node? hn] using hp.roots parent hm)]
      rfl
    · rcases node.scope_around parent outer id with he | ⟨-, he⟩ | ⟨_, _, _, -, -, he⟩
      · rw [he]
        exact ih hm
      · simp [he]
      · simp [he]

lemma stands_unique (hs : tree.Spanned) {a b} (ha : tree.Stands id a) (hb : tree.Stands id b) : a = b := by
  have hroot {child parent outer node} (ho : tree.Stands parent outer)
      (hn : tree.node? parent = some node) (hc : child ∈ node.children) : child ∉ tree.modules := by
    have hnested : tree.Nested child := ⟨parent, ho.attached, by rwa [children_of_node? hn]⟩
    exact (hp.nested_iff hnested.attached).1 hnested
  induction ha generalizing b with
  | root hm =>
    cases hb with
    | root => rfl
    | child ho hn hc => exact absurd hm (hroot ho hn hc)
  | @child parent id _ node ho hn hc ih =>
    generalize hid : id = id' at hb
    cases hb with
    | root hm => exact absurd (hid ▸ hm) (hroot ho hn hc)
    | @child parent' _ _ node' ho' hn' =>
      subst hid
      obtain rfl : parent = parent' := hs.parent_unique ho.attached ho'.attached
        (by rwa [children_of_node? hn]) (by rwa [children_of_node? hn'])
      cases hn.symm.trans hn'
      rw [ih ho']

end Placeable

/-! ### Trails -/

/-- The way of a walk from a module down to a node, back from the parent of the node. The walk goes
on at the modules of the tree if they are modules, and below them at nodes that are not. -/
inductive Trail (tree : Tree) : List NodeId → Nat → Surroundings → Prop
  | root {id : Nat} : id ∈ tree.modules → Trail tree [] id ⟨none, none⟩
  | child {trail : List NodeId} {id child : Nat} {outer : Surroundings} {node : Node} :
    Trail tree trail id outer → tree.node? id = some node → (node.isModule ↔ trail = []) →
    child ∈ node.children → Trail tree (id :: trail) child (node.around id outer child)

namespace Trail

variable {trail : List NodeId} {id : Nat} {around : Surroundings}

lemma stands (h : tree.Trail trail id around) : tree.Stands id around := by
  induction h with
  | root hm => exact .root hm
  | child _ hn _ hc ih => exact .child ih hn hc

lemma scope_isSome {parent} (h : tree.Trail (parent :: trail) id around) : (around.scope).isSome := by
  generalize hway : parent :: trail = way at h
  induction h generalizing parent trail with
  | root => cases hway
  | @child way up child outer node _ _ hmodule _ ih =>
    cases way with
    | nil => simp [Node.scope_around_of_isModule (hmodule.2 rfl)]
    | cons last way =>
      rcases node.scope_around up outer child with he | ⟨-, he⟩ | ⟨_, _, _, -, -, he⟩
      · rw [he]
        exact ih rfl
      · simp [he]
      · simp [he]

lemma scope_isNone_iff (h : tree.Trail trail id around) : around.scope.isNone ↔ trail = [] := by
  cases trail with
  | nil =>
    cases h
    simp
  | cons parent trail => simpa [Option.isSome_iff_ne_none] using h.scope_isSome

/-- From a node that is in a scope and not a module, the walk goes on to its children. -/
lemma next {scope binding node child} (h : tree.Trail trail id ⟨some scope, binding⟩)
    (hn : tree.node? id = some node) (hm : node.isModule = false) (hc : child ∈ node.children) :
    tree.Trail (id :: trail) child (node.around id ⟨some scope, binding⟩ child) := by
  refine .child h hn ⟨fun hm' => ?_, ?_⟩ hc
  · simp [hm] at hm'
  · rintro rfl
    cases h

lemma parent {parent} (h : tree.Trail (parent :: trail) id around) :
    tree.Attached parent ∧ id ∈ tree.children parent := by
  cases h with
  | child hup hn _ hc => exact ⟨hup.stands.attached, by rwa [children_of_node? hn]⟩

lemma split (h : tree.Trail trail id around) {x} (hx : x ∈ trail) : ∃ before after outer node,
    trail = before ++ x :: after ∧ tree.Trail after x outer ∧ tree.node? x = some node ∧
    (node.isModule ↔ after = []) := by
  induction h with
  | root => cases hx
  | @child trail parent _ outer node hup hn hmodule _ ih =>
    rcases List.mem_cons.1 hx with rfl | hx
    · exact ⟨[], trail, outer, node, rfl, hup, hn, hmodule⟩
    · grind

variable (hs : tree.Spanned)

include hs

variable (h : tree.Trail trail id around)

include h

/-- A walk does not come back to a node on its way: the parent of the node would be on the way
twice. -/
lemma not_mem_of_nodup (hnodup : trail.Nodup) (hid : tree.isModule id = false) : id ∉ trail := by
  intro hmem
  obtain ⟨before, after, _, _, rfl, hway, hn, hmodule⟩ := h.split hmem
  rw [isModule_of_node? hn] at hid
  cases after with
  | nil => simp [hmodule.2 rfl] at hid
  | cons up after =>
    have htwice {last rest} (hlast : before ++ id :: up :: after = last :: rest)
        (hup : up ∈ rest) : False := by
      rw [hlast] at h hnodup
      obtain rfl := hs.parent_unique h.parent.1 hway.parent.1 h.parent.2 hway.parent.2
      exact (List.nodup_cons.1 hnodup).1 hup
    cases before with
    | nil | cons last before => exact htwice rfl (by simp)

lemma nodup : trail.Nodup := by
  induction h with
  | root => exact .nil
  | @child _ parent _ _ _ hup hn hmodule _ ih =>
    refine List.nodup_cons.2 ⟨fun hmem => ?_, ih⟩
    have hparent : tree.isModule parent = false := by
      rw [isModule_of_node? hn, Bool.eq_false_iff, Ne, hmodule]
      exact List.ne_nil_of_mem hmem
    exact hup.not_mem_of_nodup hs ih hparent hmem

lemma not_mem (hid : tree.isModule id = false) : id ∉ trail :=
  h.not_mem_of_nodup hs (h.nodup hs) hid

/-- No way is longer than the number of nodes. -/
lemma length_le : trail.length ≤ tree.size := by
  have hsub : trail ⊆ List.range tree.size := by
    intro x hx
    obtain ⟨_, _, _, _, -, -, hn, -⟩ := h.split hx
    exact List.mem_range.2 (lt_size hn)
  simpa using ((h.nodup hs).subperm hsub).length_le

end Trail

end Tree

end TraitLang
