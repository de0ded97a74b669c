import TraitLang.Proofs.Shape

/-! Trees whose nodes are numbered in the order in which they are finished. The numbers below a node
are then a run that ends at the node, and the runs of its children follow each other in it. So being
below a node is a matter of comparing numbers. -/
namespace TraitLang.Tree

open Nat

/-- The nodes from one number up to another are the trees of some roots in a row: each root comes
right after the trees of its children. -/
inductive Forest (tree : Tree) : (first : Nat) → List NodeId → (last : Nat) → Prop
  | nil {first : Nat} : Forest tree first [] first
  | cons {first root last : Nat} {roots : List NodeId} {node : Node} :
    tree.node? root = some node → node.Fits tree → Forest tree first node.children root →
    Forest tree (root + 1) roots last → Forest tree first (root :: roots) last

namespace Forest

variable {tree : Tree} {first middle last : Nat} {roots more : List NodeId}

lemma le (h : Forest tree first roots last) : first ≤ last := by
  induction h with
  | nil => exact le_rfl
  | cons _ _ _ _ ih1 ih2 => omega

lemma append (h1 : Forest tree first roots middle) (h2 : Forest tree middle more last) :
    Forest tree first (roots ++ more) last := by
  induction h1 with
  | nil => exact h2
  | cons hn hf hc _ _ ih => exact .cons hn hf hc (ih h2)

lemma mono {large} (h : Forest tree first roots last) (hl : tree.Extends large) : Forest large first roots last := by
  induction h with
  | nil => exact .nil
  | cons hn hf _ _ ih1 ih2 => exact .cons (hl.node?_of_some hn) (hl.fits hf) ih1 ih2

/-- A forest is a matter of the nodes alone. -/
lemma addModule (h : Forest tree first roots last) (id : DeclId) : Forest (tree.addModule id) first roots last := by
  induction h with
  | nil => exact .nil
  | cons hn hf _ _ ih1 ih2 => exact .cons hn hf ih1 ih2

lemma single {root node} (hn : tree.node? root = some node) (hf : node.Fits tree)
    (hc : Forest tree first node.children root) : Forest tree first [root] (root + 1) :=
  .cons hn hf hc .nil

lemma mem_bounds (h : Forest tree first roots last) {id : Nat} (hid : id ∈ roots) : first ≤ id ∧ id < last := by
  induction h with
  | nil => cases hid
  | cons _ _ hc hr _ ih =>
    have h1 := hc.le
    have h2 := hr.le
    rcases List.mem_cons.1 hid with rfl | hid
    · omega
    · have := ih hid
      omega

end Forest

/-! ### The first node below a node -/

def firstWithin (tree : Tree) : (depth : Nat) → NodeId → NodeId
  | 0, id => id
  | depth + 1, id =>
    match tree.children id with
    | [] => id
    | child :: _ => firstWithin tree depth child

/-- The lowest number below a node: that of the leaf which is finished first. -/
def first (tree : Tree) (id : NodeId) : Nat := firstWithin tree (id + 1) id

namespace Forest

variable {tree : Tree} {low high : Nat} {roots : List NodeId}

lemma firstWithin_eq {node} (depth : Nat) : ∀ {id}, id < depth → tree.node? id = some node →
    Forest tree low node.children id → tree.firstWithin depth id = low := by
  induction depth generalizing node with
  | zero => intro id hid; omega
  | succ depth ih =>
    intro id hid hn hc
    simp only [firstWithin, children_of_node? hn]
    generalize hl : node.children = roots at hc
    cases hc with
    | nil => rfl
    | cons hn' _ hc' hr => exact ih (by have := hr.le; omega) hn' hc'

lemma first_eq {id node} (hn : tree.node? id = some node) (hc : Forest tree low node.children id) :
    tree.first id = low :=
  firstWithin_eq (id + 1) (lt_succ_self id) hn hc

variable (h : Forest tree low roots high)

include h

/-- What holds of the node of every number in a forest. -/
lemma inside : ∀ {id}, low ≤ id → id < high → ∃ node, tree.node? id = some node ∧ node.Fits tree ∧
      Forest tree (tree.first id) node.children id ∧ low ≤ tree.first id := by
  induction h with
  | nil => intro id h1 h2; omega
  | @cons _ root high _ node hn hf hc hr ih1 ih2 =>
    intro id h1 h2
    have hle := hc.le
    rcases lt_trichotomy id root with hid | rfl | hid
    · exact ih1 h1 hid
    · have hfirst := first_eq hn hc
      exact ⟨node, hn, hf, by rwa [hfirst], by omega⟩
    · grind

lemma pairwise : roots.Pairwise fun (x y : Nat) => x < tree.first y := by
  induction h with
  | nil => exact .nil
  | cons _ _ _ hr _ ih =>
    refine .cons ?_ ih
    intro y hy
    obtain ⟨h1, h2⟩ := hr.mem_bounds hy
    obtain ⟨-, -, -, -, hlow⟩ := hr.inside h1 h2
    exact hlow

/-- Every number in a forest is in the tree of a root. -/
lemma cover : ∀ {id}, low ≤ id → id < high → ∃ root ∈ roots, tree.first root ≤ id ∧ id ≤ root := by
  induction h with
  | nil => intro id h1 h2; omega
  | @cons _ root high _ _ hn _ hc hr _ ih =>
    grind [first_eq]

/-- Every number in a forest is a root or a child. -/
lemma root_or_child : ∀ {id}, low ≤ id → id < high → id ∈ roots ∨ ∃ parent < high, id ∈ tree.children parent := by
  induction h with
  | nil => intro id h1 h2; omega
  | @cons _ root high _ _ hn _ hc hr ih1 ih2 =>
    intro id h1 h2
    have hle := hr.le
    rcases lt_trichotomy id root with hid | rfl | hid
    · rcases ih1 h1 hid with hm | ⟨parent, hp, hm⟩
      · exact .inr ⟨root, by omega, by rwa [children_of_node? hn]⟩
      · exact .inr ⟨parent, by omega, hm⟩
    · exact .inl (by simp)
    · grind

end Forest

/-! ### Whole trees -/

/-- A tree whose only module is its last node, with everything else below it. -/
structure Rooted (tree : Tree) (root : Nat) : Prop where
  size_eq : tree.size = root + 1
  modules_eq : tree.modules = [root]
  declares : tree.Declares DeclKind.isModule root
  forest : Forest tree 0 [root] (root + 1)

def Encloses (tree : Tree) (outer inner : Nat) : Prop := tree.first outer ≤ inner ∧ inner < outer

namespace Rooted

variable {tree : Tree} {root : Nat} (h : tree.Rooted root)

include h

lemma node {id} (hid : id < tree.size) : ∃ node, tree.node? id = some node ∧ node.Fits tree ∧
    Forest tree (tree.first id) node.children id := by
  obtain ⟨node, hn, hf, hc, -⟩ := h.forest.inside (zero_le id) (by rw [← h.size_eq]; exact hid)
  exact ⟨node, hn, hf, hc⟩

variable {id outer inner parent x y : Nat}

lemma below {node} (hn : tree.node? id = some node) :
    node.Fits tree ∧ Forest tree (tree.first id) node.children id := by
  obtain ⟨node', hn', hf, hc⟩ := h.node (lt_size hn)
  obtain rfl : node = node' := by simpa [hn] using hn'
  exact ⟨hf, hc⟩

lemma first_le (hid : id < tree.size) : tree.first id ≤ id := by
  obtain ⟨node, -, -, hc⟩ := h.node hid
  exact hc.le

lemma lt_root (hid : id < tree.size) (hm : ¬tree.Declares DeclKind.isModule id) : id < root := by
  have hsize := h.size_eq
  have hne : id ≠ root := by
    rintro rfl
    exact hm h.declares
  omega

lemma first_root : tree.first root = 0 := by
  cases h.forest with
  | cons hn _ hc => exact Forest.first_eq hn hc

lemma lt_root_of_expr (he : tree.HasExpr id) : id < root := by
  have hid : id < tree.size := lt_size (expr?_eq_some.1 he.choose_spec)
  refine h.lt_root hid ?_
  rintro ⟨decl, hd, -⟩
  exact (decl_only hd).1 he

lemma child {parent id : Nat} (hc : id ∈ tree.children parent) :
    parent < tree.size ∧ id < parent ∧ tree.first id ≤ id ∧ tree.first parent ≤ tree.first id := by
  have hp : parent < tree.size := by
    by_contra hlt
    rw [children, node?, Array.getElem?_eq_none (by simpa [size] using hlt)] at hc
    simp at hc
  obtain ⟨node, hn, -, hf⟩ := h.node hp
  rw [children_of_node? hn] at hc
  obtain ⟨h1, h2⟩ := hf.mem_bounds hc
  obtain ⟨_, _, _, hsub, hlow⟩ := hf.inside h1 h2
  exact ⟨hp, h2, hsub.le, hlow⟩

lemma pairwise_children (id : Nat) : (tree.children id).Pairwise fun (x y : Nat) => x < tree.first y := by
  by_cases hid : id < tree.size
  · obtain ⟨node, hn, -, hf⟩ := h.node hid
    rw [children_of_node? hn]
    exact hf.pairwise
  · rw [children, node?, Array.getElem?_eq_none (by simpa [size] using hid)]
    exact .nil

lemma nodup_children (id : Nat) : (tree.children id).Nodup := by
  refine (h.pairwise_children id).imp_of_mem ?_
  intro x y _ hy hlt
  obtain ⟨-, -, hle, -⟩ := h.child hy
  exact Nat.ne_of_lt (hlt.trans_le hle)

/-- The run of a node that is inside the run of another one is a part of it. -/
lemma first_mono (ho : outer < tree.size) (h1 : tree.first outer ≤ inner) (h2 : inner ≤ outer) :
    tree.first outer ≤ tree.first inner := by
  rcases eq_or_lt_of_le h2 with rfl | hlt
  · exact le_rfl
  · obtain ⟨node, -, -, hf⟩ := h.node ho
    obtain ⟨-, -, -, -, hlow⟩ := hf.inside h1 hlt
    exact hlow

lemma exists_child (ho : outer < tree.size) (he : tree.Encloses outer inner) :
    ∃ child ∈ tree.children outer, tree.first child ≤ inner ∧ inner ≤ child := by
  obtain ⟨node, hn, -, hf⟩ := h.node ho
  rw [children_of_node? hn]
  exact hf.cover he.1 he.2

lemma exists_parent (hid : id < root) : ∃ parent, id ∈ tree.children parent := by
  rcases h.forest.root_or_child (zero_le id) (by omega) with hm | ⟨parent, -, hm⟩
  · rw [List.mem_singleton] at hm
    omega
  · exact ⟨parent, hm⟩

/-- The runs of two children do not meet. -/
lemma child_eq (hx : x ∈ tree.children parent) (hy : y ∈ tree.children parent)
    (hx1 : tree.first x ≤ id) (hx2 : id ≤ x) (hy1 : tree.first y ≤ id) (hy2 : id ≤ y) : x = y := by
  have hp := List.pairwise_iff_getElem.1 (h.pairwise_children parent)
  obtain ⟨i, hi, rfl⟩ := List.getElem_of_mem hx
  obtain ⟨j, hj, rfl⟩ := List.getElem_of_mem hy
  rcases lt_trichotomy i j with hij | rfl | hij
  · have := hp i j hi hj hij
    omega
  · rfl
  · have := hp j i hj hi hij
    omega

/-- What encloses a node is its parent or encloses its parent. -/
lemma encloses_parent (hc : id ∈ tree.children parent) (he : tree.Encloses outer id) :
    outer = parent ∨ tree.Encloses outer parent := by
  obtain ⟨hp, hlt, hle, hfirst⟩ := h.child hc
  rcases lt_trichotomy outer parent with hop | rfl | hop
  · -- `outer` would be in the run of a child that also has `id` in its run
    exfalso
    have hin : tree.first parent ≤ outer := by have := he.2; omega
    obtain ⟨child, hchild, h1, h2⟩ := h.exists_child hp ⟨hin, hop⟩
    have hmono := h.first_mono (h.child hchild |>.2.1.trans hp) h1 h2
    have hsame := h.child_eq hc hchild hle le_rfl (hmono.trans he.1) (he.2.le.trans h2)
    have := he.2
    omega
  · exact .inl rfl
  · exact .inr ⟨by have := he.1; omega, hop⟩

lemma encloses_child (hc : id ∈ tree.children parent) : tree.Encloses parent id := by
  obtain ⟨-, hlt, hle, hfirst⟩ := h.child hc
  exact ⟨hfirst.trans hle, hlt⟩

lemma parent_unique {p q} (hp : id ∈ tree.children p) (hq : id ∈ tree.children q) : p = q := by
  rcases h.encloses_parent hp (h.encloses_child hq) with rfl | h1
  · rfl
  rcases h.encloses_parent hq (h.encloses_child hp) with rfl | h2
  · rfl
  have := h1.2
  have := h2.2
  omega

lemma encloses_trans {z} (hx : x < tree.size) (h1 : tree.Encloses x y) (h2 : tree.Encloses y z) :
    tree.Encloses x z := by
  have hmono := h.first_mono hx h1.1 h1.2.le
  exact ⟨hmono.trans h2.1, h2.2.trans h1.2⟩

end Rooted

end TraitLang.Tree
