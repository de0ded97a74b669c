import TraitLang.Proofs.Preorder
import TraitLang.Proofs.Reading
import TraitLang.Tree.Walk

/-! Walks over whole trees. What reading makes is one tree: the numbers of its nodes are used up by
the lists of children and the root, and an observer that never passes over children enters and
leaves every node once. -/
namespace TraitLang

open List

/-! ### Children and roots -/

namespace Tree

variable {tree : Tree} {first last root : Nat} {roots : List NodeId}

/-- Every node of a forest is a child of one node of the forest, or else a root. -/
lemma Forest.perm_children (h : Forest tree first roots last) :
    ((range' first (last - first)).flatMap tree.children ++ roots).Perm (range' first (last - first)) := by
  induction h with
  | nil => simp
  | @cons first root last roots node hn _ hc hr ih1 ih2 =>
    rw [range'_split hc.le hr.le, flatMap_append, flatMap_cons, children_of_node? hn]
    generalize (range' first (root - first)).flatMap tree.children = below at ih1 ⊢
    generalize (range' (root + 1) (last - (root + 1))).flatMap tree.children = beside at ih2 ⊢
    grind

lemma Rooted.count_children (h : tree.Rooted root) (id : NodeId) :
    ((range tree.size).flatMap tree.children).count id = if id < root then 1 else 0 := by
  have hperm := h.forest.perm_children
  rw [Nat.sub_zero, ← range_eq_range', ← h.size_eq] at hperm
  have hcount := hperm.count_eq id
  rw [count_append, count_range, h.size_eq, count_singleton] at hcount
  rw [h.size_eq]
  rcases Nat.lt_trichotomy id root with hlt | rfl | hgt
  · grind
  · simpa using hcount
  · grind

end Tree

/-! ### What an observer sees -/

/-- A step of a walk that an observer sees. -/
inductive Sight where
  | entered (id : NodeId)
  | left (id : NodeId)

namespace Sight

def entered? : Sight → Option NodeId
  | entered id => some id
  | left _ => none

def left? : Sight → Option NodeId
  | entered _ => none
  | left id => some id

end Sight

namespace Observer

variable {m : Type → Type} [Monad m]

def see (observer : Observer m) : Sight → m Unit
  | .entered id => do
    let _ ← observer.enter id
  | .left id => observer.exit id

/-- An observer that passes over no children. -/
def Enters (observer : Observer m) : Prop :=
  ∀ id, observer.enter id = do
    let _ ← observer.enter id
    return true

end Observer

namespace Tree

/-- What a walk down to a depth shows. -/
def sightsWithin (tree : Tree) : (depth : Nat) → NodeId → List Sight
  | 0, _ => []
  | depth + 1, id => .entered id :: (tree.children id).flatMap (sightsWithin tree depth) ++ [.left id]

lemma walkWithin_eq {m : Type → Type} [Monad m] [LawfulMonad m]
    (tree : Tree) {observer : Observer m} (h : observer.Enters) (depth : Nat) :
    ∀ id, tree.walkWithin observer depth id = (tree.sightsWithin depth id).forM observer.see := by
  induction depth with
  | zero => exact fun _ => rfl
  | succ depth ih =>
    intro id
    have hchildren (ids : List NodeId) : ids.forM (tree.walkWithin observer depth) =
        (ids.flatMap (tree.sightsWithin depth)).forM observer.see := by
      induction ids with
      | nil => rfl
      | cons child ids ihs => simp_all
    rw [walkWithin, h id, sightsWithin, hchildren]
    simp [Observer.see]

lemma filterMap_entered?_sightsWithin (tree : Tree) (depth : Nat) : ∀ id,
    (tree.sightsWithin depth id).filterMap Sight.entered? = tree.preorderWithin depth id := by
  induction depth with
  | zero => exact fun _ => rfl
  | succ depth ih =>
    intro id
    simp [sightsWithin, preorderWithin, Sight.entered?, filterMap_flatMap, ih]

/-- A forest is left in the order of its numbers. -/
lemma Forest.left_eq {tree first last roots} (h : Forest tree first roots last) :
    ∀ {depth}, last ≤ depth → (roots.flatMap (tree.sightsWithin depth)).filterMap Sight.left? =
      range' first (last - first) := by
  induction h with
  | nil => simp
  | @cons _ _ _ _ _ hn _ hc hr ih1 ih2 =>
    intro depth hdepth
    have hlast := hr.le
    obtain ⟨depth, rfl⟩ : ∃ d, depth = d + 1 := ⟨depth - 1, by omega⟩
    rw [flatMap_cons, filterMap_append, ih2 hdepth, sightsWithin, children_of_node? hn,
      filterMap_append, filterMap_cons_none rfl, ih1 (by omega), range'_split hc.le hr.le]
    simp [Sight.left?]

namespace Rooted

variable {tree : Tree} {root : Nat} (h : tree.Rooted root) {depth : Nat}

include h

lemma perm_entered (hd : tree.size ≤ depth) :
    ((tree.sightsWithin depth root).filterMap Sight.entered?).Perm (range tree.size) := by
  have hlists := h.forest.lists_preorderWithin (h.size_eq ▸ hd)
  have hperm := h.forest.perm_of_lists hlists
  rw [flatMap_singleton, Nat.sub_zero, ← range_eq_range', ← h.size_eq] at hperm
  rwa [filterMap_entered?_sightsWithin]

lemma left_eq (hd : tree.size ≤ depth) : (tree.sightsWithin depth root).filterMap Sight.left? = range tree.size := by
  have hleft := h.forest.left_eq (h.size_eq ▸ hd)
  rwa [flatMap_singleton, Nat.sub_zero, ← range_eq_range', ← h.size_eq] at hleft

end Rooted

/-- The tree of some files has its module as its last node and only root. Every other node is in one
list of children, that of a node with a greater number, so that an observer that passes over no
children enters every node once and leaves it once. -/
theorem exists_root_ofFiles
    {files : List SourceFile} {name : String} {tree : Tree} (h : ofFiles files name = .ok tree) :
    ∃ root, tree.size = root + 1 ∧ tree.modules = [root] ∧ tree.isModule root ∧
      (∀ id, ((range tree.size).flatMap tree.children).count id = if id < root then 1 else 0) ∧
      (∀ parent, ∀ child ∈ tree.children parent, child < parent) ∧ ∃ sights : List Sight,
      (sights.filterMap Sight.entered?).Perm (range tree.size) ∧ sights.filterMap Sight.left? =
        range tree.size ∧ ∀ {m : Type → Type} [Monad m] [LawfulMonad m] (observer : Observer m),
        observer.Enters → tree.walk observer root = sights.forM observer.see := by
  obtain ⟨root, hr⟩ := rooted_ofFiles h
  refine ⟨root, hr.size_eq, hr.modules_eq, ?_, hr.count_children, fun parent child hc => (hr.child hc).2.1, ?_⟩
  · obtain ⟨⟨kind, span⟩, hd, hk⟩ := hr.declares
    rw [isModule_of_node? (decl?_eq_some.1 hd)]
    cases kind <;> first | rfl | cases hk
  · refine ⟨tree.sightsWithin (tree.size + 1) root, hr.perm_entered (Nat.le_succ _), hr.left_eq (Nat.le_succ _), ?_⟩
    intro m _ _ observer ho
    exact walkWithin_eq tree ho _ root

/-- Two files, with parentheses around one element that leave no trace. -/
def wrapped : List SourceFile :=
  [⟨"a", "fun f<T>(x: T) { let (a, b) = ((1), 2); }"⟩, ⟨"b", "fun g() { match 1 { case (let c) { (c) } }; }"⟩]

theorem exists_root_ofFiles_wrapped : ∃ tree, ofFiles wrapped "main" = .ok tree ∧ ∃ root, tree.size = root + 1 ∧
    (∀ id, ((range tree.size).flatMap tree.children).count id = if id < root then 1 else 0) ∧
    ∃ sights : List Sight, (sights.filterMap Sight.entered?).Perm (range tree.size) ∧
      sights.filterMap Sight.left? = range tree.size ∧
      tree.walk (recorder none) root = sights.forM (recorder none).see := by
  have hread : (ofFiles wrapped "main").isOk := by decide +kernel
  obtain ⟨tree, h⟩ := exists_eq_ok hread
  obtain ⟨root, hsize, -, -, hcount, -, sights, hentered, hleft, hwalk⟩ := exists_root_ofFiles h
  exact ⟨tree, h, root, hsize, hcount, sights, hentered, hleft, hwalk (recorder none) fun _ => rfl⟩

end Tree

end TraitLang
