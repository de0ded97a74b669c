import TraitLang.Proofs.Standing

/-! The order of a tree in which every node comes before what is below it. The walk enters the nodes
in this order, so that the list of a scope has its declarations in it. -/
namespace TraitLang

open List

namespace Tree

def preorderWithin (tree : Tree) : (depth : Nat) → NodeId → List NodeId
  | 0, _ => []
  | depth + 1, id => id :: (tree.children id).flatMap (preorderWithin tree depth)

/-- The nodes of all modules, each one before its children. -/
def preorder (tree : Tree) : List NodeId := tree.modules.flatMap (tree.preorderWithin tree.size)

variable {tree : Tree} {first last : Nat} {roots listing others : List NodeId}

lemma Lists.unique (h1 : tree.Lists roots listing) (h2 : tree.Lists roots others) : listing = others := by
  induction h1 generalizing others with
  | nil =>
    cases h2
    rfl
  | cons hn _ _ ih1 ih2 =>
    cases h2 with
    | cons hn' hbelow hrest =>
      cases hn.symm.trans hn'
      rw [ih1 hbelow, ih2 hrest]

namespace Forest

lemma range'_split {root} (h1 : first ≤ root) (h2 : root + 1 ≤ last) : range' first (last - first) =
    range' first (root - first) ++ root :: range' (root + 1) (last - (root + 1)) := by
  have hsplit := range'_append_1 (s := first) (m := root - first) (n := last - root)
  rw [show root - first + (last - root) = last - first by omega, show first + (root - first) = root by omega] at hsplit
  rw [← hsplit, show last - root = last - (root + 1) + 1 by omega, range'_succ]

/-- The nodes of a forest are numbered in a row. -/
lemma perm_of_lists (h : Forest tree first roots last) (hl : tree.Lists roots listing) :
    listing.Perm (range' first (last - first)) := by
  induction h generalizing listing with
  | nil =>
    cases hl
    simp
  | @cons _ root _ _ _ hn _ hc hr ih1 ih2 =>
    cases hl with
    | @cons _ _ _ _ _ hn' hbelow hrest =>
      cases hn.symm.trans hn'
      rw [range'_split hc.le hr.le]
      exact perm_middle.symm.trans ((ih1 hbelow).append ((ih2 hrest).cons root))

/-- The numbers of nodes bound the depth. -/
lemma lists_preorderWithin (h : Forest tree first roots last) : ∀ {depth}, last ≤ depth →
    tree.Lists roots (roots.flatMap (tree.preorderWithin depth)) := by
  induction h with
  | nil => exact fun _ => .nil
  | @cons _ _ _ _ _ hn _ _ hr ih1 ih2 =>
    intro depth hdepth
    have hlast := hr.le
    obtain ⟨depth, rfl⟩ : ∃ d, depth = d + 1 := ⟨depth - 1, by omega⟩
    rw [flatMap_cons, preorderWithin, children_of_node? hn, cons_append]
    exact .cons hn (ih1 (by omega)) (ih2 hdepth)

end Forest

namespace Rooted

variable {root : Nat} (h : tree.Rooted root)

include h

lemma lists_preorder : tree.Lists tree.modules tree.preorder := by
  rw [preorder, h.modules_eq]
  exact h.forest.lists_preorderWithin h.size_eq.ge

/-- Every node comes once. -/
lemma perm_preorder : tree.preorder.Perm (range tree.size) := by
  have hlists := h.lists_preorder
  rw [h.modules_eq] at hlists
  have hperm := h.forest.perm_of_lists hlists
  rwa [Nat.sub_zero, ← range_eq_range', ← h.size_eq] at hperm

end Rooted

end Tree

namespace Program

open Placement TraitLang.Tree

variable {tree : Tree} {placements : List Placement}

/-- Entries that put nodes into their scopes add to the list of a scope the declarations that are in
it. -/
lemma filterMap_owned? {scopeOf : NodeId → Option ScopeId}
    (scope : ScopeId) (h : ∀ id outer, .inside id outer ∈ placements → scopeOf id = some outer) :
    placements.filterMap (owned? tree scope) = (placements.filterMap inside?).filter fun id =>
      (tree.decl? id).isSome && scopeOf id == some scope := by
  induction placements with
  | nil => rfl
  | cons placement placements ih =>
    have ih := ih fun id outer hp => h id outer (mem_cons_of_mem _ hp)
    cases placement with
    | inside id outer =>
      have hscope := h id outer mem_cons_self
      simp only [filterMap_cons, owned?, inside?, filter_cons, hscope, ih]
      by_cases ho : outer = scope
      · cases hd : (tree.decl? id).isSome <;> simp [ho]
      · simp [ho]
    | opened | bound => exact ih

/-- The list of a scope has the declarations that are in it, in the order of the tree. -/
lemma decls_eq {root} (hr : tree.Rooted root) (h : tree.EntersAll placements) (scope : ScopeId) :
    (placements.foldl place (bare tree)).decls scope = tree.preorder.filter fun id =>
      (tree.decl? id).isSome && (placements.foldl place (bare tree)).scopeOf id == some scope := by
  have hscope (id : NodeId) (outer : ScopeId) (hp : .inside id outer ∈ placements) :
      (placements.foldl place (bare tree)).scopeOf id = some outer :=
    (scopeOf_iff h hr.spanned).2 (h.inside_mem_iff.1 hp)
  obtain ⟨_, hlists, hinside⟩ := h.exists_lists
  rw [map_map, Function.comp_def, map_id'] at hlists
  obtain rfl := hlists.unique hr.lists_preorder
  rw [decls_foldl_place, filterMap_owned? scope hscope, hinside, filter_filter]
  have hnone : (bare tree).decls scope = [] := by simp [bare, decls]
  rw [hnone, nil_append, show (bare tree).tree = tree from rfl]
  refine filter_congr fun id _ => ?_
  -- modules have no scope
  cases hm : tree.isModule id with
  | false => simp
  | true =>
    cases hs : (placements.foldl place (bare tree)).scopeOf id with
    | none => simp
    | some outer =>
      obtain ⟨_, hstands⟩ := (scopeOf_iff h hr.spanned).1 hs
      obtain ⟨_, _, hn, hsound, -⟩ := h.visited_of_stands hstands
      rw [isModule_of_node? hn, hsound.isModule_eq] at hm
      cases hm

lemma exists_ofTree_decls {root} (hr : tree.Rooted root) : ∃ program, ofTree tree = .ok program ∧
    ∀ scope, program.decls scope = tree.preorder.filter fun id =>
      (tree.decl? id).isSome && program.scopeOf id == some scope := by
  rcases ofTree_cases hr.spanned with ⟨_, hp, henters⟩ | ⟨_, -, hfault⟩
  · exact ⟨_, hp, decls_eq hr henters⟩
  · exact absurd hr.placeable hfault.not_placeable

end Program

end TraitLang
