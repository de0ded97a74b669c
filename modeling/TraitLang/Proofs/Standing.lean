import TraitLang.Proofs.Forest
import TraitLang.Proofs.Visiting

/-! Where nodes stand in a whole tree, whose only module is its root. The walk over such a tree ends
well, and the tables say of every node where it stands. -/
namespace TraitLang

namespace Tree.Rooted

variable {tree : Tree} {root : Nat} (h : tree.Rooted root) {id : Nat} {around : Surroundings}

include h

lemma lt_root_of_child {parent} (hc : id ∈ tree.children parent) : id < root := by
  have := h.size_eq
  obtain ⟨hp, hlt, -, -⟩ := h.child hc
  omega

/-- Below the root there are no modules. -/
lemma not_isModule {node} (hid : id < root) (hn : tree.node? id = some node) : node.isModule = false := by
  obtain ⟨_, hc⟩ := h.exists_parent hid
  obtain ⟨_, hp⟩ := Tree.exists_node? (h.child hc).1
  rw [Tree.children_of_node? hp] at hc
  match node with
  | .decl ⟨.module _ _, _⟩ =>
    cases (h.below hp).1.seats hc (Tree.decl?_eq_some.2 hn) with
    | item hk | generic _ hk | param hk | requirement hk | member hk | bound _ hk | matched _ hk | inStmt hk | inExpr hk => cases hk
  | .decl ⟨.function _, _⟩ | .decl ⟨.param _ _, _⟩ | .decl ⟨.genericParam _, _⟩ | .decl ⟨.binding _,
    _⟩ | .decl ⟨.var _, _⟩
  | .decl ⟨.trait _, _⟩ | .decl ⟨.product _, _⟩ | .stmt _ | .expr _ | .case _ => rfl

lemma spanned : tree.Spanned where
  exists_node := fun {id} ⟨root', hroot, hreaches⟩ => by
    rw [h.modules_eq, List.mem_singleton] at hroot
    subst hroot
    rcases hreaches.cases_tail with rfl | ⟨_, -, hc⟩
    · exact exists_node? (by have := h.size_eq; omega)
    · exact exists_node? (by have := h.size_eq; have := h.lt_root_of_child hc; omega)
  nodup_children := fun _ => h.nodup_children _
  parent_unique := fun _ _ hp hq => h.parent_unique hp hq

lemma placeable : tree.Placeable where
  roots := fun id hid => by
    rw [h.modules_eq, List.mem_singleton] at hid
    subst hid
    obtain ⟨⟨kind, span⟩, hd, hm⟩ := h.declares
    rw [isModule_of_node? (decl?_eq_some.1 hd)]
    cases kind with
    | module => rfl
    | _ => cases hm
  nested := fun id ⟨parent, hp, hc⟩ => by
    obtain ⟨_, hn⟩ := h.spanned.exists_node (hp.child hc)
    rw [isModule_of_node? hn]
    exact h.not_isModule (h.lt_root_of_child hc) hn
  loops := fun id body condition span _ hd => (h.below (stmt?_eq_some.1 hd)).1.1

lemma stands_unique {a b} (ha : tree.Stands id a) (hb : tree.Stands id b) : a = b :=
  h.placeable.stands_unique h.spanned ha hb

lemma stands_exists (hid : id < tree.size) : ∃ around, tree.Stands id around := by
  have hsize := h.size_eq
  induction hk : root - id using Nat.strong_induction_on generalizing id with
  | _ k ih =>
    rcases Nat.eq_or_lt_of_le (Nat.lt_succ_iff.1 (hsize ▸ hid)) with rfl | hlt
    · exact ⟨_, .root (by simp [h.modules_eq])⟩
    · obtain ⟨parent, hc⟩ := h.exists_parent hlt
      obtain ⟨hp, hgt, -, -⟩ := h.child hc
      obtain ⟨_, ho⟩ := ih (root - parent) (by omega) hp rfl
      obtain ⟨_, hn⟩ := exists_node? hp
      exact ⟨_, .child ho hn (by rwa [children_of_node? hn] at hc)⟩

lemma lt_root_of_stands (hs : tree.Stands id around) (ha : around ≠ ⟨none, none⟩) : id < root := by
  cases hs with
  | root hm => exact absurd rfl ha
  | child _ hn hc => exact h.lt_root_of_child (by rwa [children_of_node? hn])

lemma scope_of_stands (hs : tree.Stands id around) (hid : id < root) : ∃ scope, around.scope = some scope :=
  Option.isSome_iff_exists.1 (h.placeable.scope_isSome hs (by simp [h.modules_eq]; omega))

end Tree.Rooted

namespace Program

/-- A program over a whole tree, with the tables that the survey of the tree gives. -/
structure Surveyed (program : Program) (root : Nat) : Prop where
  rooted : program.tree.Rooted root
  stands_of_scopeOf : ∀ {id scope : Nat}, program.scopeOf id = some scope →
    ∃ binding, program.tree.Stands id ⟨some scope, binding⟩
  scopeOf_isSome : ∀ {id : Nat}, id < root → (program.scopeOf id).isSome
  mem_decls : ∀ {scope id : Nat}, id ∈ program.decls scope →
    program.scopeOf id = some scope ∧ (program.tree.decl? id).isSome
  stands_of_bindingOf : ∀ {var binding : Nat}, program.bindingOf var = some binding →
    ∃ scope, program.tree.Stands var ⟨scope, some binding⟩
  bindingOf_isSome : ∀ {var binding : Nat} {scope : Option ScopeId},
    program.tree.Declares DeclKind.isVar var → program.tree.Stands var ⟨scope, some binding⟩ →
    (program.bindingOf var).isSome

/-- Every whole tree is the tree of a program. -/
lemma exists_ofTree {tree root} (h : tree.Rooted root) :
    ∃ program, ofTree tree = .ok program ∧ program.tree = tree ∧ program.Surveyed root := by
  rcases ofTree_cases h.spanned with ⟨placements, hp, henters⟩ | ⟨_, -, hfault⟩
  · have htree : (placements.foldl place (bare tree)).tree = tree := tree_foldl_place _
    have hscope {id scope} : (placements.foldl place (bare tree)).scopeOf id = some scope ↔
        ∃ binding, tree.Stands id ⟨some scope, binding⟩ := scopeOf_iff henters h.spanned
    refine ⟨placements.foldl place (bare tree), hp, htree, ?_⟩
    have hbinding {id binding} (hb : (placements.foldl place (bare tree)).bindingOf id =
        some binding) : ∃ scope, tree.Stands id ⟨scope, some binding⟩ := by
      rcases bindingOf_foldl_place hb with hb | hb
      · simp [bare, bindingOf] at hb
      · exact henters.stands_of_bound hb
    have htotal {id} (hid : id < root) : ((placements.foldl place (bare tree)).scopeOf id).isSome := by
      have hlt : id < tree.size := by have := h.size_eq; omega
      obtain ⟨⟨scope, binding⟩, hs⟩ := h.stands_exists hlt
      obtain ⟨scope, rfl⟩ := h.scope_of_stands hs hid
      exact Option.isSome_iff_exists.2 ⟨scope, hscope.2 ⟨binding, hs⟩⟩
    have hdecls {scope id} (hd : id ∈ (placements.foldl place (bare tree)).decls scope) :
        (placements.foldl place (bare tree)).scopeOf id = some scope ∧ (tree.decl? id).isSome := by
      rcases mem_decls_foldl_place hd with hd | ⟨hin, hd⟩
      · simp [bare, decls] at hd
      · exact ⟨hscope.2 (henters.inside_mem_iff.1 hin), hd⟩
    have hbound {var binding scope} (hv : tree.Declares DeclKind.isVar var)
        (hs : tree.Stands var ⟨scope, some binding⟩) :
        ((placements.foldl place (bare tree)).bindingOf var).isSome :=
      isSome_bindingOf_foldl_place (.inr (henters.bound_mem hv hs))
    generalize placements.foldl place (bare tree) = program at *
    subst htree
    exact ⟨h, hscope.1, htotal, hdecls, hbinding, hbound⟩
  · exact absurd h.placeable hfault.not_placeable

end Program

end TraitLang
