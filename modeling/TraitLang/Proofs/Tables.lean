import Mathlib.Data.List.Perm.Subperm
import TraitLang.Scope.Visitor

/-! The tables of a program, entry by entry. What is in them was entered, and what was entered is
found, except that the last scope of a node counts and the first binding of a variable. -/
namespace TraitLang

open List Std.TreeMap

/-! ### Lookup -/

namespace NodeMap

variable {α : Type}

abbrev Grows (map later : NodeMap α) : Prop :=
  ∀ {id : NodeId} {found : α}, map[id]? = some found → later[id]? = some found

variable (map : NodeMap α) (key id : NodeId)

lemma getElem?_insert (value : α) :
    (map.insert key value)[id]? = if key = id then some value else map[id]? := by
  rw [Std.TreeMap.getElem?_insert]
  simp only [Nat.compare_eq_eq]

section

variable {map : NodeMap α} {key id : NodeId} {value found : α}

lemma getElem?_insert_self : (map.insert key value)[key]? = some value :=
  (getElem?_insert ..).trans (if_pos rfl)

lemma getElem?_insert_of_ne (hne : key ≠ id) : (map.insert key value)[id]? = map[id]? :=
  (getElem?_insert ..).trans (if_neg hne)

lemma of_insert {holds : NodeId → α → Prop} (h : (map.insert key value)[id]? = some found) (hnew : holds key value)
    (hold : ∀ {id found}, map[id]? = some found → holds id found) : holds id found := by
  rw [getElem?_insert] at h
  split at h
  next heq =>
    cases h
    exact heq ▸ hnew
  next => exact hold h

lemma isSome_insert (h : (map[id]?).isSome) : ((map.insert key value)[id]?).isSome := by
  rw [getElem?_insert]
  split
  next => rfl
  next => exact h

lemma insert_mono (hnew : map[key]? = none) : map.Grows (map.insert key value) := by
  intro id found h
  rw [getElem?_insert_of_ne (by rintro rfl; simp [hnew] at h), h]

end

lemma getElem?_insertIfNew (value : α) : (map.insertIfNew key value)[id]? = if key = id ∧
    map[id]? = none then some value else map[id]? := by
  rw [Std.TreeMap.getElem?_insertIfNew]
  simp only [Nat.compare_eq_eq, Std.TreeMap.mem_iff_isSome_getElem?]
  by_cases hk : key = id
  · subst hk
    cases map[key]? <;> simp
  · simp [hk]

lemma getElem?_erase : (map.erase key)[id]? = if key = id then none else map[id]? := by
  rw [Std.TreeMap.getElem?_erase]
  simp only [Nat.compare_eq_eq]

/-- A table with an entry for every number below a bound is no smaller than the bound. -/
lemma le_size {map : NodeMap α} {bound} (h : ∀ id < bound, (map[id]?).isSome) : bound ≤ map.size := by
  have hsub : range bound ⊆ map.keys := by grind
  have hle := (nodup_range.subperm hsub).length_le
  rwa [length_range, length_keys] at hle

end NodeMap

/-! ### Entries -/

/-- One entry into the tables of a program. -/
inductive Placement where
  | inside (node : NodeId) (scope : ScopeId)
  | opened (scope : ScopeId)
  | bound (var : DeclId) (binding : DeclId)
deriving DecidableEq, Repr

/-- The declaration that an entry adds to the list of a scope. -/
def Placement.owned? (tree : Tree) (scope : ScopeId) : Placement → Option DeclId
  | .inside node outer => if outer = scope ∧ (tree.decl? node).isSome then some node else none
  | .opened _ | .bound _ _ => none

namespace Program

def place (program : Program) : Placement → Program
  | .inside node scope => program.insert node scope
  | .opened scope => program.openScope scope
  | .bound var binding => program.bindVar var binding

section

variable (program : Program) (placement : Placement)

lemma tree_place : (program.place placement).tree = program.tree := by
  cases placement with
  | inside node scope => simp only [place, insert]; split <;> rfl
  | opened scope => rfl
  | bound var binding => rfl

lemma scopeOf_place (id : NodeId) : (program.place placement).scopeOf id = match placement with
    | .inside node scope => if node = id then some scope else program.scopeOf id
    | _ => program.scopeOf id := by
  cases placement with
  | inside node scope =>
    have : (program.place (.inside node scope)).nodeScopes = program.nodeScopes.insert node scope := by
      simp only [place, insert]
      split <;> rfl
    rw [scopeOf, this, NodeMap.getElem?_insert]
    rfl
  | opened scope => rfl
  | bound var binding => rfl

lemma decls_place (scope : ScopeId) : (program.place placement).decls scope =
    program.decls scope ++ (placement.owned? program.tree scope).toList := by
  cases placement with
  | inside node outer =>
    simp only [place, insert, Placement.owned?]
    by_cases hd : (program.tree.decl? node).isSome
    · simp only [hd, if_true, and_true, decls, getD_insert, Nat.compare_eq_eq]
      by_cases ho : outer = scope
      · subst ho
        simp
      · simp [ho]
    · simp [hd, decls]
  | opened outer =>
    simp only [place, openScope, decls, getD_insertIfNew, Nat.compare_eq_eq, Placement.owned?,
      Option.toList_none, append_nil]
    split
    next h => simp [getD_eq_fallback (h.1 ▸ h.2)]
    · rfl
  | bound var binding => simp [place, bindVar, decls, Placement.owned?]

lemma bindingOf_place (id : DeclId) : (program.place placement).bindingOf id = match placement with
    | .bound var binding =>
      if var = id ∧ program.bindingOf id = none then some binding else program.bindingOf id
    | _ => program.bindingOf id := by
  cases placement with
  | inside node scope => simp only [place, insert]; split <;> rfl
  | opened scope => rfl
  | bound var binding => exact NodeMap.getElem?_insertIfNew _ _ _ _

end

section

variable {placements : List Placement} {program : Program} {id : NodeId}

lemma tree_foldl_place (program : Program) : (placements.foldl place program).tree = program.tree := by
  induction placements generalizing program with
  | nil => rfl
  | cons placement placements ih => rw [foldl_cons, ih, tree_place]

variable {scope : ScopeId} {binding : DeclId}

lemma scopeOf_foldl_place (h : (placements.foldl place program).scopeOf id = some scope) :
    program.scopeOf id = some scope ∨ .inside id scope ∈ placements := by
  induction placements generalizing program with
  | nil => exact .inl h
  | cons placement placements ih =>
    grind [scopeOf_place]

lemma scopeOf_foldl_place_of_not_mem (h : ∀ scope, .inside id scope ∉ placements) :
    (placements.foldl place program).scopeOf id = program.scopeOf id := by
  induction placements generalizing program with
  | nil => rfl
  | cons placement placements ih =>
    rw [foldl_cons, ih fun scope hm => h scope (mem_cons_of_mem _ hm), scopeOf_place]
    split
    next _ scope => grind
    next => rfl

lemma isSome_scopeOf_foldl_place (h : (program.scopeOf id).isSome ∨ .inside id scope ∈ placements) :
    ((placements.foldl place program).scopeOf id).isSome := by
  induction placements generalizing program with
  | nil => exact h.elim (fun h => h) fun h => by cases h
  | cons placement placements ih =>
    refine ih ?_
    rw [scopeOf_place]
    grind

lemma decls_foldl_place (scope : ScopeId) : (placements.foldl place program).decls scope =
    program.decls scope ++ placements.filterMap (Placement.owned? program.tree scope) := by
  induction placements generalizing program with
  | nil => simp
  | cons placement placements ih =>
    rw [foldl_cons, ih, decls_place, tree_place, append_assoc]
    cases ho : placement.owned? program.tree scope with
    | none => rw [filterMap_cons_none ho, Option.toList_none, nil_append]
    | some id => grind

lemma mem_decls_foldl_place (h : id ∈ (placements.foldl place program).decls scope) :
    id ∈ program.decls scope ∨ .inside id scope ∈ placements ∧ (program.tree.decl? id).isSome := by
  rw [decls_foldl_place, mem_append, mem_filterMap] at h
  refine h.imp_right ?_
  rintro ⟨placement, hp, ho⟩
  cases placement with
  | inside node outer =>
    simp only [Placement.owned?, Option.ite_none_right_eq_some, Option.some.injEq] at ho
    obtain ⟨⟨rfl, hd⟩, rfl⟩ := ho
    exact ⟨hp, hd⟩
  | opened | bound => cases ho

lemma bindingOf_foldl_place (h : (placements.foldl place program).bindingOf id = some binding) :
    program.bindingOf id = some binding ∨ .bound id binding ∈ placements := by
  induction placements generalizing program with
  | nil => exact .inl h
  | cons placement placements ih =>
    grind [bindingOf_place]

lemma isSome_bindingOf_foldl_place (h : (program.bindingOf id).isSome ∨
    .bound id binding ∈ placements) : ((placements.foldl place program).bindingOf id).isSome := by
  induction placements generalizing program with
  | nil => exact h.elim (fun h => h) fun h => by cases h
  | cons placement placements ih =>
    refine ih ?_
    rw [bindingOf_place]
    rcases h with h | h
    · grind
    · rcases mem_cons.1 h with rfl | h
      · left
        dsimp only
        split
        · rfl
        next hn => cases hb : program.bindingOf id <;> simp_all
      · exact .inr h

end

end Program

end TraitLang
