import TraitLang.Proofs.Forest

/-! Which binding a node belongs to. A binding is checked when its type is first asked for, and that
may be long before checking comes to the place where it stands; so the nodes of a tree fall apart
into the units that are checked together, one for each binding and one for everything outside of
bindings. -/
namespace TraitLang.Tree

def isBinding (tree : Tree) (id : NodeId) : Bool :=
  (tree.decl? id).any fun decl => decl.kind.isBinding

lemma isBinding_iff {tree : Tree} {id} : tree.isBinding id ↔ tree.Declares DeclKind.isBinding id := by
  unfold isBinding Declares
  cases tree.decl? id <;> simp

/-- The innermost binding around a node. Of the nodes around a node the innermost has the lowest
number. -/
def owner (tree : Tree) (id : Nat) : Option Nat :=
  (List.range tree.size).find? fun binding =>
    tree.isBinding binding && decide (tree.first binding ≤ id) && decide (id < binding)

/-- The binding whose checking covers a node. -/
def unit (tree : Tree) (id : Nat) : Option Nat :=
  if tree.isBinding id then some id else tree.owner id

/-- A node is another one or below it. -/
def Inside (tree : Tree) (top id : Nat) : Prop := tree.first top ≤ id ∧ id ≤ top

section

variable {tree : Tree} {id binding : Nat}

lemma unit_of_not_binding (h : tree.isBinding id = false) : tree.unit id = tree.owner id := by
  simp [unit, h]

lemma unit_of_binding (h : tree.isBinding id) : tree.unit id = some id := by
  simp [unit, h]

lemma isBinding_of_expr (h : tree.HasExpr id) : tree.isBinding id = false := by
  obtain ⟨_, he⟩ := h
  simp [isBinding, decl?, expr?_eq_some.1 he]

lemma isBinding_of_stmt (h : tree.HasStmt id) : tree.isBinding id = false := by
  obtain ⟨_, hs⟩ := h
  simp [isBinding, decl?, stmt?_eq_some.1 hs]

lemma isBinding_of_case (h : tree.HasCase id) : tree.isBinding id = false := by
  obtain ⟨_, hc⟩ := h
  simp [isBinding, decl?, case?_eq_some.1 hc]

lemma isBinding_of_declares {test} (h : tree.Declares test id)
    (ht : ∀ decl, test (.binding decl) = false) : tree.isBinding id = false := by
  obtain ⟨⟨kind, _⟩, hd, hk⟩ := h
  cases kind with
  | binding decl => simp [ht] at hk
  | _ => simp [isBinding, hd, DeclKind.isBinding]

lemma owner_eq_some : tree.owner id = some binding ↔ tree.isBinding binding ∧ tree.Encloses binding id ∧
      ∀ other, tree.isBinding other → tree.Encloses other id → binding ≤ other := by
  have hlt {other} (h : tree.isBinding other) : other < tree.size := (isBinding_iff.1 h).lt_size
  rw [owner, List.find?_range_eq_some]
  simp only [Bool.and_eq_true, decide_eq_true_eq, List.mem_range, Bool.not_and, Bool.or_eq_true,
    Bool.not_eq_true', decide_eq_false_iff_not]
  constructor
  · rintro ⟨⟨⟨hb, h1⟩, h2⟩, -, hleast⟩
    refine ⟨hb, ⟨h1, h2⟩, fun other ho he => ?_⟩
    by_contra hgt
    rcases hleast other (by omega) with (hno | hno) | hno
    · simp [ho] at hno
    · exact hno he.1
    · exact hno he.2
  · rintro ⟨hb, he, hleast⟩
    refine ⟨⟨⟨hb, he.1⟩, he.2⟩, hlt hb, fun other ho => ?_⟩
    by_contra hno
    simp only [not_or, Bool.not_eq_false, not_not] at hno
    have := hleast other hno.1.1 ⟨hno.1.2, hno.2⟩
    omega

lemma owner_eq_none : tree.owner id = none ↔ ∀ other, tree.isBinding other → ¬tree.Encloses other id := by
  have hlt {other} (h : tree.isBinding other) : other < tree.size := (isBinding_iff.1 h).lt_size
  rw [owner, List.find?_eq_none]
  simp only [List.mem_range, Bool.and_eq_true, decide_eq_true_eq]
  exact ⟨fun h other ho he => h other (hlt ho) ⟨⟨ho, he.1⟩, he.2⟩,
    fun h other _ hcon => h other hcon.1.1 ⟨hcon.1.2, hcon.2⟩⟩

lemma isBinding_of_unit (h : tree.unit id = some binding) : tree.isBinding binding := by
  unfold unit at h
  split at h
  next hb => cases h; exact hb
  next => exact (owner_eq_some.1 h).1

lemma le_unit (h : tree.unit id = some binding) : id ≤ binding := by
  unfold unit at h
  split at h
  next => cases h; exact le_rfl
  next => exact (owner_eq_some.1 h).2.1.2.le

end

namespace Rooted

variable {tree : Tree} {root : Nat} (h : tree.Rooted root) {parent id top : Nat}

include h

/-- The children of a node belong to it if it is a binding, and else where it belongs. -/
lemma owner_child (hc : id ∈ tree.children parent) : tree.owner id = tree.unit parent := by
  have hin := h.encloses_child hc
  have hout {other} (he : tree.Encloses other id) : other = parent ∨ tree.Encloses other parent :=
    h.encloses_parent hc he
  unfold unit
  split
  next hb =>
    refine owner_eq_some.2 ⟨hb, hin, fun other _ he => ?_⟩
    rcases hout he with rfl | he
    · exact le_rfl
    · exact he.2.le
  next hb =>
    have hback {other} (ho : tree.isBinding other) (he : tree.Encloses other parent) :
        tree.Encloses other id := h.encloses_trans (isBinding_iff.1 ho).lt_size he hin
    have hown {other} (ho : tree.isBinding other) (he : tree.Encloses other id) :
        tree.Encloses other parent := (hout he).resolve_left fun heq => hb (heq ▸ ho)
    cases hp : tree.owner parent with
    | none =>
      rw [owner_eq_none] at hp ⊢
      exact fun other ho he => hp other ho (hown ho he)
    | some binding =>
      grind [owner_eq_some]

lemma unit_child (hc : id ∈ tree.children parent) (hb : tree.isBinding id = false) :
    tree.unit id = tree.unit parent := by
  rw [unit_of_not_binding hb, h.owner_child hc]

lemma inside_self (hid : id < tree.size) : tree.Inside id id := ⟨h.first_le hid, le_rfl⟩

lemma inside_cases (ht : top < tree.size) (hi : tree.Inside top id) :
    id = top ∨ ∃ child ∈ tree.children top, tree.Inside child id := by
  rcases Nat.eq_or_lt_of_le hi.2 with rfl | hlt
  · exact .inl rfl
  · exact .inr (h.exists_child ht ⟨hi.1, hlt⟩)

omit h in
/-- What stands inside a binding belongs to it or to a binding further inside. -/
lemma unit_of_inside {binding : Nat} (hb : tree.isBinding binding) (hi : tree.Inside binding id) :
    ∃ inner ≤ binding, tree.unit id = some inner := by
  unfold unit
  split
  next => exact ⟨id, hi.2, rfl⟩
  next hid =>
    have he : tree.Encloses binding id := ⟨hi.1, lt_of_le_of_ne hi.2 fun heq => hid (heq ▸ hb)⟩
    cases ho : tree.owner id with
    | none => exact absurd he (owner_eq_none.1 ho binding hb)
    | some inner => exact ⟨inner, (owner_eq_some.1 ho).2.2 binding hb he, rfl⟩

/-- Between a node and a node of its unit above it there are no bindings. -/
lemma isBinding_child_of_unit {child} (hc : child ∈ tree.children top) (hi : tree.Inside child id)
    (hu : tree.unit id = tree.unit top) : tree.isBinding child = false := by
  by_contra hb
  obtain ⟨_, hle, hin⟩ := unit_of_inside (by simpa using hb) hi
  have hge := le_unit (hu ▸ hin)
  have := (h.child hc).2.1
  omega

/-- A statement about a unit below a node holds if it holds of the node and below its children. -/
lemma inside_unit_cases (ht : top < tree.size) {P : Nat → Prop}
    (hself : P top) (hbelow : ∀ child ∈ tree.children top, tree.isBinding child = false →
    ∀ id, tree.Inside child id → tree.unit id = tree.unit child → P id) :
    ∀ id, tree.Inside top id → tree.unit id = tree.unit top → P id := by
  intro id hi hu
  rcases h.inside_cases ht hi with rfl | ⟨child, hc, hin⟩
  · exact hself
  · have hb := h.isBinding_child_of_unit hc hin hu
    exact hbelow child hc hb id hin (by rw [hu, h.unit_child hc hb])

end Rooted

end TraitLang.Tree
