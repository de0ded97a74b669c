import TraitLang.Check.Program
import TraitLang.Proofs.Known
import TraitLang.Proofs.Ownership

/-! How the state of checking changes. Work on a node writes to the nodes of its unit below it, and
besides may check bindings that no one had asked for; all else stays, except that more becomes known
about inference variables. So nodes that were checked stay well typed, and nodes that wait stay
fresh. -/
namespace TraitLang

namespace Program.Descends

variable {base program : Program} (h : Descends base program)

include h

lemma isBinding_eq (id : Nat) : program.tree.isBinding id = base.tree.isBinding id := by
  unfold Tree.isBinding
  exact h.decl?_induct id (fun _ => rfl) fun _ _ _ => rfl

lemma not_expr_or_case {id} (hb : base.tree.isBinding id) : ¬program.tree.HasExpr id ∧ ¬program.tree.HasCase id := by
  obtain ⟨_, hd, -⟩ := Tree.isBinding_iff.1 ((h.isBinding_eq id).trans hb)
  obtain ⟨hexpr, -, hcase⟩ := Tree.decl_only hd
  exact ⟨hexpr, hcase⟩

end Program.Descends

namespace Check

/-! ### Places of work -/

/-- The nodes of a unit with numbers from one to another. -/
structure Region where
  unit : Option Nat
  low : Nat
  high : Nat

namespace Region

variable (base : Program)

/-- The place of work on a node: what is below it in its unit. -/
def below (top : Nat) : Region := ⟨base.tree.owner top, base.tree.first top, top⟩

/-- The place of work on the inside of a binding. -/
def within (binding : Nat) : Region := ⟨some binding, base.tree.first binding, binding⟩

def single (id : Nat) : Region := ⟨base.tree.unit id, id, id⟩

def nowhere : Region := ⟨none, 1, 0⟩

/-- The node of a number may be written to. -/
def HasNode (region : Region) (id : Nat) : Prop :=
  base.tree.unit id = region.unit ∧ region.low ≤ id ∧ id ≤ region.high

/-- The verdict on a declaration and its return statements may be written to. They belong to the
unit around the declaration. -/
def HasVerdict (region : Region) (id : Nat) : Prop :=
  base.tree.owner id = region.unit ∧ region.low ≤ id ∧ id ≤ region.high

def Within (small large : Region) : Prop :=
  small.high < small.low ∨ small.unit = large.unit ∧ large.low ≤ small.low ∧ small.high ≤ large.high

def Apart (a b : Region) : Prop :=
  a.unit ≠ b.unit ∨ a.high < b.low ∨ b.high < a.low ∨ b.high < b.low

/-- A region has nothing below a node. -/
def Misses (region : Region) (top : Nat) : Prop :=
  region.high < region.low ∨ region.high < base.tree.first top ∨ top < region.low

variable {base} {small large : Region} {id : Nat}

lemma not_hasNode_nowhere (id : Nat) : ¬nowhere.HasNode base id := by
  rintro ⟨-, h1, h2⟩
  have := h1.trans h2
  simp [nowhere] at this

variable {region a b : Region}

lemma not_hasNode_of_lt (h : id < region.low) : ¬region.HasNode base id :=
  fun hn => absurd hn.2.1 (Nat.not_le_of_lt h)

lemma Misses.hasNode {top} (h : region.Misses base top) (hi : base.tree.Inside top id) :
    ¬region.HasNode base id := by
  rintro ⟨-, h1, h2⟩
  obtain ⟨h3, h4⟩ := hi
  unfold Misses at h
  omega

lemma Within.hasNode (h : small.Within large) (hn : small.HasNode base id) : large.HasNode base id := by
  obtain ⟨hu, h1, h2⟩ := hn
  rcases h with h | ⟨he, h3, h4⟩
  · omega
  · exact ⟨hu.trans he, by omega, by omega⟩

lemma Within.hasVerdict (h : small.Within large) (hn : small.HasVerdict base id) : large.HasVerdict base id := by
  obtain ⟨hu, h1, h2⟩ := hn
  rcases h with h | ⟨he, h3, h4⟩
  · omega
  · exact ⟨hu.trans he, by omega, by omega⟩

lemma Apart.hasNode (h : a.Apart b) (ha : a.HasNode base id) : ¬b.HasNode base id := by
  rintro ⟨hb, h3, h4⟩
  obtain ⟨ha, h1, h2⟩ := ha
  rcases h with h | h
  · exact h (ha.symm.trans hb)
  · omega

lemma Apart.hasVerdict (h : a.Apart b) (ha : a.HasVerdict base id) : ¬b.HasVerdict base id := by
  rintro ⟨hb, h3, h4⟩
  obtain ⟨ha, h1, h2⟩ := ha
  rcases h with h | h
  · exact h (ha.symm.trans hb)
  · omega

end Region

/-! ### Nodes before and after -/

/-- A binding that no one has asked for yet. -/
def State.Untouched (s : State) (binding : Nat) : Prop :=
  s.declTypes[binding]? = none ∧ binding ∉ s.inProgress

/-- A unit that may be worked on: it lies outside of bindings, or its binding is being checked. -/
def State.Open (s : State) (unit : Option Nat) : Prop :=
  ∀ binding, unit = some binding → binding ∈ s.inProgress

/-- A unit was checked in between. -/
def Entered (s s' : State) (unit : Option Nat) : Prop :=
  ∃ binding, unit = some binding ∧ s.Untouched binding ∧ (s'.declTypes[binding]?).isSome

lemma State.Open.not_entered {s s' unit} (h : s.Open unit) : ¬Entered s s' unit := by
  rintro ⟨binding, rfl, hu, -⟩
  exact hu.2 (h binding rfl)

section

variable (base : Program)

/-- What is recorded about a node is as it was, up to inference variables that got known. -/
structure Same (s s' : State) (id : Nat) : Prop where
  node_eq : s'.program.tree.node? id = s.program.tree.node? id
  expr_eq : s'.exprType? id = s.exprTypes[id]?.map s'.solver.resolve
  var_eq : base.tree.Declares DeclKind.isVar id → s'.declTypes[id]? = s.declTypes[id]?

/-- Nothing is recorded about a node yet. -/
structure Fresh (s : State) (id : Nat) : Prop where
  node_eq : s.program.tree.node? id = base.tree.node? id
  expr_eq : s.exprTypes[id]? = none
  var_eq : base.tree.Declares DeclKind.isVar id → s.declTypes[id]? = none

structure FreshIn (region : Region) (s : State) : Prop where
  node : ∀ id, region.HasNode base id → Fresh base s id
  verdict : ∀ id, region.HasVerdict base id → s.verdicts[id]? = none ∧ s.returns[id]? = none

variable {base} {s s' s'' : State} {id : Nat}

protected lemma Same.refl (s : State) (id : Nat) : Same base s s id :=
  ⟨rfl, rfl, fun _ => rfl⟩

lemma Same.trans (h1 : Same base s s' id) (h2 : Same base s' s'' id) (hl : Solver.Lawful s'.solver.bindings)
    (hr : s'.solver.Refines s''.solver) : Same base s s'' id := by
  refine ⟨h2.node_eq.trans h1.node_eq, ?_, fun hv => (h2.var_eq hv).trans (h1.var_eq hv)⟩
  have hresolve (t : Option Ty) : t.map s''.solver.resolve = (t.map s'.solver.resolve).map s''.solver.resolve := by
    cases t with
    | none => rfl
    | some type => simp [hr.resolve hl]
  rw [h2.expr_eq, hresolve, ← State.exprType?, h1.expr_eq, ← hresolve]

lemma Fresh.same (h : Fresh base s id) (hs : Same base s s' id) : Fresh base s' id := by
  refine ⟨hs.node_eq.trans h.node_eq, ?_, fun hv => (hs.var_eq hv).trans (h.var_eq hv)⟩
  have := hs.expr_eq
  rw [h.expr_eq] at this
  simpa [State.exprType?] using this

end

/-! ### Change -/

/-- What work in a region may change. -/
structure Evolves (base : Program) (region : Region) (s s' : State) : Prop where
  inProgress_eq : s'.inProgress = s.inProgress
  settings_eq : s'.settings = s.settings
  size_le : s.program.tree.size ≤ s'.program.tree.size
  refines : s.solver.Refines s'.solver
  declTypes : s.declTypes.Grows s'.declTypes
  signatures : s.signatures.Grows s'.signatures
  generics : s.generics.Grows s'.generics
  returns : ∀ {id : Nat} {record : ReturnRecord}, record ∈ s.returns.getD id [] →
  record ∈ s'.returns.getD id []
  verdicts : ∀ {id : Nat}, (s.verdicts[id]?).isSome → (s'.verdicts[id]?).isSome
  diagnostics : s'.diagnostics = [] → s.diagnostics = []
  added : ∀ id, base.tree.size ≤ id → id < s.program.tree.size → Same base s s' id
  nodes : ∀ id < base.tree.size, region.HasNode base id ∨ Entered s s' (base.tree.unit id) ∨
  Same base s s' id
  judged : ∀ id < base.tree.size, region.HasVerdict base id ∨ Entered s s' (base.tree.owner id) ∨
    s'.verdicts[id]? = s.verdicts[id]? ∧ s'.returns[id]? = s.returns[id]?

namespace Evolves

variable {base : Program} {region : Region} {s s' s'' : State}

protected lemma refl (base : Program) (region : Region) (s : State) : Evolves base region s s where
  inProgress_eq := rfl
  settings_eq := rfl
  size_le := le_rfl
  refines := .refl _
  declTypes := id
  signatures := id
  generics := id
  returns := id
  verdicts := id
  diagnostics := id
  added := fun id _ _ => .refl s id
  nodes := fun id _ => .inr (.inr (.refl s id))
  judged := fun _ _ => .inr (.inr ⟨rfl, rfl⟩)

section

variable (h : Evolves base region s s')

include h

lemma faulty : s.Faulty base → s'.Faulty base :=
  Or.imp_left fun hd hd' => hd (h.diagnostics hd')

lemma later : s.Later base s' := ⟨h.faulty, h.refines.1⟩

lemma untouched {binding} (hu : s'.Untouched binding) : s.Untouched binding := by
  refine ⟨?_, h.inProgress_eq ▸ hu.2⟩
  cases ht : s.declTypes[binding]? with
  | none => rfl
  | some type => simpa [h.declTypes ht] using hu.1

lemma isSome_declTypes {id : Nat} (hs : (s.declTypes[id]?).isSome) : (s'.declTypes[id]?).isSome := by
  obtain ⟨_, ht⟩ := Option.isSome_iff_exists.1 hs
  simp [h.declTypes ht]

lemma weaken {large} (hw : region.Within large) : Evolves base large s s' :=
  { h with
    nodes := fun id hid => (h.nodes id hid).imp_left hw.hasNode
    judged := fun id hid => (h.judged id hid).imp_left hw.hasVerdict }

end

protected lemma trans (h1 : Evolves base region s s') (h2 : Evolves base region s' s'')
    (hl : Solver.Lawful s'.solver.bindings) : Evolves base region s s'' where
  inProgress_eq := h2.inProgress_eq.trans h1.inProgress_eq
  settings_eq := h2.settings_eq.trans h1.settings_eq
  size_le := h1.size_le.trans h2.size_le
  refines := h1.refines.trans h2.refines
  declTypes := h2.declTypes ∘ h1.declTypes
  signatures := h2.signatures ∘ h1.signatures
  generics := h2.generics ∘ h1.generics
  returns := h2.returns ∘ h1.returns
  verdicts := h2.verdicts ∘ h1.verdicts
  diagnostics := h1.diagnostics ∘ h2.diagnostics
  added := fun id hb hs =>
    (h1.added id hb hs).trans (h2.added id hb (hs.trans_le h1.size_le)) hl h2.refines
  nodes := fun id hid => by
    rcases h1.nodes id hid with hr | ⟨binding, hu, hun, ht⟩ | hsame
    · exact .inl hr
    · exact .inr (.inl ⟨binding, hu, hun, h2.isSome_declTypes ht⟩)
    · rcases h2.nodes id hid with hr | ⟨binding, hu, hun, ht⟩ | hsame'
      · exact .inl hr
      · exact .inr (.inl ⟨binding, hu, h1.untouched hun, ht⟩)
      · exact .inr (.inr (hsame.trans hsame' hl h2.refines))
  judged := fun id hid => by
    rcases h1.judged id hid with hr | ⟨binding, hu, hun, ht⟩ | hsame
    · exact .inl hr
    · exact .inr (.inl ⟨binding, hu, hun, h2.isSome_declTypes ht⟩)
    · rcases h2.judged id hid with hr | ⟨binding, hu, hun, ht⟩ | hsame'
      · exact .inl hr
      · exact .inr (.inl ⟨binding, hu, h1.untouched hun, ht⟩)
      · grind

/-- Nodes away from the place of work stay, unless their binding was still untouched. -/
lemma same (h : Evolves base region s s') {id} (hid : id < base.tree.size)
    (hr : ¬region.HasNode base id) (hu : ∀ binding, base.tree.unit id = some binding →
    ¬s.Untouched binding) : Same base s s' id := by
  rcases h.nodes id hid with hn | ⟨binding, hb, hun, -⟩ | hsame
  · exact absurd hn hr
  · exact absurd hun (hu binding hb)
  · exact hsame

lemma openUnit (h : Evolves base region s s') {unit} (ho : s.Open unit) : s'.Open unit := by
  intro binding hb
  rw [h.inProgress_eq]
  exact ho binding hb

end Evolves

end Check

end TraitLang
