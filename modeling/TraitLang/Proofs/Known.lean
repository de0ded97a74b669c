import TraitLang.Proofs.Typing

/-! The types that come up while a program is checked. Their ends are declared in the program, and
the error type is among them only if something is wrong with it. -/
namespace TraitLang

open Solver List Bool Ty.Over DeclKind

namespace Ty

/-! ### Replacing generic parameters -/

section

variable {leaf other : Ty → Prop} {type : Ty} (substitution : Substitution)

lemma substitute_cases (type : Ty) :
    type.substitute substitution = type.mapParts (substitute substitution) ∨ ∃ decl name,
    type = .param decl name ∧ substitution[decl]? = some (type.substitute substitution) := by
  simp only [substitute, replace_eq _ type]
  cases type with
  | param decl name =>
    cases hs : substitution[decl]? with
    | none => exact .inl (by simp [mapParts, hs])
    | some value => exact .inr ⟨decl, name, rfl, by simp [hs]⟩
  | _ => exact .inl rfl

/-- At the end of a type only a parameter is replaced. -/
lemma Traity.substitute_end (ht : Traity leaf) (he : type.isEnd)
    (h : leaf type) : type.substitute substitution = type ∨ ∃ decl name, type = .param decl name ∧
    substitution[decl]? = some (type.substitute substitution) := by
  refine (substitute_cases substitution type).imp_left fun heq => heq.trans (mapParts_eq_self.2 fun part hp => ?_)
  have htrait := ht.isTrait he h hp
  cases part with
  | trait => simp [substitute, replace]
  | _ => cases htrait

variable {substitution}

/-- Replacing parameters, by what it does to the ends of a type. -/
lemma Over.substitute_ends (hends : ∀ type, type.isEnd → leaf type → Over other (type.substitute substitution))
    (h : Over leaf type) : Over other (type.substitute substitution) := by
  induction type using byEnds with
  | ends type he => exact hends type he ((over_end he).1 h)
  | whole type he ih =>
    rcases substitute_cases substitution type with heq | ⟨_, _, rfl, -⟩
    · rw [heq, over_mapParts he]
      exact fun part hp => ih part hp ((over_parts he).1 h part hp)
    · cases he

lemma Over.substitute (ht : Traity leaf)
    (hs : ∀ (decl : DeclId) value, substitution[decl]? = some value → Over leaf value)
    (h : Over leaf type) : Over leaf (type.substitute substitution) := by
  refine h.substitute_ends fun type he hleaf => ?_
  rcases ht.substitute_end substitution he hleaf with heq | ⟨_, _, -, heq⟩
  · rw [heq]
    exact (over_end he).2 hleaf
  · exact hs _ _ heq

end

variable {leaf : Ty → Prop} {type : Ty} {test : Ty → Bool}

/-- What no type inside a type is, its ends are not either. -/
lemma Over.of_not_any (h : Over leaf type) (ha : type.any test = false) :
    Over (fun type => leaf type ∧ test type = false) type := by
  induction type using byEnds with
  | ends type he => exact (over_end he).2 ⟨(over_end he).1 h, (any_eq_false_iff.1 ha).1⟩
  | whole type he ih =>
    exact (over_parts he).2 fun part hp =>
      ih part hp ((over_parts he).1 h part hp) ((any_eq_false_iff.1 ha).2 part hp)

lemma any_imp {test'} (hi : ∀ type, test type → test' type) (h : type.any test) : type.any test' := by
  induction type using byParts with
  | whole type ih =>
    grind [any_iff]

/-! ### Spoiled types -/

mutual

/-- A type with the error type in it, not counting the types of functions. -/
def spoiled : Ty → Bool
  | .error => true
  | .tuple elements => spoiledAny elements
  | _ => false

def spoiledAny : List Ty → Bool
  | [] => false
  | type :: types => spoiled type || spoiledAny types

end

lemma spoiledAny_eq (types : List Ty) : spoiledAny types = types.any spoiled := by
  induction types with
  | nil => rfl
  | cons type types ih => rw [spoiledAny, ih, any_cons]

lemma spoiled_tuple {types} : (tuple types).spoiled = false ↔ ∀ type ∈ types, type.spoiled = false := by
  simp [spoiled, spoiledAny_eq]

lemma hasErrors_of_spoiled (h : type.spoiled) : type.hasErrors := by
  induction type using byParts with
  | whole type ih =>
    cases type with
    | error => rfl
    | tuple types =>
      obtain ⟨type, ht, hs⟩ : ∃ type ∈ types, type.spoiled := by simpa [spoiled, spoiledAny_eq] using h
      exact any_of_part ht (ih type ht hs)
    | _ => cases h

lemma spoiled_resolveBy (bindings : List (Nat × Ty)) (h : type.spoiled) : (resolveBy bindings type).spoiled := by
  induction type using byParts with
  | whole type ih =>
    cases type with
    | error => rw [resolveBy_leaf bindings rfl (by simp)]; rfl
    | tuple types =>
      obtain ⟨type, ht, hs⟩ : ∃ type ∈ types, type.spoiled := by simpa [spoiled, spoiledAny_eq] using h
      rw [resolveBy_tuple]
      simp only [spoiled, spoiledAny_eq, any_eq_true]
      exact ⟨_, mem_map_of_mem ht, ih type ht hs⟩
    | _ => cases h

lemma not_spoiled (h : type.hasErrors = false) : type.spoiled = false := by
  by_contra hs
  simp [hasErrors_of_spoiled (by simpa using hs)] at h

lemma of_spoiled_ite {p : Prop} [Decidable p] (h : (if p then type else .error).spoiled = false) : p := by
  by_contra hp
  rw [if_neg hp] at h
  cases h

lemma not_spoiled_of_resolve {solver : Solver} (h : (solver.resolve type).spoiled = false) :
    type.spoiled = false := by
  by_contra hs
  simp [spoiled_resolveBy solver.bindings (by simpa using hs), resolve] at h

end Ty

namespace Check

/-! ### Known types -/

/-- Something was reported, or the program uses a match variable too early. -/
def State.Faulty (base : Program) (s : State) : Prop :=
  s.diagnostics ≠ [] ∨ ∃ id var, base.EarlyUse id var

/-- From a state to a later one: faults stay, and so do the numbers of variables that were made. -/
structure State.Later (base : Program) (s s' : State) : Prop where
  faulty : s.Faulty base → s'.Faulty base
  next_le : s.solver.next ≤ s'.solver.next

/-- What the end of a type may be: error types need a fault, and variables have to be allowed. -/
def End (base : Program) (faulty : Prop) (free : Nat → Prop) : Ty → Prop
  | .product decl _ => base.tree.Declares isProduct decl
  | .trait decl _ => base.tree.Declares isTrait decl
  | .existential types =>
    ∀ type ∈ types, ∃ decl name, type = .trait decl name ∧ base.tree.Declares isTrait decl ∧
      base.tree.declName? decl = some name
  | .error => faulty
  | .var id => free id
  | _ => True

/-- A type that may come up. -/
def Known (base : Program) (s : State) : Ty → Prop :=
  Ty.Over (End base (s.Faulty base) (· < s.solver.next))

/-- A type that may come up where nothing is inferred. -/
def Plain (base : Program) (s : State) : Ty → Prop :=
  Ty.Over (End base (s.Faulty base) fun _ => False)

section

variable {base : Program} {s s' : State} {type : Ty}

lemma traity_end (faulty : Prop) (free : Nat → Prop) : Ty.Traity (End base faulty free) := by
  intro types h type ht
  obtain ⟨_, _, rfl, -⟩ := h type ht
  rfl

lemma End.imp {faulty faulty' : Prop} {free free'} (hf : faulty → faulty') (hv : ∀ id, free id →
    free' id) : ∀ type, End base faulty free type → End base faulty' free' type
  | .error, h => hf h
  | .var id, h => hv id h
  | .product _ _, h | .trait _ _, h | .existential _, h => h
  | .int, _ | .bool, _ | .string, _ | .tuple _, _ | .function _ _, _ | .param _ _, _ => trivial

lemma Known.mono (hl : s.Later base s') (h : Known base s type) : Known base s' type :=
  imp h (End.imp hl.faulty fun _ hid => hid.trans_le hl.next_le)

lemma Plain.mono (hf : s.Faulty base → s'.Faulty base) (h : Plain base s type) : Plain base s' type :=
  imp h (End.imp hf fun _ => id)

lemma Plain.known (h : Plain base s type) : Known base s type :=
  imp h (End.imp id fun _ => False.elim)

lemma Known.faulty (h : Known base s type) (he : type.hasErrors) : s.Faulty base :=
  error (traity_end _ _) h he

lemma known_error (h : s.Faulty base) : Known base s .error := (Ty.over_end rfl).2 h

lemma plain_error (h : s.Faulty base) : Plain base s .error := (Ty.over_end rfl).2 h

variable {types : List Ty}

lemma Known.traits (h : Known base s (.existential types)) :
    ∀ type ∈ types, ∃ decl name, type = .trait decl name ∧ base.tree.Declares isTrait decl := by
  intro type ht
  obtain ⟨decl, name, heq, hd, -⟩ := h type ht
  exact ⟨decl, name, heq, hd⟩

lemma Known.isTrait (h : Known base s (.existential types)) : ∀ type ∈ types, type.isTrait := by
  intro type ht
  obtain ⟨_, _, rfl, -⟩ := h.traits type ht
  rfl

lemma Known.ite_error {p : Prop} [Decidable p] (h : p → Known base s type)
    (hf : ¬p → s.Faulty base) : Known base s (if p then type else .error) := by
  split
  next hp => exact h hp
  next hp => exact known_error (hf hp)

lemma Known.resolveBy {bindings} (hb : ∀ binding ∈ bindings, binding.1 < s.solver.next ∧
    Known base s binding.2) (h : Known base s type) : Known base s (resolveBy bindings type) :=
  over_resolveBy (traity_end _ _) (fun binding hm _ => (hb binding hm).2) h

lemma Plain.hasVars (h : Plain base s type) : type.hasVars = false := by
  by_contra hv
  obtain ⟨_, hid⟩ := var (traity_end _ _) h (by simpa using hv)
  exact hid

lemma resolveBy_of_not_hasVars (bindings : List (Nat × Ty)) (h : type.hasVars = false) :
    resolveBy bindings type = type := by
  refine resolveBy_of_not_mentions fun binding _ => ?_
  by_contra hm
  have hvars : type.hasVars := Ty.any_imp (fun t ht => by
    obtain rfl := of_decide_eq_true ht
    rfl) (not_eq_false _ ▸ hm)
  simp [hvars] at h

lemma Plain.resolveBy (h : Plain base s type) (bindings : List (Nat × Ty)) : resolveBy bindings type = type :=
  resolveBy_of_not_hasVars bindings h.hasVars

end

end Check

end TraitLang
