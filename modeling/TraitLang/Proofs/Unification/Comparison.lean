import Mathlib.Logic.Equiv.Basic
import TraitLang.Proofs.Unification.Generality

/-! Solvers compared. A solver that comes of more calls says what the earlier one said, and more.
Two runs that are given the types in either order bind the same variables to the same types, apart
from variables that are bound to each other: there the runs may go opposite ways, and what one of
them leaves free another variable stands for in the other one. -/
namespace TraitLang

open List Ty

namespace Ty

def rename (names : Equiv.Perm Nat) (type : Ty) : Ty := type.apply fun id => .var (names id)

def renameHead (names : Equiv.Perm Nat) : Ty → Ty
  | .var id => .var (names id)
  | type => type

section

variable (names : Equiv.Perm Nat) {type : Ty}

lemma renameHead_eq_var {id} : type.renameHead names = .var (names id) ↔ type = .var id := by
  cases type <;> simp [renameHead]

lemma mentions_rename {id} : (type.rename names).mentions (names id) ↔ type.mentions id := by
  induction type using byParts with
  | whole type ih =>
    cases type with
    | var other => simp [rename]
    | _ =>
      rw [rename, apply_mapParts (by simp), mentions_mapParts, mentions, any_iff, decide_eq_true_eq]
      exact or_congr (by simp) (exists_congr fun part => and_congr_right fun hp => ih part hp)

/-- A type that is no variable has new names in it once its parts have. -/
lemma rename_mapParts (hv : ∀ id, type ≠ .var id) {first second}
    (h : ∀ part ∈ type.parts, second part = (first part).rename names) :
    type.mapParts second = (type.mapParts first).rename names := by
  rw [rename, apply_mapParts fun id => mt mapParts_eq_var.1 (hv id), mapParts_mapParts]
  exact mapParts_inj.2 h

end

end Ty

namespace Solver

/-! ### Solvers that say the same -/

/-- Two solvers by which each type has the same head, apart from the name of a variable. -/
structure Mirrors (names : Equiv.Perm Nat) (solver other : Solver) : Prop where
  lawful : Lawful solver.bindings
  lawful_other : Lawful other.bindings
  head (type : Ty) : other.head type = (solver.head type).renameHead names

section

variable {names : Equiv.Perm Nat} {solver other : Solver}

lemma Mirrors.refl (h : Lawful solver.bindings) : Mirrors (Equiv.refl Nat) solver solver :=
  ⟨h, h, fun type => by cases solver.head type <;> rfl⟩

variable {type first : Ty} {id : Nat} {good : Bool} {after : Solver}

lemma resolve_free (h : Lawful solver.bindings) (hid : solver.head type = .var id) : solver.resolve type = .var id := by
  have hfree := free_of_headBy h hid
  rw [← head_resolve h type, hid]
  exact resolveBy_of_not_mentions fun binding hb => by simpa using (hfree binding hb).symm

lemma lawful_cons (h : Lawful solver.bindings) (hid : solver.head first = .var id)
    (hm : ¬(solver.resolve type).mentions id) : Lawful ((id, type) :: solver.bindings) :=
  ⟨h, free_of_headBy h hid, Bool.eq_false_iff.2 hm⟩

/-- What the two solvers make of a type is the same as well. -/
lemma Mirrors.resolve (h : Mirrors names solver other) (type : Ty) :
    other.resolve type = (solver.resolve type).rename names := by
  induction type using (wellFounded_opens h.lawful).induction with
  | h type ih =>
    have hhead : solver.head type = (boundTo solver.bindings type).elim type solver.head := headBy_eq h.lawful type
    cases hbound : boundTo solver.bindings type with
    | some next =>
      rw [hbound, Option.elim_some] at hhead
      calc other.resolve type = other.resolve next := by
            rw [← head_resolve h.lawful_other, h.head, hhead, ← h.head, head_resolve h.lawful_other]
        _ = (solver.resolve next).rename names := ih next (.inr hbound)
        _ = (solver.resolve type).rename names := by rw [Solver.resolve, Solver.resolve,
          resolveBy_of_boundTo h.lawful hbound]
    | none =>
      rw [hbound, Option.elim_none] at hhead
      have hother := h.head type
      rw [hhead] at hother
      cases type with
      | var id => rw [resolve_free h.lawful hhead, resolve_free h.lawful_other hother, rename, apply_var]
      | _ =>
        rw [Solver.resolve, Solver.resolve, resolveBy_eq h.lawful, resolveBy_eq h.lawful_other]
        exact rename_mapParts names (by simp) fun part hp => ih part (.inl hp)

lemma Mirrors.bind (h : Mirrors names solver other) (hid : solver.head first = .var id) (type : Ty)
    (hb : solver.bind id type = (good, after)) :
    ∃ after', other.bind (names id) type = (good, after') ∧ Mirrors names after after' := by
  have hother : other.head first = .var (names id) := by rw [h.head, hid]; rfl
  rw [Solver.bind] at hb ⊢
  simp only [h.resolve, mentions_rename]
  split at hb
  next hm =>
    cases hb
    exact ⟨other, if_pos hm, h⟩
  next hm =>
    cases hb
    refine ⟨_, if_neg hm, lawful_cons h.lawful hid hm, lawful_cons h.lawful_other hother ?_, fun t => ?_⟩
    · rwa [h.resolve, mentions_rename]
    · have hheads (type : Ty) :
          headBy other.bindings type = (headBy solver.bindings type).renameHead names := h.head type
      simp only [Solver.head, headBy, hheads, renameHead_eq_var]
      split <;> rfl

/-- Of two variables, one is bound to the other one here and the other way round there. -/
lemma Mirrors.cross (h : Mirrors names solver other) {second x y} (hx : solver.head first = .var x)
    (hy : solver.head second = .var y) (hne : x ≠ y) (hb : solver.bind x (.var y) = (good, after)) :
    ∃ after', other.bind (names y) (.var (names x)) = (good, after') ∧
      Mirrors ((Equiv.swap x y).trans names) after after' := by
  have hx' : other.head first = .var (names x) := by rw [h.head, hx]; rfl
  have hy' : other.head second = .var (names y) := by rw [h.head, hy]; rfl
  have hfree : ¬(solver.resolve (.var y)).mentions x := by
    rw [← hy, head_resolve h.lawful, resolve_free h.lawful hy]
    simpa using hne.symm
  have hfree' : ¬(other.resolve (.var (names x))).mentions (names y) := by
    rw [← hx', head_resolve h.lawful_other, resolve_free h.lawful_other hx']
    simpa using hne
  rw [Solver.bind, if_neg hfree] at hb
  cases hb
  refine ⟨_, if_neg hfree', lawful_cons h.lawful hx hfree, lawful_cons h.lawful_other hy' hfree', fun type => ?_⟩
  have hfirst : headBy solver.bindings (.var y) = .var y :=
    headBy_of_unbound fun binding hb heq => free_of_headBy h.lawful hy binding hb (var.inj heq).symm
  have hsecond : headBy other.bindings (.var (names x)) = .var (names x) :=
    headBy_of_unbound fun binding hb heq => free_of_headBy h.lawful_other hx' binding hb (var.inj heq).symm
  have hheads : headBy other.bindings type = (headBy solver.bindings type).renameHead names := h.head type
  simp only [Solver.head, headBy, hfirst, hsecond, hheads, renameHead_eq_var]
  -- a type whose head is one of the two variables now has the other one there, and both stand for
  -- each other
  cases headBy solver.bindings type with
  | var id =>
    grind [renameHead]
  | _ => simp [renameHead]

end

/-! ### Both orders -/

lemma mirrors_unifyAll (unify : Solver → Ty → Ty → Option (Bool × Solver))
    (hunify : ∀ {names solver other first second good after}, Mirrors names solver other →
      unify solver first second = some (good, after) →
      ∃ names after', unify other second first = some (good, after') ∧ Mirrors names after after') :
    ∀ {xs ys names solver other after good},
      Mirrors names solver other → unifyAll unify solver xs ys = some (good, after) →
      ∃ names after', unifyAll unify other ys xs = some (good, after') ∧ Mirrors names after after'
  | [], [], names, _, other, _, _, hm, h | [], _ :: _, names, _, other, _, _, hm, h
  | _ :: _, [], names, _, other, _, _, hm, h => by
    cases h
    exact ⟨names, other, rfl, hm⟩
  | x :: xs, y :: ys, names, solver, other, after, good, hm, h => by
    rw [unifyAll] at h ⊢
    rcases hu : unify solver x y with _ | ⟨good, _⟩
    · rw [hu] at h
      cases h
    · obtain ⟨names, middle', hu', hm⟩ := hunify hm hu
      rw [hu] at h
      rw [hu']
      cases good with
      | false =>
        cases h
        exact ⟨names, middle', rfl, hm⟩
      | true => exact mirrors_unifyAll unify hunify hm h

/-- What is to be done about two types in the other order. -/
def Encounter.mirror (names : Equiv.Perm Nat) : Encounter → Encounter
  | .answer good => .answer good
  | .bind id (.var other) => .bind (names other) (.var (names id))
  | .bind id type => .bind (names id) type
  | .parts xs ys => .parts ys xs

lemma encounter_renameHead (names : Equiv.Perm Nat) (p q : Ty) :
    encounter (q.renameHead names) (p.renameHead names) = (encounter p q).mirror names := by
  fun_cases encounter p q <;> simp_all [encounter, Encounter.mirror, renameHead]
  case case1 => cases q <;> rfl
  case case11 => simp only [sameTraits, Bool.and_comm]
  case case12 h _ => split <;> first | exact absurd rfl (h _ _ _ _ rfl) | simp_all [eq_comm]
  all_goals exact Ne.symm ‹_›

lemma mirrors_unifyWithin (depth : Nat) : ∀ {names solver other first second good after},
    Mirrors names solver other → unifyWithin depth solver first second = some (good, after) →
    ∃ names after', unifyWithin depth other second first = some (good, after') ∧
    Mirrors names after after' := by
  induction depth with
  | zero => intro _ _ _ _ _ _ _ _ h; cases h
  | succ depth ih =>
    intro names solver other first second good after hm h
    rw [unifyWithin_succ] at h ⊢
    rw [hm.head, hm.head, encounter_renameHead]
    cases he : encounter (solver.head first) (solver.head second) with
    | answer answer =>
      rw [he] at h
      cases h
      exact ⟨names, other, rfl, hm⟩
    | parts xs ys =>
      rw [he] at h
      exact mirrors_unifyAll (unifyWithin depth) ih hm h
    | bind id type =>
      rw [he] at h
      obtain ⟨hne, ⟨hx, htype⟩ | ⟨hy, -, htype⟩⟩ := of_encounter_bind he
      · cases type with
        | var y =>
          rw [hx, htype] at hne
          obtain ⟨after', hb, hm⟩ := hm.cross hx htype (fun heq => hne (congrArg var heq)) (Option.some.inj h)
          exact ⟨_, after', congrArg some hb, hm⟩
        | _ =>
          obtain ⟨after', hb, hm⟩ := hm.bind hx _ (Option.some.inj h)
          exact ⟨names, after', congrArg some hb, hm⟩
      · obtain ⟨after', hb, hm⟩ := hm.bind hy _ (Option.some.inj h)
        refine ⟨names, after', ?_, hm⟩
        rw [← hb]
        cases type with
        | var x => exact absurd rfl (htype x)
        | _ => rfl

lemma Mirrors.free_iff {names solver other} (h : Mirrors names solver other) (id : Nat) :
    boundTo solver.bindings (.var id) = none ↔ boundTo other.bindings (.var (names id)) = none := by
  constructor
  · intro hfree
    have hhead : solver.head (.var id) = .var id := by rw [Solver.head, headBy_eq h.lawful, hfree, Option.elim_none]
    have hother : other.head (.var id) = .var (names id) := by rw [h.head, hhead, renameHead]
    exact lookup_eq_none (free_of_headBy h.lawful_other hother)
  · intro hfree
    have hhead : other.head (.var (names id)) = .var (names id) := by
      rw [Solver.head, headBy_eq h.lawful_other, hfree, Option.elim_none]
    rw [h.head, renameHead_eq_var] at hhead
    exact lookup_eq_none (free_of_headBy h.lawful hhead)

/-- Unification gives the same answer whatever the order of the two types, and the solvers that it
leaves behind, after a failure too, make the same of every type, apart from the names of variables
that are not bound. -/
theorem unify_symmetric (calls : List Call) (first second : Ty) :
    ((empty.after calls).unify first second).1 = ((empty.after calls).unify second first).1 ∧
    ∃ names : Equiv.Perm Nat,
      (∀ id, boundTo ((empty.after calls).unify first second).2.bindings (.var id) = none ↔
        boundTo ((empty.after calls).unify second first).2.bindings (.var (names id)) = none) ∧
      ∀ type, ((empty.after calls).unify second first).2.resolve type =
        (((empty.after calls).unify first second).2.resolve type).rename names := by
  have hl := lawful_after calls
  have hdepth : (empty.after calls).depthBound second first =
      (empty.after calls).depthBound first second := by grind [depthBound]
  have hfirst := unifyWithin_eq hl first second (Nat.le_refl _)
  have hsecond := unifyWithin_eq hl second first (Nat.le_refl _)
  generalize (empty.after calls).unify first second = result at hfirst ⊢
  obtain ⟨good, after⟩ := result
  obtain ⟨names, after', hunify, hm⟩ := mirrors_unifyWithin _ (.refl hl) hfirst
  rw [hdepth, hunify] at hsecond
  rw [← Option.some.inj hsecond]
  exact ⟨rfl, names, hm.free_iff, hm.resolve⟩

/-! ### Later solvers -/

/-- After more calls, failed ones included, a variable that was bound is bound to the same type, and
what a type was resolved to before resolves to what the type resolves to now. -/
theorem after_grows (calls more : List Call) : (∀ id type, boundTo (empty.after calls).bindings (.var id) = some type →
      boundTo ((empty.after calls).after more).bindings (.var id) = some type) ∧
    ∀ type, ((empty.after calls).after more).resolve ((empty.after calls).resolve type) =
      ((empty.after calls).after more).resolve type := by
  have hl := lawful_after calls
  obtain ⟨hrefines, hlawful⟩ := refines_after hl more
  refine ⟨fun id type hb => boundTo_of_mem hlawful ?_, hrefines.resolve hl⟩
  obtain ⟨-, newer, hnewer⟩ := hrefines
  obtain ⟨before, after, hmem, -⟩ := lookup_eq_some_iff.1 hb
  rw [hnewer]
  exact mem_append_right _ (by simp [hmem])

end Solver

end TraitLang
