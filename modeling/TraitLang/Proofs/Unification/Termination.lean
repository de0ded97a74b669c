import Mathlib.Data.List.Nodup
import Mathlib.Data.List.Perm.Subperm
import TraitLang.Proofs.Unification.Bindings

/-! Unification comes to an end. It goes down through parts of the two types and of bound types, and
what it binds variables to are such parts again, so there is only so much to go through. On the way
down nothing is met twice, since each type is strictly inside of those before it once variables are
resolved, and stays so when more variables are bound. So the depth that unification allows itself is
never used up, and any number of calls, failed ones included, leaves bindings without circles. -/
namespace TraitLang

open List Ty

namespace Ty

/-! ### Everything in a type -/

mutual

/-- A type and all types inside of it. -/
def inside : Ty → List Ty
  | .tuple types => .tuple types :: insideAll types
  | .function params output => .function params output :: (insideAll params ++ inside output)
  | .existential types => .existential types :: insideAll types
  | type => [type]

def insideAll : List Ty → List Ty
  | [] => []
  | type :: types => inside type ++ insideAll types

end

lemma inside_eq (type : Ty) : type.inside = type :: type.parts.flatMap inside := by
  have hall (types : List Ty) : insideAll types = types.flatMap inside := by
    induction types with
    | nil => rfl
    | cons type types ih => rw [insideAll, ih, flatMap_cons]
  cases type <;> simp [inside, parts, hall]

mutual

lemma length_inside : ∀ type, (inside type).length = type.weight
  | .tuple types | .existential types => by simp [inside, weight, length_insideAll types]
  | .function params output => by
    simp [inside, weight, length_insideAll params, length_inside output]
  | .int | .bool | .string | .product _ _ | .trait _ _ | .param _ _ | .var _ | .error => by simp [inside, weight]

lemma length_insideAll : ∀ types, (insideAll types).length = weightAll types
  | [] => rfl
  | type :: types => by simp [insideAll, weightAll, length_inside type, length_insideAll types]

end

lemma mem_inside_self (type : Ty) : type ∈ type.inside := by
  rw [inside_eq]
  exact mem_cons_self

/-- Types from which going down leads to no others. -/
def ClosedDown (stock : List Ty) : Prop := ∀ whole ∈ stock, ∀ part ∈ whole.parts, part ∈ stock

lemma closedDown_append {first second} (h1 : ClosedDown first) (h2 : ClosedDown second) :
    ClosedDown (first ++ second) := by
  intro whole hw part hp
  rcases mem_append.1 hw with hw | hw
  · exact mem_append_left _ (h1 whole hw part hp)
  · exact mem_append_right _ (h2 whole hw part hp)

lemma closedDown_flatMap {α : Type} {items : List α} {stock}
    (h : ∀ item ∈ items, ClosedDown (stock item)) : ClosedDown (items.flatMap stock) := by
  intro whole hw part hp
  obtain ⟨item, hi, hw⟩ := mem_flatMap.1 hw
  exact mem_flatMap.2 ⟨item, hi, h item hi whole hw part hp⟩

lemma closedDown_cons {whole stock} (hparts : ∀ part ∈ whole.parts, part ∈ stock)
    (h : ClosedDown stock) : ClosedDown (whole :: stock) := by
  intro other ho part hp
  rcases mem_cons.1 ho with rfl | ho
  · exact mem_cons_of_mem _ (hparts part hp)
  · exact mem_cons_of_mem _ (h other ho part hp)

lemma closedDown_inside (type : Ty) : ClosedDown type.inside := by
  induction type using byParts with
  | whole type ih =>
    rw [inside_eq]
    exact closedDown_cons (fun part hp => mem_flatMap.2 ⟨part, hp, mem_inside_self part⟩) (closedDown_flatMap ih)

end Ty

namespace Solver

/-! ### Depth -/

/-- The bindings of a solver are lawful, and all that variables are bound to comes from a stock of
types. -/
structure Stocked (stock : List Ty) (solver : Solver) : Prop where
  lawful : Lawful solver.bindings
  bound : ∀ binding ∈ solver.bindings, binding.2 ∈ stock

/-- There is an answer, and the solver in it knows more, with bindings from a stock of types. -/
def Settles (stock : List Ty) (before : Solver) (answer : Option (Bool × Solver)) : Prop :=
  ∃ good after, answer = some (good, after) ∧ Refines before after ∧ Stocked stock after

section

variable {stock : List Ty} {solver : Solver}

lemma Stocked.settles (h : Stocked stock solver) (good : Bool) : Settles stock solver (some (good, solver)) :=
  ⟨good, solver, rfl, .refl solver, h⟩

lemma headBy_mem : ∀ {bindings type}, (∀ binding ∈ bindings, binding.2 ∈ stock) →
    type ∈ stock → headBy bindings type ∈ stock
  | [], _, _, ht => ht
  | (id, value) :: older, type, h, ht => by
    obtain ⟨hvalue, holder⟩ := forall_mem_cons.1 h
    simp only [headBy]
    split
    · exact headBy_mem holder hvalue
    · exact headBy_mem holder ht

lemma Stocked.head_mem (h : Stocked stock solver) {type} (ht : type ∈ stock) : solver.head type ∈ stock :=
  headBy_mem h.bound ht

lemma Stocked.bind (h : Stocked stock solver) {id first type} (hf : solver.head first = .var id)
    (ht : type ∈ stock) : Settles stock solver (some (solver.bind id type)) := by
  unfold Solver.bind
  split
  · exact h.settles false
  next hm =>
    refine ⟨true, _, rfl, ⟨Nat.le_refl _, [(id, type)], rfl⟩, ⟨h.lawful, free_of_headBy h.lawful hf, ?_⟩, ?_⟩
    · rw [resolve] at hm
      simpa using hm
    · exact forall_mem_cons.2 ⟨ht, h.bound⟩

lemma settles_unifyAll {unify} : ∀ {xs ys solver}, Stocked stock solver →
      (∀ x ∈ xs, ∀ y ∈ ys, ∀ middle, Refines solver middle → Stocked stock middle →
        Settles stock middle (unify middle x y)) →
      Settles stock solver (unifyAll unify solver xs ys)
  | [], [], _, h, _ => h.settles true
  | [], _ :: _, _, h, _ => h.settles false
  | _ :: _, [], _, h, _ => h.settles false
  | x :: xs, y :: ys, solver, h, hunify => by
    obtain ⟨good, middle, hu, hrefines, hmiddle⟩ :=
      hunify x mem_cons_self y mem_cons_self solver (.refl solver) h
    simp only [unifyAll, hu]
    cases good with
    | false => exact ⟨false, middle, rfl, hrefines, hmiddle⟩
    | true =>
      obtain ⟨good, after, hall, hlater, hafter⟩ := settles_unifyAll hmiddle fun x hx y hy last hl =>
        hunify x (mem_cons_of_mem _ hx) y (mem_cons_of_mem _ hy) last (hrefines.trans hl)
      exact ⟨good, after, hall, hrefines.trans hlater, hafter⟩

/-- What is inside of a type stays so when more is known. -/
lemma Refines.below {before after} (h : Refines before after) (hl : Lawful before.bindings)
    {inner outer} (hb : (before.resolve inner).Below (before.resolve outer)) :
    (after.resolve inner).Below (after.resolve outer) := by
  rw [← h.resolve hl inner, ← h.resolve hl outer]
  exact below_resolveBy after.bindings hb

lemma parts_of_encounter {p q xs ys} (h : encounter p q = .parts xs ys) : p.parts = xs ∧ q.parts = ys := by
  rcases of_encounter_parts h with ⟨rfl, rfl, -⟩ | ⟨_, _, _, _, rfl, rfl, rfl, rfl, -⟩ <;> exact ⟨rfl, rfl⟩

/-- Unification has an answer if its depth and the number of types above the first one exceed the
number of all types. -/
lemma settles_unifyWithin (hclosed : Ty.ClosedDown stock) (depth : Nat) :
    ∀ {above solver first second}, Stocked stock solver →
    first ∈ stock → second ∈ stock → above.Nodup → above ⊆ stock → (∀ type ∈ above,
      (solver.resolve first).Below (solver.resolve type)) → stock.length < above.length + depth →
      Settles stock solver (unifyWithin depth solver first second) := by
  induction depth with
  | zero =>
    intro above solver first second _ _ _ hnodup hsubset _ hlong
    have := (hnodup.subperm hsubset).length_le
    omega
  | succ depth ih =>
    intro above solver first second h hfirst hsecond hnodup hsubset habove hlong
    have hf := h.head_mem hfirst
    have hs := h.head_mem hsecond
    have hresolve : solver.resolve (solver.head first) = solver.resolve first := head_resolve h.lawful first
    -- the head of the first type is a new one, and its parts are below it
    have hnew : solver.head first ∉ above := by grind [not_below_self]
    have hdown {x y} (hx : x ∈ (solver.head first).parts) (hy : y ∈ (solver.head second).parts)
        {middle} (hrefines : Refines solver middle) (hmiddle : Stocked stock middle) :
        Settles stock middle (unifyWithin depth middle x y) := by
      have hpart : (solver.resolve x).Below (solver.resolve (solver.head first)) := .single (resolveBy_part _ hx)
      have hbelow : ∀ type ∈ solver.head first :: above, (solver.resolve x).Below (solver.resolve type) := by
        refine forall_mem_cons.2 ⟨hpart, fun type ht => ?_⟩
        rw [hresolve] at hpart
        exact Relation.TransGen.trans hpart (habove type ht)
      refine ih hmiddle (hclosed _ hf _ hx) (hclosed _ hs _ hy) (nodup_cons.2 ⟨hnew, hnodup⟩)
        (cons_subset.2 ⟨hf, hsubset⟩) (fun type ht => hrefines.below h.lawful (hbelow type ht)) ?_
      rw [length_cons]
      omega
    rw [unifyWithin_succ]
    split
    next => exact h.settles _
    next he =>
      obtain ⟨-, ⟨hx, rfl⟩ | ⟨hy, rfl, -⟩⟩ := of_encounter_bind he
      · exact h.bind hx hs
      · exact h.bind hy hf
    next _ _ he =>
      refine settles_unifyAll h fun x hx y hy middle hrefines hmiddle => ?_
      obtain ⟨hxs, hys⟩ := parts_of_encounter he
      exact hdown (hxs ▸ hx) (hys ▸ hy) hrefines hmiddle

end

/-- More depth changes no answer. -/
lemma unifyAll_mono {unify deeper}
    (hunify : ∀ {solver first second result}, unify solver first second = some result →
      deeper solver first second = some result) :
    ∀ {xs ys solver result}, unifyAll unify solver xs ys = some result →
      unifyAll deeper solver xs ys = some result
  | [], [], _, _, h | [], _ :: _, _, _, h | _ :: _, [], _, _, h => h
  | x :: xs, y :: ys, solver, result, h => by
    rw [unifyAll] at h ⊢
    cases hu : unify solver x y with
    | none =>
      rw [hu] at h
      cases h
    | some answer =>
      rw [hu] at h
      rw [hunify hu]
      obtain ⟨_ | _, _⟩ := answer
      · exact h
      · exact unifyAll_mono hunify h

lemma unifyWithin_mono : ∀ {depth solver first second result},
    unifyWithin depth solver first second = some result → unifyWithin (depth + 1) solver first second = some result
  | depth + 1, solver, first, second, result, h => by
    rw [unifyWithin_succ] at h ⊢
    split at h
    next => exact h
    next => exact h
    next => exact unifyAll_mono unifyWithin_mono h

/-! ### Calls -/

section

variable {solver : Solver} (hl : Lawful solver.bindings) (first second : Ty)

include hl

/-- Within the depth that it allows itself, unification has an answer. -/
lemma exists_unify : ∃ stock,
    Settles stock solver (solver.unifyWithin (solver.depthBound first second) first second) := by
  have hlength : ∀ bindings : List (Nat × Ty), (bindings.flatMap fun binding => binding.2.inside).length =
      bindings.foldr (fun binding total => binding.2.weight + total) 0 := by
    intro bindings
    induction bindings with
    | nil => rfl
    | cons binding older ih => rw [flatMap_cons, length_append, ih, length_inside, foldr_cons]
  refine ⟨first.inside ++ (second.inside ++ solver.bindings.flatMap fun binding => binding.2.inside), ?_⟩
  refine settles_unifyWithin ?_ _ ⟨hl, fun binding hb => ?_⟩ ?_ ?_ nodup_nil (nil_subset _) (by simp) ?_
  · exact closedDown_append (closedDown_inside first) (closedDown_append (closedDown_inside second)
      (closedDown_flatMap fun binding _ => closedDown_inside binding.2))
  · exact mem_append_right _ (mem_append_right _ (mem_flatMap.2 ⟨binding, hb, mem_inside_self _⟩))
  · exact mem_append_left _ (mem_inside_self first)
  · exact mem_append_right _ (mem_append_left _ (mem_inside_self second))
  · simp only [length_append, hlength, length_inside, length_nil, depthBound]
    omega

/-- Unification never uses up its depth: whatever depth it is allowed from there on, its answer is
the same. -/
lemma unifyWithin_eq {depth} (hd : solver.depthBound first second ≤ depth) :
    solver.unifyWithin depth first second = some (solver.unify first second) := by
  obtain ⟨_, good, after, hsome, -⟩ := exists_unify hl first second
  have hunify : solver.unify first second = (good, after) := by rw [unify, hsome, Option.getD_some]
  obtain ⟨more, rfl⟩ := Nat.exists_eq_add_of_le hd
  induction more with
  | zero => rw [hunify]; exact hsome
  | succ more ih => exact unifyWithin_mono (ih (Nat.le_add_right _ _))

lemma refines_unify : Refines solver (solver.unify first second).2 ∧ Lawful (solver.unify first second).2.bindings := by
  obtain ⟨_, _, _, hsome, hrefines, hafter⟩ := exists_unify hl first second
  rw [unify, hsome]
  exact ⟨hrefines, hafter.lawful⟩

end

inductive Call where
  | fresh
  | unify (first second : Ty)

/-- Whether it succeeds or not, a call leaves a solver behind. -/
def Call.run (solver : Solver) : Call → Solver
  | .fresh => solver.fresh.2
  | .unify first second => (solver.unify first second).2

def after (solver : Solver) (calls : List Call) : Solver := calls.foldl Call.run solver

lemma refines_after {solver} (hl : Lawful solver.bindings) (calls : List Call) :
    Refines solver (solver.after calls) ∧ Lawful (solver.after calls).bindings := by
  induction calls generalizing solver with
  | nil => exact ⟨.refl solver, hl⟩
  | cons call calls ih =>
    have hcall : Refines solver (call.run solver) ∧ Lawful (call.run solver).bindings := by
      cases call with
      | fresh => exact ⟨⟨Nat.le_succ _, [], rfl⟩, hl⟩
      | unify first second => exact refines_unify hl first second
    obtain ⟨hrest, hlawful⟩ := ih hcall.2
    exact ⟨hcall.1.trans hrest, hlawful⟩

lemma lawful_empty : Lawful empty.bindings := trivial

lemma lawful_after (calls : List Call) : Lawful (empty.after calls).bindings :=
  (refines_after lawful_empty calls).2

/-- After any calls, on any types, no variable leads back to itself through bindings, and going on
from types to their parts and from variables to what they are bound to comes to an end, so that
looking for the head of a type and resolving it do. Unification has an answer, which does not depend
on the depth that it is allowed. Resolving leaves no bound variable, and resolving twice is
resolving once. -/
theorem acyclic_after (calls : List Call) : (∀ id,
    ¬Relation.TransGen (Leads (empty.after calls).bindings) id id) ∧ (WellFounded fun part whole =>
    Opens (empty.after calls).bindings whole part) ∧ (∀ type, (empty.after calls).head type =
      (boundTo (empty.after calls).bindings type).elim type (empty.after calls).head) ∧
    (∀ type, (empty.after calls).resolve type = (boundTo (empty.after calls).bindings type).elim
      (type.mapParts (empty.after calls).resolve) (empty.after calls).resolve) ∧
    (∀ first second, ∀ depth ≥ (empty.after calls).depthBound first second, (empty.after
      calls).unifyWithin depth first second = some ((empty.after calls).unify first second)) ∧
    ∀ type, (∀ id, (boundTo (empty.after calls).bindings (.var id)).isSome →
        ((empty.after calls).resolve type).mentions id = false) ∧ (empty.after calls).resolve
      ((empty.after calls).resolve type) = (empty.after calls).resolve type := by
  have hl := lawful_after calls
  refine ⟨not_leads_self hl, wellFounded_opens hl, headBy_eq hl, resolveBy_eq hl,
    fun first second depth hd => unifyWithin_eq hl first second hd, fun type => ⟨fun id hid => ?_, ?_⟩⟩
  · obtain ⟨bound, hbound⟩ := Option.isSome_iff_exists.1 hid
    obtain ⟨newer, older, heq, -⟩ := lookup_eq_some_iff.1 hbound
    exact not_mentions_resolveBy hl type (id, bound) (by simp [heq])
  · exact (Refines.refl _).resolve hl type

-- a call that fails keeps what it has bound by then
example : (empty.after [.unify (.tuple [.var 0, .int]) (.tuple [.bool, .string])]).bindings = [(0, .bool)] := by decide

end Solver

end TraitLang
