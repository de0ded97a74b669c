import TraitLang.Proofs.Unification.Termination

/-! Unification is sound. Types that it makes equal are compatible, in the sense that errors go with
everything and existentials are compared by their traits, once variables are resolved. This stays so
whatever is unified afterwards, although variables that were free then are bound later. -/
namespace TraitLang

open Bool List

namespace Ty

/-! ### Compatible types -/

/-- The error type goes with every type, tuples and functions are compared part by part,
existentials by the traits in them, and all other types are the same. -/
inductive Compatible : Ty → Ty → Prop
  | errorLeft (type : Ty) : Compatible .error type
  | errorRight (type : Ty) : Compatible type .error
  | tuple {xs ys : List Ty} : List.Forall₂ Compatible xs ys → Compatible (.tuple xs) (.tuple ys)
  | function {ps qs : List Ty} {r s : Ty} : List.Forall₂ Compatible ps qs → Compatible r s →
    Compatible (.function ps r) (.function qs s)
  | existential {xs ys : List Ty} : (∀ decl, decl ∈ traitDeclsAll xs ↔ decl ∈ traitDeclsAll ys) →
    Compatible (.existential xs) (.existential ys)
  | leaf {type : Ty} : type.isLeaf → Compatible type type

lemma Compatible.refl (type : Ty) : Compatible type type := by
  induction type using byParts with
  | whole type ih =>
    cases type with
    | tuple => exact .tuple (forall₂_same.2 ih)
    | function =>
      obtain ⟨hparams, houtput⟩ := forall_mem_append.1 ih
      exact .function (forall₂_same.2 hparams) (houtput _ (mem_singleton_self _))
    | existential => exact .existential fun _ => Iff.rfl
    | _ => exact .leaf rfl

lemma mem_iff_of_sameTraits {first second} (h : Solver.sameTraits first second) (decl : DeclId) :
    decl ∈ first ↔ decl ∈ second := by
  simp only [Solver.sameTraits, and_eq_true, all_eq_true, contains_iff_mem] at h
  exact ⟨h.1 decl, h.2 decl⟩

mutual

lemma Agree.compatible {lax : Prop} : ∀ {first second}, Agree lax first second → Compatible first second
  | _, _, .errorLeft _ => .errorLeft _
  | _, _, .errorRight _ => .errorRight _
  | _, _, .same type => .refl type
  | _, _, .tuple h => .tuple (AgreeAll.compatible h)
  | _, _, .function hs h => .function (AgreeAll.compatible hs) (Agree.compatible h)
  | _, _, .existential _ _ h => .existential (mem_iff_of_sameTraits h)

lemma AgreeAll.compatible {lax : Prop} : ∀ {xs ys}, AgreeAll lax xs ys → List.Forall₂ Compatible xs ys
  | _, _, .nil => .nil
  | _, _, .cons h hs => .cons (Agree.compatible h) (AgreeAll.compatible hs)

end

/-! ### Types without parts of some kind -/

/-- An existential that is not made of traits. -/
def isIllPacked : Ty → Bool
  | .existential types => !types.all isTrait
  | _ => false

variable {test : Ty → Bool}

lemma traity_of_isIllPacked (h : ∀ type, test type = false → type.isIllPacked = false) :
    Traity fun type => test type = false := by
  intro types ht
  simpa [isIllPacked] using h _ ht

/-- What is true of no type in a type is not true at its ends. -/
lemma over_of_any {type : Ty} (h : type.any test = false) : type.Over fun type => test type = false := by
  induction type using byEnds with
  | ends type he => exact (over_end he).2 (any_eq_false_iff.1 h).1
  | whole type he ih => exact (over_parts he).2 fun part hp => ih part hp ((any_eq_false_iff.1 h).2 part hp)

end Ty

namespace Solver

def Call.avoids (test : Ty → Bool) : Call → Bool
  | .fresh => true
  | .unify first second => !first.any test && !second.any test

lemma closed_empty {leaf} : Closed leaf empty.bindings := fun _ h => by cases h

/-- What calls avoid does not come into bindings. -/
lemma closed_after {test} (ht : Ty.Traity fun type => test type = false) {solver : Solver}
    (hl : Lawful solver.bindings) (ho : Closed (fun type => test type = false) solver.bindings)
    {calls} (h : ∀ call ∈ calls, call.avoids test) :
    Closed (fun type => test type = false) (solver.after calls).bindings := by
  induction calls generalizing solver with
  | nil => exact ho
  | cons call calls ih =>
    obtain ⟨hcall, hcalls⟩ := forall_mem_cons.1 h
    cases call with
    | fresh => exact ih (show Lawful solver.fresh.2.bindings from hl) ho hcalls
    | unify first second =>
      simp only [Call.avoids, and_eq_true, not_eq_true'] at hcall
      have hunified := unified_unify ht hl ho (Ty.over_of_any hcall.1) (Ty.over_of_any hcall.2)
      exact ih hunified.lawful (hunified.closed ho) hcalls

/-- If existentials are made of traits, types that unification makes equal are compatible from then
on. -/
theorem compatible_unify (earlier later : List Call)
    (first second : Ty) (hearlier : ∀ call ∈ earlier, call.avoids Ty.isIllPacked)
    (hfirst : first.any Ty.isIllPacked = false) (hsecond : second.any Ty.isIllPacked = false)
    (hgood : ((empty.after earlier).unify first second).1 = true) :
    Ty.Compatible ((((empty.after earlier).unify first second).2.after later).resolve first)
      ((((empty.after earlier).unify first second).2.after later).resolve second) := by
  have ht := Ty.traity_of_isIllPacked fun type h => h
  have hclosed := closed_after ht lawful_empty closed_empty hearlier
  have hunified := unified_unify ht (lawful_after earlier) hclosed (Ty.over_of_any hfirst) (Ty.over_of_any hsecond)
  have hlater := (refines_after hunified.lawful later).1
  exact (hlater.agree hunified.lawful (hunified.agree hgood)).compatible

/-- A variable is bound to a pair with an error in it, another one to an existential; both are met
again in another order, and what was free is bound in the end. -/
theorem compatible_unify_chained :
    ((empty.after [.fresh, .fresh, .fresh, .unify (.function [.var 0] (.var 1))
        (.function [.tuple [.var 2, .error]] (.existential [.trait 0 "A", .trait 1 "B"]))]).unify
      (.tuple [.var 1, .var 0]) (.tuple [.existential [.trait 1 "B", .trait 0 "A", .trait 1 "B"],
      .tuple [.var 3, .bool]])).1 = true ∧
    Ty.Compatible (.tuple [.existential [.trait 0 "A", .trait 1 "B"], .tuple [.string, .error]])
      (.tuple [.existential [.trait 1 "B", .trait 0 "A", .trait 1 "B"],
      .tuple [.string, .bool]]) := by
  have hgood : ((empty.after [.fresh, .fresh, .fresh, .unify (.function [.var 0] (.var 1))
        (.function [.tuple [.var 2, .error]] (.existential [.trait 0 "A", .trait 1 "B"]))]).unify
      (.tuple [.var 1, .var 0]) (.tuple [.existential [.trait 1 "B", .trait 0 "A", .trait 1 "B"],
      .tuple [.var 3, .bool]])).1 = true := by
    decide
  exact ⟨hgood, compatible_unify _ [.unify (.var 2) .string] _ _ (by decide) (by decide) (by decide) hgood⟩

end Solver

end TraitLang
