import TraitLang.Proofs.Unification.Compatibility

/-! Unification is complete and binds no more than it has to. A choice of types for variables solves
bindings if each variable stands for what it is bound to. On types without errors and existentials,
unification succeeds exactly if a choice that solves the bindings makes the two types the same, and
the choices that do so are those that solve the bindings afterwards. -/
namespace TraitLang

open List Ty

namespace Ty

/-! ### Choices of types for variables -/

def apply (choice : Nat → Ty) (type : Ty) : Ty :=
  type.replace fun
    | .var id => some (choice id)
    | _ => none

section

variable (choice : Nat → Ty)

@[simp]
lemma apply_var (id : Nat) : (var id).apply choice = choice id := by
  simp [apply, replace]

variable {choice} in
lemma apply_mapParts {type : Ty} (hv : ∀ id, type ≠ .var id) : type.apply choice = type.mapParts (apply choice) := by
  rw [apply, replace_eq]
  cases type with
  | var id => exact absurd rfl (hv id)
  | _ => rfl

@[simp]
lemma apply_tuple (types : List Ty) : (tuple types).apply choice = .tuple (types.map (apply choice)) :=
  apply_mapParts (by simp)

@[simp]
lemma apply_function (params : List Ty) (output : Ty) : (function params output).apply choice =
    .function (params.map (apply choice)) (output.apply choice) :=
  apply_mapParts (by simp)

@[simp]
lemma apply_existential (types : List Ty) :
    (existential types).apply choice = .existential (types.map (apply choice)) :=
  apply_mapParts (by simp)

variable {type : Ty}

lemma apply_part {part whole : Ty} (h : part ∈ whole.parts) : part.apply choice ∈ (whole.apply choice).parts := by
  rw [apply_mapParts (ne_var_of_part h), parts_mapParts]
  exact mem_map_of_mem h

/-- Replacing a variable by a value changes nothing for a choice that cannot tell them apart. -/
lemma apply_assign {id value} (h : choice id = value.apply choice) (type : Ty) :
    (type.assign id value).apply choice = type.apply choice := by
  induction type using byParts with
  | whole type ih =>
    rw [assign_eq]
    split
    next hvar => rw [hvar, apply_var, h]
    next =>
      cases type with
      | var => rfl
      | _ =>
        rw [apply_mapParts fun _ => mt mapParts_eq_var.1 (by simp), apply_mapParts (by simp), mapParts_mapParts]
        exact mapParts_inj.2 ih

/-- What is chosen for a variable is inside of what is made of a type in which the variable
occurs. -/
lemma below_apply {id} (h : type.mentions id) : type = .var id ∨ (choice id).Below (type.apply choice) := by
  refine (eq_or_below_of_mentions h).imp_right fun hbelow => ?_
  have hlift : ((var id).apply choice).Below (type.apply choice) :=
    Relation.TransGen.lift (apply choice) (fun _ _ => apply_part choice) _ _ hbelow
  rwa [apply_var] at hlift

end

/-! ### Types without errors and existentials -/

/-- Errors and existentials, which unification does not compare by what they are made of. -/
def isLoose : Ty → Bool
  | .error | .existential _ => true
  | _ => false

/-- The ends of types without errors and existentials. -/
abbrev Tight (type : Ty) : Prop := type.isLoose = false

lemma traity_tight : Traity Tight := fun _ h => by cases h

/-- Ends of types that agree only if they are the same: there are no errors where these agree with
anything, and existentials of the same traits are the same. -/
structure Canonical (lax : Prop) (leaf other : Ty → Prop) : Prop where
  left : lax → ¬leaf .error
  right : lax → ¬other .error
  existential {xs ys : List Ty} : leaf (.existential xs) → other (.existential ys) →
    Solver.sameTraits (traitDeclsAll xs) (traitDeclsAll ys) → xs = ys

lemma canonical_tight (lax : Prop) : Canonical lax Tight Tight := by
  refine ⟨fun _ h => ?_, fun _ h => ?_, fun h => ?_⟩ <;> cases h

mutual

variable {leaf other : Ty → Prop}

lemma Agree.eq {lax : Prop} (hl : Canonical lax leaf other) : ∀ {first second},
    Agree lax first second → first.Over leaf → second.Over other → first = second
  | _, _, .errorLeft hlax, h, _ => absurd ((over_end rfl).1 h) (hl.left hlax)
  | _, _, .errorRight hlax, _, h => absurd ((over_end rfl).1 h) (hl.right hlax)
  | _, _, .same _, _, _ => rfl
  | _, _, .tuple h, hx, hy => by rw [AgreeAll.eq hl h (over_tuple.1 hx) (over_tuple.1 hy)]
  | _, _, .function hs h, hx, hy => by
    obtain ⟨hps, hr⟩ := over_function.1 hx
    obtain ⟨hqs, ht⟩ := over_function.1 hy
    rw [AgreeAll.eq hl hs hps hqs, Agree.eq hl h hr ht]
  | _, _, .existential _ _ h, hx, hy => by rw [hl.existential ((over_end rfl).1 hx) ((over_end rfl).1 hy) h]

lemma AgreeAll.eq {lax : Prop} (hl : Canonical lax leaf other) : ∀ {xs ys},
    AgreeAll lax xs ys → (∀ x ∈ xs, x.Over leaf) → (∀ y ∈ ys, y.Over other) → xs = ys
  | _, _, .nil, _, _ => rfl
  | _, _, .cons h hs, hx, hy => by
    obtain ⟨hx, hxs⟩ := forall_mem_cons.1 hx
    obtain ⟨hy, hys⟩ := forall_mem_cons.1 hy
    rw [Agree.eq hl h hx hy, AgreeAll.eq hl hs hxs hys]

end

/-- Types that are neither variables nor of the same compound form have a common instance only if
they are the same. -/
lemma eq_of_apply_eq {choice} {first second : Ty} (h : first.apply choice = second.apply choice)
    (hfirst : ∀ id, first ≠ .var id) (hsecond : ∀ id, second ≠ .var id)
    (htuple : ∀ xs ys, first = .tuple xs → second ≠ .tuple ys)
    (hfunction : ∀ ps r qs s, first = .function ps r → second ≠ .function qs s)
    (hexistential : ∀ xs ys, first = .existential xs → second ≠ .existential ys) : first = second := by
  rw [apply_mapParts hfirst, apply_mapParts hsecond] at h
  -- a compound type stays of its form, which the other one does not have
  cases first <;> cases second <;> grind [mapParts]

end Ty

namespace Solver

/-! ### Solutions -/

/-- A choice of types for variables under which every variable is what it is bound to. -/
def Solves (choice : Nat → Ty) (bindings : List (Nat × Ty)) : Prop :=
  ∀ binding ∈ bindings, choice binding.1 = binding.2.apply choice

section

variable {choice : Nat → Ty}

lemma apply_headBy : ∀ {bindings}, Solves choice bindings → ∀ type,
    (headBy bindings type).apply choice = type.apply choice
  | [], _, _ => rfl
  | (id, value) :: older, h, type => by
    obtain ⟨hvalue, holder⟩ := forall_mem_cons.1 h
    have ih := apply_headBy holder
    simp only [headBy]
    split
    next hvar => rw [ih value, ← hvalue, ← ih type, hvar, apply_var]
    next => exact ih type

lemma apply_resolveBy : ∀ {bindings}, Solves choice bindings → ∀ type,
    (resolveBy bindings type).apply choice = type.apply choice
  | [], _, _ => rfl
  | (id, value) :: older, h, type => by
    obtain ⟨hvalue, holder⟩ := forall_mem_cons.1 h
    have ih := apply_resolveBy holder
    rw [resolveBy_cons, apply_assign choice (by rw [ih value, ← hvalue]), ih type]

variable {bindings : List (Nat × Ty)} {id : Nat} {type : Ty} {after solver : Solver}

lemma boundTo_of_mem (h : Lawful bindings) (hm : (id, type) ∈ bindings) : boundTo bindings (.var id) = some type := by
  induction bindings with
  | nil => cases hm
  | cons binding older ih =>
    obtain ⟨other, _⟩ := binding
    obtain ⟨hlawful, hnew, -⟩ := h
    rcases mem_cons.1 hm with heq | hm
    · cases heq
      exact boundTo_cons_self id type older
    · grind [boundTo_cons_of_ne]

lemma apply_resolveBy_var (bindings : List (Nat × Ty)) (type : Ty) :
    type.apply (fun id => resolveBy bindings (.var id)) = resolveBy bindings type := by
  induction type using Ty.byParts with
  | whole type ih =>
    grind [apply_var, apply_mapParts, resolveBy_mapParts, mapParts_inj]

/-- Bindings are solved by what they say themselves. -/
lemma solves_resolveBy (h : Lawful bindings) : Solves (fun id => resolveBy bindings (.var id)) bindings := by
  rintro ⟨id, value⟩ hm
  rw [apply_resolveBy_var]
  exact resolveBy_of_boundTo h (boundTo_of_mem h hm)

lemma Refines.solves {before} (h : Refines before after) (hs : Solves choice after.bindings) :
    Solves choice before.bindings := by
  obtain ⟨-, _, hnewer⟩ := h
  intro binding hb
  exact hs binding (by rw [hnewer]; exact mem_append_right _ hb)

/-! ### Nothing is lost -/

/-- The head of a type resolves to a variable only if it is that variable. -/
lemma eq_var_of_resolve_head (hl : Lawful solver.bindings)
    (h : solver.resolve (solver.head type) = .var id) : solver.head type = .var id := by
  cases hhead : solver.head type with
  | var other =>
    have hfree := free_of_headBy hl hhead
    rw [hhead, resolve, resolveBy_of_not_mentions fun binding hb => by simpa using (hfree binding hb).symm] at h
    exact h
  | _ => rw [hhead, resolve, resolveBy_mapParts _ (by simp)] at h; cases h

/-- A variable can be bound to what a solution says is the same, and the solution stays one. -/
lemma solves_bind (hl : Lawful solver.bindings) (hs : Solves choice solver.bindings)
    (hne : solver.head type ≠ .var id) (heq : choice id = (solver.head type).apply choice)
    {good} (h : solver.bind id (solver.head type) = (good, after)) :
    good = true ∧ Solves choice after.bindings := by
  -- a solution would be inside of itself if the type led back to the variable
  have hcheck : ¬(solver.resolve (solver.head type)).mentions id := by
    intro hm
    rcases below_apply choice hm with hvar | hbelow
    · exact hne (eq_var_of_resolve_head hl hvar)
    · rw [resolve, apply_resolveBy hs, ← heq] at hbelow
      exact not_below_self _ hbelow
  rw [bind, if_neg hcheck] at h
  cases h
  exact ⟨rfl, forall_mem_cons.2 ⟨heq, hs⟩⟩

/-- A solver whose bindings are lawful, without errors and existentials, and solved by a choice of
types. -/
structure Solved (choice : Nat → Ty) (solver : Solver) : Prop where
  lawful : Lawful solver.bindings
  closed : Closed Ty.Tight solver.bindings
  solves : Solves choice solver.bindings

lemma solved_unifyAll {unify} (hunify : ∀ {solver first second good after}, Solved choice solver →
    first.Over Ty.Tight → second.Over Ty.Tight →
      first.apply choice = second.apply choice → unify solver first second = some (good, after) →
      good = true ∧ Solved choice after) :
    ∀ {xs ys solver after good}, Solved choice solver → (∀ x ∈ xs, x.Over Ty.Tight) →
      (∀ y ∈ ys, y.Over Ty.Tight) → xs.map (Ty.apply choice) = ys.map (Ty.apply choice) →
      unifyAll unify solver xs ys = some (good, after) → good = true ∧ Solved choice after
  | [], [], solver, after, good, hs, _, _, _, h => by
    cases h
    exact ⟨rfl, hs⟩
  | [], _ :: _, _, _, _, _, _, _, heq, _ | _ :: _, [], _, _, _, _, _, _, heq, _ => by simp at heq
  | x :: xs, y :: ys, solver, after, good, hs, hx, hy, heq, h => by
    obtain ⟨hx, hxs⟩ := forall_mem_cons.1 hx
    obtain ⟨hy, hys⟩ := forall_mem_cons.1 hy
    obtain ⟨heq, heqs⟩ := cons.inj heq
    simp only [unifyAll] at h
    split at h
    next _ hu => exact solved_unifyAll hunify (hunify hs hx hy heq hu).2 hxs hys heqs h
    next hu => grind

lemma answer_of_apply_eq {p q good} (hp : p.Over Ty.Tight) (heq : p.apply choice = q.apply choice)
    (h : encounter p q = .answer good) : good = true := by
  revert h
  fun_cases encounter p q with
  | case8 xs ys hne => exact absurd (by simpa [Ty.parts] using congrArg (List.length ∘ Ty.parts) heq) hne
  | case10 ps r qs t hne => exact absurd (by simpa [Ty.parts] using congrArg (List.length ∘ Ty.parts) heq) hne
  | case11 xs ys =>
    cases hp
  | case12 =>
    grind [eq_of_apply_eq]
  | _ => simp

lemma solved_unifyWithin (depth : Nat) : ∀ {solver first second good after}, Solved choice solver →
    first.Over Ty.Tight → second.Over Ty.Tight → first.apply choice = second.apply choice →
    unifyWithin depth solver first second = some (good, after) → good = true ∧
    Solved choice after := by
  induction depth with
  | zero => intro _ _ _ _ _ _ _ _ _ h; cases h
  | succ depth ih =>
    intro solver first second good after hs hfirst hsecond heq h
    have hunified := unified_unifyWithin traity_tight (depth + 1) hs.lawful hs.closed hfirst hsecond h
    suffices hgood : good = true ∧ Solves choice after.bindings from
      ⟨hgood.1, hunified.lawful, hunified.closed hs.closed, hgood.2⟩
    have hx : (solver.head first).Over Ty.Tight := over_headBy hs.closed hfirst
    have hy : (solver.head second).Over Ty.Tight := over_headBy hs.closed hsecond
    have heads : (solver.head first).apply choice = (solver.head second).apply choice :=
      (apply_headBy hs.solves first).trans (heq.trans (apply_headBy hs.solves second).symm)
    rw [unifyWithin_succ] at h
    split at h
    next he =>
      cases h
      exact ⟨answer_of_apply_eq hx heads he, hs.solves⟩
    next _ _ he =>
      obtain ⟨hne, ⟨hfirst, rfl⟩ | ⟨hsecond, rfl, -⟩⟩ := of_encounter_bind he
      · rw [hfirst, apply_var] at heads
        exact solves_bind hs.lawful hs.solves (fun hvar => hne (hfirst.trans hvar.symm)) heads (Option.some.inj h)
      · rw [hsecond, apply_var] at heads
        exact solves_bind hs.lawful hs.solves (fun hvar => hne (hvar.trans hsecond.symm)) heads.symm (Option.some.inj h)
    next _ _ he =>
      obtain ⟨hxs, hys⟩ := over_of_encounter he hx hy
      refine (solved_unifyAll (fun hs hx hy heq h => ih hs hx hy heq h) hs hxs hys ?_ h).imp_right Solved.solves
      rcases of_encounter_parts he with ⟨hfirst, hsecond, -⟩ | ⟨_, _, _, _, hfirst, hsecond, rfl, rfl, -⟩
      · simpa [hfirst, hsecond] using heads
      · simpa [hfirst, hsecond] using heads

end

/-- On types without errors and existentials, every choice that solves the bindings and makes two
types the same has unification succeed and still solves the bindings then. So unification fails only
if the types have no common instance; and if it succeeds, all solutions of the bindings that are
then there, of which there is one, make the types the same. -/
theorem unify_mostGeneral (calls : List Call)
    (first second : Ty) (hcalls : ∀ call ∈ calls, call.avoids Ty.isLoose)
    (hfirst : first.any Ty.isLoose = false) (hsecond : second.any Ty.isLoose = false) :
    (∀ choice, Solves choice (empty.after calls).bindings →
    first.apply choice = second.apply choice → ((empty.after calls).unify first second).1 = true ∧
        Solves choice ((empty.after calls).unify first second).2.bindings) ∧
    (((empty.after calls).unify first second).1 = false → ¬∃ choice,
      Solves choice (empty.after calls).bindings ∧ first.apply choice = second.apply choice) ∧
    (((empty.after calls).unify first second).1 = true →
      (∃ choice, Solves choice ((empty.after calls).unify first second).2.bindings) ∧
      ∀ choice, Solves choice ((empty.after calls).unify first second).2.bindings →
        Solves choice (empty.after calls).bindings ∧ first.apply choice = second.apply choice) := by
  have hl := lawful_after calls
  have hclosed : Closed Ty.Tight (empty.after calls).bindings :=
    closed_after traity_tight lawful_empty closed_empty hcalls
  have hx := over_of_any hfirst
  have hy := over_of_any hsecond
  have hunified := unified_unify traity_tight hl hclosed hx hy
  have hcomplete (choice : Nat → Ty) (hs : Solves choice (empty.after calls).bindings)
      (heq : first.apply choice = second.apply choice) : ((empty.after calls).unify first second).1 = true ∧
        Solves choice ((empty.after calls).unify first second).2.bindings :=
    (solved_unifyWithin _ ⟨hl, hclosed,
      hs⟩ hx hy heq (unifyWithin_eq hl first second (Nat.le_refl _))).imp_right Solved.solves
  refine ⟨hcomplete, fun hbad => ?_, fun hgood => ⟨⟨_, solves_resolveBy hunified.lawful⟩, fun choice hs => ?_⟩⟩
  · grind
  · have hresolved := (hunified.agree hgood).eq (canonical_tight _) (over_resolveBy traity_tight
      (hunified.closed hclosed) hx) (over_resolveBy traity_tight (hunified.closed hclosed) hy)
    refine ⟨hunified.refines.solves hs, ?_⟩
    calc first.apply choice
        = (((empty.after calls).unify first second).2.resolve first).apply choice := (apply_resolveBy hs first).symm
      _ = (((empty.after calls).unify first second).2.resolve second).apply choice := by rw [hresolved]
      _ = second.apply choice := apply_resolveBy hs second

/-- A pair of variables, one of which is bound to the other, meets a pair with a function in it. -/
theorem unify_mostGeneral_chained : ((empty.after [.unify (.var 0) (.tuple [.var 1, .var 2]),
    .unify (.var 1) (.var 2)]).unify (.var 0) (.tuple [.function [.var 3] .int, .var 4])).1 = true ∧
    Solves (fun id => if id = 0 then .tuple [.function [.bool] .int, .function [.bool] .int] else
        if id = 3 then .bool else .function [.bool] .int)
      ((empty.after [.unify (.var 0) (.tuple [.var 1, .var 2]), .unify (.var 1) (.var 2)]).unify
      (.var 0) (.tuple [.function [.var 3] .int, .var 4])).2.bindings := by
  refine (unify_mostGeneral [.unify (.var 0) (.tuple [.var 1, .var 2]),
    .unify (.var 1) (.var 2)] (.var 0) (.tuple [.function [.var 3] .int, .var 4]) (by decide)
    (by decide) (by decide)).1 _ ?_ (by decide)
  unfold Solves
  decide

end Solver

end TraitLang
