import TraitLang.Proofs.Paired.Homes

/-! Two pieces of work side by side. Whenever the first one ends well the other one ends in the same
way, and an invariant is kept: it speaks of a state and of the levels that the variables made so far
belong to, and this list only grows. -/
namespace TraitLang

open List

section

variable {ε σ α β : Type} (inv : List (Option DeclId) → σ → Prop)

/-- If some work ends well from a state that satisfies the invariant, then the other work ends in
the same way, and the answer and the state satisfy a condition. -/
def Follows (work other : EStateM ε σ α) (homes : List (Option DeclId)) (s : σ)
    (post : α → List (Option DeclId) → σ → Prop) : Prop :=
  inv homes s → ∀ a s', work s = .ok a s' →
    other s = .ok a s' ∧ ∃ homes', homes <+: homes' ∧ inv homes' s' ∧ post a homes' s'

/-- Work side by side with itself. -/
abbrev Keeps (work : EStateM ε σ α) (homes : List (Option DeclId)) (s : σ)
    (post : α → List (Option DeclId) → σ → Prop) : Prop :=
  Follows inv work work homes s post

variable {inv} {homes : List (Option DeclId)} {s : σ}
  {post post' : α → List (Option DeclId) → σ → Prop} {after : β → List (Option DeclId) → σ → Prop}
  {x y : EStateM ε σ α} {f g : α → EStateM ε σ β}

namespace Follows

lemma bind (hx : Follows inv x y homes s post)
      (hf : ∀ a homes' s', homes <+: homes' → inv homes' s' → post a homes' s' →
      Follows inv (f a) (g a) homes' s' after) : Follows inv (x >>= f) (y >>= g) homes s after := by
  intro hi b s'' h
  obtain ⟨a, s', hxs, hfs⟩ := bind_eq_ok.1 h
  obtain ⟨hys, homes1, hp1, hi1, ha⟩ := hx hi a s' hxs
  obtain ⟨hgs, homes2, hp2, hi2, hb⟩ := hf a homes1 s' hp1 hi1 ha hi1 b s'' hfs
  exact ⟨bind_eq_ok.2 ⟨a, s', hys, hgs⟩, homes2, hp1.trans hp2, hi2, hb⟩

/-- Nothing of what some work leads to is needed later on. -/
lemma next (hx : Follows inv x y homes s post) (hf : ∀ a {homes s},
    Follows inv (f a) (g a) homes s after) : Follows inv (x >>= f) (y >>= g) homes s after :=
  hx.bind fun a _ _ _ _ _ => hf a

lemma imp (hx : Follows inv x y homes s post)
    (h : ∀ a homes' s', homes <+: homes' → inv homes' s' → post a homes' s' → post' a homes' s') :
    Follows inv x y homes s post' := by
  intro hi a s' hxs
  obtain ⟨hys, homes', hp, hi', ha⟩ := hx hi a s' hxs
  exact ⟨hys, homes', hp, hi', h a homes' s' hp hi' ha⟩

lemma weaken (hx : Follows inv x y homes s post) : Follows inv x y homes s fun _ _ _ => True :=
  hx.imp fun _ _ _ _ _ _ => trivial

lemma read {b : β → Prop} {z} {f g : β → EStateM ε σ α} (hz : Grants z s fun answer s' =>
    s' = s ∧ b answer) (hf : ∀ answer, b answer → Follows inv (f answer) (g answer) homes s post) :
    Follows inv (z >>= f) (z >>= g) homes s post := by
  intro hi a s'' h
  obtain ⟨answer, s', hzs, hfs⟩ := bind_eq_ok.1 h
  obtain ⟨rfl, hb⟩ := hz answer s' hzs
  obtain ⟨hgs, hrest⟩ := hf answer hb hi a s'' hfs
  exact ⟨bind_eq_ok.2 ⟨answer, s', hzs, hgs⟩, hrest⟩

lemma ite {p : Prop} [Decidable p]
    {x' y'} (hx : p → Follows inv x y homes s post) (hx' : ¬p → Follows inv x' y' homes s post) :
    Follows inv (if p then x else x') (if p then y else y') homes s post := by
  split
  next hp => exact hx hp
  next hp => exact hx' hp

/-- What is known about the state may be used. -/
lemma of_inv (hx : inv homes s → Follows inv x y homes s post) : Follows inv x y homes s post :=
  fun hi => hx hi hi

end Follows

lemma follows_pure {a} (h : post a homes s) : Follows inv (pure a : EStateM ε σ α) (pure a) homes s post := by
  intro hi b s' hb
  cases hb
  exact ⟨rfl, homes, prefix_refl _, hi, h⟩

lemma Follows.last {f : α → β} (hx : Follows inv x y homes s post) :
    Follows inv (x >>= fun a => pure (f a)) (y >>= fun a => pure (f a)) homes s fun _ _ _ => True :=
  hx.next fun _ => follows_pure trivial

lemma follows_throw {e} {other : EStateM ε σ α} : Follows inv (throw e) other homes s post := by
  intro _ a s' h
  cases h

lemma follows_get_bind {f g : σ → EStateM ε σ α} (h : Follows inv (f s) (g s) homes s post) :
    Follows inv (get >>= f) (get >>= g) homes s post :=
  h

variable {change : σ → σ}

lemma follows_modify {post} (hkeep : inv homes s → inv homes (change s))
    (h : post ⟨⟩ homes (change s)) : Follows inv (modify change : EStateM ε σ PUnit) (modify change) homes s post := by
  intro hi a s' ha
  cases ha
  exact ⟨rfl, homes, prefix_refl _, hkeep hi, h⟩

lemma follows_modify_bind {f g : PUnit → EStateM ε σ α} (hkeep : inv homes s → inv homes (change s))
    (h : Follows inv (f ⟨⟩) (g ⟨⟩) homes (change s) post) :
    Follows inv (modify change >>= f) (modify change >>= g) homes s post :=
  fun hi => h (hkeep hi)

lemma follows_modifyGet {change homes'} (hp : homes <+: homes') (hkeep : inv homes s →
    inv homes' (change s).2) (h : inv homes s → post (change s).1 homes' (change s).2) : Follows inv
    (modifyGet change : EStateM ε σ α) (modifyGet change) homes s post := by
  intro hi a s' ha
  cases ha
  exact ⟨rfl, homes', hp, hkeep hi, h hi⟩

lemma follows_modifyGet_bind {change} {f g : β → EStateM ε σ α} (hkeep : inv homes s → inv homes
    (change s).2) (h : Follows inv (f (change s).1) (g (change s).1) homes (change s).2 post) :
    Follows inv (modifyGet change >>= f) (modifyGet change >>= g) homes s post :=
  fun hi => h (hkeep hi)

/-! ### Loops -/

variable {holds : β → List (Option DeclId) → Prop}

/-- The answers of a loop, if what holds of one keeps holding. -/
lemma follows_mapM (hmono : ∀ {b few many}, few <+: many → holds b few → holds b many) (xs : List α)
    {homes s}
    (hstep : ∀ a ∈ xs, ∀ homes' s', homes <+: homes' →
      Follows inv (f a) (g a) homes' s' fun b homes'' _ => holds b homes'') :
    Follows inv (xs.mapM f) (xs.mapM g) homes s fun bs homes' _ => ∀ b ∈ bs, holds b homes' := by
  induction xs generalizing homes s with
  | nil =>
    exact follows_pure (forall_mem_nil _)
  | cons x xs ih =>
    rw [mapM_cons, mapM_cons]
    obtain ⟨hx, hxs⟩ := forall_mem_cons.1 hstep
    refine (hx homes s (prefix_refl _)).bind fun b homes1 s1 hp1 _ hb => ?_
    refine (ih fun a ha homes' s' hp => hxs a ha homes' s' (hp1.trans hp)).bind fun bs homes2 s2 hp2 _ hbs => ?_
    exact follows_pure (forall_mem_cons.2 ⟨hmono hp2 hb, hbs⟩)

lemma follows_forM {f g : α → EStateM ε σ PUnit} (xs : List α) {homes s} (hstep : ∀ a ∈ xs,
    ∀ homes' s', homes <+: homes' → Follows inv (f a) (g a) homes' s' fun _ _ _ => True) :
    Follows inv (xs.forM f) (xs.forM g) homes s fun _ _ _ => True := by
  induction xs generalizing homes s with
  | nil => exact follows_pure trivial
  | cons x xs ih =>
    obtain ⟨hx, hxs⟩ := forall_mem_cons.1 hstep
    refine (hx homes s (prefix_refl _)).bind fun _ homes1 s1 hp1 _ _ => ?_
    exact ih fun a ha homes' s' hp => hxs a ha homes' s' (hp1.trans hp)

/-- Steps for the members of a list that stands for another one, member by member. -/
lemma follows_inTurn {first second : Nat → α → EStateM ε σ Bool} {fits xs ys}
    (hxs : Forall₂ fits xs ys) (hstep : ∀ (index : Nat) (x y : α) homes s, xs[index]? = some x →
    fits x y → Follows inv (first index y) (second index y) homes s fun _ _ _ => True) :
    Follows inv (inTurn first 0 ys) (inTurn second 0 ys) homes s fun _ _ _ => True := by
  have hrest : ∀ (rest done : List α) {ys} homes s, xs = done ++ rest → Forall₂ fits rest ys →
      Follows inv (inTurn first done.length ys) (inTurn second done.length ys) homes s fun _ _ _ => True := by
    intro rest
    induction rest with
    | nil =>
      rintro done _ homes s - ⟨⟩
      exact follows_pure trivial
    | cons x rest ih =>
      rintro done _ homes s hall (_ | ⟨hx, hrest⟩)
      refine (hstep done.length x _ homes s (by simp [hall]) hx).bind fun _ homes1 s1 _ _ _ => ?_
      have hlater := ih (done ++ [x]) homes1 s1 (by simp [hall]) hrest
      rw [length_append, length_singleton] at hlater
      exact hlater.last
  exact hrest xs [] homes s rfl hxs

end

/-- Work with two answerers of its questions, side by side. -/
abbrev Check.Pairs (base : Program) (settings : Settings) (exempt : ExprId → Prop)
    (ask other : Answerer) {α : Type} (work : Answerer → Check α) : List (Option DeclId) → State →
    (α → List (Option DeclId) → State → Prop) → Prop :=
  Follows (Housed base settings exempt) (work ask) (work other)

end TraitLang
