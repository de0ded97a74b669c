import Mathlib.Data.List.Induction
import Mathlib.Tactic.Common
import TraitLang.Check.Program

/-! Stateful work that may halt, by what it leads to. `Ensures` is for work that must end well, and
`Grants` for work that is free to halt. Both are read forwards: the state before a step is known,
and what the step leads to is handed to the rest of the work. -/
namespace TraitLang

variable {ε σ α β : Type}

/-- Work ends well from a state, with an answer and a state that satisfy a condition. -/
def Ensures (work : EStateM ε σ α) (s : σ) (post : α → σ → Prop) : Prop :=
  ∃ a s', work s = .ok a s' ∧ post a s'

/-- If work ends well from a state, then with an answer and a state that satisfy a condition. -/
def Grants (work : EStateM ε σ α) (s : σ) (post : α → σ → Prop) : Prop :=
  ∀ a s', work s = .ok a s' → post a s'

variable {x : EStateM ε σ α} {s : σ} {post : α → σ → Prop}

lemma bind_eq_ok {f s''} {b : β} :
    (x >>= f) s = .ok b s'' ↔ ∃ a s', x s = .ok a s' ∧ f a s' = .ok b s'' := by
  simp only [bind, EStateM.bind]
  cases x s with
  | ok a s' => simp [and_assoc]
  | error e s' => simp

namespace Ensures

variable {post : α → σ → Prop} {after : β → σ → Prop} {s : σ} {x : EStateM ε σ α}

lemma bind {f} (hx : Ensures x s post) (hf : ∀ a s', post a s' → Ensures (f a) s' after) :
    Ensures (x >>= f) s after := by
  obtain ⟨a, s', hxs, ha⟩ := hx
  obtain ⟨b, s'', hfs, hb⟩ := hf a s' ha
  exact ⟨b, s'', bind_eq_ok.2 ⟨a, s', hxs, hfs⟩, hb⟩

lemma read {found f} (hx : Ensures x s fun a s' => a = found ∧ s' = s)
    (hf : Ensures (f found) s after) : Ensures (x >>= f) s after := by
  refine hx.bind ?_
  rintro _ _ ⟨rfl, rfl⟩
  exact hf

lemma imp {post'} (hx : Ensures x s post) (h : ∀ a s', post a s' → post' a s') : Ensures x s post' := by
  obtain ⟨a, s', hxs, ha⟩ := hx
  exact ⟨a, s', hxs, h a s' ha⟩

end Ensures

section

variable {post : α → σ → Prop} {s : σ}

@[simp]
lemma ensures_pure {a} : Ensures (pure a : EStateM ε σ α) s post ↔ post a s := by
  simp [Ensures, pure, EStateM.pure, and_assoc]

@[simp]
lemma ensures_get_bind {f : σ → EStateM ε σ α} : Ensures (get >>= f) s post ↔ Ensures (f s) s post :=
  Iff.rfl

variable {f : β → EStateM ε σ α} {g : σ → σ}

@[simp]
lemma ensures_pure_bind {b} : Ensures (pure b >>= f) s post ↔ Ensures (f b) s post :=
  Iff.rfl

@[simp]
lemma ensures_modify_bind {f : PUnit → EStateM ε σ α} : Ensures (modify g >>= f) s post ↔ Ensures (f ⟨⟩) (g s) post :=
  Iff.rfl

@[simp]
lemma ensures_modify {post} : Ensures (modify g : EStateM ε σ PUnit) s post ↔ post ⟨⟩ (g s) :=
  ⟨fun ⟨_, _, h, hp⟩ => by cases h; exact hp, fun hp => ⟨⟨⟩, g s, rfl, hp⟩⟩

@[simp]
lemma ensures_modifyGet {g} : Ensures (modifyGet g : EStateM ε σ α) s post ↔ post (g s).1 (g s).2 :=
  ⟨fun ⟨_, _, h, hp⟩ => by cases h; exact hp, fun hp => ⟨_, _, rfl, hp⟩⟩

lemma ensures_modifyGet_bind {g} : Ensures (modifyGet g >>= f) s post ↔ Ensures (f (g s).1) (g s).2 post :=
  Iff.rfl

/-- The invariant of a loop that lists answers says of what was done which answers it had. -/
lemma ensures_mapM {f : α → EStateM ε σ β} {I : List α → List β → σ → Prop} (xs : List α)
    (hstep : ∀ done x rest ys s, xs = done ++ x :: rest → I done ys s →
      Ensures (f x) s fun y s' => I (done ++ [x]) (ys ++ [y]) s') (h : I [] [] s) :
    Ensures (xs.mapM f) s fun ys s' => I xs ys s' := by
  induction xs using List.reverseRecOn with
  | nil => exact ensures_pure.2 h
  | append_singleton xs x ih =>
    simp only [List.mapM_append, List.mapM_cons, List.mapM_nil, bind_assoc, pure_bind]
    refine (ih fun done y rest ys s hxs => hstep done y (rest ++ [x]) ys s (by simp [hxs])).bind ?_
    exact fun ys s1 h1 => (hstep xs x [] ys s1 rfl h1).bind fun _ _ => ensures_pure.2

lemma ensures_forM {f : α → EStateM ε σ PUnit} {I : List α → σ → Prop} (xs : List α)
    (hstep : ∀ done x rest s, xs = done ++ x :: rest → I done s →
      Ensures (f x) s fun _ s' => I (done ++ [x]) s') (h : I [] s) :
    Ensures (xs.forM f) s fun _ s' => I xs s' := by
  induction xs using List.reverseRecOn with
  | nil => exact ensures_pure.2 h
  | append_singleton xs x ih =>
    simp only [List.forM_eq_forM, List.forM_append, List.forM_cons, List.forM_nil] at ih ⊢
    refine (ih fun done y rest s hxs => hstep done y (rest ++ [x]) s (by simp [hxs])).bind ?_
    exact fun _ s1 h1 => (hstep xs x [] s1 rfl h1).bind fun _ _ h2 => ensures_pure.2 h2

/-- Does a step for each member of a list in turn, from an index on, and answers whether all went
well. -/
def inTurn (step : Nat → α → EStateM ε σ Bool) : Nat → List α → EStateM ε σ Bool
  | _, [] => return true
  | index, x :: xs => do
    let good ← step index x
    let rest ← inTurn step (index + 1) xs
    return good && rest

/-- The invariant says of what was done whether it went well. -/
lemma ensures_inTurn
    {step : Nat → α → EStateM ε σ Bool} {I : List α → List α → Bool → σ → Prop} (xs : List α)
    (hstep : ∀ done x rest good s, xs = done ++ x :: rest → I done (x :: rest) good s →
      Ensures (step done.length x) s fun first s' => I (done ++ [x]) rest (good && first) s')
      (hi : I [] xs true s) : Ensures (inTurn step 0 xs) s fun good s' => I xs [] good s' := by
  have hrest : ∀ (rest done : List α) (good : Bool) (s : σ), xs = done ++ rest → I done rest good s →
      Ensures (inTurn step done.length rest) s fun last s' => I xs [] (good && last) s' := by
    intro rest
    induction rest with
    | nil =>
      intro done good s hxs hi
      exact ensures_pure.2 (by simpa [hxs] using hi)
    | cons x rest ih =>
      intro done good s hxs hi
      refine (hstep done x rest good s hxs hi).bind fun first s1 h1 => ?_
      have hlater := ih (done ++ [x]) (good && first) s1 (by simp [hxs]) h1
      rw [List.length_append, List.length_singleton] at hlater
      refine hlater.bind fun last s2 h2 => ?_
      simpa [Bool.and_assoc] using h2
  simpa using hrest xs [] true s rfl hi

end

namespace Grants

variable {post : α → σ → Prop} {after : β → σ → Prop} {s : σ} {x : EStateM ε σ α}

lemma bind {f} (hx : Grants x s post) (hf : ∀ a s', post a s' → Grants (f a) s' after) :
    Grants (x >>= f) s after := by
  intro b s'' h
  obtain ⟨a, s', hxs, hfs⟩ := bind_eq_ok.1 h
  exact hf a s' (hx a s' hxs) b s'' hfs

lemma imp {post'} (hx : Grants x s post) (h : ∀ a s', post a s' → post' a s') : Grants x s post' :=
  fun a s' hxs => h a s' (hx a s' hxs)

lemma throw {e} : Grants (MonadExcept.throw e : EStateM ε σ α) s post := by
  intro a s' h
  cases h

end Grants

lemma Ensures.grants (h : Ensures x s post) : Grants x s post := by
  intro a s' hrun
  obtain ⟨_, _, hx, hpost⟩ := h
  cases hrun.symm.trans hx
  exact hpost

@[simp]
lemma grants_pure {a} : Grants (pure a : EStateM ε σ α) s post ↔ post a s := by
  simp [Grants, pure, EStateM.pure]

@[simp]
lemma grants_get_bind {f : σ → EStateM ε σ α} : Grants (get >>= f) s post ↔ Grants (f s) s post :=
  Iff.rfl

lemma run_get_bind (f : σ → EStateM ε σ α) (s : σ) : (get >>= f) s = f s s := rfl

lemma run_modifyGet (f : σ → α × σ) (s : σ) : (modifyGet f : EStateM ε σ α) s = .ok (f s).1 (f s).2 := rfl

namespace Check

lemma grants_tree_bind {f s} {post : α → State → Prop}
    (h : Grants (f s.program.tree) s post) : Grants (tree >>= f) s post :=
  h

section

variable {f : PUnit → Check α} {s : State} {post : α → State → Prop}

lemma ensures_need_bind {demanded} (h : demanded s.program = .ok ()) :
    Ensures (need demanded >>= f) s post ↔ Ensures (f ⟨⟩) s post := by
  simp only [need, bind_assoc, ensures_get_bind, h, ensures_pure_bind]

lemma ensures_updateTree_bind {id change tree} (h : change s.program.tree = some tree)
    (hf : Ensures (f ⟨⟩) { s with program.tree := tree } post) : Ensures (updateTree id change >>= f) s post := by
  simpa only [updateTree, Check.tree, bind_assoc, ensures_get_bind, ensures_pure_bind, h, ensures_modify_bind] using hf

end

/-! ### Verification that does not halt -/

/-- Settling conformances one after the other, up to the first one that halts. -/
def verifyEach (ask : Answerer) (product : DeclId) : List Conformance → Check (List Conformance)
  | [] => return []
  | conformance :: conformances => do
    if conformance.state = .realized then
      match ← verifyConformance ask product conformance with
      | .ok _ settled => return settled :: (← verifyEach ask product conformances)
      | .error defect _ => throw (.defect defect)
    else return conformance :: (← verifyEach ask product conformances)

/-- Settling the conformances of a product as far as it does not halt. -/
def settleConformances (ask : Answerer) (product : DeclId) : Check Bool := do
  ensureConformances product
  let claimed := (← get).conformances.getD product []
  modify fun state => { state with conformances := state.conformances.erase product }
  let settled ← verifyEach ask product claimed
  modify fun state => { state with conformances := state.conformances.insert product settled }
  return settled.all fun conformance => conformance.state ≠ .invalid

variable {s s' : State}

lemma outcome_eq_ok {work} {a : α} : outcome work s = .ok (.ok a) s' ↔ work s = .ok a s' := by
  unfold outcome
  cases work s <;> simp

lemma verifyAll_eq_ok (ask : Answerer) (product : DeclId) (cs : List Conformance) :
      ∀ {s s' settled}, verifyAll ask product cs s = .ok (settled, none) s' ↔
      verifyEach ask product cs s = .ok settled s' := by
  induction cs with
  | nil =>
    intro s s' settled
    simp [verifyAll, verifyEach, pure, EStateM.pure]
  | cons c cs ih =>
    have hrest (first : Conformance) {s s' settled} :
        (do let found ← verifyAll ask product cs; return (first :: found.1, found.2)) s = .ok (settled, none) s' ↔
          (do let found ← verifyEach ask product cs; return first :: found) s = .ok settled s' := by
      rw [bind_eq_ok, bind_eq_ok]
      constructor
      · rintro ⟨⟨rest, halt⟩, s1, hrun, hpure⟩
        cases hpure
        exact ⟨rest, _, ih.1 hrun, rfl⟩
      · rintro ⟨rest, s1, hrun, hpure⟩
        cases hpure
        exact ⟨(rest, none), _, ih.2 hrun, rfl⟩
    intro s s' settled
    unfold verifyAll verifyEach
    split
    · rw [bind_eq_ok, bind_eq_ok]
      constructor
      · rintro ⟨_ | _ | _, s1, hout, hrun⟩
        · cases hrun
        next first => exact ⟨.ok () first, s1, outcome_eq_ok.1 hout, (hrest first).1 hrun⟩
        · cases hrun
      · rintro ⟨_ | _, s1, hrun, hafter⟩
        next first => exact ⟨.ok (.ok () first), s1, outcome_eq_ok.2 hrun, (hrest first).2 hafter⟩
        · cases hafter
    · exact hrest c

lemma checkConformances_eq_ok {ask product good} : checkConformances ask product s = .ok good s' ↔
    settleConformances ask product s = .ok good s' := by
  unfold checkConformances settleConformances
  rw [bind_eq_ok, bind_eq_ok]
  refine exists_congr fun _ => exists_congr fun s1 => and_congr_right fun _ => ?_
  show ((verifyAll ask product _) >>= _) _ = _ ↔ ((verifyEach ask product _) >>= _) _ = _
  rw [bind_eq_ok, bind_eq_ok]
  constructor
  · rintro ⟨⟨settled, halt⟩, s2, hrun, hafter⟩
    cases halt with
    | some halt => cases hafter
    | none => exact ⟨settled, s2, (verifyAll_eq_ok ask product _).1 hrun, hafter⟩
  · rintro ⟨settled, s2, hrun, hafter⟩
    exact ⟨(settled, none), s2, (verifyAll_eq_ok ask product _).2 hrun, hafter⟩

lemma ensures_checkConformances_iff {ask product post} : Ensures (checkConformances ask product)
    s post ↔ Ensures (settleConformances ask product) s post :=
  exists_congr fun _ => exists_congr fun _ => and_congr_left' checkConformances_eq_ok

/-! ### Values and their slots -/

/-- What is left to do once the slot of a value and its type are known. -/
def keepType (slot : ExprId) (type : Ty) (policy : FreePolicy) : Check CheckedExpr := do
  let type ← resolve type
  let type ←
    if type.hasVars && policy = .reject then do
      reportAt (.ambiguousType type.describe) slot
      pure Ty.error
    else pure type
  setExprType slot type
  return ⟨slot, type⟩

lemma checkExpr_eq (ask : Answerer) (id : ExprId) (expected : Option Ty) (useSite : ScopeId)
    (policy : FreePolicy) : checkExpr ask id expected useSite policy = (match expected with
        | some expected => coerce ask id expected useSite .value
        | none => do pure (id, ← ask (.exprType id useSite))) >>= fun answer => keepType answer.1 answer.2 policy := by
  unfold checkExpr keepType
  cases expected with
  | some expected => rfl
  | none => simp only [bind_assoc, pure_bind]

end Check

end TraitLang
