import TraitLang.Proofs.Completion
import TraitLang.Proofs.Numbering
import TraitLang.Proofs.Paired.Declarations

/-! Whole programs, with two answerers side by side. Questions that an answerer is never asked are
answered anyhow: so an answerer that only knows the expressions of the program, and does not answer
questions about others, serves to show that another one is never asked from a wrong scope. -/
namespace TraitLang.Check

open State Query

/-! ### Answerers -/

namespace Query

/-- Answers questions that pass a test by their rules, to a depth, and hands the others to another
answerer. -/
def answerWhere (test : ⦃α : Type⦄ → Query α → State → Bool) (stray : Answerer) : (depth : Nat) → Answerer
  | 0 => fun _ _ => throw .exhausted
  | depth + 1 => fun _ query state =>
    if test query state then rule (answerWhere test stray depth) query state else stray query state

/-- A result that is taken if it is an error or passes a test. -/
def takeIf {α : Type} (test : α → State → Bool) (otherwise : EStateM.Result Halt State α) :
    EStateM.Result Halt State α → EStateM.Result Halt State α
  | .ok answer state => if test answer state then .ok answer state else otherwise
  | .error halt state => .error halt state

/-- Answers questions by their rules, to a depth. Where an answer does not pass a test, another
answerer gets the question. -/
def answerWatched (watch : ⦃α : Type⦄ → Query α → State → α → State → Bool) (stray : Answerer) :
    (depth : Nat) → Answerer
  | 0 => fun _ _ => throw .exhausted
  | depth + 1 => fun _ query state =>
    takeIf (watch query state) (stray query state) (rule (answerWatched watch stray depth) query state)

/-- Whether a question about the type of an expression is about one of the program. -/
def isKnown (program : Program) {α : Type} : Query α → Bool
  | .exprType id _ => (program.tree.expr? id).isSome
  | .verdict _ | .declType _ => true

/-- Whether the type of an expression is asked for from the scope that the expression is in. -/
def isPlaced (program : Program) {α : Type} : Query α → Bool
  | .exprType id useSite => program.scopeOf id = some useSite
  | .verdict _ | .declType _ => true

open Classical in
/-- Answers questions about the expressions of a program only, and only if the numbers of variables
are in order. -/
noncomputable def answerKnown (program : Program) : (depth : Nat) → Answerer :=
  answerWatched (fun _ query s answer s' =>
    query.isKnown program && decide (query.Numbers program s answer s')) fun _ _ => throw .exhausted

variable {depth : Nat} {α : Type} {query : Query α} {s s' : State} {answer : α}

lemma answerWhere_succ {test : ⦃α : Type⦄ → Query α → State → Bool} {stray : Answerer} (h : test query s) :
    answerWhere test stray (depth + 1) query s = rule (answerWhere test stray depth) query s :=
  if_pos h

lemma answerWatched_succ {watch : ⦃α : Type⦄ → Query α → State → α → State → Bool}
    {stray : Answerer} (h : rule (answerWatched watch stray depth) query s = .ok answer s')
    (hw : watch query s answer s') :
    answerWatched watch stray (depth + 1) query s = .ok answer s' :=
  (congrArg (takeIf _ _) h).trans (if_pos hw)

open Classical in
lemma answerKnown_eq_ok {program : Program} : answerKnown program (depth + 1)
    query s = .ok answer s' ↔ query.isKnown program ∧ query.Numbers program s answer s' ∧
      rule (answerKnown program depth) query s = .ok answer s' := by
  constructor
  · intro h
    change takeIf _ _ (rule (answerKnown program depth) query s) = _ at h
    cases hrule : rule (answerKnown program depth) query s with
    | ok found s1 =>
      rw [hrule, takeIf] at h
      split at h
      next hwatch => grind
      next => cases h
    | error => cases (congrArg (takeIf _ _) hrule).symm.trans h
  · rintro ⟨hknown, hnumbers, h⟩
    exact answerWatched_succ h (Bool.and_eq_true_iff.2 ⟨hknown, decide_eq_true hnumbers⟩)

end Query

/-- Checks every module with some answerer. -/
def checkProgramBy (ask : Answerer) : Check Bool := do
  let modules := (← tree).modules
  let good ← verdicts ask modules
  return good && (← get).diagnostics.isEmpty

/-- Answerers that keep the rules at the questions that are asked from where they should be, and
answered with the numbers of variables in order. -/
def Faithful (base : Program) (other : Nat → Answerer) : Prop :=
  ∀ depth ⦃α : Type⦄ (query : Query α) (s : State) answer s', base.Descends s.program →
    query.isPlaced base → query.Numbers base s answer s' →
    rule (other depth) query s = .ok answer s' → other (depth + 1) query s = .ok answer s'

variable {base : Program} {root : Nat} (hs : base.Surveyed root) {settings : Settings}
  {other : Nat → Answerer}

lemma Faithful.follows (h : Faithful base other) {depth : Nat} {α : Type} {query : Query α}
    (hq : query.isPlaced base) {exempt : ExprId → Prop} {homes : List (Option DeclId)} {s : State}
    {post : α → List (Option DeclId) → State → Prop} (hw : Follows (Housed base settings exempt)
    (rule (answerKnown base depth) query) (rule (other depth) query) homes s post) :
    Follows (Housed base settings exempt) (answerKnown base (depth + 1) query)
    (other (depth + 1) query) homes s post := by
  intro hi answer s' hrun
  obtain ⟨-, hnumbers, hrule⟩ := answerKnown_eq_ok.1 hrun
  obtain ⟨hother, hpost⟩ := hw hi answer s' hrule
  exact ⟨h depth query s answer s' hi.descends hq hnumbers hother, hpost⟩

include hs

/-- The answerer that knows the expressions of the program is followed by all that keep the
rules. -/
lemma consults_answerKnown (h : Faithful base other) :
    ∀ depth, Consults base settings (answerKnown base depth) (other depth)
  | 0 => ⟨fun _ => follows_throw, fun _ => follows_throw, fun _ => follows_throw⟩
  | depth + 1 => by
    have hc : Consults base settings (answerKnown base depth) (other depth) := consults_answerKnown h depth
    refine ⟨fun id => ?_, fun id => ?_, fun {exempt homes s id useSite} hplace => ?_⟩
    · exact h.follows rfl (follows_checkDeclaration hs hc id)
    · exact h.follows rfl (follows_realize hs hc id)
    · intro hi type s' hrun
      have he : base.tree.HasExpr id := Option.isSome_iff_exists.1 (answerKnown_eq_ok.1 hrun).1
      obtain ⟨hsite, hpart⟩ := hplace he
      have hplaced : (exprType id useSite).isPlaced base := by simp [isPlaced, hsite]
      exact h.follows hplaced (follows_infer hs hc hsite he hpart) hi type s' hrun

lemma answers_answerKnown : ∀ depth, Answers base depth (answerKnown base depth)
  | 0 => answers_zero _
  | depth + 1 => by
    have ha := answers_answerKnown depth
    refine ha.succ hs fun {α query s post} hposed hc hrule => ?_
    obtain ⟨answer, s', hrun, ⟨hcore, hle⟩, hpost⟩ := hrule
    refine ⟨answer, s', answerKnown_eq_ok.2 ⟨?_, ⟨hc.numbered, hcore.numbered, hle, ?_⟩, hrun⟩, hpost⟩
    · cases query with
      | exprType => exact Option.isSome_iff_exists.2 hposed.1
      | verdict | declType => rfl
    · cases query with
      | exprType id useSite =>
        exact fun name span found he hf hd => (ensures_renews hs ha hposed.2 hc he hf hd useSite).grants answer s' hrun
      | verdict | declType => trivial

/-! ### From start to end -/

omit hs in
lemma housed_new (base : Program) (settings : Settings) : Housed base settings (fun _ => False)
    [] (.new base settings) where
  descends := .refl base
  settings_eq := rfl
  next_eq := rfl
  lawful := by simp [new, Solver.empty, Solver.Lawful]
  bound := by simp [new, Solver.empty]
  closed := fun _ => by simp [new, Solver.empty, Solver.Closed]
  declTypes := fun h => by simp [new] at h
  exprTypes := fun h => by simp [new] at h
  signatures := fun h => by simp [new] at h
  generics := fun h => by simp [new] at h
  agrees := fun h => by simp [new] at h

omit hs in
lemma faithful_answerWithin (base : Program) : Faithful base answerWithin :=
  fun _ _ _ _ _ _ _ _ _ h => h

/-- A program has one module. -/
lemma checkProgramBy_new (ask : Answerer) (settings : Settings) : checkProgramBy ask (.new base settings) =
    (do let good ← ask (.verdict root); return good && (← get).diagnostics.isEmpty : Check Bool) (.new base settings) := by
  have hmodules : (new base settings).program.tree.modules = [root] := hs.rooted.modules_eq
  show (do
    let good ← verdicts ask (new base settings).program.tree.modules
    return good && (← get).diagnostics.isEmpty : Check Bool) (.new base settings) = _
  rw [hmodules]
  simp [verdicts]

lemma checkProgram_new (settings : Settings) : checkProgram (.new base settings) =
    checkProgramBy (answerWithin (depthBound base)) (.new base settings) := by
  rw [checkProgramBy_new hs]
  exact checkProgramBy_new hs answer settings

/-- A program is checked to an end in the same way by all answerers that keep the rules at the
questions that are asked from where they should be. -/
lemma exists_housed (settings : Settings) :
    ∃ good s homes, Housed base settings (fun _ => False) homes s ∧ ∀ other, Faithful base other →
      checkProgramBy (other (depthBound base)) (.new base settings) = .ok good s := by
  have hmodule : base.tree.Declares (fun kind => kind.isItem || kind.isModule) root :=
    hs.rooted.declares.imp fun decl hd => ⟨hd.1, by simp [hd.2]⟩
  have hafford := affords_new settings base
  obtain ⟨depth, hdepth⟩ : ∃ depth, depthBound base = depth + 1 :=
    Nat.exists_eq_succ_of_ne_zero (Nat.ne_of_gt ((Nat.zero_le _).trans_lt hafford))
  rw [hdepth] at hafford ⊢
  have hready := ready_new settings hs.rooted
  obtain ⟨verdict, s, hrule, hjudged⟩ :=
    ensures_checkDeclaration hs (answers_answerKnown hs depth) hready hmodule hafford
  obtain ⟨hcore, hle⟩ := hjudged.step.sound
  have hrun : answerKnown base (depth + 1) (.verdict root) (.new base settings) = .ok verdict s :=
    answerKnown_eq_ok.2 ⟨rfl, ⟨hready.inv.numbered, hcore.numbered, hle, trivial⟩, hrule⟩
  have hfollow {other : Nat → Answerer} (h : Faithful base other) :=
    (consults_answerKnown hs h (depth + 1)).verdict root (housed_new base settings) verdict s hrun
  obtain ⟨-, homes, -, hhoused, -⟩ := hfollow (faithful_answerWithin base)
  refine ⟨verdict && s.diagnostics.isEmpty, s, homes, hhoused, fun other h => ?_⟩
  rw [checkProgramBy_new hs]
  exact bind_eq_ok.2 ⟨verdict, s, (hfollow h).1, rfl⟩

end TraitLang.Check
