import TraitLang.Proofs.Bodies.Items

/-! Calls to collaborators. A log of the calls that are made can be kept beside the state of any
collaborator without any influence on the work. Whatever a collaborator does, and also if it halts,
a statement checker comes back to the scope that it was in. -/
namespace TraitLang

namespace Collaborator

/-- A call to a collaborator, with its answer. -/
inductive Call where
  | decl (id : DeclId) (good : Bool)
  | expr (id : ExprId) (expected : Option Ty) (site : ScopeId) (policy : FreePolicy)
    (checked : CheckedExpr)
  | generics (function : DeclId) (found : Option Generics)
  | instantiate (generics : Generics) (type : Ty) (site : ScopeId) (answer : Ty × Substitution)
  | report (diagnostic : Diagnostic)

variable {σ α : Type}

end Collaborator

namespace Body

open Collaborator

variable {σ α β : Type}

/-! ### Without the log -/

def Run.erase (run : Run (σ × List Call)) : Run σ := ⟨run.body, run.context.1⟩

def eraseOutcome : EStateM.Result Halt (Run (σ × List Call)) α → EStateM.Result Halt (Run σ) α
  | .ok answer run => .ok answer run.erase
  | .error halt run => .error halt run.erase

/-- Where a run is left, also when the work halts. -/
def leftBy (work : Steps σ α) (run : Run σ) : Run σ :=
  match work run with
  | .ok _ run' => run'
  | .error _ run' => run'

/-- From a run on, work with a log is other work with the log left out, which ends in the scope that
it starts in. -/
structure ErasesAt (run : Run (σ × List Call)) (work : Steps (σ × List Call) α) (plain : Steps σ α) : Prop where
  erased : plain run.erase = eraseOutcome (work run)
  comesBack : (leftBy plain run.erase).body.useSite = run.body.useSite

section

variable {run : Run (σ × List Call)} (c : Collaborator σ)

variable {work : Steps (σ × List Call) α}

lemma ErasesAt.bind {plain} {f : α → Steps (σ × List Call) β} {g} (h : ErasesAt run work plain)
    (hf : ∀ a run', ErasesAt run' (f a) (g a)) : ErasesAt run (work >>= f) (plain >>= g) := by
  obtain ⟨herased, hback⟩ := h
  unfold leftBy at hback
  rw [herased] at hback
  cases hw : work run with
  | ok a run' =>
    rw [hw] at hback herased
    obtain ⟨hrest, hlater⟩ := hf a run'
    refine ⟨?_, ?_⟩
    · simp only [Bind.bind, EStateM.bind, herased, hw, eraseOutcome, hrest]
    · refine Eq.trans ?_ (hlater.trans hback)
      simp only [leftBy, Bind.bind, EStateM.bind, herased, eraseOutcome]
  | error halt run' =>
    rw [hw] at hback herased
    refine ⟨?_, ?_⟩
    · simp only [Bind.bind, EStateM.bind, herased, hw, eraseOutcome]
    · simpa only [leftBy, Bind.bind, EStateM.bind, herased, eraseOutcome] using hback

/-- The only place where the scope changes is a block, which is worked on inside of its own
scope. -/
lemma ErasesAt.within {plain scope} (h : ∀ run, ErasesAt run work plain) :
    ErasesAt run (within scope work) (within scope plain) := by
  have h := (h { run with body.useSite := scope }).erased
  refine ⟨?_, ?_⟩
  · unfold Body.within
    rw [show { run.erase with body.useSite := scope } = Run.erase { run with body.useSite := scope } from rfl, h]
    cases work { run with body.useSite := scope } <;> rfl
  · unfold leftBy Body.within
    cases plain { run.erase with body.useSite := scope } <;> rfl

lemma ErasesAt.get {f : Run (σ × List Call) → Steps (σ × List Call) α} {g}
    (h : ErasesAt run (f run) (g run.erase)) : ErasesAt run (get >>= f) (get >>= g) := ⟨h.erased, h.comesBack⟩

lemma ErasesAt.modify {change : Run (σ × List Call) → Run (σ × List Call)}
    {plain : Run σ → Run σ} (h : plain run.erase = (change run).erase)
    (hback : (change run).body.useSite = run.body.useSite) : ErasesAt run (MonadState.modifyGet
    fun run => (PUnit.unit, change run)) (MonadState.modifyGet fun run => (.unit, plain run)) :=
  ⟨congrArg (EStateM.Result.ok PUnit.unit) h, (congrArg (·.body.useSite) h).trans hback⟩

variable (id : StmtId)

variable {nested : StmtId → Steps (σ × List Call) Bool} {plain : StmtId → Steps σ Bool}

end

end Body

end TraitLang
