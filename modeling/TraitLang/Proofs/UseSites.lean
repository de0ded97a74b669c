import TraitLang.Proofs.Paired.Whole

/-! Where types are asked for. Every question about the type of an expression comes from the scope
that the expression is in, which the program knows before checking begins; so what the scope of an
expression is taken to be where it has none does not matter. -/
namespace TraitLang.Check

/-- Answers a question about the type of an expression if it comes from the scope that the
expression is in, in the program that checking began with and in the one at hand. Another answerer
gets all other questions. -/
def Query.answerPlaced (program : Program) (stray : Answerer) : (depth : Nat) → Answerer :=
  answerWhere (fun _ query state => query.isPlaced program && query.isPlaced state.program) stray

lemma isPlaced_of_descends {base program root} (hs : base.Surveyed root) (h : base.Descends program)
    {α : Type} {query : Query α} (hq : query.isPlaced base) : query.isPlaced program := by
  cases query with
  | exprType id useSite =>
    have hsite : base.scopeOf id = some useSite := of_decide_eq_true hq
    have hlt := hs.lt_root_of_scopeOf hsite
    have hsize := hs.rooted.size_eq
    have hcurrent : program.scopeOf id = some useSite := by rw [h.scopeOf_eq id (by omega), hsite]
    exact decide_eq_true hcurrent
  | verdict | declType => rfl

lemma faithful_answerPlaced {base root} (hs : base.Surveyed root) (stray : Answerer) :
    Faithful base (Query.answerPlaced base stray) := by
  intro depth α query s answer s' hd hq _ hrule
  refine (Query.answerWhere_succ ?_).trans hrule
  rw [hq, isPlaced_of_descends hs hd hq]
  rfl

open Classical in
/-- Answers all questions by their rules, to a depth, and halts at one of them in one state. -/
noncomputable def Query.answerBut {β : Type} (last : Query β) (s : State) : (depth : Nat) → Answerer :=
  answerWhere (fun α query t => decide ((⟨α, query, t⟩ : Σ α, Query α × State) ≠ ⟨β, last, s⟩))
    fun _ _ => throw .exhausted

/-- A question is asked in a state while a program is checked: checking comes to a halt if there is
no answer. -/
def Query.Occurs {β : Type} (query : Query β) (s : State) (program : Program) (settings : Settings) : Prop :=
  ∃ halt s', checkProgramBy (query.answerBut s (Query.depthBound program)) (.new program settings) = .error halt s'

open Classical in
lemma faithful_answerBut {base : Program} {β : Type} {last : Query β} (hlast : ¬last.isPlaced base)
    (s : State) : Faithful base (last.answerBut s) := by
  intro depth α query t answer s' _ hq _ hrule
  refine (Query.answerWhere_succ (decide_eq_true ?_)).trans hrule
  rintro ⟨⟩
  exact hlast hq

/-- Checking begins with a question about the module. -/
lemma occurs_root {base root} (hs : base.Surveyed root) (settings : Settings) :
    (Query.verdict root).Occurs (.new base settings) base settings := by
  have hdepth : Query.depthBound base ≠ 0 := by simp [Query.depthBound]
  obtain ⟨depth, hdepth⟩ := Nat.exists_eq_succ_of_ne_zero hdepth
  refine ⟨.exhausted, .new base settings, ?_⟩
  rw [checkProgramBy_new hs, hdepth]
  simp only [Bind.bind, EStateM.bind, Query.answerBut, Query.answerWhere, ne_eq, not_true,
    decide_false, Bool.false_eq_true, if_false]
  rfl

variable {files : List SourceFile} {name : String} {program : Program}

/-- Checking what can be read comes to an end, and each question about the type of an expression is
asked from the scope that the expression is in; so whatever answers other questions, the course of
the work is the same. -/
theorem checkProgramBy_answerPlaced (hread : ∃ tree, Tree.ofFiles files name = .ok tree ∧
    Program.ofTree tree = .ok program) (settings : Settings) :
    ∃ good s, checkProgram (.new program settings) = .ok good s ∧ (∀ id useSite t,
      (Query.exprType id useSite).Occurs t program settings → program.scopeOf id = some useSite) ∧
      ∀ stray : Answerer, checkProgramBy (Query.answerPlaced program stray
      (Query.depthBound program)) (.new program settings) = .ok good s := by
  obtain ⟨tree, hread, hprogram⟩ := hread
  obtain ⟨program', root, hprogram', hs⟩ := exists_surveyed hread
  cases hprogram.symm.trans hprogram'
  obtain ⟨good, s, homes, -, hall⟩ := exists_housed hs settings
  refine ⟨good, s, ?_, fun id useSite t hoccurs => ?_, fun stray => hall _ (faithful_answerPlaced hs stray)⟩
  · rw [checkProgram_new hs settings]
    exact hall _ (faithful_answerWithin program)
  · by_contra hstray
    obtain ⟨halt, s', hhalts⟩ := hoccurs
    have hplaced : ¬(Query.exprType id useSite).isPlaced program := by simpa [Query.isPlaced] using hstray
    cases hhalts.symm.trans (hall _ (faithful_answerBut hplaced t))

/-- A program with values in all places from which their types are asked for. -/
def placing : List SourceFile :=
  [⟨"a", "fun f(x: Int) -> Int { let y = if let z = x { z } else { f(x) }; do { while y == 1 { return y; } } while match (y, 2) { case (let a, 2) { a < 1 } case _ { false } }; return f(y); }"⟩]

lemma run_placing : (checked? placing "main" {}).any fun (_, good, _) => good := by
  decide +kernel

theorem checkProgramBy_answerPlaced_placing : ∃ program s,
    (∃ tree, Tree.ofFiles placing "main" = .ok tree ∧ Program.ofTree tree = .ok program) ∧
    checkProgram (.new program {}) = .ok true s ∧ (∀ id useSite t,
      (Query.exprType id useSite).Occurs t program {} → program.scopeOf id = some useSite) ∧
      ∀ stray : Answerer, checkProgramBy (Query.answerPlaced program stray
        (Query.depthBound program)) (.new program {}) = .ok true s := by
  obtain ⟨program, good, s, hchecked, htest⟩ := Checked.exists_of_any run_placing
  obtain rfl : good = true := htest
  obtain ⟨good', s', hrun, hall⟩ := checkProgramBy_answerPlaced hchecked.read {}
  cases hchecked.run.symm.trans hrun
  exact ⟨program, s, hchecked.read, hrun, hall⟩

end TraitLang.Check
