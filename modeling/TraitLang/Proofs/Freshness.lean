import TraitLang.Proofs.Paired.Whole

/-! New variables are new. Whenever a question is asked or answered while a program is checked, all
variables that the state knows of have numbers below its counter. An answer that is not like that
could be replaced by any other one, and the course of the work would be the same. -/
namespace TraitLang.Check

lemma faithful_answerWatched {base : Program} {watch : ⦃α : Type⦄ → Query α → State → α → State →
    Bool} (hwatch : ∀ ⦃α : Type⦄ (query : Query α) s answer s', query.Numbers base s answer s' →
    watch query s answer s') (stray : Answerer) : Faithful base (Query.answerWatched watch stray) :=
  fun _ _ query s answer s' _ _ hnumbers hrule =>
    Query.answerWatched_succ hrule (hwatch query s answer s' hnumbers)

/-- A question and its answer, with the states that they are in. -/
structure Exchange where
  {type : Type}
  query : Query type
  before : State
  answer : type
  after : State

open Classical in
/-- Answers all questions by their rules, to a depth, and halts where a question gets a certain
answer. -/
noncomputable def Exchange.answerBut (last : Exchange) : (depth : Nat) → Answerer :=
  Query.answerWatched (fun _ query s answer s' => decide (Exchange.mk query s answer s' ≠ last))
    fun _ _ => throw .exhausted

/-- A question gets its answer while a program is checked: checking comes to a halt if it halts
there. -/
def Exchange.Occurs (exchange : Exchange) (program : Program) (settings : Settings) : Prop :=
  ∃ halt s, checkProgramBy (exchange.answerBut (Query.depthBound program)) (.new program settings) = .error halt s

open Classical in
lemma faithful_exchange {base : Program} {last : Exchange}
    (hlast : ¬last.query.Numbers base last.before last.answer last.after) : Faithful base last.answerBut := by
  intro depth α query s answer s' _ _ hnumbers hrule
  refine Query.answerWatched_succ hrule (decide_eq_true ?_)
  rintro rfl
  exact hlast hnumbers

variable {files : List SourceFile} {name : String} {program : Program}

/-- Checking what can be read comes to an end with all numbers of variables in order, and they are
in order from each question that is asked on the way to its answer. So whatever replaces answers for
which they are not, the course of the work is the same. -/
theorem checkProgramBy_answerWatched
    (hread : ∃ tree, Tree.ofFiles files name = .ok tree ∧ Program.ofTree tree = .ok program)
    (settings : Settings) : ∃ good s, checkProgram (.new program settings) = .ok good s ∧
    s.Numbered ∧ (∀ exchange : Exchange, exchange.Occurs program settings →
        exchange.query.Numbers program exchange.before exchange.answer exchange.after) ∧
      ∀ (watch : ⦃α : Type⦄ → Query α → State → α → State → Bool) (stray : Answerer),
        (∀ ⦃α : Type⦄ (query : Query α) s answer s', query.Numbers program s answer s' →
        watch query s answer s') → checkProgramBy (Query.answerWatched watch stray
        (Query.depthBound program)) (.new program settings) = .ok good s := by
  obtain ⟨tree, hread, hprogram⟩ := hread
  obtain ⟨program', root, hprogram', hs⟩ := exists_surveyed hread
  cases hprogram.symm.trans hprogram'
  obtain ⟨good, s, homes, -, hall⟩ := exists_housed hs settings
  have hrun : checkProgram (.new program settings) = .ok good s :=
    (checkProgram_new hs settings).trans (hall _ (faithful_answerWithin program))
  have hchecked : Checked files name settings program good s := ⟨⟨tree, hread, hprogram⟩, hrun⟩
  refine ⟨good, s, hrun, hchecked.inv.numbered, fun exchange hoccurs => ?_,
    fun watch stray hwatch => hall _ (faithful_answerWatched hwatch stray)⟩
  by_contra hwrong
  obtain ⟨halt, s', hhalts⟩ := hoccurs
  cases hhalts.symm.trans (hall _ (faithful_exchange hwrong))

/-- A program that names generic functions several times, also inside of each other. -/
def renewing : List SourceFile :=
  [⟨"a", "fun id<T>(x: T) -> T \x7b return x; \x7d fun pair<A, B>(a: A, b: B) -> (A, B) \x7b return (id(a), b); \x7d
    fun main() \x7b let f = id(id(1)); let g = pair(f, pair(id(true), \"s\")); \x7d"⟩]

lemma run_renewing : (checked? renewing "main" {}).any fun (_, good, s) => good && s.solver.next == 8 := by
  decide +kernel

theorem checkProgramBy_answerWatched_renewing : ∃ program s,
    (∃ tree, Tree.ofFiles renewing "main" = .ok tree ∧ Program.ofTree tree = .ok program) ∧
    checkProgram (.new program {}) = .ok true s ∧
    s.Numbered ∧ s.solver.next = 8 ∧ (∀ exchange : Exchange, exchange.Occurs program {} →
        exchange.query.Numbers program exchange.before exchange.answer exchange.after) ∧
      ∀ (watch : ⦃α : Type⦄ → Query α → State → α → State → Bool) (stray : Answerer),
        (∀ ⦃α : Type⦄ (query : Query α) s answer s', query.Numbers program s answer s' →
        watch query s answer s') → checkProgramBy (Query.answerWatched watch stray
        (Query.depthBound program)) (.new program {}) = .ok true s := by
  obtain ⟨program, good, s, hchecked, htest⟩ := Checked.exists_of_any run_renewing
  obtain ⟨rfl, hnext⟩ := Bool.and_eq_true_iff.1 htest
  obtain ⟨good', s', hrun, hnumbered, hall⟩ := checkProgramBy_answerWatched hchecked.read {}
  cases hchecked.run.symm.trans hrun
  exact ⟨program, s, hchecked.read, hrun, hnumbered, beq_iff_eq.1 hnext, hall⟩

end TraitLang.Check
