import TraitLang.Proofs.Whole

/-! From source text to a verdict. Whatever can be read can be checked to the end, and what checking
finds wrong it reports, with one exception: uses of a match variable before its pattern. -/
namespace TraitLang.Check

/-- A program was read from files and checked, which ended in a state. -/
structure Checked (files : List SourceFile) (name : String) (settings : Settings)
    (program : Program) (good : Bool) (s : State) : Prop where
  read : ∃ tree, Tree.ofFiles files name = .ok tree ∧ Program.ofTree tree = .ok program
  run : checkProgram (.new program settings) = .ok good s

def checked? (files : List SourceFile) (name : String) (settings : Settings) : Option (Program × Bool × State) :=
  match Tree.ofFiles files name with
  | .error _ => none
  | .ok tree =>
    match Program.ofTree tree with
    | .error _ => none
    | .ok program =>
      match checkProgram (.new program settings) with
      | .ok good s => some (program, good, s)
      | .error _ _ => none

section

variable {files : List SourceFile} {name : String} {tree : Tree} {program : Program}
  {settings : Settings} {good : Bool} {s : State}

/-- A run is found by running. -/
lemma Checked.exists_of_any {test} (h : (checked? files name settings).any test) :
    ∃ program good s, Checked files name settings program good s ∧ test (program, good, s) := by
  unfold checked? at h
  split at h
  next => cases h
  next tree hread =>
    split at h
    next => cases h
    next program hprogram =>
      split at h
      next good s hrun => exact ⟨program, good, s, ⟨⟨tree, hread, hprogram⟩, hrun⟩, h⟩
      next => cases h

lemma exists_surveyed (hread : Tree.ofFiles files name = .ok tree) :
    ∃ program root, Program.ofTree tree = .ok program ∧ program.Surveyed root := by
  obtain ⟨root, hr⟩ := Tree.rooted_ofFiles hread
  obtain ⟨program, hprogram, -, hs⟩ := Program.exists_ofTree hr
  exact ⟨program, root, hprogram, hs⟩

/-- What can be read can be checked to the end. Nodes and slots that are read or written on the way
are demanded, or else the work halts; scopes are not, but all of them are nodes of the tree. -/
theorem exists_checkProgram_eq_ok (hread : Tree.ofFiles files name = .ok tree)
    (settings : Settings) : ∃ program good s,
    Program.ofTree tree = .ok program ∧ checkProgram (.new program settings) = .ok good s ∧
      ∀ id scope, program.scopeOf id = some scope → scope < program.tree.size := by
  obtain ⟨program, root, hprogram, hs⟩ := exists_surveyed hread
  obtain ⟨good, s, hrun, -⟩ := ensures_checkProgram settings hs
  refine ⟨program, good, s, hprogram, hrun, fun id scope hscope => ?_⟩
  rw [hs.rooted.size_eq]
  exact Nat.lt_succ_of_le (hs.le_root_of_scopeOf hscope)

/-- Bindings, functions and traits that depend on themselves. -/
def circles : List SourceFile :=
  [⟨"a", "let x = y; let y = x; fun f() { g(); } fun g() { f(); } trait S: T {} trait T: S {} type A: S {}"⟩]

theorem exists_checkProgram_eq_ok_circles : ∃ tree, Tree.ofFiles circles "main" = .ok tree ∧
    ∃ program good s, Program.ofTree tree = .ok program ∧ checkProgram (.new program
    {}) = .ok good s ∧ ∀ id scope, program.scopeOf id = some scope → scope < program.tree.size := by
  have hread : (Tree.ofFiles circles "main").isOk := by decide +kernel
  obtain ⟨tree, h⟩ := exists_eq_ok hread
  exact ⟨tree, h, exists_checkProgram_eq_ok h {}⟩

lemma Checked.exists_judged (h : Checked files name settings program good s) : ∃ root verdict,
    program.Surveyed root ∧ Judged program [] (.new program settings) s root verdict ∧
      good = (verdict && s.diagnostics.isEmpty) := by
  obtain ⟨_, hread, hprogram⟩ := h.read
  obtain ⟨found, root, hfound, hs⟩ := exists_surveyed hread
  obtain rfl : program = found := Except.ok.inj (hprogram.symm.trans hfound)
  obtain ⟨_, _, hrun, verdict, hjudged, hgood⟩ := ensures_checkProgram settings hs
  cases h.run.symm.trans hrun
  exact ⟨root, verdict, hs, hjudged, hgood⟩

lemma Checked.inv (h : Checked files name settings program good s) : Inv program s := by
  obtain ⟨_, _, -, hjudged, -⟩ := h.exists_judged
  exact hjudged.step.inv

lemma Checked.faulty (h : Checked files name settings program false s) : s.Faulty program := by
  obtain ⟨_, _, -, hjudged, hgood⟩ := h.exists_judged
  rcases Bool.and_eq_false_iff.1 hgood.symm with hwrong | hwrong
  · exact hjudged.bad hwrong
  · exact .inl (by simpa using hwrong)

/-- After a good verdict nothing is reported and all nodes are good. -/
lemma Checked.sound (h : Checked files name settings program true s) :
    s.diagnostics = [] ∧ ∀ id < program.tree.size, Sound program [] s id := by
  obtain ⟨_, _, hs, hjudged, hgood⟩ := h.exists_judged
  obtain ⟨rfl, hdiag⟩ := Bool.and_eq_true_iff.1 hgood.symm
  rw [List.isEmpty_iff] at hdiag
  exact ⟨hdiag, fun id hid => hjudged.sound hs.rooted hdiag hid⟩

lemma Checked.not_faulty (h : Checked files name settings program true s) : ¬s.Faulty program := by
  obtain ⟨hdiag, hsound⟩ := h.sound
  rintro (hf | ⟨id, var, hearly⟩)
  · exact hf hdiag
  · have hlt : id < program.tree.size := by
      obtain ⟨_, _, he, -⟩ := hearly
      exact Tree.lt_size (Tree.expr?_eq_some.1 he)
    exact (hsound id hlt).meant.timely var hearly

/-! ### No silent failure -/

/-- A type was recorded for a declaration or an expression, or is that of a signature. -/
def State.Mentions (s : State) (type : Ty) : Prop :=
  (∃ id, s.declType? id = some type) ∨ (∃ id, s.exprType? id = some type) ∨
    ∃ id : Nat, ∃ signature, s.signatures[id]? = some signature ∧ type = signature.toTy

lemma Inv.known {base} (hi : Inv base s) {type} (h : s.Mentions type) : Known base s type := by
  rcases h with ⟨id, h⟩ | ⟨id, h⟩ | ⟨_, _, h, rfl⟩
  · obtain ⟨raw, hraw, rfl⟩ := Option.map_eq_some_iff.1 h
    exact (hi.declTypes hraw).1.resolveBy hi.solver
  · obtain ⟨_, hraw, rfl⟩ := Option.map_eq_some_iff.1 h
    exact (hi.exprTypes hraw).1.resolveBy hi.solver
  · exact (plain_signature hi.toCore h).known

/-- A bad verdict and an error type both come with a report, unless a match variable is used too
early. -/
theorem Checked.reported_or_earlyUse (h : Checked files name settings program good s) :
    (good = true ↔ s.diagnostics = [] ∧ ∀ id var, ¬program.EarlyUse id var) ∧
      ∀ type, s.Mentions type → type.hasErrors → s.diagnostics ≠ [] ∨ ∃ id var, program.EarlyUse id var := by
  refine ⟨⟨?_, fun ⟨hdiag, hearly⟩ => ?_⟩, fun type ht herror => (h.inv.known ht).faulty herror⟩
  · rintro rfl
    exact ⟨h.sound.1, fun id var hearly => h.not_faulty (.inr ⟨id, var, hearly⟩)⟩
  · by_contra hbad
    rw [Bool.not_eq_true] at hbad
    subst hbad
    rcases h.faulty with hf | ⟨id, var, hf⟩
    · exact hf hdiag
    · exact hearly id var hf

/-- Where a pattern goes on in another file, a variable can be used before it and count as
visible. -/
def splitPattern : List SourceFile :=
  [⟨"a", "fun f() \x7b match (1, 2) \x7b case ( x"⟩, ⟨"b",
    ", let x)                                                            \x7b x \x7d \x7d; \x7d"⟩]

lemma run_splitPattern : (checked? splitPattern "main" {}).any fun (_, good, s) =>
    !good && s.diagnostics.isEmpty := by
  decide +kernel

theorem silent_splitPattern : ∃ program s, Checked splitPattern "main" {} program false s ∧ s.diagnostics = [] := by
  obtain ⟨program, good, s, hchecked, htest⟩ := Checked.exists_of_any run_splitPattern
  obtain ⟨hgood, hdiag⟩ := Bool.and_eq_true_iff.1 htest
  obtain rfl : good = false := by simpa using hgood
  exact ⟨program, s, hchecked, List.isEmpty_iff.1 hdiag⟩

theorem earlyUse_splitPattern : ∃ program good s, Checked splitPattern "main"
    {} program good s ∧ ∃ id var, program.EarlyUse id var := by
  obtain ⟨program, good, s, hchecked, htest⟩ := Checked.exists_of_any run_splitPattern
  obtain ⟨hgood, hdiag⟩ := Bool.and_eq_true_iff.1 htest
  refine ⟨program, good, s, hchecked, ?_⟩
  by_contra hnone
  have hiff := hchecked.reported_or_earlyUse.1
  simp only [not_exists] at hnone
  simp [hiff.2 ⟨List.isEmpty_iff.1 hdiag, hnone⟩] at hgood

end

end TraitLang.Check
