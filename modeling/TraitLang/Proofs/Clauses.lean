import TraitLang.Proofs.Completion

/-! Where clauses in any order. What is gathered from a where clause, and whether it can be met at
all, is a matter of the requirements that are in it. -/
namespace TraitLang.Check

open List Program Generics

/-- The generic parameters of a function before any requirement on them is taken down. -/
def unconstrained (program : Program) (id : DeclId) (function : FunctionDecl) : Generics :=
  .new id id (function.genericParams.map fun param => (param, program.declName param))

/-- Two ways to take down requirements come to the same: both fail, or both give the same equalities
and the same bounds, with every bound kept once. -/
def Interchangeable : Except String Generics → Except String Generics → Prop
  | .ok first, .ok second => ∀ param, first.equality? param = second.equality? param ∧
    (first.bounds param).Perm (second.bounds param) ∧ (first.bounds param).Nodup
  | .error _, .error _ => True
  | _, _ => False

lemma interchangeable_of_perm {program id params} {clause requirements : List Requirement}
    (h : clause.Perm requirements) : Interchangeable (requirements.foldlM (require program)
    (new id id params)) (clause.foldlM (require program) (new id id params)) := by
  have hfirst := requireAll_new program id params requirements
  have hsecond := requireAll_new program id params clause
  cases hr : requirements.foldlM (require program) (new id id params) with
  | error reason =>
    rw [hr] at hfirst
    cases hr' : clause.foldlM (require program) (new id id params) with
    | error reason => trivial
    | ok generics =>
      rw [hr'] at hsecond
      exact hfirst (hsecond.2.subset h.symm.subset)
  | ok generics =>
    rw [hr] at hfirst
    obtain ⟨hgathers, hconsistent⟩ := hfirst
    cases hr' : clause.foldlM (require program) (new id id params) with
    | error reason =>
      rw [hr'] at hsecond
      exact hsecond (hconsistent.subset h.subset)
    | ok generics' =>
      rw [hr'] at hsecond
      obtain ⟨hgathers', -⟩ := hsecond
      refine fun param => ⟨Option.ext fun type => ?_, ?_, hgathers.nodup param⟩
      · rw [hgathers.equality, hgathers'.equality]
        simp only [Equates, h.mem_iff]
      · refine (perm_ext_iff_of_nodup (hgathers.nodup param) (hgathers'.nodup param)).2 fun type => ?_
        rw [hgathers.bounds, hgathers'.bounds]
        simp only [Bounds, h.mem_iff]

/-- At any time, the parameters of a function are found exactly if its where clause is consistent,
and then with just what it says. Its requirements can be taken down in any order. -/
theorem exists_buildGenerics {files name tree} (hread : Tree.ofFiles files name = .ok tree) :
    ∃ program, ofTree tree = .ok program ∧ ∀ s : State, program.Descends s.program →
    ∀ (id : Nat) function span, program.tree.decl? id = some ⟨.function function, span⟩ →
      ∃ result s', buildGenerics id s = .ok result s' ∧ ((∃ generics, result = .ok generics) ↔
        Consistent program (unconstrained program id function) function.whereClause) ∧
        (∀ generics, result = .ok generics → Gathers program (unconstrained program id function)
        function.whereClause generics) ∧ ∀ clause, clause.Perm function.whereClause → ∃ result' s',
          addRequirements (unconstrained program id function) clause s = .ok result' s' ∧
          Interchangeable result result' := by
  obtain ⟨root, hr⟩ := Tree.rooted_ofFiles hread
  obtain ⟨program, hprogram, rfl, hs⟩ := exists_ofTree hr
  refine ⟨program, hprogram, fun s hd id function span hf => ?_⟩
  obtain ⟨_, s', hrun, -, rfl, -⟩ := ensures_gathered hs hd hf
  have hgathers := requireAll_new program id (function.genericParams.map fun param =>
    (param, program.declName param)) function.whereClause
  refine ⟨_, s', hrun, ⟨fun ⟨_, he⟩ => ?_, fun hc => ?_⟩, fun _ he => ?_, fun clause hperm => ?_⟩
  · rw [he] at hgathers
    exact hgathers.2
  · split at hgathers
    next he => exact ⟨_, he⟩
    next => exact absurd hc hgathers
  · rw [he] at hgathers
    exact hgathers.1
  · have hle : id ≤ root := by have := Tree.lt_size (Tree.decl?_eq_some.1 hf); have := hr.size_eq; omega
    obtain ⟨_, s', hrun, -, rfl, -⟩ :=
      @ensures_addRequirements _ _ hs clause (unconstrained program id function) s hle hd
    exact ⟨_, s', hrun, interchangeable_of_perm hperm⟩

/-- A where clause that says things twice, with types and bounds between each other. -/
def repeating : List SourceFile :=
  [⟨"a", "trait S {} trait T {} fun f<A, B>() where A: S, B == (Int, A), A: T & S, B == (Int, A) {}"⟩]

lemma run_repeating : (checked? repeating "main" {}).any fun (program, _, s) =>
    ((program.tree.decl? 5).any fun decl => decl.kind.isFunction) &&
      match buildGenerics 5 s with
      | .ok (.ok _) _ => true
      | _ => false := by
  decide +kernel

theorem exists_buildGenerics_repeating : ∃ program good s function span generics s',
    Checked repeating "main" {} program good s ∧ program.tree.decl? 5 = some ⟨.function function,
    span⟩ ∧ buildGenerics 5 s = .ok (.ok generics) s' ∧
    Consistent program (unconstrained program 5 function) function.whereClause ∧
    Gathers program (unconstrained program 5 function) function.whereClause generics ∧
    ∃ result s', addRequirements (unconstrained program 5 function)
    function.whereClause.reverse s = .ok result s' ∧ Interchangeable (.ok generics) result := by
  obtain ⟨program, good, s, hchecked, htest⟩ := Checked.exists_of_any run_repeating
  obtain ⟨hf, hbuild⟩ := Bool.and_eq_true_iff.1 htest
  obtain ⟨⟨kind, span⟩, hd, hk⟩ := (Option.any_eq_true _ _).1 hf
  obtain ⟨tree, hread, hprogram⟩ := hchecked.read
  obtain ⟨_, hagain, hall⟩ := exists_buildGenerics hread
  cases hprogram.symm.trans hagain
  cases kind with
  | function function =>
    obtain ⟨result, s', hrun, hiff, hgathers, hperm⟩ := hall s hchecked.inv.descends 5 function span hd
    rw [hrun] at hbuild
    cases result with
    | error reason => cases hbuild
    | ok generics =>
      exact ⟨program, good, s, function, span, generics, s', hchecked, hd, hrun,
        hiff.1 ⟨generics, rfl⟩, hgathers generics rfl, hperm _ (reverse_perm _)⟩
  | _ => cases hk

end TraitLang.Check
