import TraitLang.Proofs.Completion

/-! The conformances in the table. They are to the traits that refinement leads to from those that a
product names, and once a program was checked they are all settled: by the first members that
implement the requirements, or with a report for each requirement that none implements. -/
namespace TraitLang.Check

variable {files : List SourceFile} {name : String} {tree : Tree} {program : Program}
  {settings : Settings} {good : Bool} {s : State}

/-! ### Claims -/

/-- From where checking starts, from where it ends, and from every state that satisfies its
invariant, the conformances of a product are entered or stand in the table already. No trait comes
twice. The traits that the product names come first, in the order of their first mentions and with
the places of those; the others stand nowhere, and together they are what refinement leads to. A
requirement is found by its name if and only if a trait that refinement leads to has a function of
that name. -/
theorem conformances_closed
    (hread : Tree.ofFiles files name = .ok tree) (hprogram : Program.ofTree tree = .ok program)
    (hstate : (∃ settings, s = .new program settings) ∨
    (∃ settings good, checkProgram (.new program settings) = .ok good s) ∨ Inv program s) :
    (∀ product, program.tree.Declares DeclKind.isProduct product →
    ∃ s' list, ensureConformances product s = .ok () s' ∧
      s'.conformances[product]? = some list ∧ (list.map Conformance.trait).Nodup ∧
      (∃ added : List DeclId, list.map Program.claim = (program.named product).map
        (fun mention => (mention.1, some mention.2)) ++ added.map (·, none)) ∧
      ∀ trait, trait ∈ list.map Conformance.trait ↔ ∃ start ∈ (program.named product).map Prod.fst,
        program.Leads start trait) ∧ ∀ (traits : List DeclId) (member : String), (∀ trait ∈ traits,
    (program.tree.decl? trait).isSome) → ∃ found, s.program.requirement? traits member = .ok found ∧
      (found.isSome ↔ ∃ start ∈ traits, ∃ trait, program.Leads start trait ∧ ∃ function,
        program.Requires trait member function ∧ program.tree.isFunction function) := by
  obtain ⟨found, root, hfound, hs⟩ := exists_surveyed hread
  obtain rfl : program = found := Except.ok.inj (hprogram.symm.trans hfound)
  have hi : Inv program s := by
    rcases hstate with ⟨settings, rfl⟩ | ⟨settings, good, hrun⟩ | hi
    · exact inv_new settings hs.rooted
    · exact Checked.inv ⟨⟨tree, hread, hprogram⟩, hrun⟩
    · exact hi
  refine ⟨fun product hp => ?_, fun traits member ht => ?_⟩
  · cases hknown : s.conformances[product]? with
    | some list =>
      have hclaims := (hi.conformances hknown).claims
      have hrun : Ensures (ensureConformances product) s fun _ s' => s' = s := by
        unfold ensureConformances
        simp only [ensures_get_bind, hknown, Option.isSome_some, if_true, ensures_pure]
      obtain ⟨_, _, hrun, rfl⟩ := hrun
      exact ⟨_, list, hrun, hknown, hclaims.nodup, hclaims.listed, hclaims.mem_iff⟩
    | none =>
      obtain ⟨_, _, hrun, s1, list, -, rfl, hclaims, -⟩ := ensures_ensureConformances hs hi hp hknown
      refine ⟨_, list, hrun, ?_, hclaims.nodup, hclaims.listed, hclaims.mem_iff⟩
      exact NodeMap.getElem?_insert_self
  · have hdeclared (trait : DeclId) (hm : trait ∈ traits) : (s.program.tree.decl? trait).isSome :=
      hi.descends.decl?_induct (motive := fun after before => before.isSome → after.isSome) trait
        (fun _ h => h) (fun _ _ _ _ => rfl) (ht trait hm)
    obtain ⟨found, hok, hsome, hnone⟩ := Program.requirement?_spec (hi.descends.traitsPlaced hs) member hdeclared
    rw [hi.descends.leads_eq hs] at hsome hnone
    simp only [hi.descends.requires_iff] at hsome hnone
    refine ⟨found, hok, fun hfound => ?_, ?_⟩
    · obtain ⟨function, hf⟩ := Option.isSome_iff_exists.1 hfound
      obtain ⟨start, hstart, trait, hleads, decl, span, hd, hm, hname⟩ := hsome function hf
      have hfunction := (hs.rooted.below (Tree.decl?_eq_some.1 hd)).1 function hm
      exact ⟨start, hstart, trait, hleads, function, ⟨decl, span, hd, hm, hname⟩, Tree.isFunction_iff.2 hfunction⟩
    · rintro ⟨start, hstart, trait, hleads, function, hrequires, -⟩
      by_contra hnot
      exact hnone (by simpa using hnot) start hstart trait hleads function hrequires

/-- Traits that refine each other, and two of them that refine a third. -/
def circularTraits : List SourceFile :=
  [⟨"a", "trait A: B, C \x7b\x7d trait B: A, C \x7b\x7d trait C: X \x7b fun f(); \x7d type P: B, A, Y, B \x7b fun f() \x7b\x7d \x7d"⟩]

lemma run_circularTraits : (checked? circularTraits "main" {}).any fun (program, _, _) =>
    (program.named 6).map Prod.fst == [1, 0] && (program.bases 1 == [0, 3] && (program.tree.decl? 6).any fun decl =>
      decl.kind.isProduct) := by
  decide +kernel

/-- The product names one of the traits that refine the third. -/
theorem conformances_closed_circularTraits : ∃ tree program,
    Tree.ofFiles circularTraits "main" = .ok tree ∧ Program.ofTree tree = .ok program ∧ ∃ s' list,
    ensureConformances 6 (.new program {}) = .ok () s' ∧ s'.conformances[6]? = some list ∧
      3 ∈ list.map Conformance.trait := by
  obtain ⟨program, _, _, hchecked, htest⟩ := Checked.exists_of_any run_circularTraits
  simp only [Bool.and_eq_true, beq_iff_eq, Option.any_eq_true] at htest
  obtain ⟨hnamed, hbases, hproduct⟩ := htest
  obtain ⟨tree, hread, hprogram⟩ := hchecked.read
  obtain ⟨s', list, hrun, hlist, -, -, hmem⟩ := (conformances_closed hread hprogram (.inl ⟨{}, rfl⟩)).1 6 hproduct
  refine ⟨tree, program, hread, hprogram, s', list, hrun, hlist, (hmem 3).2 ⟨1, by simp [hnamed], .single ?_⟩⟩
  simp [hbases]

/-! ### Verification -/

/-- After checking, every product has its conformances, and each is settled. It is good if and only
if each requirement of its trait has a member of the product that is a function of the same name and
the same signature, and then its entries give the first such member for each requirement, in the
order of the requirements. What was reported about conformances is one report for each requirement
of a conformance that no member meets, and nothing else. -/
theorem Checked.verified_once (h : Checked files name settings program good s) : (∀ product,
    program.tree.Declares DeclKind.isProduct product → (s.finish.conformances[product]?).isSome) ∧
    (∀ (product : DeclId) (list : List Conformance), s.finish.conformances[product]? = some list →
    ∀ conformance ∈ list, (conformance.state = .checked ∨ conformance.state = .invalid) ∧
      (conformance.state = .checked ↔ ∀ requirement ∈ conformance.requirements program.tree,
        ∃ member ∈ productMembers program.tree product, program.tree.isFunction member ∧
          program.declName member = program.declName requirement ∧ ∃ signature,
            s.signatures[member]? = some signature ∧ s.signatures[requirement]? = some signature) ∧
      (conformance.state = .checked → List.Forall₂
      (fun requirement entry => entry.requirement = requirement ∧ s.implementation? program
        (productMembers program.tree product) requirement = some entry.implementation)
          (conformance.requirements program.tree) conformance.entries)) ∧
    (s.finish.diagnostics.filter fun diagnostic => diagnostic.problem.isNonConforming).Perm
      ((products program).flatMap fun product =>
      (s.finish.conformances.getD product []).flatMap fun conformance =>
        s.breaches program product conformance) := by
  obtain ⟨root, verdict, hs, hjudged, -⟩ := h.exists_judged
  refine ⟨fun product hp => ?_, fun product list hlist conformance hm => ?_, h.inv.balanced⟩
  · have hlt := hp.lt_size
    have hsize := hs.rooted.size_eq
    exact (hjudged.accounted product ⟨hs.rooted.first_root ▸ Nat.zero_le _, by omega⟩).conformances hp
  · have himplements := (h.inv.conformances hlist).implements conformance hm
    have hiff : s.unmet program (productMembers program.tree product) (conformance.requirements program.tree) = [] ↔
        ∀ requirement ∈ conformance.requirements program.tree, ∃ member ∈ productMembers program.tree product,
          program.tree.isFunction member ∧ program.declName member = program.declName requirement ∧ ∃ signature,
            s.signatures[member]? = some signature ∧ s.signatures[requirement]? = some signature := by
      simp only [← State.isSome_implementation?, State.unmet, List.filter_eq_nil_iff,
        Bool.not_eq_true, Option.isNone_eq_false_iff]
    rcases himplements.good_or_failed with ⟨hunmet, hstate, hentries⟩ | ⟨hunmet, hstate, -⟩
    · grind [forall₂_met]
    · grind

/-- A conformance that two values ask for before it comes up on its own, with one requirement that
is met and one that is not. -/
def eagerValues : List SourceFile :=
  [⟨"a", "fun main() \x7b let x: any T = P(); let y: any T = P(); \x7d trait T \x7b fun f(); fun g() -> Int; \x7d type P: T \x7b fun f() \x7b\x7d fun g() \x7b\x7d \x7d"⟩]

lemma run_eagerValues : (checked? eagerValues "main" {}).any fun (program, good, s) => !good &&
    (((products program).flatMap fun product => (s.finish.conformances.getD product []).flatMap fun conformance =>
      s.breaches program product conformance).length == 1) := by
  decide +kernel

theorem verified_once_eagerValues : ∃ program s, Checked eagerValues "main" {} program false s ∧
    (s.finish.diagnostics.filter fun diagnostic => diagnostic.problem.isNonConforming).length = 1 := by
  obtain ⟨program, good, s, hchecked, htest⟩ := Checked.exists_of_any run_eagerValues
  simp only [Bool.and_eq_true, Bool.not_eq_true', beq_iff_eq] at htest
  obtain ⟨rfl, hlength⟩ := htest
  exact ⟨program, s, hchecked, hchecked.verified_once.2.2.length_eq.trans hlength⟩

end TraitLang.Check
