import TraitLang.Proofs.Soundness

/-! Dispatch on packed values. A member that is found through the traits of a packed value is
required by one of them or by a trait that they refine, and the product that was packed has an
implementation of it. -/
namespace TraitLang.Check

section

variable {base : Program} {root : Nat} {files : List SourceFile} {name : String} {program : Program}
  {settings : Settings} {s : State}

/-- A product that conforms to some traits has implementations of what they require, also through
refinement. -/
lemma Inv.implements (hs : base.Surveyed root) (hi : Inv base s) (hdiag : s.diagnostics = [])
    {product} {list} (hlist : s.conformances[product]? = some list) {start trait requirement}
    (hstart : start ∈ list.map Conformance.trait) (hleads : s.program.Leads start trait)
    {member} (hrequires : s.program.Requires trait member requirement) :
    ∃ conformance ∈ list, conformance.trait = trait ∧ conformance.state = .checked ∧
      ∃ implementation, conformance.implementation? requirement = some implementation ∧
      implementation ∈ productMembers s.program.tree product ∧
      s.program.tree.isFunction implementation ∧ s.program.tree.declName? implementation =
      some member ∧ ∃ signature, s.signatures[implementation]? = some signature ∧
        s.signatures[requirement]? = some signature := by
  have hconforms := hi.conformances hlist
  rw [hi.descends.leads_eq hs] at hleads
  obtain ⟨conformance, hmem, rfl⟩ := List.mem_map.1 (hconforms.claims.leads hstart hleads)
  have himplements := hconforms.implements conformance hmem
  have hstate : conformance.state = .checked := by
    cases hstate : conformance.state with
    | realized => exact absurd (himplements.settled ▸ hstate) settle_state_ne
    | invalid => exact absurd hdiag (hi.reported hlist hmem hstate)
    | checked => rfl
  obtain ⟨_, _, hd, hin, hname⟩ := hrequires
  have hd := hi.descends.base_decl?_of_not_binding hd rfl
  have hfunction := (hs.rooted.below (Tree.decl?_eq_some.1 hd)).1 requirement hin
  have hrequired :
      requirement ∈ conformance.requirements base.tree := by grind [Conformance.requirements,
      Tree.isFunction_iff]
  obtain ⟨implementation, hfound, hentry⟩ := himplements.exists_implementation hstate hrequired
  obtain ⟨_, hisFunction, hsame, hsignatures⟩ := State.of_implementation? hfound
  refine ⟨conformance, hmem, rfl, hstate, implementation, hentry, ?_, ?_, ?_, hsignatures⟩
  · rwa [hi.descends.productMembers_eq]
  · rwa [hi.descends.isFunction_eq]
  · rw [hi.descends.declName?_eq] at hname ⊢
    obtain ⟨function, _, hfound, -⟩ := exists_function hi.descends (Tree.isFunction_iff.1 hisFunction)
    have hown : base.tree.declName? implementation = some function.name := by simp [Tree.declName?,
        hfound, DeclKind.name?]
    rw [Program.declName, Program.declName, hname, hown] at hsame
    rw [hown]
    exact congrArg some hsame

/-- After a good verdict, whatever is found through the traits of a packed value is implemented by
the product that was packed. -/
theorem Checked.dispatch (h : Checked files name settings program true s) {id witness : ExprId}
    {traits : List DeclId} {span : Span} (hpacked : s.program.tree.expr? id = some
    ⟨.existential witness traits, span⟩) {product : DeclId} {type : String}
    (hwitness : s.exprType? witness = some (.product product type)) {member : String}
    {requirement : DeclId}
    (hmember : s.program.requirement? traits member = .ok (some requirement)) :
    ∃ list, s.finish.conformances[product]? = some list ∧ ∃ conformance ∈ list,
    conformance.state = .checked ∧ s.program.Requires conformance.trait member requirement ∧
      ∃ implementation, conformance.implementation? requirement = some implementation ∧
        implementation ∈ productMembers s.program.tree product ∧
        s.program.tree.isFunction implementation ∧ s.program.tree.declName? implementation =
        some member ∧ ∃ signature, s.signatures[implementation]? = some signature ∧
          s.signatures[requirement]? = some signature := by
  obtain ⟨root, -, hs, -, -⟩ := h.exists_judged
  have hi := h.inv
  obtain ⟨⟨types, htypes, -, rfl⟩, -, hproduct⟩ := hi.packed hpacked
  obtain ⟨found, foundName, list, htype, hlist, hall⟩ := hproduct h.not_faulty
  cases hwitness.symm.trans htype
  -- the search goes through the traits of the value and those that they refine, which the product
  -- conforms to
  have htraits (trait : DeclId) (ht : trait ∈ Ty.traitDeclsAll types) :
      s.program.tree.Declares DeclKind.isTrait trait :=
    hi.descends.isTrait_iff.2 ((hi.conformances hlist).claims.declares trait (hall trait ht))
  obtain ⟨found, hok, hfound, -⟩ := Program.requirement?_spec (hi.descends.traitsPlaced hs) member fun trait ht =>
    (htraits trait ht).isSome_decl?
  cases hmember.symm.trans hok
  obtain ⟨start, hstart, trait, hleads, hrequires⟩ := hfound requirement rfl
  obtain ⟨conformance, hmem, rfl, hstate, himplementation⟩ :=
    hi.implements hs h.sound.1 hlist (hall start hstart) hleads hrequires
  exact ⟨list, hlist, conformance, hmem, hstate, hrequires, himplementation⟩

theorem dispatch_packing : ∃ program s span, Checked packing "main"
    {} program true s ∧ s.program.tree.expr? 18 = some ⟨.existential 13 [1], span⟩ ∧
    s.exprType? 13 = some (.product 4 "A") ∧ s.program.requirement?
    [1] "f" = .ok (some 0) ∧ ∃ list, s.finish.conformances[4]? = some list ∧ ∃ conformance ∈ list,
      conformance.state = .checked ∧ s.program.Requires conformance.trait "f" 0 ∧
        ∃ implementation, conformance.implementation? 0 = some implementation ∧ implementation ∈
          productMembers s.program.tree 4 ∧ s.program.tree.isFunction implementation ∧
          s.program.tree.declName? implementation = some "f" ∧ ∃ signature,
            s.signatures[implementation]? = some signature ∧ s.signatures[0]? = some signature := by
  obtain ⟨program, good, s, hchecked, htest⟩ := Checked.exists_of_any run_packing
  simp only [Bool.and_eq_true, beq_iff_eq] at htest
  obtain ⟨rfl, hpacked, htype, hmember, -⟩ := htest
  exact ⟨program, s, _, hchecked, hpacked, htype, hmember, hchecked.dispatch hpacked htype hmember⟩

end

end TraitLang.Check
