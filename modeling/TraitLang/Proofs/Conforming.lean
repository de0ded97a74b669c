import TraitLang.Proofs.Asking

/-! Signatures of functions, and conformances of products. Both are found without looking into
bodies, so that finding them only takes notes. A product has conformances to the traits that it
names and those that refinement leads to, and each is verified once: what is missing is reported
then. -/
namespace TraitLang

open Conformance List Program NodeMap DeclKind

/-! ### Traits of the program at hand -/

namespace Program

namespace Descends

variable {base program : Program} (h : Descends base program) {root : Nat} (hs : base.Surveyed root)

include h

lemma isTrait_iff {id} : program.tree.Declares isTrait id ↔ base.tree.Declares isTrait id :=
  h.declares_iff fun _ _ => rfl

lemma requirements_eq (conformance : Conformance) :
    conformance.requirements program.tree = conformance.requirements base.tree := by
  have hfun : program.tree.isFunction = base.tree.isFunction := funext h.isFunction_eq
  rw [requirements, requirements, hfun]
  exact h.decl?_induct conformance.trait (fun _ => rfl) fun _ _ _ => rfl

lemma productMembers_eq (product : DeclId) :
    Check.productMembers program.tree product = Check.productMembers base.tree product := by
  unfold Check.productMembers
  exact h.decl?_induct product (fun _ => rfl) fun _ _ _ => rfl

include hs

lemma traitsPlaced : program.TraitsPlaced := by
  refine ⟨fun {trait} ht => ?_, h.demandFrom_eq_ok hs, fun {trait decl span} ht => ?_⟩
  · rw [h.isTrait_iff] at ht
    rw [h.scopeOf_eq trait ht.lt_size]
    refine hs.scopeOf_isSome (hs.rooted.lt_root ht.lt_size ?_)
    obtain ⟨⟨kind, _⟩, hd, hk⟩ := ht
    rw [Tree.declares_iff hd]
    cases kind with
    | trait decl => simp [isModule]
    | _ => cases hk
  · have hn := Tree.decl?_eq_some.1 (h.base_decl?_of_not_binding ht rfl)
    exact h.demand_eq_ok fun id hid => ((hs.rooted.below hn).1 id hid).isSome_decl?

lemma refined_eq (trait : Nat) : program.refined trait = base.refined trait := by
  unfold refined
  rcases h.decl?_cases trait with he | ⟨decl, span, _, hb, hp⟩
  · rw [he]
    split
    next => rfl
    next decl _ hd =>
      rw [h.enclosingScope_eq (Tree.lt_size (Tree.decl?_eq_some.1 hd))]
      cases hscope : base.scopeOf trait with
      | none =>
        simp only [enclosingScope, hscope]
        rfl
      | some scope =>
        have htrait (name : String) : program.trait? name scope = base.trait? name scope :=
          h.trait?_eq hs name (hs.le_root_of_scopeOf hscope)
        simp only [enclosingScope, hscope, h.demandFrom_eq_ok hs,
          (Descends.refl base).demandFrom_eq_ok hs, bind, Except.bind]
        exact congrArg (Except.ok ∘ fun f => decl.refinements.filterMap f) (funext fun refinement => htrait _)
    next => rfl
  · rw [hb, hp]

lemma bases_eq (trait : Nat) : program.bases trait = base.bases trait := by
  rw [bases, bases, h.refined_eq hs]

lemma leads_eq : program.Leads = base.Leads := by
  simp only [Leads, h.bases_eq hs]

omit hs in
lemma requires_iff {trait requirement name} :
    program.Requires trait name requirement ↔ base.Requires trait name requirement := by
  simp only [Requires, h.declName?_eq]
  constructor
  · rintro ⟨decl, span, hd, hrest⟩
    exact ⟨decl, span, h.base_decl?_of_not_binding hd rfl, hrest⟩
  · rintro ⟨decl, span, hd, hrest⟩
    exact ⟨decl, span, h.decl?_of_not_binding hd rfl, hrest⟩

omit hs in
lemma claimed_iff {claimed} : program.Claimed claimed ↔ base.Claimed claimed :=
  ⟨fun hc => ⟨hc.nodup, fun trait ht => h.isTrait_iff.1 (hc.declares trait ht)⟩,
    fun hc => ⟨hc.nodup, fun trait ht => h.isTrait_iff.2 (hc.declares trait ht)⟩⟩

end Descends

end Program

namespace Check

variable {base : Program} {root : Nat} (hs : base.Surveyed root) {s : State}
  {depth : Nat} {ask : Answerer} (ha : Answers base depth ask) (hdepth : 0 < depth)

/-! ### Signatures -/

include hs

variable {id product : Nat} {conformance : Conformance} {decl : ProductDecl} {place : Span}

lemma note_signature (hc : Core base s) {signature} (hnew : s.signatures[id]? = none)
    (hsigned : Signed base s id signature) : Noted base s
    { s with signatures := s.signatures.insert id signature } := by
  have hn : Notes base s { s with signatures := s.signatures.insert id signature } :=
    { Notes.refl base s with signatures := insert_mono hnew }
  refine ⟨⟨hn, hn.core hs.rooted hc { hc.toTables with signatures := fun h => of_insert h hsigned hc.signatures }, rfl⟩, rfl⟩

omit hs in
lemma exists_function (hd : base.Descends s.program) (hf : base.tree.Declares isFunction id) :
      ∃ function span, base.tree.decl? id = some ⟨.function function, span⟩ ∧
      s.program.tree.decl? id = some ⟨.function function, span⟩ := by
  obtain ⟨⟨kind, span⟩, hdecl, hk⟩ := hf
  cases kind with
  | function function =>
    exact ⟨function, span, hdecl, hd.decl?_of_not_binding hdecl rfl⟩
  | _ => cases hk

include ha hdepth

lemma ensures_signatureOf (hc : Core base s) (hf : base.tree.Declares isFunction id) :
    Ensures (signatureOf ask id) s fun signature s' => Noted base s s' ∧ s'.signatures[id]? = some signature := by
  obtain ⟨function, span, hbase, hcurrent⟩ := exists_function hc.descends hf
  obtain ⟨hfits, -⟩ := hs.rooted.below (Tree.decl?_eq_some.1 hbase)
  have hid := hf.lt_size
  have hle : id ≤ root := by have := hs.rooted.size_eq; omega
  unfold signatureOf
  simp only [ensures_get_bind]
  cases hknown : s.signatures[id]? with
  | some signature => exact ensures_pure.2 ⟨.refl hc, hknown⟩
  | none =>
    refine (ensures_decl hcurrent).read ?_
    refine (ensures_ownScope hc.descends hid ?_).bind ?_
    · simp [Tree.isScope, Tree.decl?_eq_some.1 hbase, Node.isScope]
    rintro id s ⟨rfl, rfl⟩
    refine (ensures_mapM (I := fun params types s1 => Noted base s s1 ∧ s1.signatures =
      s.signatures ∧ (∀ type ∈ types, Plain base s1 type) ∧ ∀ param : Nat, param ∈ params →
      (s1.declTypes[param]?).isSome) function.params ?_ ⟨.refl hc, rfl, by simp, by simp⟩).bind ?_
    · rintro done param rest types s1 hparams ⟨h1, hsame, hplain, htyped⟩
      have hparam := hfits.2.1 param (by simp [hparams])
      have hdeclared : base.tree.Declares (fun kind => kind.isParam || kind.isProduct) param :=
        hparam.imp fun decl hd => ⟨hd.1, by simp [hd.2]⟩
      refine (ha.declared h1.core hdeclared hdepth).imp ?_
      rintro type s2 ⟨h2, htype, hsame2⟩
      refine ⟨h1.trans h2, hsame2.trans hsame, ?_, ?_⟩
      · refine forall_mem_append.2 ⟨fun type ht => (hplain type ht).mono h2.faulty, ?_⟩
        simpa using (h2.core.declTypes htype).2 hparam
      · refine forall_mem_append.2 ⟨fun other ho => ?_, forall_mem_singleton.2 (by rw [htype]; rfl)⟩
        exact (h2.evolves .nowhere).isSome_declTypes (htyped other ho)
    · rintro types s1 ⟨h1, hsame, hparams, htyped⟩
      have houtput : Ensures (function.output.elim (pure Ty.unit) (resolveType id)) s1 fun type s2 =>
          Reported s1 s2 ∧ Plain base s2 type := by
        cases function.output with
        | none => exact ensures_pure.2 ⟨.refl s1, Ty.over_tuple.2 (by simp)⟩
        | some written => exact (ensures_writtenType hs hle written h1.core).imp fun type s2 h => ⟨h.1, h.2.1⟩
      refine houtput.bind ?_
      rintro output s2 ⟨h2, hplain⟩
      have hn := h2.noted hs.rooted h1.core
      have hsigned : Signed base s2 id ⟨types, output⟩ := by
        refine ⟨fun type ht => (hparams type ht).mono h2.faulty, hplain, fun decl span hd param hp => ?_⟩
        cases hbase.symm.trans hd
        exact (hn.evolves .nowhere).isSome_declTypes (htyped param hp)
      have hnew : s2.signatures[id]? = none := by
        obtain ⟨_, -, rfl⟩ := h2
        exact hsame ▸ hknown
      refine ensures_pure.2 ⟨(h1.trans hn).trans (note_signature hs hn.core hnew hsigned), ?_⟩
      exact getElem?_insert_self

/-! ### Claims of a product -/

section

omit ha hdepth

/-- Traits that are new to a list of conformances enter it in the order of their names. -/
lemma ensures_declaredConformances {scope} (hscope : scope ≤ root) : ∀ names claimed {s},
    Core base s → Ensures (declaredConformances scope claimed names) s fun all s' => Reported s s' ∧
      all = claimed ++ ((base.mentions scope names).filter fun mention =>
        mention.1 ∉ claimed.map Conformance.trait).map fun mention => .new mention.1 (some mention.2)
  | [], claimed, s, hc => ensures_pure.2 ⟨.refl s, by simp [mentions]⟩
  | name :: names, claimed, s, hc => by
    refine (ensures_resolveTrait hs hscope hc.descends name).bind ?_
    rintro _ s1 ⟨h1, rfl, _⟩
    have hrest (claimed : List Conformance) :=
      ensures_declaredConformances hscope names claimed (h1.noted hs.rooted hc).core
    rw [mentions]
    cases base.trait? name.name scope with
    | none => exact (hrest claimed).imp fun all s' h => ⟨h1.trans h.1, h.2⟩
    | some trait =>
      dsimp only
      split
      next hold =>
        have hold : trait ∈ claimed.map Conformance.trait := by simpa using hold
        refine (hrest claimed).imp fun all s' h => ⟨h1.trans h.1, ?_⟩
        rw [h.2, filter_cons_of_neg (by simpa using hold), filter_filter]
        congr 2
        refine filter_congr fun mention _ => ?_
        have hne : mention.1 ∉ claimed.map Conformance.trait → mention.1 ≠ trait := fun h heq => h (heq ▸ hold)
        simpa using hne
      next hnew =>
        refine (hrest (claimed ++ [.new trait (some name.span)])).imp ?_
        rintro _ s' ⟨h2, rfl⟩
        refine ⟨h1.trans h2, ?_⟩
        rw [filter_cons_of_pos (by simpa using hnew), filter_filter, map_cons, append_assoc,
          singleton_append]
        congr 3
        refine filter_congr fun mention _ => ?_
        rw [Bool.eq_iff_iff]
        simp only [map_append, map_cons, map_nil, mem_append, mem_singleton, not_or,
          Bool.and_eq_true, decide_eq_true_eq, Conformance.new, ne_eq]

end

/-! ### Verification -/

lemma ensures_findImplementation (requirement : DeclId) (required : Signature) : ∀ (members : List DeclId) {s},
    Core base s → (∀ member ∈ members, (base.tree.decl? member).isSome) →
    Ensures (findImplementation ask (base.declName requirement) required members) s fun found s' =>
      Noted base s s' ∧ Selects base s' requirement required members found
  | [], s, hc, _ => ensures_pure.2 ⟨.refl hc, .nothing⟩
  | member :: members, s, hc, hall => by
    obtain ⟨hhead, htail⟩ := forall_mem_cons.1 hall
    have hrest {s1} (h1 : Noted base s s1) (hpass : Namesake base requirement member →
        ∃ other, s1.signatures[member]? = some other ∧ other ≠ required) : Ensures
        (findImplementation ask (base.declName requirement) required members) s1 fun found s' =>
          Noted base s s' ∧ Selects base s' requirement required (member :: members) found := by
      refine (ensures_findImplementation requirement required members h1.core htail).imp ?_
      rintro found s' ⟨h2, hfound⟩
      refine ⟨h1.trans h2, .pass (fun hname => ?_) hfound⟩
      obtain ⟨other, hsignature, hne⟩ := hpass hname
      exact ⟨other, h2.signatures hsignature, hne⟩
    unfold findImplementation
    refine (ensures_demand_bind hc.descends (forall_mem_singleton.2 hhead)).2 ?_
    simp only [ensures_get_bind, hc.descends.isFunction_eq, hc.descends.declName_eq]
    split
    next hmember =>
      refine (ensures_signatureOf hs ha hdepth hc (Tree.isFunction_iff.1 (Bool.and_eq_true_iff.1 hmember).1)).bind ?_
      rintro signature s1 ⟨h1, hsignature⟩
      split
      next heq => exact ensures_pure.2 ⟨h1, .take hmember (heq ▸ hsignature)⟩
      next hne => exact hrest h1 fun _ => ⟨signature, hsignature, hne⟩
    next hother => exact hrest (.refl hc) fun hname => absurd hname hother

lemma ensures_matchRequirements {members : List DeclId}
    (hm : ∀ member ∈ members, (base.tree.decl? member).isSome) : ∀ (requirements : List DeclId) {s},
    Core base s → (∀ requirement ∈ requirements, base.tree.isFunction requirement) →
    Ensures (matchRequirements ask members requirements) s fun found s' => Noted base s s' ∧
      Examined base s' members requirements ∧ found = (s'.met base members requirements,
      (s'.unmet base members requirements).map base.declName)
  | [], s, hc, _ => ensures_pure.2 ⟨.refl hc, by simp [Examined], rfl⟩
  | requirement :: requirements, s, hc, hfun => by
    obtain ⟨hhead, htail⟩ := forall_mem_cons.1 hfun
    have hfunction := Tree.isFunction_iff.1 hhead
    unfold matchRequirements
    refine (ensures_declName hc.descends hfunction.isSome_decl?).read ?_
    refine (ensures_signatureOf hs ha hdepth hc hfunction).bind ?_
    rintro required s1 ⟨h1, hrequired⟩
    refine (ensures_findImplementation hs ha hdepth requirement required members h1.core hm).bind ?_
    rintro found s2 ⟨h2, hfound⟩
    refine (ensures_matchRequirements hm requirements h2.core htail).bind ?_
    rintro _ s3 ⟨h3, hexamined, rfl⟩
    have hrequired := h3.signatures (h2.signatures hrequired)
    have hfound := hfound.mono h3.signatures
    have hall : Examined base s3 members (requirement :: requirements) :=
      forall_mem_cons.2 ⟨⟨required, hrequired, found, hfound⟩, hexamined⟩
    have himplementation := hfound.implementation?_eq hrequired
    cases found with
    | none | some implementation =>
      exact ensures_pure.2 ⟨(h1.trans h2).trans h3, hall, by simp [State.met, State.unmet, himplementation]⟩

omit hs ha hdepth in
lemma isFunction_of_requirement {requirement}
    (hr : requirement ∈ conformance.requirements base.tree) : base.tree.isFunction requirement := by
  unfold requirements at hr
  split at hr
  next => exact (mem_filter.1 hr).2
  next => cases hr

omit hs ha hdepth in
lemma ensures_membersOf (hd : base.Descends s.program) (hp : (base.tree.decl? product).isSome) :
    Ensures (membersOf product) s fun members s' => members = productMembers base.tree product ∧ s' = s :=
  (ensures_demand_bind hd (forall_mem_singleton.2 hp)).2 (ensures_pure.2 ⟨hd.productMembers_eq product, rfl⟩)

omit ha hdepth in
lemma ensures_requirementsOf (hd : base.Descends s.program)
    (ht : base.tree.Declares isTrait conformance.trait) : Ensures (requirementsOf conformance) s
    fun found s' => found = conformance.requirements base.tree ∧ s' = s := by
  obtain ⟨⟨kind, _⟩, hbase, hk⟩ := ht
  cases kind with
  | trait decl =>
    have hn := Tree.decl?_eq_some.1 (hd.decl?_of_not_binding hbase rfl)
    have hmembers := (hs.rooted.below (Tree.decl?_eq_some.1 hbase)).1
    refine (ensures_demand_bind hd (forall_mem_cons.2 ⟨by simp [hbase], ?_⟩)).2
      (ensures_pure.2 ⟨hd.requirements_eq conformance, rfl⟩)
    rw [Tree.children_of_node? hn]
    exact fun member hm => (hmembers member hm).isSome_decl?
  | _ => cases hk

def Unverified (claimed : List Conformance) : Prop :=
  ∀ conformance ∈ claimed, conformance = .new conformance.trait conformance.span

lemma ensures_verifyConformance (hc : Core base s) (hp : base.tree.decl? product = some
    ⟨.product decl, place⟩) {trait} (ht : base.tree.Declares isTrait trait) (span : Option Span) :
    Ensures (verifyConformance ask product (.new trait span)) s fun outcome s' =>
    ∃ settled, outcome = .ok () settled ∧
      Gathered base s s' ∧ claim settled = (trait, span) ∧ Implements base s' product settled ∧
      s'.breached = s.breached ++ s'.breaches base product settled := by
  have hmembers (member : DeclId) (hm : member ∈ productMembers base.tree product) :
      (base.tree.decl? member).isSome := by
    rw [productMembers, hp] at hm
    exact ((hs.rooted.below (Tree.decl?_eq_some.1 hp)).1 member hm).isSome_decl?
  unfold verifyConformance
  refine (ensures_membersOf hc.descends (by simp [hp])).read ((ensures_requirementsOf hs hc.descends ht).read ?_)
  refine (ensures_matchRequirements hs ha hdepth hmembers _ hc fun _ => isFunction_of_requirement).bind ?_
  rintro _ s1 ⟨h1, hexamined, rfl⟩
  have hd := h1.core.descends
  dsimp only
  split
  next hnone =>
    have hunmet : s1.unmet base (productMembers base.tree product)
        (requirements (.new trait span) base.tree) = [] := by
      simpa using hnone
    have haccept : accept (.new trait span) (s1.met base (productMembers base.tree product)
        (requirements (.new trait span) base.tree)) s1.program.tree =
        .ok () (s1.settle base product (.new trait span)) := by
      have hperm := isPerm_iff.2 (Perm.refl (requirements (.new trait span) base.tree))
      have hmet : (s1.met base (productMembers base.tree product) (requirements (.new trait span) base.tree)).map
          ConformanceEntry.requirement = requirements (.new trait span) base.tree := by
        rw [← forall₂_eq_eq_eq, forall₂_map_left_iff]
        exact (forall₂_met hunmet).flip.imp fun _ _ h => h.1
      rw [accept, hmet, hd.requirements_eq, if_neg (by simp [new]), if_pos hperm, transition,
        if_neg (by simp [new]), State.settle, if_pos hunmet]
    refine (ensures_requirementsOf hs hd ht).read (ensures_pure.2 ⟨_, haccept, h1.toGathered,
      claim_settle, hexamined.implements, ?_⟩)
    rw [h1.breached_eq, breaches_settle, State.breaches, hp]
    simp [hunmet]
  next hsome =>
    have hunmet : s1.unmet base (productMembers base.tree product)
        (requirements (.new trait span) base.tree) ≠ [] := by
      simpa using hsome
    have hreject : reject (.new trait span) = .ok () (s1.settle base product
        (.new trait span)) := by simp_all [reject, transition, new, State.settle]
    have hbreaches : s1.breaches base product (.new trait span) = ((s1.unmet base (productMembers base.tree product)
        (requirements (.new trait span) base.tree)).map base.declName).map fun name =>
          ⟨.nonConforming (base.declName product)
            (traitType (.new trait span) base.tree).describe name, (span.getD place).start⟩ := by
      rw [State.breaches, hp, map_map]
      rfl
    refine (ensures_decl (hd.decl?_of_not_binding hp rfl)).read ((ensures_declName hd (by simp [hp])).read ?_)
    refine (ensures_demand_bind hd (forall_mem_singleton.2 ht.isSome_decl?)).2 ?_
    simp only [tree, bind_assoc, pure_bind, ensures_get_bind, traitType, hd.declName?_eq]
    refine (ensures_forM (I := fun done s2 => s2 = { s1 with diagnostics := s1.diagnostics ++ done.map fun name =>
      ⟨.nonConforming (base.declName product) (traitType (.new trait span) base.tree).describe name,
        (span.getD place).start⟩ }) _ ?_ (by simp)).bind ?_
    · rintro done name rest _ - rfl
      exact ensures_modify.2 (by simp [traitType, new])
    rintro _ _ rfl
    rw [← hbreaches]
    refine ensures_pure.2 ⟨_, hreject, h1.toGathered.trans (gathered_report hs.rooted h1.core _),
      claim_settle, Implements.mono (s := s1) id hexamined.implements, ?_⟩
    calc State.breached { s1 with diagnostics := s1.diagnostics ++ s1.breaches base product (.new trait span) }
      _ = s1.breached ++ s1.breaches base product (.new trait span) := by
        rw [State.breached, filter_append, filter_breaches, State.breached]
      _ = s.breached ++ s1.breaches base product (s1.settle base product (.new trait span)) := by
        rw [h1.breached_eq, breaches_settle]

omit hs ha hdepth in
/-- Settled conformances stay as they are. -/
lemma ensures_verifyEach_settled (product : DeclId) :
    ∀ claimed, (∀ conformance ∈ claimed, conformance.state ≠ .realized) →
    Ensures (verifyEach ask product claimed) s fun settled s' => settled = claimed ∧ s' = s
  | [], _ => ensures_pure.2 ⟨rfl, rfl⟩
  | conformance :: claimed, h => by
    obtain ⟨hhead, htail⟩ := forall_mem_cons.1 h
    rw [verifyEach, if_neg hhead]
    refine (ensures_verifyEach_settled product claimed htail).read ?_
    exact ensures_pure.2 ⟨rfl, rfl⟩

lemma ensures_verifyEach
    (hp : base.tree.decl? product = some ⟨.product decl, place⟩) : ∀ claimed {s},
    Core base s → (∀ trait ∈ claimed.map Conformance.trait, base.tree.Declares isTrait trait) →
    Unverified claimed → Ensures (verifyEach ask product claimed) s fun settled s' =>
    Gathered base s s' ∧ settled.map claim = claimed.map claim ∧
      (∀ conformance ∈ settled, Implements base s' product conformance) ∧
      s'.breached = s.breached ++ settled.flatMap (s'.breaches base product)
  | [], s, hc, _, _ => ensures_pure.2 ⟨(Noted.refl hc).toGathered, rfl, by simp, by simp⟩
  | conformance :: claimed, s, hc, htraits, hopen => by
    obtain ⟨hhead, htail⟩ := forall_mem_cons.1 hopen
    obtain ⟨ht, hts⟩ := forall_mem_cons.1 htraits
    generalize conformance.trait = trait, conformance.span = span at hhead ht
    subst hhead
    refine (ensures_verifyConformance hs ha hdepth hc hp ht span).bind ?_
    rintro _ s1 ⟨settled, rfl, h1, hclaim, hi, hbreached⟩
    refine (ensures_verifyEach hp claimed h1.core hts htail).bind ?_
    rintro rest s2 ⟨h2, hclaims, hall, hrest⟩
    refine ensures_pure.2 ⟨h1.trans h2, congrArg₂ List.cons hclaim hclaims,
      forall_mem_cons.2 ⟨hi.mono h2.signatures, hall⟩, ?_⟩
    rw [hrest, hbreached, append_assoc, flatMap_cons, hi.examined.breaches_eq h2.signatures]

omit ha hdepth in
lemma ensures_ensureConformances (hi : Inv base s) (hp : base.tree.Declares isProduct product)
    (hnew : s.conformances[product]? = none) :
    Ensures (ensureConformances product) s fun _ s' => ∃ s1 claimed,
      Reported s s1 ∧ s' = { s1 with conformances := s.conformances.insert product claimed } ∧
      base.Claims product claimed ∧ Unverified claimed := by
  unfold ensureConformances
  simp only [ensures_get_bind, hnew, Option.isSome_none, Bool.false_eq_true, if_false]
  obtain ⟨⟨kind, _⟩, hbase, hk⟩ := id hp
  cases kind with
  | product decl =>
    refine (ensures_decl (hi.descends.decl?_of_not_binding hbase rfl)).read ?_
    have hroot : product < root := hs.rooted.lt_root hp.lt_size (by simp [Tree.declares_iff hbase, isModule])
    refine (ensures_enclosingScope hs hi.descends hroot).bind ?_
    rintro scope s ⟨hscope, rfl⟩
    refine (ensures_declaredConformances hs (hs.le_root_of_scopeOf hscope) decl.conformances [] hi.toCore).bind ?_
    rintro declared s1 ⟨h1, hdeclared⟩
    have hnamed : base.named product = base.mentions scope decl.conformances := by rw [named, hbase, hscope]
    have hdeclared : declared = (base.named product).map fun mention => .new mention.1 (some mention.2) := by
      simpa [hnamed] using hdeclared
    have hd := (h1.noted hs.rooted hi.toCore).core.descends
    have hclaimed : base.Claimed declared := by
      rw [hdeclared, hnamed]
      exact base.claimed_mentions scope decl.conformances
    obtain ⟨added, hok, hclaimed, hmem⟩ := implied_spec (hd.traitsPlaced hs) (hd.claimed_iff.2 hclaimed)
    simp only [ensures_get_bind, hok, ensures_modify]
    rw [hd.leads_eq hs] at hmem
    refine ⟨s1, _, h1, ?_, ⟨hd.claimed_iff.1 hclaimed, ⟨added, ?_⟩, fun trait => ?_⟩, ?_⟩
    · obtain ⟨_, -, rfl⟩ := h1
      rfl
    · simp [hdeclared, new, Function.comp_def, claim]
    · rw [hmem, hdeclared]
      simp [new, Function.comp_def]
    · intro conformance hm
      rw [hdeclared] at hm
      rcases mem_append.1 hm with hm | hm <;> obtain ⟨_, _, rfl⟩ := mem_map.1 hm <;> rfl
  | _ => cases hk

omit hs ha hdepth in
/-- A conformance that failed was reported. -/
lemma Inv.reported (hi : Inv base s) {list} (hlist : s.conformances[product]? = some list)
    (hm : conformance ∈ list) (hc : conformance.state = .invalid) : s.diagnostics ≠ [] := by
  have hconforms := hi.conformances hlist
  obtain ⟨_, hstart, -⟩ := (hconforms.claims.mem_iff _).1 (mem_map_of_mem hm)
  obtain ⟨_, hmention, -⟩ := mem_map.1 hstart
  have hproduct := declares_of_mem_named hmention
  obtain ⟨diagnostic, hd⟩ := exists_mem_of_ne_nil _ ((hconforms.implements _ hm).breaches_ne hc hproduct)
  have hmem : diagnostic ∈ s.breached := by
    refine hi.balanced.mem_iff.2 (mem_flatMap.2 ⟨product, mem_products.2 hproduct, ?_⟩)
    rw [State.breachesOf, Std.TreeMap.getD_eq_getD_getElem?, hlist]
    exact mem_flatMap.2 ⟨conformance, hm, hd⟩
  exact ne_nil_of_mem (mem_filter.1 hmem).1

lemma ensures_checkConformances (hi : Inv base s) (hp : base.tree.Declares isProduct product) :
    Ensures (checkConformances ask product) s fun good s' => Step base .nowhere s s' ∧
      (∃ list, s'.conformances[product]? = some list) ∧ (good = false → s'.diagnostics ≠ []) := by
  -- the verdict, once the conformances are in the table
  have hverdict {s' settled} (hstep : Step base .nowhere s s')
      (hlist : s'.conformances[product]? = some settled) : Step base .nowhere s s' ∧
        (∃ list, s'.conformances[product]? = some list) ∧ ((settled.all fun conformance =>
        conformance.state ≠ .invalid) = false → s'.diagnostics ≠ []) := by
    refine ⟨hstep, ⟨settled, hlist⟩, fun hbad => ?_⟩
    obtain ⟨conformance, hm, hinvalid⟩ : ∃ conformance ∈ settled, conformance.state = .invalid := by simpa using hbad
    exact hstep.inv.reported hlist hm hinvalid
  refine ensures_checkConformances_iff.2 ?_
  unfold settleConformances
  cases hknown : s.conformances[product]? with
  | some claimed =>
    -- the conformances leave the table and come back as they were
    have hconforms := hi.conformances hknown
    have hget : s.conformances.getD product [] = claimed := by
      rw [Std.TreeMap.getD_eq_getD_getElem?, hknown, Option.getD_some]
    have hput (id : Nat) : ((s.conformances.erase product).insert product claimed)[id]? =
        if product = id then some claimed else s.conformances[id]? := by grind
    have hsettled : ∀ conformance ∈ claimed, conformance.state ≠ .realized := fun conformance hm => by
      rw [← (hconforms.implements conformance hm).settled]
      exact settle_state_ne
    rw [ensureConformances]
    simp only [ensures_get_bind, bind_assoc, hknown, Option.isSome_some, if_true, pure_bind, hget,
      ensures_modify_bind]
    refine (ensures_verifyEach_settled product claimed hsettled).read ?_
    refine ensures_pure.2 (hverdict ?_ ((hput product).trans (if_pos rfl)))
    refine step_conformances hs.rooted hi (notes_conformances base s _)
      (core_conformances hs.rooted hi.toCore _) hput (fun known hk => Option.some.inj
      (hk.symm.trans hknown)) (hconforms.mono (notes_conformances base s _).signatures)
      (hi.balanced.mono (fun _ _ => hi.conformances) id (fun id => ?_) rfl)
    rw [hput]
    split
    next heq => rw [← heq, hknown]
    next => rfl
  | none =>
    obtain ⟨⟨kind, _⟩, hdecl, hk⟩ := id hp
    cases kind with
    | product decl =>
      refine (ensures_ensureConformances hs hi hp hknown).bind ?_
      rintro _ _ ⟨s1, claimed, h1, rfl, hclaims, hopen⟩
      have hn1 := h1.noted hs.rooted hi.toCore
      have hget : (s.conformances.insert product claimed).getD product [] = claimed := by grind
      simp only [ensures_get_bind, ensures_modify_bind, hget]
      refine (ensures_verifyEach hs ha hdepth hdecl claimed
        (core_conformances hs.rooted hn1.core _) hclaims.declares hopen).bind ?_
      rintro settled s2 ⟨h2, hsame, hall, hbreached⟩
      have hput (id : Nat) : (s2.conformances.insert product settled)[id]? =
          if product = id then some settled else s.conformances[id]? := by
        rw [getElem?_insert, h2.conformances_eq, getElem?_erase, getElem?_insert]
        split <;> rfl
      have hconforms : Conforms base s2 product settled := ⟨hclaims.congr hsame, hall⟩
      have hnotes : Notes base s s2 := hn1.toNotes.trans ((notes_conformances base s1 _).trans h2.toNotes)
      refine ensures_pure.2 (hverdict ?_ ((hput product).trans (if_pos rfl)))
      refine step_conformances hs.rooted hi (hnotes.trans (notes_conformances base s2 _))
        (core_conformances hs.rooted h2.core _) hput (fun known hk => by simp [hknown] at hk)
        (hconforms.mono (notes_conformances base s2 _).signatures)
        (hi.balanced.verify (fun _ _ => hi.conformances) hnotes.signatures hp hknown
          (fun other hne => (hput other).trans (if_neg hne)) ?_)
      have hlist : (s2.conformances.insert product settled).getD product [] = settled := by grind
      rw [State.breachesOf, hlist, ← hn1.breached_eq]
      exact hbreached
    | _ => cases hk

end Check

end TraitLang
