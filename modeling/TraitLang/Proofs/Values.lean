import TraitLang.Proofs.Coercion

/-! Names and members as values. Looking them up changes no node; what a name says about a variable
or a parameter is the type that was recorded for it. -/
namespace TraitLang

open DeclKind List Program

namespace Check

variable {base : Program} {root : Nat} (hs : base.Surveyed root) {s : State}

/-! ### Properties -/

section

variable {product : Nat} {decl : ProductDecl} {span : Span}
  (hp : base.tree.decl? product = some ⟨.product decl, span⟩)

include hs hp

/-- Types do not stand in match cases. -/
lemma context_member (s : State) {member} (hm : member ∈ decl.members) : Context base s member := by
  intro case node hcase hin
  exfalso
  have hn := Tree.decl?_eq_some.1 hp
  have hc : member ∈ base.tree.children product := by rw [Tree.children_of_node? hn]; exact hm
  obtain ⟨hexpr, -, hnot⟩ := Tree.decl_only hp
  rcases hs.rooted.encloses_parent hc hin with rfl | hout
  · exact hnot ⟨node, hcase⟩
  · rcases hs.rooted.inner_of_encloses (.inr (.inl ⟨node, hcase⟩)) hout
      (Tree.lt_size (Tree.case?_eq_some.1 hcase)) with h | h | h | h
    · exact hexpr h
    · exact hnot h
    · simp [Tree.declares_iff hp, isBinding] at h
    · simp [Tree.declares_iff hp, isVar] at h

lemma asked_property (s : State) {member var} (hm : member ∈ decl.members)
    {binding place} (hb : base.tree.decl? member = some ⟨.binding binding, place⟩)
    (hv : var ∈ binding.pattern.vars) : base.tree.Declares isVar var ∧ Asked base s var := by
  refine ⟨(hs.rooted.below (Tree.decl?_eq_some.1 hb)).1.1.1 var hv, ?_⟩
  rw [Asked, hs.owningBinding?_eq_some.2 ⟨binding, place, hb, hv⟩]
  exact context_member hs hp s hm

end

variable {depth : Nat} {ask : Answerer} (ha : Answers base depth ask) {var id product found : Nat}
  {decl : ProductDecl} {span : Span} {name : String}

include ha in
lemma ensures_askVar (hi : Inv base s) (hv : base.tree.Declares isVar var)
    (hasked : Asked base s var) (hafford : Affords base s 1 depth) :
    Ensures (ask (.declType var)) s fun type s' => Step base .nowhere s s' ∧
    Known base s' type ∧ (type.spoiled = false → s'.declTypes[var]? = some type) ∧
      (base.owningBinding? var = none → type = (s.declTypes[var]?).getD .error) := by
  refine (ha.var hi hv hasked hafford).imp fun type s' ⟨hstep, htype, hcase⟩ => ⟨hstep, ?_, fun hgood => ?_, hcase⟩
  · rcases htype with htype | ⟨rfl, hf⟩
    · exact (hstep.inv.declTypes htype).1
    · exact known_error hf
  · rcases htype with htype | ⟨rfl, -⟩
    · exact htype
    · cases hgood

lemma plain_signature (hc : Core base s) {signature} (h : s.signatures[id]? = some signature) :
    Plain base s signature.toTy := by
  obtain ⟨hparams, houtput, -⟩ := hc.signatures h
  exact Ty.over_function.2 ⟨hparams, houtput⟩

include hs ha

lemma ensures_functionType (hi : Inv base s) (hdepth : 0 < depth)
    (hf : base.tree.Declares isFunction id) : Ensures (signatureOf ask id) s fun signature s' =>
      Step base .nowhere s s' ∧ Known base s' signature.toTy ∧ s'.signatures[id]? = some signature := by
  refine (ensures_signatureOf hs ha hdepth hi.toCore hf).imp ?_
  rintro signature s' ⟨hn, hsignature⟩
  exact ⟨hn.step hs.rooted hi .nowhere, (plain_signature hn.core hsignature).known, hsignature⟩

/-! ### Members -/

omit hs ha in
lemma propertyNamed?_eq (hd : base.Descends s.program)
    (binding : BindingDecl) (slot : Option ExprId) (name : String) : propertyNamed? s.program.tree
    { binding with initializer := slot } name = propertyNamed? base.tree binding name := by
  simp only [propertyNamed?, hd.declName?_eq]

lemma ensures_memberType (hp : base.tree.decl? product = some ⟨.product decl, span⟩)
    (hdepth : 0 < depth) (name : String) :
    ∀ (members : List DeclId) {s}, (∀ member ∈ members, member ∈ decl.members) →
    Inv base s → Affords base s 1 depth → Ensures (memberType ask name members) s fun found s' =>
      Step base .nowhere s s' ∧ ∀ type, found = some type → Known base s' type ∧
          ∃ decl, members.findSome? (base.memberIn? name) = some decl
  | [], s, _, hi, _ => ensures_pure.2 ⟨.refl hi, nofun⟩
  | member :: members, s, hsub, hi, hafford => by
    obtain ⟨hm, hsub⟩ := forall_mem_cons.1 hsub
    have hrest := ensures_memberType hp hdepth name members hsub hi hafford
    have hskip (hnone : base.memberIn? name member = none) :
        Ensures (memberType ask name members) s fun found s' => Step base .nowhere s s' ∧
          ∀ type, found = some type → Known base s' type ∧
            ∃ decl, (member :: members).findSome? (base.memberIn? name) = some decl := by grind
    have htake (decl : DeclId) (hsome : base.memberIn? name member = some decl) :
        ∃ decl, (member :: members).findSome? (base.memberIn? name) = some decl :=
      ⟨decl, by simp only [findSome?_cons, hsome]⟩
    obtain ⟨⟨kind, place⟩, hd, hk⟩ := (hs.rooted.below (Tree.decl?_eq_some.1 hp)).1 member hm
    cases kind with
    | function function =>
      have hf : base.tree.Declares isFunction member := ⟨_, hd, rfl⟩
      obtain ⟨_, _, hd', hcurrent⟩ := exists_function hi.descends hf
      cases hd.symm.trans hd'
      refine (ensures_decl hcurrent).read ?_
      dsimp only
      split
      next hname =>
        refine (ensures_functionType hs ha hi hdepth hf).bind ?_
        rintro signature s1 ⟨h1, hknown, _⟩
        refine ensures_pure.2 ⟨h1, ?_⟩
        rintro _ ⟨⟩
        exact ⟨hknown, htake member (by simp only [memberIn?, hd, if_pos hname])⟩
      next hname => exact hskip (by simp only [memberIn?, hd, if_neg hname])
    | binding binding =>
      obtain ⟨slot, hcurrent⟩ : ∃ slot, s.program.tree.decl? member = some
          ⟨.binding { binding with initializer := slot }, place⟩ := by
        rcases hi.descends.decl?_cases member with he | ⟨_, _, slot, hd', he⟩
        · exact ⟨binding.initializer, he.trans hd⟩
        · cases hd.symm.trans hd'
          exact ⟨slot, he⟩
      refine (ensures_decl hcurrent).read ((ensures_demand_bind hi.descends fun var hv => ?_).2 ?_)
      · exact (asked_property hs hp s hm hd hv).1.isSome_decl?
      simp only [tree, bind_assoc, pure_bind, ensures_get_bind, propertyNamed?_eq hi.descends]
      cases hvar : propertyNamed? base.tree binding name with
      | some var =>
        obtain ⟨hv, hasked⟩ := asked_property hs hp s hm hd (mem_of_find?_eq_some hvar)
        refine (ensures_askVar ha hi hv hasked hafford).bind ?_
        rintro type s1 ⟨h1, hknown, _⟩
        refine ensures_pure.2 ⟨h1, ?_⟩
        rintro _ ⟨⟩
        exact ⟨hknown, htake var (by simp only [memberIn?, hd, hvar])⟩
      | none => exact hskip (by simp only [memberIn?, hd, hvar])
    | _ => cases hk

lemma ensures_requirementType (hi : Inv base s) (hdepth : 0 < depth) (type : Ty) {traits}
    (ht : ∀ trait ∈ traits, base.tree.Declares isTrait trait ∧ s.Offers type trait)
    (name : String) : Ensures (requirementType ask traits name) s fun answer s' =>
    Step base .nowhere s s' ∧ ∀ known, answer = some known → Known base s' known ∧ ∃ found,
      s'.Member base name type found := by
  have hd := hi.descends
  obtain ⟨found, hok, hfound, -⟩ := requirement?_spec (hd.traitsPlaced hs) name fun trait hm =>
    (hd.isTrait_iff.2 (ht trait hm).1).isSome_decl?
  unfold requirementType
  simp only [ensures_get_bind, hok]
  cases found with
  | none => exact ensures_pure.2 ⟨.refl hi, by simp⟩
  | some requirement =>
    obtain ⟨start, hstart, _, hleads, hrequires⟩ := hfound requirement rfl
    have hmember : s.Member base name type requirement :=
      .requirement (ht start hstart).2 (hd.leads_eq hs ▸ hleads) (hd.requires_iff.1 hrequires)
    obtain ⟨_, _, hbase, hin, -⟩ := hd.requires_iff.1 hrequires
    have hf := (hs.rooted.below (Tree.decl?_eq_some.1 hbase)).1 requirement hin
    refine (ensures_functionType hs ha hi hdepth hf).bind ?_
    rintro signature s1 ⟨h1, hknown, _⟩
    refine ensures_pure.2 ⟨h1, ?_⟩
    rintro _ ⟨⟩
    exact ⟨hknown, requirement, hmember.refine h1.evolves.generics []⟩

omit hs ha in
lemma mem_traitDeclsAll {types} {P : DeclId → Prop} (h : ∀ type ∈ types, ∃ decl name,
    type = .trait decl name ∧ P decl) : ∀ trait ∈ Ty.traitDeclsAll types, P trait := by
  intro trait ht
  rw [Ty.traitDeclsAll_eq, mem_flatMap] at ht
  obtain ⟨type, hm, ht⟩ := ht
  obtain ⟨_, _, rfl, hp⟩ := h type hm
  exact mem_singleton.1 ht ▸ hp

omit ha in
/-- The bounds of a generic parameter are traits. -/
lemma ensures_boundsOf (hi : Inv base s) (param : DeclId) :
      Ensures (boundsOf param) s fun traits s' => Step base .nowhere s s' ∧ ∀ trait ∈ traits,
      base.tree.Declares isTrait trait ∧ s'.Bounds param trait := by
  unfold boundsOf
  simp only [ensures_get_bind]
  cases hf : (s.program.scopeOf param).bind s.program.tree.asDecl? with
  | none => exact ensures_pure.2 ⟨.refl hi, by simp⟩
  | some function =>
    obtain ⟨_, -, hscope⟩ := Option.bind_eq_some_iff.1 hf
    rw [hi.descends.asDecl?_eq] at hscope
    obtain ⟨_, hd, rfl⟩ := Option.map_eq_some_iff.1 hscope
    refine (ensures_genericsOf hs hi.toCore hd).bind ?_
    rintro generics s1 ⟨h1, hg⟩
    have hstep := h1.step hs.rooted hi .nowhere
    cases generics with
    | none => exact ensures_pure.2 ⟨hstep, by simp⟩
    | some generics =>
      obtain ⟨_, _, -, hcollects⟩ := h1.core.generics hg
      exact ensures_pure.2 ⟨hstep, fun trait ht =>
        ⟨mem_traitDeclsAll (hcollects.traits param) trait ht, _, generics, hg, ht⟩⟩

/-- What is found for a member of a value of a type. -/
structure Selected (base : Program) (s s' : State) (name : String) (type found : Ty) : Prop where
  step : Step base .nowhere s s'
  known : Known base s' found
  member : s'.diagnostics = [] → found.spoiled = false → type.spoiled = false ∧ ∃ decl,
  s'.Member base name type decl

lemma ensures_inferMember (hi : Inv base s) (hid : id < base.tree.size)
    {type} (hk : Known base s type) (hafford : Affords base s 1 depth) (name : String) :
    Ensures (inferMember ask id type name) s fun found s' =>
    Selected base s s' name (s.solver.resolve type) found := by
  have hdepth : 0 < depth := by unfold Affords at hafford; omega
  have hk : Known base s (s.solver.resolve type) := hk.resolveBy hi.solver
  refine (ensures_resolve s type).read ?_
  generalize s.solver.resolve type = resolved at hk ⊢
  -- it is reported that there is nothing
  have hnone {s1} (h1 : Step base .nowhere s s1) : Ensures (do
        reportAt (.unknownMember resolved.describe name) id
        return .error) s1 fun found s' => Selected base s s' name resolved found :=
    ensures_reportAt_bind hs.rooted h1.inv hid fun s2 h2 hdiag =>
      ensures_pure.2 ⟨h1.trans h2, known_error (.inl hdiag), fun hd => absurd hd hdiag⟩
  -- and else what is found is the answer
  have hsome {found s1} (h1 : Step base .nowhere s s1) (hgood : resolved.spoiled = false)
      (hfound : Known base s1 found ∧ ∃ decl, s1.Member base name resolved decl) :
      Ensures (pure found : Check Ty) s1 fun found s' => Selected base s s' name resolved found :=
    ensures_pure.2 ⟨h1, hfound.1, fun _ _ => ⟨hgood, hfound.2⟩⟩
  cases resolved with
  | error => exact ensures_pure.2 ⟨.refl hi, hk, fun _ h => by cases h⟩
  | product product productName =>
    obtain ⟨⟨kind, _⟩, hd, hkind⟩ := (Ty.over_end rfl).1 hk
    refine (ensures_membersOf hi.descends (by simp [hd])).read ?_
    cases kind with
    | product decl =>
      have hmembers : productMembers base.tree product = decl.members := by rw [productMembers, hd]
      rw [hmembers]
      refine (ensures_memberType hs ha hd hdepth name decl.members (fun _ h => h) hi hafford).bind ?_
      rintro (_ | found) s1 ⟨h1, hfound⟩
      · exact hnone h1
      · obtain ⟨hknown, member, hmember⟩ := hfound found rfl
        exact hsome h1 rfl ⟨hknown, member, .product (hmembers ▸ hmember)⟩
    | _ => cases hkind
  | existential types =>
    have htraits := mem_traitDeclsAll hk.traits
    refine (ensures_requirementType hs ha hi hdepth (.existential types)
      (fun trait ht => ⟨htraits trait ht, .inl ht⟩) name).bind ?_
    rintro (_ | found) s1 ⟨h1, hfound⟩
    · exact hnone h1
    · exact hsome h1 rfl (hfound found rfl)
  | trait decl traitName =>
    have htrait : base.tree.Declares isTrait decl := (Ty.over_end rfl).1 hk
    have htraits := forall_mem_singleton.2 htrait
    refine (ensures_requirementType hs ha hi hdepth (.trait decl traitName)
      (fun trait ht => ⟨htraits trait ht, .inl ht⟩) name).bind ?_
    rintro (_ | found) s1 ⟨h1, hfound⟩
    · exact hnone h1
    · exact hsome h1 rfl (hfound found rfl)
  | param param paramName =>
    refine (ensures_boundsOf hs hi param).bind ?_
    rintro traits s1 ⟨h1, htraits⟩
    refine (ensures_requirementType hs ha h1.inv hdepth (.param param paramName)
      (fun trait ht => (htraits trait ht).imp_right fun hbounds => .inr ⟨param, paramName, rfl, hbounds⟩) name).bind ?_
    rintro (_ | found) s2 ⟨h2, hfound⟩
    · exact hnone (h1.trans h2)
    · exact hsome (h1.trans h2) rfl (hfound found rfl)
  | int | bool | string | tuple | function | var => exact hnone (.refl hi)

/-! ### Names -/

omit ha in
/-- The type of a variable that is named may be asked for, and a variable of a match case has a type
by then unless it is used too early. -/
lemma asked_named (he : base.tree.expr? id = some ⟨.name name, span⟩) (hcontext : Context base s id)
    (hfound : base.valueNamed id name = some found) (hv : base.tree.Declares isVar found) :
    Asked base s found ∧ (base.EarlyUse id found → s.declTypes[found]? = none) := by
  obtain ⟨_, _, hscope, hm, hd, -⟩ := valueNamed_spec hfound
  unfold Asked
  cases hb : base.owningBinding? found with
  | some binding =>
    refine ⟨fun case node hcase hin => ?_, ?_⟩
    · obtain ⟨decl, _, hdecl, hvars⟩ := hs.owningBinding?_eq_some.1 hb
      obtain ⟨hid, hiff⟩ := hs.case_of_binding_var hscope hm hd hdecl hvars hcase hin
      obtain ⟨ho, hcontext⟩ := hcontext case node hcase hid
      refine ⟨ho, fun var hvar => ⟨fun hlt => (hcontext var hvar).1 ((hiff var hvar).1 hlt), fun hlt => ?_⟩⟩
      refine (hcontext var hvar).2 ?_
      have hnot := mt (hiff var hvar).2 (by omega)
      have hne : var ≠ id := by
        rintro rfl
        obtain ⟨decl, hdecl, -⟩ := (var_of_case hs.rooted hcase hvar).2
        exact (Tree.decl_only hdecl).1 ⟨_, he⟩
      omega
    · rintro ⟨_, _, -, -, -, hnone, -⟩
      rw [hb] at hnone
      cases hnone
  | none =>
    obtain ⟨case, node, hcase, hvar⟩ := hs.exists_case_of_var hv hb
    have hin := hs.encloses_of_case_var hscope hm hd hcase hvar
    obtain ⟨-, hcontext⟩ := hcontext case node hcase hin
    rcases Nat.lt_trichotomy found id with hlt | rfl | hlt
    · refine ⟨.inl ((hcontext found hvar).1 hlt), ?_⟩
      rintro ⟨_, _, -, -, -, -, hgt⟩
      omega
    · obtain ⟨_, hdecl, -⟩ := hv
      exact absurd ⟨_, he⟩ (Tree.decl_only hdecl).1
    · exact ⟨.inr ⟨id, found, name, span, he, hfound, hv, hb, hlt⟩, fun _ => (hcontext found hvar).2 hlt⟩

/-- What a name says about the variable, the parameter or the generic function that it stands
for. -/
structure Named (base : Program) (s s' : State) (id : Nat) (name : String) (type : Ty) : Prop where
  step : Step base .nowhere s s'
  known : Known base s' type
  recorded : type.spoiled = false → ∀ found : Nat, base.valueNamed id name = some found →
    base.tree.Declares (fun kind => kind.isVar || kind.isParam) found → s'.declTypes[found]? = some type
  chosen : type.spoiled = false → ∀ found : Nat, base.valueNamed id name = some found →
    base.tree.Declares isGeneric found → s'.Instance found (s'.solver.resolve type)
  timely : s'.diagnostics = [] → type.spoiled = false → ∀ var, ¬base.EarlyUse id var
  declared : s'.diagnostics = [] → type.spoiled = false → ∃ found,
  base.valueNamed id name = some found

omit hs ha in
/-- Names of other declarations say nothing about types of declarations. -/
lemma Named.other {s' type decl} (he : base.tree.expr? id = some ⟨.name name, span⟩)
    (hfound : base.valueNamed id name = some found)
    (hd : base.tree.decl? found = some decl) (hk : (decl.kind.isVar || decl.kind.isParam) = false)
    (hstep : Step base .nowhere s s') (hknown : Known base s' type) (hchosen : decl.kind.isGeneric →
    s'.Instance found (s'.solver.resolve type)) : Named base s s' id name type := by
  refine ⟨hstep, hknown, fun _ other hother hdeclares => ?_, fun _ other hother hdeclares => ?_, ?_,
    fun _ _ => ⟨found, hfound⟩⟩
  · cases hfound.symm.trans hother
    rw [Tree.declares_iff hd, hk] at hdeclares
    cases hdeclares
  · cases hfound.symm.trans hother
    exact hchosen ((Tree.declares_iff hd).1 hdeclares)
  · rintro - - var ⟨other, span, he', hvar, hdeclares, -⟩
    cases he.symm.trans he'
    cases hfound.symm.trans hvar
    rw [Tree.declares_iff hd] at hdeclares
    simp [hdeclares] at hk

omit hs ha in
lemma Named.error {s'} (hstep : Step base .nowhere s s') (hf : s'.Faulty base) : Named base s s' id name .error :=
  ⟨hstep, known_error hf, nofun, nofun, nofun, nofun⟩

omit hs ha in
lemma propertyVars_eq (hd : base.Descends s.program) (members : List DeclId) :
    propertyVars s.program.tree members = propertyVars base.tree members := by
  unfold propertyVars
  congr 1
  funext member
  exact hd.decl?_induct member (fun _ => rfl) fun _ _ _ => rfl

omit hs ha in
lemma mem_propertyVars {members} (h : var ∈ propertyVars base.tree members) :
    ∃ member ∈ members, ∃ binding span, base.tree.decl? member = some ⟨.binding binding, span⟩ ∧
      var ∈ binding.pattern.vars := by
  obtain ⟨member, hm, hv⟩ := mem_flatMap.1 h
  split at hv
  next binding span hd => exact ⟨member, hm, binding, span, hd, hv⟩
  next => cases hv

lemma ensures_propertyTypes (hi : Inv base s)
    (hp : base.tree.decl? product = some ⟨.product decl, span⟩) (hafford : Affords base s 1 depth) :
    Ensures ((propertyVars base.tree decl.members).mapM fun var => ask (.declType var)) s
    fun types s' =>
      Step base .nowhere s s' ∧ ∀ type ∈ types, Known base s' type := by
  refine ensures_mapM (I := fun _ types s1 => Step base .nowhere s s1 ∧ ∀ type ∈ types,
    Known base s1 type) (propertyVars base.tree decl.members) ?_ ⟨.refl hi, by simp⟩
  intro done var rest types s1 hvars ⟨h1, htypes⟩
  have hmem : var ∈ propertyVars base.tree decl.members := by simp [hvars]
  obtain ⟨_, hm, _, _, hb, hv⟩ := mem_propertyVars hmem
  obtain ⟨hvar, hasked⟩ := asked_property hs hp s1 hm hb hv
  refine (ensures_askVar ha h1.inv hvar hasked (hafford.evolves h1.evolves)).imp ?_
  rintro type s2 ⟨h2, hknown, _⟩
  exact ⟨h1.trans h2, forall_mem_append.2 ⟨fun type ht => (htypes type ht).mono h2.evolves.later,
    by simpa using hknown⟩⟩

lemma ensures_inferName (hi : Inv base s) (he : base.tree.expr? id = some ⟨.name name, span⟩)
    (hcontext : Context base s id) (hafford : Affords base s 1 depth) (useSite : ScopeId) :
    Ensures (inferName ask id name useSite) s fun type s' => Named base s s' id name type := by
  have hdepth : 0 < depth := by unfold Affords at hafford; omega
  have hid : id < base.tree.size := Tree.lt_size (Tree.expr?_eq_some.1 he)
  have hreport {s1} (h1 : Step base .nowhere s s1) {problem}
      (hq : problem.isNonConforming = false) : Ensures (do reportAt problem id; return Ty.error) s1
      fun type s' => Named base s s' id name type :=
    ensures_reportAt_bind hs.rooted h1.inv hid (fun s2 h2 hdiag =>
      ensures_pure.2 (.error (h1.trans h2) (.inl hdiag))) hq
  refine (ensures_lookupValue hs hi.descends ⟨_, he⟩ name useSite).read ?_
  cases hfound : base.valueNamed id name with
  | none => exact hreport (.refl hi) rfl
  | some found =>
    obtain ⟨_, _, -, -, hd, hname⟩ := valueNamed_spec hfound
    obtain ⟨⟨kind, _⟩, hdecl⟩ := Option.isSome_iff_exists.1 (hs.mem_decls hd).2
    have hnot : kind.isBinding = false := by
      cases kind with
      | binding decl => simp [Tree.declName?, hdecl, name?] at hname
      | _ => rfl
    refine (ensures_decl (hi.descends.decl?_of_not_binding hdecl hnot)).read ?_
    have hnongeneric {s' : State} {type} (hk : kind.isGeneric = false) (other : Nat)
        (hother : base.valueNamed id name = some other) (hdeclares : base.tree.Declares isGeneric other) :
        s'.Instance other (s'.solver.resolve type) := by simp_all [Tree.declares_iff]
    cases kind with
    | var varName =>
      have hv : base.tree.Declares isVar found := ⟨_, hdecl, rfl⟩
      obtain ⟨hasked, hearly⟩ := asked_named hs he hcontext hfound hv
      refine (ensures_askVar ha hi hv hasked hafford).imp ?_
      rintro type s1 ⟨h1, hknown, htype, hcase⟩
      refine ⟨h1, hknown, fun hgood other hother _ => ?_, fun _ => hnongeneric rfl,
        fun _ hgood var hvar => ?_, fun _ _ => ⟨found, hfound⟩⟩
      · cases hfound.symm.trans hother
        exact htype hgood
      · have huse := hvar
        obtain ⟨other, _, he', hother, -, hnone, -⟩ := huse
        cases he.symm.trans he'
        cases hfound.symm.trans hother
        rw [hcase hnone, hearly hvar] at hgood
        cases hgood
    | param paramName ascription =>
      refine (ha.declared hi.toCore ⟨_, hdecl, rfl⟩ hdepth).imp ?_
      rintro type s1 ⟨h1, htype, _⟩
      refine ⟨h1.step hs.rooted hi .nowhere, (h1.core.declTypes htype).1,
        fun _ other hother _ => ?_, fun _ => hnongeneric rfl, ?_, fun _ _ => ⟨found, hfound⟩⟩
      · cases hfound.symm.trans hother
        exact htype
      · rintro - - var ⟨other, _, he', hother, hv, -⟩
        cases he.symm.trans he'
        cases hfound.symm.trans hother
        simp [Tree.declares_iff hdecl, isVar] at hv
    | function function =>
      refine (ensures_functionType hs ha hi hdepth ⟨_, hdecl, rfl⟩).bind ?_
      rintro signature s1 ⟨h1, hknown, hsignature⟩
      split
      next hnone =>
        exact ensures_pure.2 (.other he hfound hdecl rfl h1 hknown fun hsome => by simp [isGeneric, hnone] at hsome)
      next =>
        refine (ensures_scopeOr hs h1.inv.descends (hs.rooted.lt_root_of_expr ⟨_, he⟩) useSite).bind ?_
        rintro scope s1 ⟨-, rfl⟩
        refine (ensures_genericsOf hs h1.inv.toCore hdecl).bind ?_
        rintro generics s2 ⟨h2, hg⟩
        have hstep := h1.trans (h2.step hs.rooted h1.inv .nowhere)
        cases generics with
        | none => exact ensures_pure.2 (.error hstep (.inl (h2.core.generics hg)))
        | some generics =>
          obtain ⟨_, _, -, hcollects⟩ := h2.core.generics hg
          refine (ensures_instantiate hs hcollects hstep.inv (hknown.mono (h2.evolves .nowhere).later) scope).bind ?_
          rintro answer s3 ⟨h3, hk, hadmits, hanswer⟩
          refine ensures_pure.2 (.other he hfound hdecl rfl (hstep.trans h3) hk fun _ => ?_)
          exact ⟨signature, generics, answer.2, h3.evolves.signatures (h2.signatures hsignature),
            h3.evolves.generics hg, hadmits, hanswer ▸ rfl⟩
    | product product =>
      refine (ensures_demand_bind hi.descends fun member hm => ?_).2 ?_
      · exact ((hs.rooted.below (Tree.decl?_eq_some.1 hdecl)).1 member hm).isSome_decl?
      simp only [tree, bind_assoc, pure_bind, ensures_get_bind, propertyVars_eq hi.descends]
      refine (ensures_propertyTypes hs ha hi hdecl hafford).bind ?_
      rintro params s1 ⟨h1, hparams⟩
      refine (ha.declared h1.inv.toCore ⟨_, hdecl, rfl⟩ hdepth).bind ?_
      rintro output s2 ⟨h2, houtput, _⟩
      have hknown : Known base s2 output := (h2.core.declTypes houtput).1
      refine ensures_pure.2 (.other he hfound hdecl rfl
        (h1.trans (h2.step hs.rooted h1.inv .nowhere)) ?_ fun h => by cases h)
      exact Ty.over_function.2 ⟨fun type ht => (hparams type ht).mono (h2.evolves .nowhere).later, hknown⟩
    | trait | module | genericParam => exact hreport (.refl hi) rfl
    | binding => cases hnot

end Check

end TraitLang
