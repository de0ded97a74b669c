import TraitLang.Proofs.Paired.Names
import TraitLang.Proofs.Paired.Slots

/-! Conformances, expected types and patterns, with two answerers side by side. -/
namespace TraitLang.Check

open Follows List

variable {base : Program} {root : Nat} (hs : base.Surveyed root) {settings : Settings}
  {exempt : ExprId → Prop} {homes : List (Option DeclId)} {s : State}

/-! ### Conformances -/

section

lemma follows_declaredConformances (scope : ScopeId) :
    ∀ (names : List TraitName) {claimed} {homes s}, Keeps (Housed base settings exempt)
    (declaredConformances scope claimed names) homes s fun _ _ _ => True
  | [], claimed, homes, s => follows_pure trivial
  | name :: names, claimed, homes, s => by
    refine (follows_resolveTrait name scope).next fun found => ?_
    cases found with
    | none => exact follows_declaredConformances scope names
    | some trait =>
      exact ite (fun _ => follows_declaredConformances scope names) fun _ =>
        follows_declaredConformances scope names

lemma follows_ensureConformances (product : DeclId) :
    Keeps (Housed base settings exempt) (ensureConformances product) homes s fun _ _ _ => True := by
  refine follows_get_bind (ite (fun _ => follows_pure trivial) fun _ => ?_)
  refine read (grants_decl product) fun found _ => ?_
  obtain ⟨kind, _⟩ := found
  cases kind with
  | product claims =>
    refine read (grants_enclosingScope product) fun scope _ => ?_
    refine (follows_declaredConformances scope claims.conformances).bind fun declared homes1 s1 _ _ _ => ?_
    refine follows_get_bind ?_
    cases s1.program.implied declared with
    | error halt => exact follows_throw
    | ok all => exact follows_modify (fun h => { h with }) trivial
  | _ => exact follows_pure trivial

variable {ask other : Answerer} (hc : Consults base settings ask other)

include hs hc

lemma follows_findImplementation (name : String) (required : Signature) : ∀ (members : List DeclId)
    {homes s}, hc.Pairs exempt
      (findImplementation · name required members) homes s
      fun _ _ _ => True
  | [], homes, s => follows_pure trivial
  | member :: members, homes, s => by
    refine follows_need_bind (follows_get_bind (ite (fun _ => ?_) fun _ =>
      follows_findImplementation name required members))
    refine (follows_signatureOf hs hc member).next fun signature => ?_
    exact ite (fun _ => follows_pure trivial) fun _ => follows_findImplementation name required members

lemma follows_matchRequirements (members : List DeclId) : ∀ (requirements : List DeclId)
    {homes s}, hc.Pairs exempt
      (matchRequirements · members requirements) homes s
      fun _ _ _ => True
  | [], homes, s => follows_pure trivial
  | requirement :: requirements, homes, s => by
    refine read (grants_declName requirement) fun name _ => ?_
    refine (follows_signatureOf hs hc requirement).next fun required => ?_
    refine (follows_findImplementation hs hc _ required members).next fun found => ?_
    refine (follows_matchRequirements members requirements).next fun rest => ?_
    cases found <;> exact follows_pure trivial

lemma follows_verifyConformance (product : DeclId) (conformance : Conformance) :
    hc.Pairs exempt (verifyConformance · product conformance) homes s
    fun _ _ _ => True := by
  have hrequirements {homes s} :
      Keeps (Housed base settings exempt) (requirementsOf conformance) homes s fun _ _ _ => True :=
    follows_get_bind (follows_need_bind (follows_get_bind (follows_pure trivial)))
  refine read (grants_membersOf product) fun members _ => hrequirements.next fun required => ?_
  refine (follows_matchRequirements hs hc _ required).next fun found => ite (fun _ => ?_) fun _ => ?_
  · exact hrequirements.next fun _ => follows_get_bind (follows_pure trivial)
  refine read (grants_decl product) fun decl _ => read (grants_declName product) fun type _ => ?_
  refine follows_need_bind (follows_get_bind ?_)
  exact (follows_forM found.2 fun requirement _ _ _ _ => (follows_report _).weaken).next fun _ => follows_pure trivial

lemma follows_verifyEach (product : DeclId) : ∀ (claimed : List Conformance) {homes s},
    hc.Pairs exempt (verifyEach · product claimed) homes s fun _ _ _ => True
  | [], homes, s => follows_pure trivial
  | conformance :: claimed, homes, s => by
    refine ite (fun _ => ?_) fun _ => ?_
    · refine (follows_verifyConformance hs hc product conformance).next fun outcome => ?_
      cases outcome with
      | ok _ settled => exact (follows_verifyEach product claimed).last
      | error defect left => exact follows_throw
    · exact (follows_verifyEach product claimed).last

lemma follows_checkConformances (product : DeclId) :
    hc.Pairs exempt (checkConformances · product) homes s fun _ _ _ => True := by
  suffices hc.Pairs exempt (settleConformances · product) homes s fun _ _ _ => True by
    intro h good s' hrun
    exact (this h good s' (checkConformances_eq_ok.1 hrun)).imp_left checkConformances_eq_ok.2
  refine (follows_ensureConformances product).next fun _ => ?_
  refine follows_get_bind (follows_modify_bind (fun h => { h with }) ?_)
  refine (follows_verifyEach hs hc product _).next fun _ => ?_
  exact follows_modify_bind (fun h => { h with }) (follows_pure trivial)

end

/-! ### Inference variables -/

lemma follows_fresh (level : Option DeclId) : Follows (Housed base settings exempt) fresh fresh homes s
    fun type homes' _ => Belongs base settings homes' level type := by
  refine follows_modifyGet (prefix_append homes [level]) (fun h => ?_) fun h => (Ty.over_end rfl).2 fun _ => ?_
  · exact h.withNext (prefix_append _ _) (by simp [h.next_eq])
  · rw [h.next_eq]
    exact getElem?_concat_length

variable {level : Option DeclId}

lemma follows_unify {first second} (h1 : Belongs base settings homes level first)
    (h2 : Belongs base settings homes level second) : Keeps (Housed base settings exempt) (unify first second) homes s
      fun _ _ s' => s'.program = s.program ∧ s'.exprTypes = s.exprTypes :=
  follows_modifyGet (prefix_refl _) (fun h => h.withUnify h1 h2) fun _ => ⟨rfl, rfl⟩

lemma follows_expectType
    (id : ExprId) {actual expected} (h1 : Belongs base settings homes level actual)
    (h2 : Belongs base settings homes level expected) : Keeps (Housed base settings exempt)
    (expectType id actual expected) homes s fun _ _ _ => True := by
  refine (follows_unify h1 h2).next fun equal => ite (fun _ => follows_pure trivial) fun _ => ?_
  refine read (grants_resolve expected) fun _ _ => read (grants_resolve actual) fun _ _ => ?_
  exact (follows_reportAt _ id).last

/-! ### Expected types -/

include hs

lemma follows_wrap {id} (he : base.tree.HasExpr id)
    {useSite} (hsite : base.scopeOf id = some useSite) {types} (ht : ∀ type ∈ types, type.isTrait) :
    Keeps (Housed base settings exempt) (wrap id (.existential types) useSite) homes s
      fun slot _ s' => s'.program.tree.Packs id slot ∧ ∀ type, base.Agrees slot type := by
  refine of_inv fun h => ?_
  obtain ⟨expr, hexpr⟩ := he
  obtain ⟨_, hcurrent⟩ := h.descends.exists_expr hexpr
  refine read (grants_expr id) fun found hfound => ?_
  cases hcurrent.symm.trans hfound
  refine read (grants_scopeOr id useSite) fun scope hscope => ?_
  rw [h.descends.scopeOf_eq id (Tree.lt_size (Tree.expr?_eq_some.1 hexpr)), hsite, Option.getD_some] at hscope
  subst hscope
  dsimp only
  refine follows_modifyGet_bind (fun h => h.withProgram (h.descends.push hexpr hsite)) ?_
  have hground : Ground base settings none (.existential types) := ground_existential ht none
  have hpushed (tree : Tree) (packed : Expr) : (tree.push (.expr packed)).2.expr? tree.size = some packed :=
    Tree.expr?_eq_some.2 ((Tree.node?_push _ _ _).trans (if_pos rfl))
  refine of_inv fun h' => ?_
  -- a packed value is not in the program that checking began with
  have hagrees (type : Ty) : base.Agrees _ type := Program.agrees_of_kind fun _ _ he =>
    absurd (Tree.lt_size (Tree.expr?_eq_some.1 he))
      (Nat.not_lt.2 (h'.descends.size_le_of_packed hs.rooted (hpushed _ _)).1)
  refine follows_modify_bind (fun h => h.setExpr ((hground.everywhere _).belongs _) (fun hr _ _ =>
    ?_) (hagrees _)) (follows_pure ⟨.inr ⟨_, _, hpushed _ _⟩, hagrees⟩)
  exact (h.resolve_ground hground).hasVars hr

lemma follows_keepType
    {slot type policy} (hpolicy : settings.freePolicy = .reject → policy = .reject)
    (ht : Belongs base settings homes (base.level slot) type) (ha : base.Agrees slot type) :
    Keeps (Housed base settings exempt) (keepType slot type policy) homes s fun checked _ s' =>
      checked.expr = slot ∧ s'.program = s.program ∧ s'.exprTypes[slot]? = some checked.type ∧
      ∀ level, Belongs base settings homes level type → Ground base settings level checked.type := by
  refine of_inv fun h => read (grants_resolve type) ?_
  rintro _ rfl
  have hset {final} (hground : Ground base settings (base.level slot) final)
      (ha : base.Agrees slot final) {homes s} : Keeps (Housed base settings exempt)
      (do setExprType slot final; return (⟨slot, final⟩ : CheckedExpr)) homes s fun checked _ s' =>
        checked = ⟨slot, final⟩ ∧ s'.program = s.program ∧ s'.exprTypes[slot]? = some final := by
    refine follows_modify_bind (fun h => h.setExpr (hground.belongs _) (fun hr _ _ => ?_) ha)
      (follows_pure ⟨rfl, rfl, ?_⟩)
    · exact (h.resolve_ground hground).hasVars hr
    rw [NodeMap.getElem?_insert, if_pos rfl]
  split
  next =>
    refine (follows_reportAt _ slot).bind fun _ homes1 s1 _ _ hprogram =>
      (hset (ground_error _) fun _ _ => .inr rfl).imp ?_
    rintro _ _ _ - - ⟨rfl, hp, hrecorded⟩
    exact ⟨rfl, hp.trans hprogram, hrecorded, fun level _ => ground_error level⟩
  next hknown =>
    have hground (level : Option DeclId) (hb : Belongs base settings homes level type) :
        Ground base settings level (s.solver.resolve type) :=
      (h.resolve hb).ground fun hr => by simpa [hpolicy hr] using hknown
    refine (hset (hground _ ht) (agrees_resolve hs ha _)).imp ?_
    rintro _ _ _ - - ⟨rfl, hp, hrecorded⟩
    exact ⟨rfl, hp, hrecorded, hground⟩

section

variable {ask other : Answerer} (hc : Consults base settings ask other) {id : ExprId}
  {useSite : ScopeId} (hsite : base.tree.HasExpr id → base.scopeOf id = some useSite)

include hc hsite

lemma follows_coerceProduct (he : base.tree.HasExpr id) (product : DeclId) (actual : Ty) {types}
    (ht : ∀ type ∈ types, type.isTrait) :
    hc.Pairs exempt (coerceProduct · id product actual (.existential types) useSite) homes s
      fun answer _ s' => s'.program.tree.Packs id answer.1 ∧ Ground base settings none answer.2 ∧
        base.Agrees answer.1 answer.2 := by
  refine (follows_checkConformances hs hc product).next fun _ => follows_get_bind ?_
  dsimp only
  split
  next =>
    exact (follows_reportAt _ id).next fun _ => follows_pure ⟨.inl rfl, ground_error none, fun _ _ => .inr rfl⟩
  next => exact follows_pure ⟨.inl rfl, ground_error none, fun _ _ => .inr rfl⟩
  next =>
    refine (follows_wrap hs he (hsite he) ht).bind fun slot _ _ _ _ hslot => ?_
    exact follows_pure ⟨hslot.1, ground_existential ht none, hslot.2 _⟩

variable {expected : Ty}

/-- A value is checked against a type. It is exempt; if it is packed then its own type is known. -/
lemma follows_coerce
    (hexpected : Belongs base settings homes (base.enclosingFunction? useSite) expected)
    (role : Role) : Follows (Housed base settings fun value => exempt value ∨ value = id)
    (coerce ask id expected useSite role)
      (coerce other id expected useSite role) homes s fun answer homes' s' =>
        base.tree.HasExpr id ∧ s'.program.tree.Packs id answer.1 ∧
          Belongs base settings homes' (base.enclosingFunction? useSite) answer.2 ∧
        base.Agrees answer.1 answer.2 ∧
        (answer.1 ≠ id → Housed base settings exempt homes' s' ∧ Ground base settings none answer.2) := by
  refine of_inv fun h => read (grants_resolve expected) ?_
  rintro _ rfl
  have hresolved := h.resolve hexpected
  refine (hc.exprType fun he => ⟨hsite he, .inr (.inr rfl)⟩).bind ?_
  rintro type homes1 s1 hp1 h1 ⟨he, htype, hrecorded⟩
  refine ite (fun _ => ?_) fun _ => read (grants_resolve type) ?_
  · exact follows_pure ⟨he, .inl rfl, (ground_error _).belongs _, fun _ _ => .inr rfl, fun hne => absurd rfl hne⟩
  rintro _ rfl
  split
  next product _ _ hproduct htypes =>
    rw [htypes] at hresolved
    rw [htypes, hproduct]
    rintro h ⟨slot, found⟩ s2 hrun
    -- the type of a product has no variables, so it needs no exemption
    have hsettled : Housed base settings exempt homes1 s1 :=
      h.settle fun _ found hfound _ => by cases hrecorded.symm.trans hfound; rw [hproduct]; rfl
    obtain ⟨hother, homes2, hp2, h2, hpacks, hground, hagrees⟩ :=
      follows_coerceProduct hs hc hsite he product _ hresolved.traits hsettled _ _ hrun
    exact ⟨hother, homes2, hp2, h2.exempting fun _ => .inl,
      he, hpacks, (hground.everywhere _).belongs _, hagrees, fun _ => ⟨h2, hground⟩⟩
  next =>
    refine (follows_unify htype (hresolved.mono hp1)).bind fun equal homes2 s2 hp2 h2 _ => ?_
    refine ite (fun _ => read (grants_resolve type) ?_) fun _ => ?_
    · rintro _ rfl
      exact follows_pure ⟨he, .inl rfl, h2.resolve (htype.mono hp2),
        agrees_resolve hs (h1.agrees hrecorded) _, fun hne => absurd rfl hne⟩
    · refine (follows_reportAt _ id).next fun _ => ?_
      exact follows_pure ⟨he, .inl rfl, (ground_error _).belongs _, fun _ _ => .inr rfl, fun hne => absurd rfl hne⟩

omit hsite in
/-- The part of a value needs no exemption. -/
lemma follows_coerce_part (hpart : base.Reads useSite id)
    (hexpected : Belongs base settings homes (base.enclosingFunction? useSite) expected)
    (role : Role) : hc.Pairs exempt (coerce · id expected useSite role)
      homes s fun answer homes' s' => base.tree.HasExpr id ∧ s'.program.tree.Packs id answer.1 ∧
        Belongs base settings homes' (base.enclosingFunction? useSite) answer.2 := by
  intro h answer s' hrun
  have hmore : Housed base settings (fun value => exempt value ∨ value = id) homes s := h.exempting fun _ => .inl
  obtain ⟨hother, homes', hp, h', he, hpacks, hb, -⟩ :=
    follows_coerce hs hc (fun he => (hpart he).1) hexpected role hmore answer s' hrun
  exact ⟨hother, homes', hp, h'.settle fun hn => absurd (hpart he).2 hn, he, hpacks, hb⟩

/-- A value is checked, against a type if one is expected. Its type waits for nothing afterwards. -/
lemma follows_checkExpr {expected} (hexpected : ∀ type ∈ expected,
    Belongs base settings homes (base.enclosingFunction? useSite) type)
    {policy} (hpolicy : settings.freePolicy = .reject → policy = .reject) :
    hc.Pairs exempt (checkExpr · id expected useSite policy) homes s
      fun checked _ s' => base.tree.HasExpr id ∧ s'.program.tree.Packs id checked.expr ∧
        Ground base settings (base.enclosingFunction? useSite) checked.type := by
  -- the value is exempt until its slot and its type are known
  have hfinish {work work' : Check (ExprId × Ty)} (hwork : Follows (Housed base settings
      fun value => exempt value ∨ value = id) work work' homes s fun answer homes' s' =>
        base.tree.HasExpr id ∧ s'.program.tree.Packs id answer.1 ∧
          Belongs base settings homes' (base.enclosingFunction? useSite) answer.2 ∧
        base.Agrees answer.1 answer.2 ∧
        (answer.1 ≠ id → Housed base settings exempt homes' s' ∧ Ground base settings none answer.2)) :
      Follows (Housed base settings exempt) (work >>= fun answer =>
      keepType answer.1 answer.2 policy) (work' >>= fun answer => keepType answer.1 answer.2 policy)
        homes s fun checked _ s' => base.tree.HasExpr id ∧ s'.program.tree.Packs id checked.expr ∧
          Ground base settings (base.enclosingFunction? useSite) checked.type := by
    intro h checked s' hrun
    obtain ⟨⟨slot, type⟩, _, hask, hrest⟩ := bind_eq_ok.1 hrun
    obtain ⟨hother, _, hp1, h1, he, hpacks, hb, hagrees, hpacked⟩ := hwork (h.exempting fun _ => .inl) _ _ hask
    by_cases hslot : slot = id
    · obtain rfl := hslot
      have hlevel := Program.Surveyed.level_of_scopeOf (hsite he)
      obtain ⟨hkept, homes2, hp2, h2, rfl, hprogram, hrecorded, hground⟩ :=
        follows_keepType hs hpolicy (hlevel ▸ hb) hagrees h1 _ _ hrest
      refine ⟨bind_eq_ok.2 ⟨_, _, hother, hkept⟩, homes2, hp1.trans hp2,
        h2.settle fun _ found hfound hr => ?_, he, .inl rfl, hground _ hb⟩
      cases hrecorded.symm.trans hfound
      exact (h2.resolve_ground (hground _ hb)).hasVars hr
    · obtain ⟨h1, hpacked⟩ := hpacked hslot
      obtain ⟨hkept, homes2, hp2, h2, rfl, hprogram, -, hground⟩ :=
        follows_keepType hs hpolicy ((hpacked.everywhere _).belongs _) hagrees h1 _ _ hrest
      exact ⟨bind_eq_ok.2 ⟨_, _, hother, hkept⟩, homes2, hp1.trans hp2, h2, he, hprogram ▸ hpacks, hground _ hb⟩
  simp only [Consults.Pairs, Check.Pairs, checkExpr_eq]
  cases expected with
  | some expected => exact hfinish (follows_coerce hs hc hsite (hexpected expected rfl) .value)
  | none =>
    refine hfinish ((hc.exprType fun he => ⟨hsite he, .inr (.inr rfl)⟩).bind
      fun type _ _ _ h ⟨he, htype, hrecorded⟩ => ?_)
    exact follows_pure ⟨he, .inl rfl, htype, h.agrees hrecorded, fun hne => absurd rfl hne⟩

end

/-! ### Patterns -/

section

variable {strict : Prop} {level : Option DeclId} {scope : ScopeId}

omit hs

lemma follows_elementTypes (count : Nat) {type} (ht : Suits base settings strict homes level type) :
    Keeps (Housed base settings exempt) (elementTypes count type) homes s fun found homes' _ =>
      ∀ types, found = some types → ∀ type ∈ types, Suits base settings strict homes' level type := by
  unfold elementTypes
  split
  next _ =>
    refine follows_pure fun types he type hm => ?_
    split at he <;> cases he
    exact ⟨Ty.over_tuple.1 ht.1 type hm, fun hstrict => Ty.over_tuple.1 (ht.2 hstrict) type hm⟩
  next _ =>
    have hfresh : Keeps (Housed base settings exempt) ((List.range count).mapM fun _ =>
        fresh) homes s fun types homes' _ =>
        ∀ type ∈ types, Belongs base settings homes' level type :=
      follows_mapM (fun hp h => h.mono hp) _ fun _ _ _ _ _ => follows_fresh level
    refine hfresh.bind fun types homes1 s1 hp1 _ hb => ?_
    refine (follows_unify (ht.1.mono hp1) (Ty.over_tuple.2 hb)).bind fun _ homes2 s2 hp2 _ _ => follows_pure ?_
    rintro _ ⟨⟩ type hm
    have hbelongs := (hb type hm).mono hp2
    refine ⟨hbelongs, fun hstrict => hbelongs.ground fun hr => ?_⟩
    exact ((Ty.over_end rfl).1 (ht.2 hstrict) hr).elim
  next =>
    refine follows_pure ?_
    rintro _ ⟨⟩ type hm
    rw [eq_of_mem_replicate hm]
    exact (ground_error level).suits strict _
  next => exact follows_pure nofun

/-- A variable of a pattern, the type of which has to be strict unless a case introduces the
variable. -/
structure Introduced (base : Program) (strict : Prop) (level : Option DeclId) (var : DeclId) : Prop where
  level_eq : base.declLevel var = level
  case_of_not_strict : strict ∨ base.tree.CaseVar var
  declares : base.tree.Declares DeclKind.isVar var

lemma follows_setVar {var} (hvar : Introduced base strict level var) {type}
    (ht : Suits base settings strict homes level type) :
    Keeps (Housed base settings exempt) (setDeclType var type) homes s fun _ _ _ => True := by
  obtain ⟨⟨kind, _⟩, hd, hk⟩ := hvar.declares
  have hparam := Program.paramType?_of_kind hd (by cases kind <;> first | rfl | cases hk)
  refine follows_modify (fun h => h.setDecl (Suits.fitting ?_ hparam)) trivial
  rw [hvar.level_eq]
  exact ⟨ht.1, fun hn => ht.2 (hvar.case_of_not_strict.resolve_right hn)⟩

mutual

variable {ask other : Answerer}

/-- The variables of a pattern stand at the level of its type, and the values in it are parts. -/
lemma follows_bindPattern (hs : base.Surveyed root) (hc : Consults base settings ask other)
    (place : NodeId) : ∀ (pattern : Pattern) {homes s type}, (∀ var ∈ pattern.vars,
      Introduced base strict (base.enclosingFunction? scope) var) → (∀ id ∈ pattern.exprs,
      base.Reads scope id) → Suits base settings strict homes (base.enclosingFunction? scope) type →
      hc.Pairs exempt (bindPattern · scope place pattern type) homes s fun _ _ _ => True
  | .name var, homes, s, type, hvars, _, ht =>
    (follows_setVar (hvars var (by simp [Pattern.vars])) ht).last
  | .wildcard, homes, s, type, _, _, _ => follows_pure trivial
  | .expr id, homes, s, type, _, hexprs, ht => by
    have hpart := hexprs id (by simp [Pattern.exprs])
    exact (follows_coerce_part hs hc hpart ht.1 .value).last
  | .tuple elements, homes, s, type, hvars, hexprs, ht => by
    refine of_inv fun h => read (grants_resolve type) ?_
    rintro _ rfl
    refine (follows_elementTypes elements.length ⟨h.resolve ht.1, fun hstrict =>
      h.resolve_ground (ht.2 hstrict)⟩).bind fun found homes1 s1 _ _ hfound => ?_
    cases found with
    | some types => exact follows_bindPatterns hs hc place elements hvars hexprs (hfound types rfl)
    | none =>
      refine (follows_reportAt _ place).next fun _ => ?_
      exact (follows_forM _ fun var hv homes' s' _ =>
        follows_setVar (hvars var hv) ((ground_error _).suits strict _)).last

lemma follows_bindPatterns (hs : base.Surveyed root) (hc : Consults base settings ask other)
    (place : NodeId) : ∀ (elements : List Pattern) {homes s} {types},
      (∀ var ∈ Pattern.varsAll elements, Introduced base strict (base.enclosingFunction? scope)
      var) → (∀ id ∈ Pattern.exprsAll elements, base.Reads scope id) →
      (∀ type ∈ types, Suits base settings strict homes (base.enclosingFunction? scope) type) →
      hc.Pairs exempt (bindPatterns · scope place elements types) homes s fun _ _ _ => True
  | element :: elements, homes, s, type :: types, hvars, hexprs, ht => by
    obtain ⟨ht, htypes⟩ := forall_mem_cons.1 ht
    simp only [Pattern.varsAll, Pattern.exprsAll, forall_mem_append] at hvars hexprs
    refine (follows_bindPattern hs hc place element hvars.1 hexprs.1 ht).bind fun _ homes1 s1 hp _ _ => ?_
    refine (follows_bindPatterns hs hc place elements hvars.2 hexprs.2 fun type hm => (htypes type hm).mono hp).last
  | [], homes, s, types, _, _, _ => follows_pure trivial
  | _ :: _, homes, s, [], _, _, _ => follows_pure trivial

end

end

end TraitLang.Check
