import TraitLang.Proofs.Paired.Coercion
import TraitLang.Proofs.Values

/-! Types of expressions, with two answerers side by side. The type of a value belongs to the
functions around the value, given that its parts are asked about from their own scopes. -/
namespace TraitLang.Check

open List TraitLang.Tree

variable {base : Program} {root : Nat} (hs : base.Surveyed root) {settings : Settings}
  {exempt : ExprId → Prop} {homes : List (Option DeclId)} {s : State} {ask other : Answerer}
  (hc : Consults base settings ask other) {useSite : ScopeId}

/-! ### Members -/

include hs

/-- What a member says about its parameters may come up everywhere. -/
lemma ground_of_member {function} (hm : base.tree.Member function) {type}
    (h : Ground base settings (some function) type) : Ground base settings none type := by
  refine Ty.Over.imp h fun end_ he => ?_
  cases end_ with
  | param param name => exact fun hr => .inl ((he hr).elim id fun hv => hs.exposed_of_member hm hv)
  | _ => exact he

variable {var member product : Nat} {decl : BindingDecl} {span : Span}

/-- The variables of a binding are at its level, and no case introduces them. -/
lemma declLevel_of_binding {id} (hd : base.tree.decl? id = some ⟨.binding decl, span⟩) (hv : var ∈ decl.pattern.vars) :
    base.declLevel var = base.level id ∧ ¬base.tree.CaseVar var := by
  have hn := decl?_eq_some.1 hd
  have hchild : var ∈ base.tree.children id := by
    rw [children_of_node? hn]
    exact mem_append_left _ ((Pattern.mem_nodes_iff _).2 (.inl hv))
  obtain ⟨⟨kind, _⟩, hvar, hkind⟩ := (hs.rooted.below hn).1.1.1 var hv
  refine ⟨?_, ?_⟩
  · rw [declLevel_of_kind hvar (by cases kind <;> first | rfl | cases hkind)]
    exact hs.level_child (.inr (.inr (.inl ⟨_, hd, rfl⟩))) hchild
  · rintro ⟨case, node, hcase, hm⟩
    obtain rfl := hs.rooted.parent_unique hchild (var_of_case hs.rooted hcase hm).1
    rw [case?_eq_some, hn] at hcase
    cases hcase

omit hs in
lemma member_of_product {decl} (hd : base.tree.decl? product = some ⟨.product decl, span⟩)
    (hm : member ∈ decl.members) : base.tree.Member member := by
  refine ⟨product, ⟨_, hd, rfl⟩, ?_⟩
  rwa [children_of_node? (decl?_eq_some.1 hd)]

omit hs in
lemma member_of_trait {trait decl} (hd : base.tree.decl? trait = some ⟨.trait decl, span⟩)
    (hm : member ∈ decl.members) : base.tree.Member member := by
  refine ⟨trait, ⟨_, hd, rfl⟩, ?_⟩
  rwa [children_of_node? (decl?_eq_some.1 hd)]

omit hs in
lemma member_of_productMembers (hm : member ∈ productMembers base.tree product) : base.tree.Member member := by
  unfold productMembers at hm
  split at hm
  next _ _ hd => exact member_of_product hd hm
  next => cases hm

include hc

lemma follows_property (hm : base.tree.Member member)
    (hd : base.tree.decl? member = some ⟨.binding decl, span⟩) (hv : var ∈ decl.pattern.vars) :
    hc.Pairs exempt (· (.declType var)) homes s fun type _ _ => Ground base settings none type := by
  obtain ⟨hlevel, hcase⟩ := declLevel_of_binding hs hd hv
  rw [hs.level_of_member hm] at hlevel
  exact (hc.declType var).imp fun type _ _ _ _ htype => hlevel ▸ htype.suits.2 hcase

lemma follows_memberType (name : String) : ∀ (members : List DeclId) {homes s}, (∀ member ∈ members,
    base.tree.Member member) → hc.Pairs exempt (memberType · name members) homes s fun found _ _ =>
      ∀ type, found = some type → Ground base settings none type
  | [], homes, s, _ => follows_pure nofun
  | member :: members, homes, s, hm => by
    obtain ⟨hmember, hmembers⟩ := forall_mem_cons.1 hm
    refine Follows.of_inv fun h => Follows.read (grants_decl member) fun found hfound => ?_
    obtain ⟨kind, _⟩ := found
    cases kind with
    | function function =>
      refine Follows.ite (fun _ => ?_) fun _ => follows_memberType name members hmembers
      refine (follows_signatureOf hs hc member).bind fun signature _ _ _ _ hsignature => follows_pure ?_
      rintro _ ⟨⟩
      exact ground_of_member hs hmember hsignature
    | binding binding =>
      refine follows_need_bind (follows_get_bind ?_)
      cases hproperty : propertyNamed? s.program.tree binding name with
      | none => exact follows_memberType name members hmembers
      | some var =>
        have hv : var ∈ binding.pattern.vars := mem_of_find?_eq_some hproperty
        have hproperty : hc.Pairs exempt (· (.declType var)) homes s
            fun type _ _ => Ground base settings none type := by
          rcases h.descends.decl?_cases member with heq | ⟨_, _, _, hd, heq⟩
          · exact follows_property hs hc hmember (heq ▸ hfound) hv
          · cases heq.symm.trans hfound
            exact follows_property hs hc hmember hd hv
        refine hproperty.bind fun type _ _ _ _ htype => follows_pure ?_
        rintro _ ⟨⟩
        exact htype
    | _ => exact follows_memberType name members hmembers

omit hs hc in
lemma exists_of_bind_eq_ok {ε α β : Type} {x : Except ε α} {f : α → Except ε β} {b}
    (h : x >>= f = .ok b) : ∃ a, f a = .ok b := by
  cases x with
  | error => cases h
  | ok a => exact ⟨a, h⟩

omit hs hc in
/-- What is required by a trait is a member of some trait. -/
lemma mem_of_requirementWithin {program : Program}
      {name} : ∀ (bound : Nat) {pending seen requirement},
      program.requirementWithin name bound pending seen = .ok (some requirement) →
      ∃ trait decl span, program.tree.decl? trait = some ⟨.trait decl, span⟩ ∧
      requirement ∈ decl.members
  | 0, [], seen, requirement, h | _ + 1, [], seen, requirement, h | 0, _ :: _, seen, requirement, h => by cases h
  | bound + 1, trait :: pending, seen, requirement, h => by
    unfold Program.requirementWithin at h
    split at h
    · exact mem_of_requirementWithin bound h
    split at h
    next => cases h
    next decl span hd =>
      obtain ⟨_, h⟩ := exists_of_bind_eq_ok h
      split at h
      next _ hfound =>
        cases h
        exact ⟨trait, decl, span, hd, mem_of_find?_eq_some hfound⟩
      next =>
        obtain ⟨_, h⟩ := exists_of_bind_eq_ok h
        exact mem_of_requirementWithin bound h
    next => exact mem_of_requirementWithin bound h

lemma follows_requirementType (traits : List DeclId) (name : String) :
    hc.Pairs exempt (requirementType · traits name) homes s
    fun found _ _ => ∀ type, found = some type → Ground base settings none type := by
  refine Follows.of_inv fun h => follows_get_bind ?_
  cases hrequired : s.program.requirement? traits name with
  | error halt => exact follows_throw
  | ok found =>
    cases found with
    | none => exact follows_pure nofun
    | some requirement =>
      refine (follows_signatureOf hs hc requirement).bind fun signature _ _ _ _ hsignature => follows_pure ?_
      rintro _ ⟨⟩
      obtain ⟨_, _, _, hd, hm⟩ := mem_of_requirementWithin _ hrequired
      exact ground_of_member hs (member_of_trait (h.descends.base_decl?_of_not_binding hd rfl) hm) hsignature

omit hc in
lemma follows_boundsOf (param : DeclId) :
    Keeps (Housed base settings exempt) (boundsOf param) homes s fun _ _ _ => True := by
  refine follows_get_bind ?_
  dsimp only
  split
  next => exact follows_pure trivial
  next function _ =>
    refine (follows_genericsOf hs function).next fun found => ?_
    cases found <;> exact follows_pure trivial

lemma follows_inferMember (id : ExprId) (type : Ty) (name : String) :
    hc.Pairs exempt (inferMember · id type name) homes s
    fun type _ _ => Ground base settings none type := by
  refine Follows.of_inv fun h => Follows.read (grants_resolve type) fun resolved _ => ?_
  have hnone {homes s} : Keeps (Housed base settings exempt)
      (do reportAt (.unknownMember resolved.describe name) id; return .error) homes s
      fun type _ _ => Ground base settings none type :=
    (follows_reportAt _ id).next fun _ => follows_pure (ground_error none)
  cases resolved with
  | error => exact follows_pure (ground_error none)
  | product product text =>
    refine Follows.read (grants_membersOf product) ?_
    rintro _ rfl
    refine (follows_memberType hs hc name _ fun member hm => ?_).bind ?_
    · exact member_of_productMembers (h.descends.productMembers_eq product ▸ hm)
    rintro (_ | found) homes1 s1 - - hfound
    · exact hnone
    · exact follows_pure (hfound found rfl)
  | existential | trait =>
    refine (follows_requirementType hs hc _ name).bind ?_
    rintro (_ | found) homes1 s1 - - hfound
    · exact hnone
    · exact follows_pure (hfound found rfl)
  | param param text =>
    refine (follows_boundsOf hs param).next fun bounds => ?_
    refine (follows_requirementType hs hc bounds name).bind ?_
    rintro (_ | found) homes1 s1 - - hfound
    · exact hnone
    · exact follows_pure (hfound found rfl)
  | _ => exact hnone

/-! ### Names -/

section

omit hs hc in
lemma grants_lookupValue (id : ExprId) (name : String) (useSite : ScopeId) :
    Grants (lookupValue id name useSite) s fun _ s' => s' = s ∧ True := by
  refine (grants_scopeOr id useSite).bind ?_
  rintro scope _ ⟨rfl, -⟩
  refine (grants_expr id).bind ?_
  rintro expr _ ⟨rfl, -⟩
  refine (grants_need _).bind ?_
  rintro _ _ rfl
  exact grants_get_bind.2 (grants_pure.2 ⟨rfl, trivial⟩)

variable {id : ExprId} (hsite : base.scopeOf id = some useSite)

include hsite

section

variable {found outer : Nat} (hm : outer ∈ base.chain useSite) (hd : found ∈ base.decls outer)

include hm hd

omit hc in
/-- The type of a variable that a name stands for may come up where the name is. -/
lemma belongs_of_found (hf : base.declLevel found = base.level found) {type}
    (ht : Suits base settings (¬base.tree.CaseVar found) homes (base.declLevel found) type) :
    Belongs base settings homes (base.enclosingFunction? useSite) type := by
  rw [hf] at ht
  by_cases hcase : base.tree.CaseVar found
  · rw [← Program.Surveyed.level_of_scopeOf hsite, ← hs.level_of_caseVar hsite hm hd hcase]
    exact ht.1
  · refine ((ht.2 hcase).mono fun param hv => ?_).belongs homes
    exact hs.visible_of_found (hs.le_root_of_scopeOf hsite) hm hd hv

variable {span : Span}

lemma follows_functionName {function} (hdecl : base.tree.decl? found = some ⟨.function function, span⟩) :
    hc.Pairs exempt (fun ask => do
      let type := (← signatureOf ask found).toTy
      if function.genericParams.isEmpty then return type
      let scope ← scopeOr id useSite
      match ← genericsOf found with
      | some generics => return (← instantiate generics type scope).1
      | none => return .error) homes s (BelongsIn base settings useSite) := by
  have hroot := hs.le_root_of_scopeOf hsite
  have hlt := hs.lt_root_of_scopeOf hsite
  have hsize := hs.rooted.size_eq
  refine (follows_signatureOf hs hc found).bind fun signature homes1 s1 _ h1 hsignature => ?_
  refine Follows.ite (fun hempty => follows_pure ((hsignature.mono fun param hv => ?_).belongs _)) fun _ => ?_
  · -- without parameters of its own it speaks of what is around it
    rcases hs.visible_outside hv with ⟨_, _, hdecl', hparam⟩ | hv
    · grind
    · exact hs.visible_of_found hroot hm hd hv
  refine Follows.read (grants_scopeOr id useSite) fun scope hscope => ?_
  rw [h1.descends.scopeOf_eq id (by omega), hsite, Option.getD_some] at hscope
  subst hscope
  refine (follows_genericsOf hs found).bind fun generics homes2 s2 _ _ hgenerics => ?_
  cases generics with
  | none => exact follows_pure ((ground_error _).belongs _)
  | some generics =>
    refine (follows_instantiate hs (hgenerics generics rfl) hsignature hroot fun param hv =>
      ?_).bind fun answer _ _ _ _ hanswer => follows_pure hanswer
    exact hs.visible_of_found hroot hm hd hv

lemma follows_productName {product}
    (hdecl : base.tree.decl? found = some ⟨.product product, span⟩) : hc.Pairs exempt (fun ask => do
      demand product.members
      let params ← (propertyVars (← tree) product.members).mapM fun var => ask (.declType var)
      let output ← ask (.declType found)
      return .function params output) homes s (BelongsIn base settings useSite) := by
  refine Follows.of_inv fun h => follows_need_bind (follows_get_bind ?_)
  have hparams : hc.Pairs exempt (fun ask => (propertyVars s.program.tree product.members).mapM
    fun var => ask (.declType var)) homes s
      fun types _ _ => ∀ type ∈ types, Ground base settings none type := by
    refine follows_mapM (fun _ h => h) _ fun var hv homes' s' _ => ?_
    rw [propertyVars_eq h.descends] at hv
    obtain ⟨_, hmember, hv⟩ := mem_flatMap.1 hv
    split at hv
    next _ _ hbinding => exact follows_property hs hc (member_of_product hdecl hmember) hbinding hv
    next => cases hv
  refine hparams.bind fun types homes1 s1 _ _ htypes => ?_
  refine (hc.declType found).bind fun output homes2 s2 _ _ houtput => follows_pure (Ty.over_function.2 ⟨?_, ?_⟩)
  · exact fun type ht => ((htypes type ht).everywhere _).belongs _
  · exact belongs_of_found hs hsite hm hd (declLevel_of_kind hdecl rfl) houtput.suits

end

lemma follows_inferName {name place} (he : base.tree.expr? id = some ⟨.name name, place⟩) :
    hc.Pairs exempt (inferName · id name useSite) homes s
      fun type homes' _ => Belongs base settings homes' (base.enclosingFunction? useSite) type ∧
      base.Agrees id type := by
  have hagrees {type} (h : ∀ found declared, base.valueNamed id name = some found →
      base.paramType? found = some declared → type = declared ∨ type = .error) :
      base.Agrees id type := by
    intro declared hdeclared
    rw [Program.namedParamType?, he] at hdeclared
    obtain ⟨found, hfound, hparam⟩ := Option.bind_eq_some_iff.1 hdeclared
    exact h found declared hfound hparam
  have herror {homes s} (problem : Problem) : Keeps (Housed base settings exempt)
      (do reportAt problem id; return Ty.error) homes s fun type homes' _ =>
      Belongs base settings homes' (base.enclosingFunction? useSite) type ∧ base.Agrees id type :=
    (follows_reportAt _ id).next fun _ => follows_pure ⟨(ground_error _).belongs _, fun _ _ => .inr rfl⟩
  refine Follows.of_inv fun h => ?_
  have hlookup := (ensures_lookupValue hs h.descends ⟨_, he⟩ name useSite).imp fun _ _ h => And.symm h
  refine Follows.read hlookup.grants fun found hfound => ?_
  cases found with
  | none => exact herror _
  | some found =>
    obtain ⟨_, _, hscope, hm, hd, -⟩ := valueNamed_spec hfound.symm
    cases hsite.symm.trans hscope
    refine Follows.read (grants_decl found) fun decl hdecl => ?_
    obtain ⟨kind, span⟩ := decl
    have hvalue (hk : kind.isFunction = false) : hc.Pairs exempt (· (.declType found)) homes s
        fun type homes' _ => Belongs base settings homes' (base.enclosingFunction? useSite) type ∧
        base.Agrees id type := by
      refine (hc.declType found).imp fun type _ _ _ _ ht => ⟨belongs_of_found hs hsite hm hd ?_ ht.suits, hagrees ?_⟩
      · have hnot : ¬base.tree.isFunction found := by
          rw [← h.descends.isFunction_eq, isFunction_iff, declares_iff hdecl, hk]
          exact Bool.false_ne_true
        rw [Program.declLevel, if_neg hnot]
      · rintro _ declared hother hparam
        cases hfound.trans hother
        exact .inl (ht.written declared hparam)
    have hnone {type} (hk : kind.isParam = false) (hb : base.tree.decl? found = some ⟨kind, span⟩) :
        base.Agrees id type := by grind [Program.paramType?_of_kind]
    cases kind with
    | var | param | binding => exact hvalue rfl
    | function function =>
      have hbase := h.descends.base_decl?_of_not_binding hdecl rfl
      exact (follows_functionName hs hc hsite hm hd hbase).imp fun _ _ _ _ _ ht => ⟨ht, hnone rfl hbase⟩
    | product product =>
      have hbase := h.descends.base_decl?_of_not_binding hdecl rfl
      exact (follows_productName hs hc hsite hm hd hbase).imp fun _ _ _ _ _ ht => ⟨ht, hnone rfl hbase⟩
    | trait | module | genericParam => exact herror _

end

/-! ### Operators -/

omit hs in
lemma follows_ask {part} (hp : base.Reads useSite part) :
    hc.Pairs exempt (· (.exprType part useSite)) homes s (BelongsIn base settings useSite) :=
  (hc.exprType fun he => ⟨(hp he).1, .inl (hp he).2⟩).imp fun _ _ _ _ _ h => h.2.1

omit hs hc in
lemma ground_operatorTypes {left operands output operator}
    (h : operatorTypes left operator = some (operands, output)) (level : Option DeclId) :
    Ground base settings level operands ∧ Ground base settings level output := by
  have hleaf (type : Ty) (hl : type ∈ [Ty.int, .bool, .string]) : Ground base settings level type := by
    simp only [mem_cons, not_mem_nil, or_false] at hl
    rcases hl with rfl | rfl | rfl <;> exact (Ty.over_end rfl).2 trivial
  cases operator <;> simp only [operatorTypes] at h
  case add => grind
  all_goals cases h
  all_goals exact ⟨hleaf _ (by simp), hleaf _ (by simp)⟩

omit hs in
lemma follows_inferUnary (operator : UnaryOperator) {operand} (ho : base.Reads useSite operand) :
    hc.Pairs exempt (inferUnary · operator operand useSite) homes s
      (BelongsIn base settings useSite) := by
  have hground : Ground base settings (base.enclosingFunction? useSite) (unaryType operator) := by
    cases operator <;> exact (Ty.over_end rfl).2 trivial
  refine (follows_ask hc ho).bind fun type homes1 s1 _ _ htype => ?_
  refine (follows_expectType operand htype (hground.belongs _)).next fun fits => ?_
  exact follows_pure (hground.belongs _).ite_error

omit hs in
lemma follows_inferBinary (operator : BinaryOperator) {left right} (hleft : base.Reads useSite left)
    (hright : base.Reads useSite right) :
    hc.Pairs exempt (inferBinary · operator left right useSite) homes s
      (BelongsIn base settings useSite) := by
  refine (follows_ask hc hleft).bind fun leftType homes1 s1 _ _ hl => ?_
  refine (follows_ask hc hright).bind fun rightType homes2 s2 hp2 _ hr => ?_
  refine Follows.read (grants_resolve leftType) fun resolved _ => ?_
  split
  next _ _ htypes =>
    obtain ⟨hoperands, houtput⟩ := ground_operatorTypes htypes (base.enclosingFunction? useSite)
    refine (follows_expectType left (hl.mono hp2) (hoperands.belongs _)).bind fun _ homes3 s3 hp3 _ _ => ?_
    refine (follows_expectType right (hr.mono hp3) (hoperands.belongs _)).next fun _ => ?_
    refine Follows.read (grants_resolve leftType) fun _ _ => Follows.read (grants_resolve rightType) fun _ _ => ?_
    exact follows_pure (houtput.belongs _).ite_error
  next =>
    refine (follows_expectType right hr (hl.mono hp2)).next fun _ => ?_
    refine Follows.read (grants_resolve leftType) fun _ _ => follows_pure (Belongs.ite_error ?_)
    exact (Ty.over_end rfl).2 trivial

end TraitLang.Check
