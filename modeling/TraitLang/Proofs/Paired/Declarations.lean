import TraitLang.Proofs.Paired.Statements

/-! Types and verdicts of declarations, with two answerers side by side. -/
namespace TraitLang.Check

open Follows TraitLang.Tree Program.Surveyed Program

variable {base : Program} {root : Nat} (hs : base.Surveyed root) {settings : Settings}
  {exempt : ExprId → Prop} {homes : List (Option DeclId)} {s : State} {ask other : Answerer}
  (hc : Consults base settings ask other) {id : DeclId} {span : Span}

/-! ### Bindings and variables -/

section

variable {before : BindingDecl} (hd : base.tree.decl? id = some ⟨.binding before, span⟩)
  {scope : ScopeId} (hscope : base.scopeOf id = some scope)

include hs hc hd hscope

lemma follows_checkInitializer {child initializer} (hi : before.initializer = some child)
    (hfills : base.tree.Fills child initializer) {expected} (hexpected : ∀ type ∈ expected,
    Belongs base settings homes (base.enclosingFunction? scope) type) :
    hc.Pairs exempt (checkInitializer · id initializer expected scope) homes s fun type _ _ =>
      Ground base settings (base.enclosingFunction? scope) type := by
  have hplace (he : base.tree.HasExpr initializer) : base.scopeOf initializer = some scope := by
    rw [hfills he]
    exact (hs.scopeOf_child (decl?_eq_some.1 hd) (by simp [Node.children, DeclKind.children, hi])).trans hscope
  refine of_inv fun h => follows_get_bind ?_
  rw [h.settings_eq]
  refine (follows_checkExpr hs hc hplace hexpected fun h => h).bind ?_
  rintro checked homes1 s1 - - ⟨he, hpacks, hground⟩
  rw [hfills he] at hpacks
  have hstore : Keeps (Housed base settings exempt) (updateTree id fun tree =>
      tree.updateDecl id (setInitializer checked.expr)) homes1 s1 fun _ _ _ => True :=
    follows_updateTree fun _ h => h.updateInitializer hs.rooted hd hi hpacks
  exact hstore.next fun _ => follows_pure hground

/-- The type that a binding gives to its pattern waits for nothing. -/
lemma follows_bindingType {decl} (hfills : ∀ initializer, decl.initializer = some initializer →
      ∃ child, before.initializer = some child ∧ base.tree.Fills child initializer) :
    hc.Pairs exempt (bindingType · id decl scope) homes s
      fun answer _ _ => Ground base settings (base.enclosingFunction? scope) answer.1 := by
  have hroot := hs.le_root_of_scopeOf hscope
  unfold bindingType
  split
  next ascription initializer _ hi =>
    obtain ⟨child, hchild, hfill⟩ := hfills initializer hi
    refine (follows_writtenType hs hroot ascription).bind fun type homes1 s1 _ _ htype => ?_
    refine (follows_checkInitializer hs hc hd hscope hchild hfill
      (by rintro _ ⟨⟩; exact htype.belongs _)).bind fun found _ _ _ _ _ => follows_pure htype
  next ascription _ _ =>
    exact (follows_writtenType hs hroot ascription).bind fun type _ _ _ _ htype => follows_pure htype
  next initializer _ hi =>
    obtain ⟨_, hchild, hfill⟩ := hfills initializer hi
    exact (follows_checkInitializer hs hc hd hscope hchild hfill (by simp)).bind
      fun type _ _ _ _ htype => follows_pure htype
  next => exact (follows_reportAt _ id).next fun _ => follows_pure (ground_error _)

end

include hs hc

lemma follows_bindVars {id decl span} (hd : base.tree.decl? id = some ⟨.binding decl, span⟩)
    {scope} (hscope : base.scopeOf id = some scope)
    {type} (hground : Ground base settings (base.enclosingFunction? scope) type) :
    hc.Pairs exempt (bindPattern · scope id decl.pattern type) homes s fun _ _ _ => True := by
  refine follows_bindPattern hs hc id decl.pattern (fun var hv => ?_) (fun value hv => ?_) (hground.suits True _)
  · obtain ⟨hvar, -⟩ := declLevel_of_binding hs hd hv
    exact ⟨hvar.trans (level_of_scopeOf hscope), .inl trivial,
      (hs.rooted.below (decl?_eq_some.1 hd)).1.1.1 var hv⟩
  · rw [(hs.rooted.below (decl?_eq_some.1 hd)).1.2.1] at hv
    cases hv

variable (id : Nat)

lemma follows_realizeBinding : hc.Pairs exempt (realizeBinding · id) homes s
      fun type homes' _ => Fitting base settings homes' id type := by
  refine of_inv fun h => follows_get_bind ?_
  cases hknown : s.declTypes[id]? with
  | some known => exact follows_pure (h.declTypes hknown)
  | none =>
    refine read (grants_decl id) fun found hfound => ?_
    obtain ⟨kind, _⟩ := found
    cases kind with
    | binding decl =>
      obtain ⟨_, hd, hpattern, hfills⟩ := h.descends.bindingDecl hs.rooted hfound
      have hnot := paramType?_of_kind hd rfl
      refine follows_get_bind (ite (fun _ => ?_) fun _ => ?_)
      · have hname : Grants (decl.pattern.vars.head?.elim (pure "_") declName) s fun _ s' => s' = s ∧ True := by
          cases decl.pattern.vars.head? with
          | none => exact grants_pure.2 ⟨rfl, trivial⟩
          | some var => exact (grants_declName var).imp fun _ _ h => ⟨h.1, trivial⟩
        refine read hname fun name _ => (follows_reportAt _ id).next fun _ => ?_
        exact follows_pure (((ground_error _).suits _ _).fitting hnot)
      refine follows_modify_bind (fun h => { h with }) ?_
      refine read (grants_enclosingScope id) fun scope hscope => ?_
      have hscope : base.scopeOf id = some scope := by
        rw [← h.descends.scopeOf_eq id (lt_size (decl?_eq_some.1 hd))]
        exact hscope
      have hlevel : base.declLevel id = base.enclosingFunction? scope := by
        rw [declLevel_of_kind hd rfl, level_of_scopeOf hscope]
      refine (follows_bindingType hs hc hd hscope hfills).bind ?_
      rintro ⟨type, fits⟩ homes1 s1 - - hground
      rw [hpattern]
      refine (follows_bindVars hs hc hd hscope hground).bind fun bound homes2 s2 _ _ _ => ?_
      refine follows_modify_bind (fun h => { h with }) ?_
      have hfinal : Fitting base settings homes2 id (if fits && bound then type else .error) :=
        Suits.fitting (hlevel ▸ (hground.ite_error).suits _ _) hnot
      exact follows_modify_bind (fun h => h.setDecl hfinal) (follows_pure hfinal)
    | _ => exact follows_throw

lemma follows_realizeVar {id} (hnot : base.paramType? id = none) :
    hc.Pairs exempt (realizeVar · id) homes s
      fun type homes' _ => Fitting base settings homes' id type := by
  refine of_inv fun h => follows_get_bind ?_
  cases hknown : s.declTypes[id]? with
  | some known => exact follows_pure (h.declTypes hknown)
  | none =>
    have hread {homes s} : Keeps (Housed base settings exempt)
        (do return (← get).declTypes.getD id .error : Check Ty) homes s
          fun type homes' _ => Fitting base settings homes' id type := by
      refine of_inv fun h => follows_get_bind (follows_pure ?_)
      rw [Std.TreeMap.getD_eq_getD_getElem?]
      cases hfound : s.declTypes[id]? with
      | some type => exact h.declTypes hfound
      | none => exact ((ground_error _).suits _ _).fitting hnot
    refine follows_get_bind (follows_need_bind (follows_get_bind ?_))
    split
    next binding _ => exact (follows_realizeBinding hs hc binding).next fun _ => hread
    next => exact hread

omit hc in
/-- A generic parameter can be seen in the function that has it. -/
lemma visible_self {param name} (hd : base.tree.decl? param = some ⟨.genericParam name, span⟩) :
    base.Visible (base.level param) param := by
  have hlt : param < root := hs.rooted.lt_root (lt_size (decl?_eq_some.1 hd)) (by
    rw [declares_iff hd]
    exact Bool.false_ne_true)
  obtain ⟨parent, hparent⟩ := hs.rooted.exists_parent hlt
  rcases hs.rooted.decl_child hd hparent with hl | hv | ⟨-, hi⟩ | ⟨function, place, hf, ⟨hm, -⟩ | hk⟩
  · cases hl
  · cases hv
  · cases hi
  · have hfunction : base.tree.isFunction parent := isFunction_iff.2 ⟨_, hf, rfl⟩
    rw [hs.level_of_function_child hfunction hparent]
    refine ⟨parent, rfl, parent, ?_, function, place, hf, hm⟩
    exact (mem_chain_of_enclosingFunction? (hs.enclosingFunction?_of_function hfunction)).1
  · cases hk

lemma follows_realize : hc.Pairs exempt (realize · id) homes s
      fun type homes' _ => Fitting base settings homes' id type := by
  refine of_inv fun h => follows_get_bind ?_
  cases hknown : s.declTypes[id]? with
  | some known => exact follows_pure (h.declTypes hknown)
  | none =>
    have hkeep (type : Ty) (hg : Ground base settings (base.declLevel id) type)
        (hw : ∀ declared, base.paramType? id = some declared → type = declared) {homes s} :
        Keeps (Housed base settings exempt) (do setDeclType id type; return type) homes s
          fun type homes' _ => Fitting base settings homes' id type :=
      follows_modify_bind (fun h => h.setDecl ⟨hg.suits _ _, hw⟩) (follows_pure ⟨hg.suits _ _, hw⟩)
    refine read (grants_decl id) fun found hfound => ?_
    obtain ⟨kind, _⟩ := found
    have hbase (hk : kind.isBinding = false) := h.descends.base_decl?_of_not_binding hfound hk
    have hother (hb : kind.isBinding = false) (hk : kind.isParam = false) (type declared : Ty)
        (hd : base.paramType? id = some declared) : type = declared := by grind [paramType?_of_kind]
    cases kind with
    | binding => exact follows_realizeBinding hs hc id
    | var => exact follows_realizeVar hs hc (paramType?_of_kind (hbase rfl) rfl)
    | param _ ascription =>
      have hd := hbase rfl
      refine read (grants_enclosingScope id) fun scope hscope => ?_
      rw [h.descends.scopeOf_eq id (lt_size (decl?_eq_some.1 hd))] at hscope
      have hroot := hs.le_root_of_scopeOf hscope
      refine (follows_resolveType hs hroot ascription).bind ?_
      rintro _ homes1 s1 - - rfl
      refine hkeep _ ?_ fun declared hdeclared => ?_
      · rw [declLevel_of_kind hd rfl, level_of_scopeOf hscope]
        exact ground_reading hs hroot ascription
      · rw [paramType?, hd, hscope] at hdeclared
        exact Option.some.inj hdeclared
    | function =>
      have hd := hbase rfl
      refine (follows_signatureOf hs hc id).bind fun signature _ _ _ _ hsignature => hkeep _ ?_ (hother rfl rfl _)
      rwa [declLevel, if_pos (isFunction_iff.2 ⟨_, hd, rfl⟩)]
    | genericParam name =>
      have hd := hbase rfl
      refine hkeep (.param id name) ((Ty.over_end rfl).2 fun _ => .inr ?_) (hother rfl rfl _)
      rw [declLevel_of_kind hd rfl]
      exact visible_self hs hd
    | trait decl => exact hkeep (.trait id decl.name) ((Ty.over_end rfl).2 trivial) (hother rfl rfl _)
    | product decl => exact hkeep (.product id decl.name) ((Ty.over_end rfl).2 trivial) (hother rfl rfl _)
    | module => exact hkeep .error (ground_error _) (hother rfl rfl _)

/-! ### Bodies -/

lemma follows_checkBody {function stmt} (hstmt : base.tree.HasBlock stmt) :
    hc.Pairs exempt (checkBody · function stmt) homes s
      fun _ _ _ => True := by
  refine of_inv fun h => follows_get_bind (read (grants_ownScope function) ?_)
  rintro _ rfl
  generalize hbody : Body.new function s.settings.freePolicy s.settings.diagnoseMissingReturns = body
  have hfinish (good : Bool) (body : Body) {homes s} : Keeps (Housed base settings exempt) (do
        modify fun state =>
          let returns := state.returns.getD function [] ++ body.returns
          { state with returns := state.returns.insert function returns }
        return good : Check Bool) homes s fun _ _ _ => True :=
    follows_modify_bind (fun h => { h with }) (follows_pure trivial)
  intro _ good s' hrun
  obtain ⟨⟨answer, after⟩, s1, hmodify, hrest⟩ := bind_eq_ok.1 hrun
  have hanswer : runBody ask body stmt s = (answer, after, s1) := by
    cases hmodify
    rfl
  unfold runBody at hanswer
  split at hanswer
  next sound run hcheck =>
    cases hanswer
    have hrunning : Running base settings exempt function homes ⟨body, s⟩ := by
      rw [← hbody]
      exact ⟨h, h.settings_eq ▸ rfl, rfl⟩
    obtain ⟨hother, homes1, hp1, h1, -⟩ :=
      follows_checkStmt hs hc (.of_branch hstmt.hasBranch function) hrunning sound run hcheck
    obtain ⟨hfinish, homes2, hp2, h2, -⟩ := hfinish sound run.body h1.housed good s' hrest
    refine ⟨bind_eq_ok.2 ⟨(.ok sound, run.body), run.context, ?_, hfinish⟩, homes2, hp1.trans hp2, h2, trivial⟩
    show EStateM.Result.ok ((runBody other body stmt s).1, (runBody other body stmt s).2.1)
      (runBody other body stmt s).2.2 = _
    unfold runBody
    rw [hother]
  next _ _ _ =>
    cases hanswer
    cases hrest

lemma follows_checkFunction {function} (hbody : ∀ stmt ∈ function.body, base.tree.HasBlock stmt) :
    hc.Pairs exempt (checkFunction · id function) homes s
      fun _ _ _ => True := by
  refine (follows_signatureOf hs hc id).bind fun signature _ _ _ _ _ => ?_
  have hrest {homes s} (constrained : Bool) :
      hc.Pairs exempt (fun ask => do
        let checked ← function.body.elim (pure true) (checkBody ask id)
        return !signature.toTy.hasErrors && constrained && checked) homes s fun _ _ _ => True := by
    cases hstmt : function.body with
    | none => exact follows_pure trivial
    | some stmt => exact (follows_checkBody hs hc (hbody stmt hstmt)).last
  refine ite (fun _ => hrest true) fun _ => ?_
  exact (follows_genericsOf hs id).next fun generics => hrest generics.isSome

/-! ### Verdicts -/

omit hs in
lemma follows_verdicts : ∀ (ids : List DeclId) {homes s},
    hc.Pairs exempt (verdicts · ids) homes s fun _ _ _ => True
  | [], _, _ => follows_pure trivial
  | id :: ids, homes, s => by
    refine (hc.verdict id).next fun good => ?_
    exact (follows_verdicts ids).last

omit hs hc in
lemma follows_checkRefinements (scope : ScopeId) : ∀ (names : List TraitName) {homes s},
    Keeps (Housed base settings exempt) (checkRefinements scope names) homes s fun _ _ _ => True
  | [], _, _ => follows_pure trivial
  | name :: names, homes, s => by
    refine (follows_resolveTrait name scope).next fun found => ?_
    exact (follows_checkRefinements scope names).last

lemma follows_checkDeclaration :
    hc.Pairs exempt (checkDeclaration · id) homes s fun _ _ _ => True := by
  refine of_inv fun h => follows_get_bind ?_
  cases hknown : s.verdicts[id]? with
  | some known => exact follows_pure trivial
  | none =>
    refine follows_modify_bind (fun h => { h with }) ?_
    refine read (grants_decl id) fun found hfound => ?_
    obtain ⟨kind, _⟩ := found
    have hkind : hc.Pairs exempt (checkKind · id kind) homes
        { s with verdicts := s.verdicts.insert id true } fun _ _ _ => True := by
      cases kind with
      | module _ members => exact follows_verdicts hc members
      | function function =>
        have hd := h.descends.base_decl?_of_not_binding hfound rfl
        exact follows_checkFunction hs hc id (hs.rooted.below (decl?_eq_some.1 hd)).1.2.2
      | param | binding | var =>
        exact (follows_realize hs hc id).last
      | genericParam => exact follows_pure trivial
      | trait decl =>
        refine read (grants_enclosingScope id) fun scope _ => ?_
        refine (follows_checkRefinements scope decl.refinements).next fun _ => ?_
        exact (follows_verdicts hc decl.members).last
      | product decl =>
        refine (follows_checkConformances hs hc id).next fun _ => ?_
        exact (follows_verdicts hc decl.members).last
    refine hkind.next fun good => ?_
    exact follows_modify_bind (fun h => { h with }) (follows_pure trivial)

end TraitLang.Check
