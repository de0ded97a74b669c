import TraitLang.Proofs.Branches
import TraitLang.Proofs.Paired.Values

/-! Types of calls, assignments, conditionals and matches, with two answerers side by side, and of
all expressions. What is stored in a slot packs the value that the program has there. -/
namespace TraitLang.Check

open Follows ExprKind List

variable {base : Program} {root : Nat} (hs : base.Surveyed root) {settings : Settings}
  {exempt : ExprId → Prop} {homes : List (Option DeclId)} {s : State} {ask other : Answerer}
  (hc : Consults base settings ask other) {useSite : ScopeId} {id : ExprId} {span : Span}
  (hsite : base.scopeOf id = some useSite)

/-! ### Calls and assignments -/

section

include hs

lemma follows_updateExpr {kind} (he : base.tree.expr? id = some ⟨kind, span⟩) {change}
    (hp : ∀ {after later}, kind.Patched s.program.tree.Packs after → change after = some later →
      kind.Patched s.program.tree.Packs later) : Keeps (Housed base settings exempt)
    (updateTree id fun tree => tree.updateExpr id change) homes s fun _ _ _ => True :=
  follows_updateTree fun _ h => h.updateExpr hs.rooted he hp

include hc hsite

variable {callee : ExprId}

lemma follows_checkArguments : ∀ (pending : List ExprId) {done arguments params}
    {homes s}, base.tree.expr? id = some ⟨.call callee (done ++ pending), span⟩ →
      Forall₂ base.tree.Fills pending arguments →
      (∀ param ∈ params, Belongs base settings homes (base.enclosingFunction? useSite) param) →
      hc.Pairs exempt (checkArguments · id useSite done.length arguments params) homes s
        fun _ _ _ => True
  | [], done, _, params, homes, s, _, .nil, _ => follows_pure trivial
  | child :: pending, done, argument :: arguments, [], homes, s, _, .cons _ _, _ => follows_pure trivial
  | child :: pending, done, argument :: arguments, param :: params, homes, s, he, .cons hfills hrest, hparams => by
    obtain ⟨hparam, hparams⟩ := forall_mem_cons.1 hparams
    have hreads : base.Reads useSite argument := hs.reads_of_expr he (by simp [children]) hsite hfills
    refine (follows_coerce_part hs hc hreads hparam .argument).bind ?_
    rintro ⟨checked, type⟩ homes1 s1 hp1 - ⟨hvalue, hpacks, -⟩
    obtain rfl := hfills hvalue
    refine (follows_updateExpr hs he fun hk hset =>
      hk.setArgument (Tree.packs_self _) hpacks (by simp) hset).bind fun _ homes2 s2 hp2 _ _ => ?_
    have he : base.tree.expr? id = some ⟨.call callee ((done ++ [argument]) ++ pending), span⟩ := by simpa using he
    have hnext := follows_checkArguments pending he hrest (fun param hm =>
        (hparams param hm).mono (hp1.trans hp2)) (s := s2)
    rw [length_append, length_singleton] at hnext
    exact hnext.last

omit hs hc hsite in
lemma follows_reportCall (id callee : ExprId) (received : Nat) (type : Ty) :
    Keeps (Housed base settings exempt) (reportCall id callee received type) homes s fun _ _ _ => True := by
  unfold reportCall
  split
  next => exact ite (fun _ => (follows_reportAt _ id).weaken) fun _ => (follows_reportAt _ id).weaken
  next => exact follows_pure trivial
  next => exact (follows_reportAt _ callee).weaken

lemma follows_inferCall {children arguments} (he : base.tree.expr? id = some
    ⟨.call callee children, span⟩) (hfills : Forall₂ base.tree.Fills children arguments) :
    hc.Pairs exempt (inferCall · id callee arguments useSite) homes s
      (BelongsIn base settings useSite) := by
  have hcallee : base.Reads useSite callee :=
    hs.reads_of_expr he (by simp [ExprKind.children]) hsite (Tree.fills_self _ _)
  refine (follows_ask hc hcallee).bind fun found homes1 s1 _ h1 hfound => read (grants_resolve found) ?_
  rintro _ rfl
  have hresolved := h1.resolve hfound
  generalize s1.solver.resolve found = type at hresolved
  have hrefuse : hc.Pairs exempt (fun ask => do
      reportCall id callee arguments.length type
      arguments.forM fun argument => do
        let _ ← ask (.exprType argument useSite)
      return .error) homes1 s1 (BelongsIn base settings useSite) := by
    refine (follows_reportCall id callee _ type).bind fun _ homes2 s2 _ _ _ => ?_
    refine (follows_forM arguments fun argument hm homes' s' _ => ?_).next fun _ =>
      follows_pure ((ground_error _).belongs _)
    obtain ⟨_, hchild, hfill⟩ := exists_mem_of_forall₂ hfills hm
    have hreads : base.Reads useSite argument := hs.reads_of_expr he (mem_cons_of_mem _ hchild) hsite hfill
    exact (follows_ask hc hreads).last
  cases type with
  | function params output =>
    obtain ⟨hparams, houtput⟩ := Ty.over_function.1 hresolved
    refine ite (fun _ => ?_) fun _ => hrefuse
    have he : base.tree.expr? id = some ⟨.call callee ([] ++ children), span⟩ := he
    exact (follows_checkArguments hs hc hsite children he hfills hparams).bind
      fun _ homes2 _ hp2 _ _ => follows_pure (Belongs.mono houtput hp2).ite_error
  | _ => exact hrefuse

omit hs hc hsite in
lemma follows_checkAssignee (assignee : ExprId) (useSite : ScopeId) :
    Keeps (Housed base settings exempt) (checkAssignee assignee useSite) homes s fun _ _ _ => True := by
  refine read (grants_expr assignee) fun expr _ => ?_
  dsimp only
  split
  next name _ =>
    refine read (grants_lookupValue assignee name useSite) fun found _ => ?_
    cases found with
    | none => exact follows_pure trivial
    | some found =>
      refine follows_get_bind (follows_need_bind (follows_get_bind ?_))
      split
      next => exact follows_pure trivial
      next => exact (follows_reportAt _ assignee).last
  next => exact follows_pure trivial
  next => exact (follows_reportAt _ assignee).last

lemma follows_inferAssign {assignee child value} (he : base.tree.expr? id = some
    ⟨.assign assignee child, span⟩) (hfills : base.tree.Fills child value) :
    hc.Pairs exempt (inferAssign · id assignee value useSite) homes s
      (BelongsIn base settings useSite) := by
  have hassignee : base.Reads useSite assignee :=
    hs.reads_of_expr he (by simp [children]) hsite (Tree.fills_self _ _)
  have hvalue : base.Reads useSite value := hs.reads_of_expr he (by simp [children]) hsite hfills
  refine (follows_checkAssignee assignee useSite).next fun assignable => ?_
  refine (follows_ask hc hassignee).bind fun target homes2 s2 _ _ htarget => ?_
  refine (follows_coerce_part hs hc hvalue htarget .value).bind ?_
  rintro ⟨checked, type⟩ homes3 s3 - - ⟨hexpr, hpacks, -⟩
  obtain rfl := hfills hexpr
  refine (follows_updateExpr hs he fun hk hset => hk.setAssigned hpacks hset).next fun _ => follows_pure ?_
  exact ((ground_unit _).belongs _).ite_error

end

/-! ### Conditionals -/

section

include hs

variable {items before : List ConditionItem} {success failure child : ExprId}

lemma scopeOfChild_cond (he : base.tree.expr? id = some ⟨.cond items success failure, span⟩)
    (hc : child ∈ items.map ConditionItem.node ++ [success]) : (Node.expr
    ⟨.cond items success failure, span⟩).scopeOfChild id (base.scopeOf id) child = some id := by
  have hnodup := hs.rooted.nodup_children id
  rw [Tree.children_of_node? (Tree.expr?_eq_some.1 he)] at hnodup
  have hne : failure ≠ child := by
    rintro rfl
    simp only [Node.children, children] at hnodup
    grind
  exact if_neg hne

include hc

lemma follows_checkConditions (he : base.tree.expr? id = some ⟨.cond before success failure, span⟩)
    (hitems : Forall₂ (ConditionItem.Patched base.tree.Fills) before items) :
    hc.Pairs exempt (checkConditions · id id 0 items) homes s
      fun _ _ _ => True := by
  simp only [Consults.Pairs, Check.Pairs, checkConditions_eq]
  refine follows_inTurn hitems fun index item slot homes s hbefore hitem => ?_
  cases slot with
  | decl decl => exact hc.verdict decl
  | expr test =>
    obtain ⟨child, rfl, hfills⟩ := hitem.exists_expr (Tree.fills_self _)
    have hchild : child ∈ before.map ConditionItem.node := mem_map_of_mem (mem_of_getElem? hbefore)
    have hreads : base.Reads id test := hs.reads_of_expr he (mem_append_left _ hchild)
      (scopeOfChild_cond hs he (mem_append_left _ hchild)) hfills
    have hbool : Belongs base settings homes (base.enclosingFunction? id) .bool := (Ty.over_end rfl).2 trivial
    refine (follows_coerce_part hs hc hreads hbool .value).bind ?_
    rintro ⟨checked, type⟩ homes1 s1 - - ⟨hvalue, hpacks, -⟩
    obtain rfl := hfills hvalue
    exact (follows_updateExpr hs he fun hk hset => hk.setTest (Tree.packs_self _) hpacks hbefore hset).last

include hsite

lemma follows_inferCond (he : base.tree.expr? id = some ⟨.cond before success child, span⟩)
    (hitems : Forall₂ (ConditionItem.Patched base.tree.Fills) before items) (hfills : base.tree.Fills child failure) :
    hc.Pairs exempt (inferCond · id items success failure useSite) homes s
      (BelongsIn base settings useSite) := by
  have hsuccess : base.Reads id success :=
    hs.reads_of_expr he (by simp [children]) (scopeOfChild_cond hs he (by simp)) (Tree.fills_self _ _)
  have hfailure : base.Reads useSite failure :=
    hs.reads_of_expr he (by simp [children]) ((if_pos rfl).trans hsite) hfills
  refine read (grants_ownScope id) ?_
  rintro _ rfl
  refine (follows_checkConditions hs hc he hitems).next fun tested => ?_
  refine (follows_ask hc hsuccess).bind fun type homes2 s2 _ _ htype => ?_
  rw [BelongsIn, hs.enclosingFunction?_of_inner (.inl ⟨_, he⟩) hsite] at htype
  refine (follows_coerce_part hs hc hfailure htype .value).bind ?_
  rintro ⟨checked, failureType⟩ homes3 s3 hp3 - ⟨hvalue, hpacks, -⟩
  obtain rfl := hfills hvalue
  refine (follows_updateExpr hs he fun hk hset => hk.setFailure hpacks hset).bind fun _ homes4 s4 hp4 h4 _ => ?_
  refine ite (fun _ => ?_) fun _ => follows_pure ((ground_error _).belongs _)
  exact follows_get_bind (follows_pure (h4.resolve (htype.mono (hp3.trans hp4))))

end

/-! ### Matches -/

section

include hs hc

/-- The variables of a case get their types, at the level of the case. -/
lemma follows_bindCase {id case} (hcase : base.tree.case? id = some case)
    (hsite : base.scopeOf id = some useSite) {subject}
    (hsubject : Belongs base settings homes (base.enclosingFunction? useSite) subject) :
    hc.Pairs exempt (bindPattern · id id case.pattern subject) homes s fun _ _ _ => True := by
  have hinner : base.tree.Inner id := .inr (.inl ⟨_, hcase⟩)
  have hlevel := hs.enclosingFunction?_of_inner hinner hsite
  have hsuits : Suits base settings False homes (base.enclosingFunction? id) subject := ⟨hlevel ▸ hsubject, False.elim⟩
  refine follows_bindPattern hs hc id case.pattern (fun var hv => ?_) (fun value hv => ?_) hsuits
  · obtain ⟨hchild, hvar⟩ := var_of_case hs.rooted hcase hv
    refine ⟨?_, .inr ⟨id, case, hcase, hv⟩, hvar⟩
    obtain ⟨⟨kind, _⟩, hvar, hkind⟩ := hvar
    rw [declLevel_of_kind hvar (by cases kind <;> first | rfl | cases hkind),
      hs.level_child hinner hchild, Program.Surveyed.level_of_scopeOf hsite, hlevel]
  · exact hs.reads_of_case hcase (mem_append_left _ ((Pattern.mem_nodes_iff _).2 (.inr hv))) (Tree.fills_self _ _)

lemma follows_checkCases {subject result} : ∀ (cases : List CaseId) {homes s},
    (∀ case ∈ cases, base.tree.HasCase case ∧ base.scopeOf case = some useSite) →
    Belongs base settings homes (base.enclosingFunction? useSite) subject →
    Belongs base settings homes (base.enclosingFunction? useSite) result →
    hc.Pairs exempt (checkCases · subject result cases)
      homes s fun _ _ _ => True
  | [], homes, s, _, _, _ => follows_pure trivial
  | id :: ids, homes, s, hcases, hsubject, hresult => by
    obtain ⟨⟨⟨_, hbefore⟩, hsite⟩, hrest⟩ := forall_mem_cons.1 hcases
    have hlevel := hs.enclosingFunction?_of_inner (.inr (.inl ⟨_, hbefore⟩)) hsite
    refine of_inv fun h => read (grants_case id) fun found hfound => ?_
    obtain ⟨hpattern, hfills⟩ := h.descends.matchCase hs.rooted hbefore hfound
    refine read (grants_ownScope id) ?_
    rintro _ rfl
    rw [hpattern]
    refine (follows_bindCase hs hc hbefore hsite hsubject).bind fun bound homes1 s1 hp1 _ _ => ?_
    have hbody : base.Reads id found.body := hs.reads_of_case hbefore (by simp [Node.children]) hfills
    refine (follows_coerce_part hs hc hbody (hlevel ▸ hresult.mono hp1) .value).bind ?_
    rintro ⟨checked, type⟩ homes2 s2 hp2 - ⟨hvalue, hpacks, -⟩
    rw [hfills hvalue] at hpacks
    have hstore : Keeps (Housed base settings exempt) (updateTree id fun tree =>
        tree.updateCase id fun case => { case with body := checked }) homes2 s2 fun _ _ _ => True :=
        follows_updateTree fun _ h => h.updateBody hs.rooted hbefore hpacks
    refine hstore.bind fun _ homes3 s3 hp3 _ _ => ?_
    have hp := (hp1.trans hp2).trans hp3
    exact (follows_checkCases ids hrest (hsubject.mono hp) (hresult.mono hp)).last

include hsite

lemma follows_inferSelect
    {subject cases} (he : base.tree.expr? id = some ⟨.select subject cases, span⟩) : hc.Pairs exempt
    (inferSelect · subject cases useSite) homes s (BelongsIn base settings useSite) := by
  have hn := Tree.expr?_eq_some.1 he
  have hsubject : base.Reads useSite subject :=
    hs.reads_of_expr he (by simp [children]) hsite (Tree.fills_self _ _)
  have hcases (case : CaseId) (hm : case ∈ cases) : base.tree.HasCase case ∧ base.scopeOf case = some useSite :=
    ⟨(hs.rooted.below hn).1.2 case hm, (hs.scopeOf_child hn (mem_cons_of_mem _ hm)).trans hsite⟩
  refine (follows_ask hc hsubject).bind fun subjectType homes1 s1 _ _ hsubject => ?_
  refine (follows_fresh (base.enclosingFunction? useSite)).bind fun result homes2 s2 hp2 _ hresult => ?_
  have hsubject := hsubject.mono hp2
  have hrest {homes3 s3} (hp3 : homes2 <+: homes3) :
      hc.Pairs exempt (fun ask => do
        let known := !(← resolve subjectType).hasErrors
        let sound ← checkCases ask subjectType result cases
        if known && sound then resolve result else return .error) homes3 s3 (BelongsIn base settings useSite) := by
    refine read (grants_resolve subjectType) fun _ _ => ?_
    refine (follows_checkCases hs hc cases hcases (hsubject.mono hp3) (hresult.mono hp3)).bind
      fun sound homes4 s4 hp4 h4 _ => ?_
    refine ite (fun _ => ?_) fun _ => follows_pure ((ground_error _).belongs _)
    exact follows_get_bind (follows_pure (h4.resolve (hresult.mono (hp3.trans hp4))))
  refine ite (fun _ => ?_) fun _ => hrest (prefix_refl _)
  exact (follows_unify hresult ((ground_unit _).belongs _)).bind fun _ _ _ hp3 _ _ => hrest hp3

end

/-! ### All expressions -/

section

include hs hc hsite

lemma follows_inferKind {before kind} (he : base.tree.expr? id = some ⟨before, span⟩)
    (hpatched : before.Patched base.tree.Fills kind) :
    hc.Pairs exempt (inferKind · id useSite kind) homes s (BelongsIn base settings useSite) := by
  cases hpatched with
  | call harguments => exact follows_inferCall hs hc hsite he harguments
  | assign hfills => exact follows_inferAssign hs hc hsite he hfills
  | cond hitems hfills => exact follows_inferCond hs hc hsite he hitems hfills
  | same =>
    have hself := Tree.fills_self base.tree
    -- what may be asked about the parts of an expression that is no scope
    have hreads {child} (hm : child ∈ before.children) (hscope : (Node.expr ⟨before,
        span⟩).scopeOfChild id (base.scopeOf id) child = base.scopeOf id) :
        base.Reads useSite child := hs.reads_of_expr he hm (hscope.trans hsite) (hself child)
    cases before with
    | int | str | bool => exact follows_pure ((Ty.over_end rfl).2 trivial)
    | name name => exact (follows_inferName hs hc hsite he).imp fun _ _ _ _ _ h => h.1
    | call callee arguments => exact follows_inferCall hs hc hsite he (forall₂_same.2 fun child _ => hself child)
    | binary operator left right =>
      exact follows_inferBinary hc operator (hreads (by simp [children]) rfl)
        (hreads (by simp [children]) rfl)
    | unary operator operand => exact follows_inferUnary hc operator (hreads (by simp [children]) rfl)
    | assign assignee value => exact follows_inferAssign hs hc hsite he (hself value)
    | tuple elements =>
      have helements : hc.Pairs exempt (fun ask => elements.mapM
        fun element => ask (.exprType element useSite)) homes s fun types homes' _ =>
            ∀ type ∈ types, Belongs base settings homes' (base.enclosingFunction? useSite) type :=
        follows_mapM (fun hp h => h.mono hp) _ fun element hm _ _ _ => follows_ask hc (hreads hm rfl)
      exact helements.bind fun types _ _ _ _ htypes => follows_pure (Ty.over_tuple.2 htypes)
    | member value name =>
      refine (follows_ask hc (hreads (by simp [children]) rfl)).next fun type => ?_
      exact (follows_inferMember hs hc id type name).imp fun _ _ _ _ _ hg => (hg.everywhere _).belongs _
    | cond items success failure =>
      exact follows_inferCond hs hc hsite he (forall₂_same.2 fun item _ => .same item) (hself failure)
    | select subject cases => exact follows_inferSelect hs hc hsite he
    | existential witness traits => exact (hs.rooted.below (Tree.expr?_eq_some.1 he)).1.elim

lemma follows_infer (he : base.tree.HasExpr id) (hp : base.tree.Part id ∨ exempt id) :
    hc.Pairs exempt (infer · id useSite) homes s fun type homes' s' =>
      base.tree.HasExpr id ∧ Belongs base settings homes' (base.enclosingFunction? useSite) type ∧
        s'.exprTypes[id]? = some type := by
  refine of_inv fun h => read (grants_expr id) fun found hfound => ?_
  obtain ⟨kind, _⟩ := found
  obtain ⟨before, hbefore, hpatched⟩ := h.descends.exprKind hs.rooted he hfound
  have hkind : hc.Pairs exempt (inferKind · id useSite kind) homes s
      fun type homes' _ => Belongs base settings homes' (base.enclosingFunction? useSite) type ∧
      base.Agrees id type := by
    by_cases hname : ∃ name, before = .name name
    · obtain ⟨name, rfl⟩ := hname
      cases hpatched
      exact follows_inferName hs hc hsite hbefore
    · refine (follows_inferKind hs hc hsite hbefore hpatched).imp fun _ _ _ _ _ htype => ⟨htype, ?_⟩
      refine Program.agrees_of_kind fun name place hother => hname ⟨name, ?_⟩
      cases hbefore.symm.trans hother
      rfl
  refine hkind.bind fun type homes1 s1 _ _ ⟨htype, hagrees⟩ => ?_
  refine follows_modify_bind (fun h => h.setExpr ?_ (fun _ hpart hexempt => ?_) hagrees) (follows_pure ⟨he, htype, ?_⟩)
  · rw [Program.Surveyed.level_of_scopeOf hsite]
    exact htype
  · exact absurd hp (not_or.2 ⟨hpart, hexempt⟩)
  · rw [NodeMap.getElem?_insert, if_pos rfl]

end

end TraitLang.Check
