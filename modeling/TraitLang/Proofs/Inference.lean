import TraitLang.Proofs.Values

/-! Types of expressions, construct by construct. The type that is found for an expression is the
one that its rule gives, read with what is known of inference variables at the end, or else
something is wrong. -/
namespace TraitLang

open List Solver Ty TraitLang.Tree Bool BinaryOperator Nat

/-! ### Operators -/

lemma UnaryOperator.takes_unaryType (operator : UnaryOperator) : operator.Takes (Check.unaryType operator) := by
  cases operator with
  | neg => exact .negation
  | not => exact .complement

variable {operator : BinaryOperator} {left operand result type : Ty}

lemma BinaryOperator.takes_operatorTypes (h : Check.operatorTypes left operator = some (operand, result)) :
    operator.Takes operand result := by
  cases operator with
  | add =>
    simp only [Check.operatorTypes] at h
    split at h <;> cases h
    · exact .concatenation
    · exact .addition
  | sub | mul | div | rem => cases h; exact .arithmetic (by decide)
  | lt | le | gt | ge => cases h; exact .ordering (by decide)
  | and | or => cases h; exact .logic (by decide)
  | eq | ne => cases h

lemma UnaryOperator.Takes.known {operator : UnaryOperator} (h : operator.Takes type)
    (base : Program) (s : Check.State) : Check.Known base s type := by
  cases h <;> exact (over_end rfl).2 trivial

lemma UnaryOperator.Takes.resolve {operator : UnaryOperator} (h : operator.Takes type)
    (solver : Solver) : solver.resolve type = type := by
  cases h <;> exact resolveBy_leaf _ rfl (by simp)

lemma BinaryOperator.Takes.known (h : operator.Takes operand result) (base : Program)
    (s : Check.State) : Check.Known base s operand ∧ Check.Known base s result := by
  cases h <;> exact ⟨(over_end rfl).2 trivial, (over_end rfl).2 trivial⟩

lemma BinaryOperator.compares (h : Check.operatorTypes left operator = none) : operator ∈ [eq, ne] := by
  cases operator with
  | eq | ne => decide
  | _ => cases h

namespace Check

variable {base : Program} {root : Nat} {start s : State} {id : Nat} {type : Ty}

/-! ### What inference leads to -/

/-- What finding the type of an expression leads to, before it is recorded. -/
structure Inferred (base : Program) (start s : State) (id : Nat) (type : Ty) : Prop where
  step : Step base (.below base id) start s
  known : Known base s type
  blank : s.exprTypes[id]? = none
  isOpen : s.Open (base.tree.unit id)
  done : s.diagnostics = [] → type.spoiled = false → ∃ kind span, s.program.tree.expr? id = some ⟨kind, span⟩ ∧
    (s.typing base []).ExprRule True id (s.solver.resolve type) kind ∧
    (∀ child ∈ base.tree.children id, Cleared base [] s child) ∧ Meant base s id

variable {good : Prop} {kind : ExprKind} {span : Span} {done rest : List Nat}

lemma Midway.inferred (h : Midway base [] good start s id (.expr ⟨kind, span⟩) done [])
    (hb : base.tree.isBinding id = false) (hknown : Known base s type)
    (hrule : s.diagnostics = [] → type.spoiled = false → good ∧
      (s.typing base []).ExprRule True id (s.solver.resolve type) kind ∧ Meant base s id) :
    Inferred base start s id type := by
  refine ⟨h.below hb, hknown, h.blank, h.isOpen, fun hdiag hspoiled => ?_⟩
  obtain ⟨hgood, hrule, hmeant⟩ := hrule hdiag hspoiled
  refine ⟨kind, span, expr?_eq_some.2 h.current, hrule, fun child hc => ?_, hmeant⟩
  exact h.cleared hdiag hgood child (by simpa [h.children] using hc)

variable (hs : base.Surveyed root)

include hs

lemma Inferred.typed (h : Inferred base start s id type) (he : base.tree.HasExpr id) :
    Typed base start { s with exprTypes := s.exprTypes.insert id type } id type := by
  have hexpr := he.choose_spec
  have hid : id < base.tree.size := lt_size (expr?_eq_some.1 hexpr)
  obtain ⟨kind, hcurrent⟩ := h.step.inv.descends.exists_expr hexpr
  have hset := step_setExpr hs.rooted h.step.inv ⟨_, hcurrent⟩ hid h.known h.isOpen (.inl h.blank)
  have hunit := unit_of_not_binding (isBinding_of_expr he)
  have hrecorded : Records { s with exprTypes := s.exprTypes.insert id type } id type := by
    simp [Records, State.exprType?]
  refine ⟨h.step.trans (hset.weaken (.inr ⟨hunit, hs.rooted.first_le hid, le_rfl⟩)), h.known, hrecorded, ?_⟩
  intro hdiag hspoiled
  obtain ⟨kind, _, hkind, hrule, hchildren, hmeant⟩ := h.done hdiag hspoiled
  have hidem (stored : Ty) : resolveBy s.solver.bindings (s.solver.resolve stored) = s.solver.resolve stored :=
    (Solver.Refines.refl s.solver).resolve h.step.inv.lawful stored
  -- nothing else was recorded, so that the types of the parts stay
  have hkept {slot known} (hknown : s.exprType? slot = some known) :
      State.exprType? { s with exprTypes := s.exprTypes.insert id type } slot =
        some (resolveBy s.solver.bindings known) := by
    obtain ⟨stored, hstored, rfl⟩ := Option.map_eq_some_iff.1 hknown
    have hne : id ≠ slot := by
      rintro rfl
      simp [h.blank] at hstored
    rw [hidem]
    simp [State.exprType?, NodeMap.getElem?_insert, hne, hstored]
  refine .node hs.rooted hid ⟨_, expr?_eq_some.1 hkind, _, hrecorded, ?_⟩
    (hmeant.refine hset.evolves.generics s.solver.bindings fun _ _ _ => hkept) fun child hc => ?_
  · have hdecl (decl : Nat) (known : Ty) (hknown : s.declType? decl = some known) :
        s.declType? decl = some (resolveBy s.solver.bindings known) := by
      obtain ⟨stored, -, rfl⟩ := Option.map_eq_some_iff.1 hknown
      exact hknown.trans (congrArg some (hidem stored).symm)
    have hinstance (decl : Nat) (known : Ty) (hknown : s.Instance decl known) :
        s.Instance decl (resolveBy s.solver.bindings known) := by
      obtain ⟨signature, generics, substitution, hsignature, hgenerics, hadmits, rfl⟩ := hknown
      exact ⟨signature, generics, substitution, hsignature, hgenerics, hadmits, hidem _⟩
    have hprogram : (State.typing base [] { s with exprTypes := s.exprTypes.insert id type }).program =
        (s.typing base []).program := rfl
    have hafter : (State.typing base [] { s with exprTypes := s.exprTypes.insert id type }).ExprRule True id
        (resolveBy s.solver.bindings (s.solver.resolve type)) kind :=
      hrule.refine (.inl fun h => h) hprogram hkind (.inl fun h => h) (fun _ _ _ =>
        hkept) (fun _ _ _ hc => ⟨hc, fun _ => hkept⟩) hdecl hinstance
    rwa [hidem] at hafter
  · obtain ⟨-, hlt, -, -⟩ := hs.rooted.child hc
    refine (hchildren child hc).after hs.rooted h.step.inv.toCore hset.evolves (hlt.trans hid)
      (hs.rooted.owner_child hc ▸ h.isOpen) (.inr (.inr hlt))

lemma Ready.begin (h : Ready base s id) (he : base.tree.expr? id = some ⟨kind, span⟩) :
    Midway base [] True s s id (.expr ⟨kind, span⟩) [] kind.children ∧ kind.Fits base.tree ∧
      base.tree.isBinding id = false := by
  have hn := expr?_eq_some.1 he
  have hb := isBinding_of_expr ⟨_, he⟩
  have hmidway : Midway base [] True s s id (.expr ⟨kind, span⟩) [] (base.tree.children id) :=
    h.midway hs.rooted hn hb
  rw [children_of_node? hn] at hmidway
  exact ⟨hmidway, (hs.rooted.below hn).1, hb⟩

lemma Midway.expected {node child} (h : Midway base [] good start s id node done rest)
    (hc : child ∈ done) (he : base.tree.HasExpr child) {actual expected}
    (hr : Records s child actual) (h1 : Known base s actual) (h2 : Known base s expected) :
    Ensures (expectType child actual expected) s fun fits s' => Step base .nowhere s s' ∧
      Midway base [] good start s' id node done rest ∧ Records s' child actual ∧
      (fits = true → Holds s' child expected) ∧ (fits = false → s'.Faulty base) := by
  refine (ensures_expectType hs h.inv (h.child_lt_size hs.rooted hc) h1 h2).imp ?_
  rintro fits s' ⟨hstep, hfit, hbad⟩
  have hrecords := h.keeps_records hs.rooted hc he hstep.evolves (Region.not_hasNode_nowhere child) hr
  exact ⟨hstep, h.quiet hs.rooted hstep, hrecords, fun hf => hrecords.holds (hfit hf), fun hf => .inl (hbad hf)⟩

variable {depth : Nat} {ask : Answerer} (ha : Answers base depth ask)

include ha

variable {value callee assignee : Nat} {arguments : List ExprId}

/-! ### Parts of calls and assignments -/

omit ha in
lemma ensures_reportCall (hi : Inv base s) (hid : id < base.tree.size)
    (hcallee : callee < base.tree.size) (received : Nat) (hknown : Known base s type) :
    Ensures (reportCall id callee received type) s fun _ s' =>
      Step base .nowhere s s' ∧ s'.Faulty base := by
  have hreport {place} (hplace : place < base.tree.size) {problem} (hq : problem.isNonConforming = false) :
      Ensures (reportAt problem place) s fun _ s' => Step base .nowhere s s' ∧ s'.Faulty base := by
    refine (ensures_reportAt (hplace.trans_le hi.descends.size_le) hq).imp ?_
    rintro _ s' ⟨h, hdiag⟩
    exact ⟨h.step hs.rooted hi _, .inl hdiag⟩
  unfold reportCall
  split
  next =>
    split
    next => exact hreport hid rfl
    next => exact hreport hid rfl
  next => exact ensures_pure.2 ⟨.refl hi, (over_end rfl).1 hknown⟩
  next => exact hreport hcallee rfl

/-- The arguments of a call that is refused are checked all the same. -/
lemma ensures_refuse
    (hmidway : Midway base [] good start s id (.expr ⟨kind, span⟩) [callee] arguments)
    (hfits : ∀ id ∈ arguments, base.tree.HasExpr id) (hb : base.tree.isBinding id = false)
    (hf : s.Faulty base) (hafford : Affords base s (id + 1) depth) (useSite : ScopeId) :
    Ensures (arguments.forM fun argument => do
      let _ ← ask (.exprType argument useSite)) s fun _ s' => Inferred base start s' id .error := by
  refine (ensures_forM (I := fun processed s' => ∀ rest, arguments = processed ++ rest →
    Midway base [] False start s' id (.expr ⟨kind, span⟩) (callee :: processed) rest ∧
    s'.Faulty base ∧ Affords base s' (id + 1) depth) arguments ?_ ?_).imp fun _ s' hall => ?_
  · intro processed argument rest s1 harguments hi
    obtain ⟨hmidway1, hf1, hafford1⟩ := hi (argument :: rest) harguments
    refine (hmidway1.asked hs ha (hfits argument (by simp [harguments])) (lt_succ_self id) hafford1 useSite).bind
      fun type s2 ⟨h2, hmidway2, hafford2⟩ => ensures_pure.2 fun others hothers => ?_
    obtain rfl : rest = others := by simpa [harguments] using hothers
    exact ⟨hmidway2.imp False.elim, h2.step.evolves.faulty hf1, hafford2⟩
  · rintro rest rfl
    exact ⟨hmidway.imp False.elim, hf, hafford⟩
  · obtain ⟨hmidway', hf', -⟩ := hall [] (by simp)
    exact hmidway'.inferred hb (known_error hf') nofun

lemma ensures_checkArguments {all} (he : base.tree.expr? id = some ⟨.call callee all, span⟩)
    (hfits : ∀ argument ∈ all, base.tree.HasExpr argument) (useSite : ScopeId) :
    ∀ (arguments : List ExprId) {params processed slots s good low},
      all = processed ++ arguments → Forall₂ s.program.tree.Packs processed slots → Midway base
      [] good start s id (.expr ⟨.call callee (slots ++ arguments), span⟩) (callee :: processed)
      arguments → (∀ param ∈ params, Known base s param) → params.length = arguments.length →
      Affords base s (id + 1) depth → (∀ argument ∈ arguments, low ≤ base.tree.first argument) →
      Ensures (checkArguments ask id useSite processed.length arguments params) s fun sound s' =>
      ∃ more, Passed base [] good start s s' id (.since base id low)
        (.expr ⟨.call callee (slots ++ more), span⟩) (callee :: all)
        [] sound ∧ (s'.diagnostics = [] → sound = true → Forall₂ (Holds s') more params)
  | [], params, processed, slots, s, good, low, hall, _, hmidway, _, hlength, _, _ => by
    obtain rfl := length_eq_zero_iff.1 hlength
    obtain rfl : all = processed := by simpa using hall
    exact ensures_pure.2 ⟨[], ⟨hmidway.imp And.left, .refl hmidway.inv, by simp⟩, fun _ _ => .nil⟩
  | argument :: arguments, params, processed, slots, s, good, low, hall, hpacks, hmidway, hknown, hlength, hafford, hlow => by
    cases params with
    | nil => cases hlength
    | cons param params =>
      obtain ⟨hparam, hparams⟩ := forall_mem_cons.1 hknown
      have hargument := hfits argument (by simp [hall])
      have hslots := hpacks.length_eq
      obtain ⟨-, hlater⟩ := Underway.child_lt hs.rooted hmidway.children
      obtain ⟨-, -, hfirst, -⟩ := hs.rooted.child (show argument ∈ base.tree.children id by simp [hmidway.children])
      have hle := hlow argument mem_cons_self
      refine (hmidway.coerced hs ha hargument hparam (lt_succ_self id) hafford useSite .argument).bind ?_
      rintro ⟨slot, type⟩ s1 ⟨h1, hhanded, -⟩
      have hpacked : Forall₂ s1.program.tree.Packs all (slots ++ [slot] ++ arguments) := by
        rw [hall, append_cons]
        refine rel_append (rel_append ?_ (.cons h1.packs .nil)) (forall₂_same.2 fun _ _ => .inl rfl)
        exact hpacks.imp fun _ _ => h1.move.evolves.packs hs.rooted hmidway.inv.descends
      have h2 := hhanded.store hs h1.toSettled hargument (callee :: slots) arguments (expr?_eq_some.1 he)
        (.expr (.call hpacked)) rfl (by simp [Node.children, ExprKind.children])
      have hset : setArgument processed.length slot (.call callee (slots ++ argument :: arguments)) =
          some (.call callee (slots ++ [slot] ++ arguments)) := by simp [setArgument, setSlot, hslots]
      refine ensures_updateTree_bind (updateExpr_eq hhanded.current hset) ?_
      have hrest := ensures_checkArguments he hfits useSite arguments (by simp [hall])
        (rel_append (hpacks.imp fun _ _ => h2.move.evolves.packs hs.rooted hmidway.inv.descends)
        (.cons h2.packs .nil)) h2.midway (fun param hp =>
        (hparams param hp).mono h2.move.evolves.later) (by simpa using hlength)
        (hafford.evolves h2.move.evolves) hlater
      rw [length_append, length_singleton] at hrest
      refine hrest.bind ?_
      rintro rest s3 ⟨more, h3, hholds⟩
      have hall3 := Passed.trans ⟨h2.midway, h2.move.since hle, h2.bad⟩ ⟨h3.midway, h3.move.since (by omega), h3.bad⟩
      refine ensures_pure.2 ⟨slot :: more, by simpa using hall3, fun hdiag hgood => ?_⟩
      rw [and_eq_true] at hgood
      refine .cons ?_ (hholds hdiag hgood.2)
      exact h2.midway.keeps_holds hs.rooted (by simp) hargument h3.move.evolves
        (Region.not_hasNode_of_lt (lt_succ_self argument)) h2.packs
        (h2.holds (h3.move.evolves.diagnostics hdiag) hgood.1 _ rfl)

omit ha in
lemma ensures_checkAssignee (hi : Inv base s) (he : base.tree.HasExpr assignee)
    (useSite : ScopeId) : Ensures (checkAssignee assignee useSite) s fun assignable s' =>
    Step base .nowhere s s' ∧ (assignable = false → s'.diagnostics ≠ []) ∧
      (assignable = true → base.Assignable assignee) := by
  have hreport {problem} (hq : problem.isNonConforming = false) :
      Ensures (do reportAt problem assignee; return false) s fun assignable s' =>
      Step base .nowhere s s' ∧ (assignable = false → s'.diagnostics ≠ []) ∧
        (assignable = true → base.Assignable assignee) :=
    ensures_reportAt_bind hs.rooted hi (lt_size (expr?_eq_some.1 he.choose_spec))
      (fun s' h hdiag => ensures_pure.2 ⟨h, fun _ => hdiag, nofun⟩) hq
  obtain ⟨⟨kind, _⟩, hexpr⟩ := he
  obtain ⟨_, hcurrent, hpatched⟩ := hi.descends.exists_patched (expr?_eq_some.1 hexpr)
  cases hpatched with
  | @expr _ _ _ hpatched =>
  refine (ensures_expr (expr?_eq_some.2 hcurrent)).read ?_
  -- names and members have no slots
  cases hpatched with
  | same =>
    cases kind with
    | name name =>
      refine (ensures_lookupValue hs hi.descends ⟨_, hexpr⟩ name useSite).bind ?_
      rintro found s ⟨hfound, rfl⟩
      cases found with
      | none => exact ensures_pure.2 ⟨.refl hi, nofun, fun _ => .name hexpr fun found h => by simp [← hfound] at h⟩
      | some found =>
        obtain ⟨_, _, -, -, hdecls, -⟩ := valueNamed_spec hfound.symm
        refine ensures_get_bind.2 ((ensures_demand_bind hi.descends (forall_mem_cons.2
          ⟨(hs.mem_decls hdecls).2, fun binding hb => ?_⟩)).2 ?_)
        · obtain ⟨_, hstands⟩ := hs.stands_of_bindingOf (hi.descends.bindingOf_eq found ▸ Option.mem_toList.1 hb)
          exact hstands.isSome_decl? rfl
        simp only [ensures_get_bind, hi.descends.isAssignable_eq]
        cases hcan : isAssignable base found with
        | false => exact hreport rfl
        | true =>
          refine ensures_pure.2 ⟨.refl hi, nofun, fun _ => .name hexpr fun other hother => ?_⟩
          cases hfound.trans hother
          exact hs.isAssignable_iff.1 hcan
    | member value name => exact ensures_pure.2 ⟨.refl hi, nofun, fun _ => .member hexpr⟩
    | _ => exact hreport rfl
  | _ => exact hreport rfl

/-! ### Kinds of expressions -/

variable (hready : Ready base s id) (hafford : Affords base s (id + 1) depth) (useSite : ScopeId)

include hready hafford

lemma ensures_inferUnary
    {operator operand} (he : base.tree.expr? id = some ⟨.unary operator operand, span⟩) :
    Ensures (inferUnary ask operator operand useSite) s fun type s' =>
      Inferred base s s' id type := by
  obtain ⟨hmidway, hfits, hb⟩ := hready.begin hs he
  have htakes := operator.takes_unaryType
  refine (hmidway.asked hs ha hfits (lt_succ_self id) hafford useSite).bind ?_
  rintro type s1 ⟨h1, hmidway1, _⟩
  refine (hmidway1.expected hs (by simp) hfits h1.recorded h1.known (htakes.known base s1)).bind ?_
  rintro fits s2 ⟨h2, hmidway2, _, hfit, hbad⟩
  refine ensures_pure.2 (hmidway2.inferred hb (.ite_error (fun _ => htakes.known base s2)
    fun hwrong => ?_) fun hdiag hspoiled => ?_)
  · cases fits with
    | false => exact hbad rfl
    | true => exact h2.evolves.faulty (h1.known.faulty (by simpa using hwrong))
  · have hright := of_spoiled_ite hspoiled
    rw [if_pos hright, htakes.resolve]
    simp only [and_eq_true, not_eq_true'] at hright
    refine ⟨⟨trivial, not_spoiled hright.2⟩, ⟨htakes, ?_⟩, .plain he rfl⟩
    have hholds := hfit hright.1
    rwa [Holds, htakes.resolve] at hholds

lemma ensures_inferBinary
    {operator left right} (he : base.tree.expr? id = some ⟨.binary operator left right, span⟩) :
    Ensures (inferBinary ask operator left right useSite) s fun type s' =>
      Inferred base s s' id type := by
  obtain ⟨hmidway, ⟨hleft, hright⟩, hb⟩ := hready.begin hs he
  have hrank := lt_succ_self id
  refine (hmidway.asked hs ha hleft hrank hafford useSite).bind ?_
  rintro leftType s1 ⟨h1, hmidway1, hafford1⟩
  refine (hmidway1.asked hs ha hright hrank hafford1 useSite).bind ?_
  rintro rightType s2 ⟨h2, hmidway2, _⟩
  have hknown := h1.known.mono h2.step.evolves.later
  have hrecords : Records s2 left leftType := by
    refine hmidway1.keeps_records hs.rooted (by simp) hleft h2.step.evolves (Region.not_hasNode_of_lt ?_) h1.recorded
    exact (Underway.child_lt hs.rooted hmidway1.children).1 left (by simp)
  refine (ensures_resolve s2 leftType).read ?_
  split
  next operands _ htypes =>
    have htakes := takes_operatorTypes htypes
    refine (hmidway2.expected hs (by simp) hleft hrecords hknown (htakes.known base s2).1).bind ?_
    rintro leftFits s3 ⟨h3, hmidway3, _, hleftFit, hleftBad⟩
    have hrecords3 := hmidway2.keeps_records hs.rooted (by simp) hright h3.evolves
        (Region.not_hasNode_nowhere _) h2.recorded
    refine (hmidway3.expected hs (by simp) hright hrecords3 (h2.known.mono h3.evolves.later)
      (htakes.known base s3).1).bind ?_
    rintro rightFits s4 ⟨h4, hmidway4, _, hrightFit, hrightBad⟩
    refine (ensures_resolve s4 leftType).read ?_
    refine (ensures_resolve s4 rightType).read ?_
    have hlater := (h3.trans h4).evolves.later
    refine ensures_pure.2 (hmidway4.inferred hb (.ite_error (fun _ => (htakes.known base s4).2)
      fun hwrong => ?_) fun hdiag hspoiled => ?_)
    · have hleftKnown := (hknown.mono hlater).resolveBy h4.inv.solver
      have hrightKnown := (h2.known.mono hlater).resolveBy h4.inv.solver
      simp only [and_eq_true, not_and_or, not_eq_true, not_eq_false'] at hwrong
      rcases hwrong with (hl | hr) | hl | hr
      · exact h4.evolves.faulty (hleftBad hl)
      · exact hrightBad hr
      · exact hleftKnown.faulty hl
      · exact hrightKnown.faulty hr
    · have hgood := of_spoiled_ite hspoiled
      rw [if_pos hgood]
      simp only [and_eq_true, not_eq_true'] at hgood
      obtain ⟨⟨hleftGood, hrightGood⟩, hleftErrors, hrightErrors⟩ := hgood
      obtain ⟨hoperand, houtput⟩ := htakes.resolveBy s4.solver.bindings
      have hleftHolds := hmidway3.keeps_holds hs.rooted (by simp) hleft h4.evolves
        (Region.not_hasNode_nowhere left) (.inl rfl) (hleftFit hleftGood)
      have hrightHolds := hrightFit hrightGood
      rw [Holds, Solver.resolve, hoperand] at hleftHolds hrightHolds
      rw [Solver.resolve, houtput]
      refine ⟨⟨⟨trivial, not_spoiled_of_resolve (not_spoiled hleftErrors)⟩,
        not_spoiled_of_resolve (not_spoiled hrightErrors)⟩,
        .inl ⟨operands, htakes, hleftHolds, hrightHolds⟩, .plain he rfl⟩
  next htypes =>
    refine (hmidway2.expected hs (by simp) hright h2.recorded h2.known hknown).bind ?_
    rintro equal s3 ⟨h3, hmidway3, _, hfit, hbad⟩
    have hrecords3 := hmidway2.keeps_records hs.rooted (by simp) hleft h3.evolves
        (Region.not_hasNode_nowhere _) hrecords
    refine (ensures_resolve s3 leftType).read ?_
    have hbool : Known base s3 .bool := (over_end rfl).2 trivial
    refine ensures_pure.2 (hmidway3.inferred hb (.ite_error (fun _ => hbool) fun hwrong =>
      ?_) fun hdiag hspoiled => ?_)
    · have hleftKnown := (hknown.mono h3.evolves.later).resolveBy h3.inv.solver
      simp only [and_eq_true, not_and_or, not_eq_true, not_eq_false'] at hwrong
      rcases hwrong with (hl | hl) | hr
      · exact hbad hl
      · exact hleftKnown.faulty hl
      · exact h3.evolves.faulty (h2.known.faulty hr)
    · have hgood := of_spoiled_ite hspoiled
      rw [if_pos hgood]
      simp only [and_eq_true, not_eq_true'] at hgood
      obtain ⟨⟨hequal, hleftErrors⟩, hrightErrors⟩ := hgood
      refine ⟨⟨⟨trivial, not_spoiled_of_resolve (not_spoiled hleftErrors)⟩,
        not_spoiled hrightErrors⟩, .inr ⟨compares htypes, Solver.resolveBy_leaf _ rfl (by simp), _,
        hrecords3, hfit hequal⟩, .plain he rfl⟩

lemma ensures_inferTuple {elements} (he : base.tree.expr? id = some ⟨.tuple elements, span⟩) :
    Ensures (elements.mapM fun element => ask (.exprType element useSite)) s fun types s' =>
      Inferred base s s' id (.tuple types) := by
  obtain ⟨hmidway, hfits, hb⟩ := hready.begin hs he
  refine (ensures_mapM (I := fun processed types s' => ∀ rest, elements = processed ++ rest →
    Midway base [] (∀ type ∈ types, type.spoiled = false) s s' id (.expr ⟨.tuple elements, span⟩)
    processed rest ∧ (∀ type ∈ types, Known base s' type) ∧ Forall₂ (Records s') processed types ∧
      Affords base s' (id + 1) depth) elements ?_ ?_).imp fun types s' hall => ?_
  · intro processed element rest types s1 helements hi
    obtain ⟨hmidway1, hknown, hrecords, hafford1⟩ := hi (element :: rest) helements
    have helement := hfits element (by simp [helements])
    refine (hmidway1.asked hs ha helement (lt_succ_self id) hafford1 useSite).imp ?_
    rintro type s2 ⟨h2, hmidway2, hafford2⟩ others hothers
    obtain rfl : rest = others := by simpa [helements] using hothers
    refine ⟨hmidway2.imp fun h => ?_, ?_, ?_, hafford2⟩
    · grind
    · refine forall_mem_append.2 ⟨fun type ht => (hknown type ht).mono h2.step.evolves.later, ?_⟩
      exact forall_mem_singleton.2 h2.known
    · have hkept : Forall₂ (Records s2) processed types := by
        refine ((forall₂_and_left _ _).2 ⟨fun _ h => h, hrecords⟩).imp fun other type h => ?_
        refine hmidway1.keeps_records hs.rooted h.1 (hfits other (by simp [helements, h.1])) h2.step.evolves ?_ h.2
        exact Region.not_hasNode_of_lt ((Underway.child_lt hs.rooted hmidway1.children).1 other h.1)
      exact rel_append hkept (.cons h2.recorded .nil)
  · rintro rest rfl
    exact ⟨hmidway.imp fun _ => trivial, by simp, .nil, hafford⟩
  · obtain ⟨hmidway', hknown, hrecords, -⟩ := hall [] (by simp)
    refine hmidway'.inferred hb (over_tuple.2 hknown) fun hdiag hspoiled => ?_
    refine ⟨spoiled_tuple.1 hspoiled, ⟨_, resolveBy_tuple _ types, ?_⟩, .plain he rfl⟩
    exact forall₂_map_right_iff.2 hrecords

lemma ensures_inferMemberOf {name} (he : base.tree.expr? id = some ⟨.member value name, span⟩) :
    Ensures (do inferMember ask id (← ask (.exprType value useSite)) name) s fun type s' =>
      Inferred base s s' id type := by
  obtain ⟨hmidway, hfits, hb⟩ := hready.begin hs he
  refine (hmidway.asked hs ha hfits (lt_succ_self id) hafford useSite).bind ?_
  rintro type s1 ⟨h1, hmidway1, hafford1⟩
  refine (ensures_inferMember hs ha h1.step.inv hmidway.lt_size h1.known (hafford1.mono (by omega)) name).imp ?_
  rintro found s2 ⟨h2, hknown, hselected⟩
  have hrecords := hmidway1.keeps_records hs.rooted (by simp) hfits h2.evolves
      (Region.not_hasNode_nowhere _) h1.recorded
  refine (hmidway1.quiet hs.rooted h2).inferred hb hknown fun hdiag hspoiled => ?_
  obtain ⟨hgood, decl, hmember⟩ := hselected hdiag hspoiled
  have hlater : s2.Member base name (s2.solver.resolve type) decl := by
    rw [← h2.evolves.refines.resolve h1.step.inv.lawful]
    exact hmember.refine (fun hknown => hknown) s2.solver.bindings
  exact ⟨⟨trivial, not_spoiled_of_resolve hgood⟩, ⟨_, hrecords⟩, .ofMember he hrecords hlater⟩

lemma ensures_inferCall (he : base.tree.expr? id = some ⟨.call callee arguments, span⟩) :
    Ensures (inferCall ask id callee arguments useSite) s fun type s' =>
      Inferred base s s' id type := by
  obtain ⟨hmidway, ⟨hcallee, harguments⟩, hb⟩ := hready.begin hs he
  refine (hmidway.asked hs ha hcallee (lt_succ_self id) hafford useSite).bind ?_
  rintro calleeType s1 ⟨h1, hmidway1, hafford1⟩
  refine (ensures_resolve s1 calleeType).bind ?_
  rintro type s1 ⟨htype, rfl⟩
  have hknown : Known base s1 type := htype ▸ h1.known.resolveBy h1.step.inv.solver
  have hrefuse : Ensures (do
      reportCall id callee arguments.length type
      arguments.forM fun argument => do
        let _ ← ask (.exprType argument useSite)
      return .error) s1 fun type s' => Inferred base s s' id type := by
    have hsize := lt_size (expr?_eq_some.1 hcallee.choose_spec)
    refine (ensures_reportCall hs h1.step.inv hmidway.lt_size hsize arguments.length hknown).bind ?_
    rintro _ s2 ⟨h2, hf⟩
    exact (ensures_refuse hs ha (hmidway1.quiet hs.rooted h2) harguments hb hf
      (hafford1.evolves h2.evolves) useSite).bind fun _ s3 h3 => ensures_pure.2 h3
  cases type with
  | function params output =>
    dsimp only
    split
    next hlength =>
      obtain ⟨hparams, houtput : Known base s1 output⟩ := over_function.1 hknown
      obtain ⟨-, hlater⟩ := Underway.child_lt hs.rooted hmidway.children
      refine (ensures_checkArguments hs ha he harguments useSite arguments rfl .nil hmidway1 hparams
        hlength hafford1 hlater).bind fun sound s2 ⟨slots, h2, hholds⟩ => ensures_pure.2 ?_
      have hstep := h2.move
      refine h2.midway.inferred hb (.ite_error (fun _ => houtput.mono hstep.evolves.later)
        fun hwrong => ?_) fun hdiag hspoiled => ?_
      · exact h2.bad (by simpa using hwrong)
      · have hsound := of_spoiled_ite hspoiled
        rw [if_pos hsound]
        have hrecords := hmidway1.keeps_records hs.rooted (by simp) hcallee hstep.evolves
          (Region.not_hasNode_of_lt (lt_succ_self callee)) h1.recorded
        have hfunction : calleeType.spoiled = false := not_spoiled_of_resolve (by rw [← htype]; rfl)
        refine ⟨⟨⟨trivial, hfunction⟩, hsound⟩, ⟨params.map s2.solver.resolve, ?_, ?_⟩, .plain he rfl⟩
        · refine Eq.trans hrecords (congrArg some ?_)
          rw [← hstep.evolves.refines.resolve h1.step.inv.lawful, ← htype]
          exact resolveBy_function _ params output
        · exact forall₂_map_right_iff.2 (hholds hdiag hsound)
    next => exact hrefuse
  | _ => exact hrefuse

lemma ensures_inferAssign (he : base.tree.expr? id = some ⟨.assign assignee value, span⟩) :
    Ensures (inferAssign ask id assignee value useSite) s fun type s' =>
      Inferred base s s' id type := by
  obtain ⟨hmidway, ⟨hassignee, hvalue⟩, hb⟩ := hready.begin hs he
  have hrank := lt_succ_self id
  refine (ensures_checkAssignee hs hmidway.inv hassignee useSite).bind ?_
  rintro assignable s1 ⟨h1, hbad, hassignable⟩
  have hmidway1 := hmidway.quiet hs.rooted h1
  refine (hmidway1.asked hs ha hassignee hrank (hafford.evolves h1.evolves) useSite).bind ?_
  rintro target s2 ⟨h2, hmidway2, hafford2⟩
  refine (hmidway2.coerced hs ha hvalue h2.known hrank hafford2 useSite .value).bind ?_
  rintro ⟨slot, type⟩ s3 ⟨h3, hhanded, -⟩
  have h4 := hhanded.store hs h3.toSettled hvalue [assignee] [] (expr?_eq_some.1 he)
      (.expr (.assign h3.packs)) rfl rfl
  refine ensures_updateTree_bind (updateExpr_eq hhanded.current rfl) (ensures_pure.2 ?_)
  refine h4.midway.inferred hb (.ite_error (fun _ => over_tuple.2 (by simp)) fun hwrong =>
    ?_) fun hdiag hspoiled => ?_
  · simp only [and_eq_true, not_and_or, not_eq_true] at hwrong
    rcases hwrong with (hwrong | hwrong) | hwrong
    · exact h4.move.evolves.faulty (h2.step.evolves.faulty (.inl (hbad hwrong)))
    · exact h4.bad hwrong
    · exact h4.move.evolves.faulty (h2.known.faulty (by simpa using hwrong))
  · have hgood := of_spoiled_ite hspoiled
    rw [if_pos hgood]
    simp only [and_eq_true] at hgood
    obtain ⟨⟨hcan, hvalueGood⟩, htargetGood⟩ := hgood
    have hbefore := (Underway.child_lt hs.rooted hmidway2.children).1 assignee (by simp)
    have hrecords := hmidway2.keeps_records hs.rooted (by simp) hassignee h4.move.evolves
      (Region.not_hasNode_of_lt hbefore) h2.recorded
    exact ⟨⟨⟨trivial, not_spoiled (by simpa using htargetGood)⟩, hvalueGood⟩,
      ⟨by simp [Ty.unit, Solver.resolve, Solver.resolveBy_tuple], _, hrecords,
      h4.holds hdiag hvalueGood _ rfl⟩, .ofAssign he (hassignable hcan)⟩

end Check

end TraitLang
