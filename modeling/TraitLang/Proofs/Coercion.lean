import TraitLang.Proofs.Conforming
import TraitLang.Proofs.Progress

/-! Expressions against expected types. What is stored in the slot of an expression has the type
that is expected there, and if no such type can be had then that was reported. -/
namespace TraitLang.Check

open TraitLang.Tree Solver List

variable {base : Program} {root : Nat} (hs : base.Surveyed root) {s : State}

include hs

/-! ### Inference variables -/

lemma ensures_unify (hi : Inv base s) {first second} (h1 : Known base s first) (h2 : Known base s second) :
    Ensures (unify first second) s fun equal s' => Step base .nowhere s s' ∧
      (equal = true → (s'.solver.resolve first).Agree True (s'.solver.resolve second)) := by
  have h := unified_unify (traity_end (s.Faulty base) (· < s.solver.next)) hi.lawful
    (fun binding hb _ => (hi.solver binding hb).2) h1 h2
  have hbound := fun binding hb => (h.bound binding hb).elim (hi.solver binding) id
  exact ensures_modifyGet.2 ⟨step_solver hs.rooted hi h.refines h.lawful hbound, h.agree⟩

lemma ensures_fresh (hi : Inv base s) : Ensures fresh s fun type s' => Step base .nowhere s s' ∧ Known base s' type ∧
      ∃ id, type = .var id ∧ ∀ binding ∈ s'.solver.bindings, binding.1 ≠ id := by
  refine ensures_modifyGet.2 ⟨?_, (Ty.over_end rfl).2 (Nat.lt_succ_self _), _, rfl, fun binding hb => ?_⟩
  · exact step_solver hs.rooted hi ⟨Nat.le_succ _, [], rfl⟩ hi.lawful hi.solver
  · exact (hi.solver binding hb).1.ne

variable {id : Nat} {expected type : Ty} {types : List Ty} {s1 s2 : State}

lemma ensures_unify_unit (hi : Inv base s) (hk : Known base s (.var id))
    (hfree : ∀ binding ∈ s.solver.bindings, binding.1 ≠ id) : Ensures (unify (.var id) .unit) s
    fun _ s' => Step base .nowhere s s' ∧ s'.solver.resolve (.var id) = .unit := by
  obtain ⟨equal, s', hrun, hstep, -⟩ := ensures_unify hs hi hk (Ty.over_tuple.2 (by simp) : Known base s .unit)
  refine ⟨equal, s', hrun, hstep, ?_⟩
  obtain rfl : { s with solver := (s.solver.unify (.var id) .unit).2 } = s' := by cases hrun; rfl
  exact resolve_unify_unit hfree

omit hs in
lemma ensures_resolve (s : State) (type : Ty) :
    Ensures (resolve type) s fun answer s' => answer = s.solver.resolve type ∧ s' = s :=
  ⟨_, s, rfl, rfl, rfl⟩

lemma ensures_expectType (hi : Inv base s) (hid : id < s.program.tree.size) {actual}
    (h1 : Known base s actual) (h2 : Known base s expected) :
    Ensures (expectType id actual expected) s fun fits s' => Step base .nowhere s s' ∧
      (fits = true → (s'.solver.resolve actual).Agree True (s'.solver.resolve expected)) ∧
      (fits = false → s'.diagnostics ≠ []) := by
  refine (ensures_unify hs hi h1 h2).bind ?_
  rintro equal s1 ⟨hstep, hagree⟩
  cases equal with
  | true => exact ensures_pure.2 ⟨hstep, hagree, nofun⟩
  | false =>
    refine (ensures_resolve s1 expected).read ?_
    refine (ensures_resolve s1 actual).read ?_
    refine (ensures_reportAt (hid.trans_le hstep.evolves.size_le)).bind ?_
    rintro _ s2 ⟨h, hdiag⟩
    exact ensures_pure.2 ⟨hstep.trans (h.step hs.rooted hstep.inv _), nofun,
      fun _ => hdiag⟩

/-! ### Packing -/

omit hs in
/-- What the conformances of a product say about traits. -/
lemma supportFor_spec (conformances : List Conformance) : ∀ (traits : List DeclId) support,
    (supportFor conformances support traits = .sound →
      ∀ trait ∈ traits, trait ∈ conformances.map Conformance.trait) ∧
    (supportFor conformances support traits = .broken → support = .broken ∨
      ∃ conformance ∈ conformances, conformance.state = .invalid)
  | [], support => ⟨by simp, .inl⟩
  | trait :: traits, support => by
    unfold supportFor
    cases hfound : conformances.find? fun conformance => conformance.trait = trait with
    | none => simp
    | some conformance =>
      have hmem := mem_of_find?_eq_some hfound
      have htrait : conformance.trait = trait := by simpa using find?_some hfound
      have hhead : trait ∈ conformances.map Conformance.trait := mem_map.2 ⟨conformance, hmem, htrait⟩
      rw [Option.map_some]
      cases hstate : conformance.state with
      | realized => simp
      | checked =>
        obtain ⟨hsound, hbroken⟩ := supportFor_spec conformances traits support
        exact ⟨fun h => forall_mem_cons.2 ⟨hhead, hsound h⟩, hbroken⟩
      | invalid =>
        obtain ⟨hsound, -⟩ := supportFor_spec conformances traits .broken
        exact ⟨fun h => forall_mem_cons.2 ⟨hhead, hsound h⟩, fun _ => .inr ⟨conformance, hmem, hstate⟩⟩

lemma ensures_wrap (hi : Inv base s) (he : base.tree.HasExpr id) (useSite : ScopeId) :
    Ensures (wrap id (.existential types) useSite) s fun slot s' => ∃ expr scope,
      base.tree.expr? id = some expr ∧ base.scopeOf id = some scope ∧ slot = s.program.tree.size ∧
      s' = s.pack (.expr ⟨.existential id (Ty.traitDeclsAll types), expr.span⟩) scope (.existential types) := by
  obtain ⟨expr, hexpr⟩ := he
  obtain ⟨_, hcurrent⟩ := hi.descends.exists_expr hexpr
  refine (ensures_expr hcurrent).read ?_
  refine (ensures_scopeOr hs hi.descends (hs.rooted.lt_root_of_expr ⟨expr, hexpr⟩) useSite).bind ?_
  rintro scope s ⟨hscope, rfl⟩
  exact ⟨_, _, rfl, expr, scope, hexpr, hscope, rfl, rfl⟩

/-! ### Expected types -/

/-- What checking an expression leads to, for what stands around it. -/
structure Settled (base : Program) (s s' : State) (id : Nat) (expected : Option Ty)
    (checked : CheckedExpr) : Prop where
  move : Move base (.below base id) s s'
  loose : ∀ {other : Nat}, Loose base.tree s'.program.tree other →
    other = checked.expr ∨ Loose base.tree s.program.tree other
  known : Known base s' checked.type
  packs : s'.program.tree.Packs id checked.expr
  done : s'.diagnostics = [] → checked.type.hasErrors = false →
    Done base [] s' id ∧ ∀ type ∈ expected, Holds s' checked.expr type

/-- What checking an expression against a type leads to. -/
structure Coerced (base : Program) (s s' : State) (id : Nat) (expected : Ty) (slot : ExprId)
    (type : Ty) : Prop extends Settled base s s' id (some expected) ⟨slot, type⟩ where
  resolved : s'.solver.resolve type = type
  recorded : s'.exprType? slot = some (s'.solver.resolve type) ∨ slot = id ∧ type = .error
  packed : slot ≠ id → type.hasVars = false

omit hs in
lemma Coerced.error {s'} (hstep : Step base (.below base id) s s') (hf : s'.Faulty base)
    (expected : Ty) : Coerced base s s' id expected id .error where
  move := hstep.toMove
  loose := fun hl => .inr (hstep.loose hl)
  known := known_error hf
  resolved := resolve_error _
  packs := .inl rfl
  recorded := .inr ⟨rfl, rfl⟩
  packed := fun h => absurd rfl h
  done := fun _ h => by cases h

/-- What is known of the type of an expression stays when work is done elsewhere. -/
lemma Typed.later (h : Typed base s s1 id type) (he : base.tree.HasExpr id)
    (ho : s.Open (base.tree.owner id)) (hmove : Move base .nowhere s1 s2) :
    Records s2 id type ∧ (s2.diagnostics = [] → type.spoiled = false → Done base [] s2 id) := by
  have hid : id < base.tree.size := lt_size (expr?_eq_some.1 he.choose_spec)
  have hopen : s1.Open (base.tree.unit id) := by
    rw [unit_of_not_binding (isBinding_of_expr he)]
    exact h.step.evolves.openUnit ho
  have hsame : Same base s1 s2 id :=
    hmove.evolves.slot hs.rooted h.step.inv.descends hopen hid (Region.not_hasNode_nowhere id) (.inl rfl)
  refine ⟨h.recorded.evolves h.step.inv.toCore hmove.evolves hsame, fun hdiag hgood => ?_⟩
  exact (h.done (hmove.evolves.diagnostics hdiag) hgood).after hs.rooted h.step.inv.toCore
    hmove.evolves hid hopen (.inl (by decide))

lemma Typed.quiet (h : Typed base s s1 id type) (he : base.tree.HasExpr id) (ho : s.Open (base.tree.owner id))
    (hstep : Step base .nowhere s1 s2) : Typed base s s2 id type := by
  obtain ⟨hrecorded, hdone⟩ := h.later hs he ho hstep.toMove
  exact ⟨h.step.trans (hstep.anywhere _), h.known.mono hstep.evolves.later, hrecorded, hdone⟩

variable {depth : Nat} {ask : Answerer} (ha : Answers base depth ask)

include ha

lemma ensures_coerceProduct (hdepth : 0 < depth) (he : base.tree.HasExpr id)
    (ho : s.Open (base.tree.owner id)) (htyped : Typed base s s1 id type)
    {product name} (hproduct : s1.solver.resolve type = .product product name)
    (hexpected : s.solver.resolve expected = .existential types)
    (hknown : Known base s1 (.existential types)) (hl : Solver.Lawful s.solver.bindings)
    (useSite : ScopeId) : Ensures (coerceProduct ask id product (.product product name)
    (.existential types) useSite) s1 fun answer s' =>
      Coerced base s s' id expected answer.1 answer.2 := by
  have hdecl : base.tree.Declares DeclKind.isProduct product := by
    have := htyped.known.resolveBy htyped.step.inv.solver
    rw [← Solver.resolve, hproduct] at this
    exact (Ty.over_end rfl).1 this
  refine (ensures_checkConformances hs ha hdepth htyped.step.inv hdecl).bind ?_
  rintro _ s2 ⟨hstep, ⟨list, hlist⟩, _⟩
  have htyped2 := htyped.quiet hs he ho hstep
  have hinv := hstep.inv
  have hget : s2.conformances.getD product [] = list := by
    rw [Std.TreeMap.getD_eq_getD_getElem?, hlist, Option.getD_some]
  have hid : id < base.tree.size := lt_size (expr?_eq_some.1 he.choose_spec)
  simp only [ensures_get_bind, hget, Ty.traitDecls]
  obtain ⟨hsound, hbroken⟩ := supportFor_spec list (Ty.traitDeclsAll types) .sound
  split
  next =>
    refine ensures_reportAt_bind hs.rooted hinv hid fun s3 h hdiag => ?_
    exact ensures_pure.2 (.error (htyped2.step.trans h) (.inl hdiag) expected)
  next hsupport =>
    obtain ⟨_, hm, hinvalid⟩ := (hbroken hsupport).resolve_left (by simp)
    exact ensures_pure.2 (.error htyped2.step (.inl (hinv.reported hlist hm hinvalid)) expected)
  next hsupport =>
    refine (ensures_wrap hs hinv he useSite).bind ?_
    rintro slot s3 ⟨expr, scope, hexpr, hscope, rfl, rfl⟩
    refine ensures_pure.2 ?_
    have hproduct2 : s2.exprType? id = some (.product product name) := by
      rw [htyped2.recorded, ← hstep.evolves.refines.resolve htyped.step.inv.lawful, hproduct]
      exact congrArg some (Solver.resolveBy_leaf _ rfl (by simp))
    have hknown2 := hknown.mono hstep.evolves.later
    have hpack := move_pack hs.rooted hinv hexpr hscope hknown2 hproduct2 hlist (hsound hsupport)
    have hmove := htyped2.step.toMove.trans (hpack.anywhere _)
    obtain ⟨-, hdone⟩ := htyped2.later hs he ho hpack
    have htraits := Solver.resolveBy_traits s2.solver.bindings hknown2.isTrait
    have hrecorded : (s2.pack (.expr ⟨.existential id (Ty.traitDeclsAll types), expr.span⟩) scope
        (.existential types)).exprType? s2.program.tree.size = some (.existential types) := by
      refine (congrArg (Option.map s2.solver.resolve) NodeMap.getElem?_insert_self).trans (congrArg some htraits)
    refine ⟨⟨hmove, fun hl => (loose_pack hl).imp_right htyped2.step.loose, hknown2,
      .inr ⟨Ty.traitDeclsAll types, expr.span, ?_⟩, fun hdiag _ => ⟨hdone hdiag ?_, ?_⟩⟩, htraits,
      .inl (hrecorded.trans (congrArg some htraits.symm)), fun _ => ?_⟩
    · exact expr?_eq_some.2 ((node?_push _ _ _).trans (if_pos rfl))
    · exact Ty.not_spoiled_of_resolve (by rw [hproduct]; rfl)
    · rintro _ ⟨⟩
      refine ⟨.existential types, hrecorded, ?_⟩
      rw [← hmove.evolves.refines.resolve hl, hexpected, Solver.resolve, Solver.resolveBy_traits _ hknown2.isTrait]
      exact .same _
    · have hplain : Plain base s2 (.existential types) := by simpa only [Plain, Known, Ty.Over, End] using hknown2
      exact hplain.hasVars

lemma ensures_coerce (hready : Ready base s id) (he : base.tree.HasExpr id) (hexpected : Known base s expected)
    (hafford : Affords base s (id + 2) depth) (useSite : ScopeId) (role : Role) :
    Ensures (coerce ask id expected useSite role) s fun answer s' =>
      Coerced base s s' id expected answer.1 answer.2 := by
  have hdepth : 0 < depth := by unfold Affords at hafford; omega
  have hid : id < base.tree.size := lt_size (expr?_eq_some.1 he.choose_spec)
  have hl := hready.inv.lawful
  have hknown : Known base s (s.solver.resolve expected) := hexpected.resolveBy hready.inv.solver
  refine (ensures_resolve s expected).read ?_
  refine (ha.expr useSite hready he hafford).bind fun type s1 htyped => ?_
  have hinv := htyped.step.inv
  have hlater := htyped.step.evolves.later
  split
  next herror =>
    rw [herror] at hknown
    exact ensures_pure.2 (.error htyped.step (hlater.faulty ((Ty.over_end rfl).1 hknown)) expected)
  next =>
    refine (ensures_resolve s1 type).read ?_
    split
    next _ _ _ hproduct htypes =>
      rw [hproduct, htypes]
      exact ensures_coerceProduct hs ha hdepth he hready.isOpen htyped hproduct htypes
        (htypes ▸ hknown.mono hlater) hl useSite
    next =>
      refine (ensures_unify hs hinv htyped.known (hknown.mono hlater)).bind ?_
      rintro equal s2 ⟨hstep, hagree⟩
      have htyped2 := htyped.quiet hs he hready.isOpen hstep
      cases equal with
      | true =>
        have hrecorded : s2.exprType? id = some (s2.solver.resolve (s2.solver.resolve type)) := by
          rw [htyped2.recorded, (Solver.Refines.refl _).resolve hstep.inv.lawful]
        have hresolved := (Solver.Refines.refl s2.solver).resolve hstep.inv.lawful type
        refine ensures_pure.2 ⟨⟨htyped2.step.toMove, fun hl => .inr (htyped2.step.loose hl),
          htyped2.known.resolveBy hstep.inv.solver, .inl rfl, fun hdiag hgood => ⟨?_, ?_⟩⟩,
          hresolved, .inl hrecorded, fun h => absurd rfl h⟩
        · exact htyped2.done hdiag (Ty.not_spoiled_of_resolve (Ty.not_spoiled hgood))
        rintro _ ⟨⟩
        refine ⟨_, htyped2.recorded, ?_⟩
        rw [← htyped2.step.evolves.refines.resolve hl expected]
        exact hagree rfl
      | false =>
        refine ensures_reportAt_bind hs.rooted hstep.inv hid (fun s3 h hdiag => ?_) (by cases role <;> rfl)
        exact ensures_pure.2 (.error (htyped2.step.trans h) (.inl hdiag) expected)

/-! ### The next child of a node -/

section

variable {start : State} {records : List ReturnRecord} {good : Prop} {id child rank : Nat}
  {node : Node} {done rest ahead : List Nat}

omit ha in
lemma Underway.nextExpr
    {s'} {good' : Prop} (h : Underway base records good start s id node done (child :: rest) ahead)
    (he : base.tree.HasExpr child) (hmove : Move base (.below base child) s s')
    (hdone : s'.diagnostics = [] → good' → good ∧ Done base [] s' child) :
    Underway base records good' start s' id node (done ++ [child]) rest ahead := by
  refine h.next hs.rooted ?_ (fun hdiag hgood => ⟨(hdone hdiag hgood).1, fun _ => ?_, fun hb => ?_⟩)
    (accounted_of_inner hs.rooted (.inl he)) hmove
  · rintro ⟨decl, hd, -⟩
    exact absurd he (decl_only hd).1
  · exact (hdone hdiag hgood).2.records_subset (nil_subset _)
  · simp [isBinding_of_expr he] at hb

lemma Midway.asked (h : Midway base records good start s id node done (child :: rest))
    (he : base.tree.HasExpr child) (hrank : id < rank) (hafford : Affords base s rank depth) (useSite : ScopeId) :
    Ensures (ask (.exprType child useSite)) s fun type s' => Typed base s s' child type ∧
      Midway base records (good ∧ type.spoiled = false) start s' id node (done ++ [child]) rest ∧
      Affords base s' rank depth := by
  have hlt := (hs.rooted.child (show child ∈ base.tree.children id by simp [h.children])).2.1
  refine (ha.expr useSite (h.ready hs.rooted) he (hafford.mono (by omega))).imp fun type s' htyped => ?_
  refine ⟨htyped, ⟨h.nextExpr hs he htyped.step.toMove fun hdiag hgood => ⟨hgood.1, htyped.done hdiag hgood.2⟩,
    fun hl => h.loose (htyped.step.loose hl)⟩, hafford.evolves htyped.step.evolves⟩

lemma Midway.coerced (h : Midway base records good start s id node done (child :: rest) ahead)
    (he : base.tree.HasExpr child) {expected} (hexpected : Known base s expected)
    (hrank : id < rank) (hafford : Affords base s rank depth) (useSite : ScopeId) (role : Role) :
    Ensures (coerce ask child expected useSite role) s fun answer s' =>
      Coerced base s s' child expected answer.1 answer.2 ∧
      Handed base records (good ∧ answer.2.hasErrors = false) start s' id node
      (done ++ [child]) rest answer.1 ahead ∧
      Affords base s' rank depth := by
  have hlt := (hs.rooted.child (show child ∈ base.tree.children id by simp [h.layout])).2.1
  refine (ensures_coerce hs ha (h.ready hs.rooted) he hexpected (hafford.mono (by omega)) useSite role).imp ?_
  rintro ⟨slot, type⟩ s' hcoerced
  refine ⟨hcoerced, ⟨h.nextExpr hs he hcoerced.move fun hdiag hgood => ⟨hgood.1, (hcoerced.done hdiag hgood.2).1⟩,
    fun hl => (hcoerced.loose hl).imp_right h.loose⟩, hafford.evolves hcoerced.move.evolves⟩

end

/-! ### Expressions in statements and bindings -/

omit ha in
lemma Settled.retype {expected slot final} (h : Settled base s s1 id expected ⟨slot, final⟩)
    (he : base.tree.HasExpr id) (ho : s.Open (base.tree.owner id))
    (hfinal : s1.exprType? slot = some (s1.solver.resolve final) ∨ slot = id ∧ final = .error) :
    Settled base s { s1 with exprTypes := s1.exprTypes.insert slot final } id expected ⟨slot, final⟩ := by
  have hexpr := he.choose_spec
  have hid : id < base.tree.size := lt_size (expr?_eq_some.1 hexpr)
  have hinv := h.move.inv
  have hopen : s1.Open (base.tree.unit id) := by
    rw [unit_of_not_binding (isBinding_of_expr he)]
    exact h.move.evolves.openUnit ho
  rcases hfinal with hrecorded | ⟨rfl, rfl⟩
  · have hretype := step_retype hs.rooted hinv h.known hrecorded
    refine ⟨h.move.trans (hretype.toMove.anywhere _), h.loose, h.known, h.packs, fun hdiag hgood => ?_⟩
    obtain ⟨hd, hholds⟩ := h.done hdiag hgood
    refine ⟨hd.after hs.rooted hinv.toCore hretype.evolves hid hopen (.inl (by decide)), fun type ht => ?_⟩
    exact (hholds type ht).evolves hinv.toCore hretype.evolves (hretype.evolves.slot hs.rooted
      hinv.descends hopen hid (Region.not_hasNode_nowhere id) h.packs)
  · obtain ⟨_, hcurrent⟩ := hinv.descends.exists_expr hexpr
    have hset := step_setExpr hs.rooted hinv ⟨_, hcurrent⟩ hid h.known hopen (.inr ((Ty.over_end rfl).1 h.known))
    refine ⟨h.move.trans (hset.toMove.weaken (.inr ⟨?_, hs.rooted.first_le hid, le_rfl⟩)), h.loose,
      h.known, h.packs, fun _ h => by cases h⟩
    exact unit_of_not_binding (isBinding_of_expr he)

lemma ensures_checkExpr (hready : Ready base s id) (he : base.tree.HasExpr id) {expected}
    (hexpected : ∀ type ∈ expected, Known base s type) (hafford : Affords base s (id + 2) depth) (useSite : ScopeId)
    (policy : FreePolicy) : Ensures (checkExpr ask id expected useSite policy) s fun checked s' =>
      Settled base s s' id expected checked := by
  have hid : id < base.tree.size := lt_size (expr?_eq_some.1 he.choose_spec)
  -- what is left to do once the slot and its type are known
  have hfinish {slot type s1} (h : Settled base s s1 id expected ⟨slot, s1.solver.resolve type⟩)
      (hrecorded : s1.exprType? slot = some (s1.solver.resolve type) ∨ slot = id ∧ type = .error)
      (hvars : slot ≠ id → type.hasVars = false) : Ensures (keepType slot type policy) s1
      fun checked s' => Settled base s s' id expected checked := by
    have hinv := h.move.inv
    refine (ensures_resolve s1 type).read ?_
    split
    next hambiguous =>
      have hslot : slot = id := by grind [Solver.resolve, resolveBy_of_not_hasVars]
      subst hslot
      refine ensures_reportAt_bind hs.rooted hinv hid fun s2 hreported hdiag => ?_
      have hreported : Step base (.below base slot) s1 s2 := hreported
      have herror : Settled base s s2 slot expected ⟨slot, .error⟩ :=
        ⟨h.move.trans hreported.toMove, fun hl => h.loose (hreported.loose hl),
          known_error (.inl hdiag), .inl rfl, fun hd => absurd hd hdiag⟩
      exact ensures_pure.2 (herror.retype hs he hready.isOpen (.inr ⟨rfl, rfl⟩))
    next =>
      have hresolved := (Solver.Refines.refl s1.solver).resolve hinv.lawful type
      refine ensures_pure.2 (h.retype hs he hready.isOpen (hrecorded.imp (fun hr => hresolved.symm ▸ hr) ?_))
      rintro ⟨hslot, rfl⟩
      exact ⟨hslot, Solver.resolve_error _⟩
  rw [checkExpr_eq]
  cases expected with
  | some expected =>
    refine (ensures_coerce hs ha hready he (hexpected expected rfl) hafford useSite .value).bind ?_
    rintro ⟨slot, type⟩ s1 h
    exact hfinish (h.resolved.symm ▸ h.toSettled) h.recorded h.packed
  | none =>
    rw [bind_assoc]
    refine (ha.expr useSite hready he hafford).bind fun type s1 h => ?_
    refine hfinish ⟨h.step.toMove, fun hl => .inr (h.step.loose hl), h.known.resolveBy h.step.inv.solver, .inl rfl,
      fun hdiag hgood => ⟨?_, by simp⟩⟩ (.inl h.recorded) fun hne => absurd rfl hne
    exact h.done hdiag (Ty.not_spoiled_of_resolve (Ty.not_spoiled hgood))

/-! ### Slots -/

/-- A child was checked, and what stands for it was written to its slot. -/
structure Stored (base : Program) (records : List ReturnRecord) (good : Prop) (start s s' : State)
    (id : Nat) (node : Node) (done rest : List Nat) (child slot : Nat) (expected : Option Ty)
    (sound : Bool) : Prop extends Passed base records good start s s' id (.since base id
    (base.tree.first child)) node (done ++ [child]) rest sound where
  packs : s'.program.tree.Packs child slot
  holds : s'.diagnostics = [] → sound = true → ∀ type ∈ expected, Holds s' slot type

section

variable {start s1 : State} {records : List ReturnRecord} {good : Prop} {id child : Nat}
  {node : Node} {done rest : List Nat} {expected : Option Ty} {checked : CheckedExpr}
  (hsettled : Settled base s s1 child expected checked) (he : base.tree.HasExpr child)

include hsettled he

omit ha

lemma Handed.store {before after} (front back : List NodeId) (h : Handed base records
    (good ∧ checked.type.hasErrors = false) start s1 id node (done ++ [child]) rest checked.expr)
    (hb : base.tree.node? id = some before) (hp : before.Patched s1.program.tree.Packs after)
    (hfront : node.children = front ++ child :: back)
    (hback : after.children = front ++ checked.expr :: back) : Stored base records good start s
    (s1.put id after) id after done rest child checked.expr expected (!checked.type.hasErrors) := by
  have hchild : child ∈ base.tree.children id := by simp [h.children]
  obtain ⟨-, hlt, hfirst, -⟩ := hs.rooted.child hchild
  obtain ⟨hmove, hmidway⟩ := h.patch hs.rooted hb hp hchild hfront hback
  refine ⟨⟨hmidway.imp fun hgood => ⟨hgood.1, by simpa using hgood.2⟩,
    (hsettled.move.ofChild hs.rooted hchild le_rfl).trans (hmove.ofSelf (hfirst.trans hlt.le)),
    fun hwrong => hmove.evolves.faulty (hsettled.known.faulty (by simpa using hwrong))⟩,
    hmove.evolves.packs hs.rooted hsettled.move.inv.descends hsettled.packs, fun hdiag hgood type ht => ?_⟩
  exact h.keeps_holds hs.rooted (by simp) he hmove.evolves (Region.not_hasNode_of_lt hlt) hsettled.packs
    ((hsettled.done (hmove.evolves.diagnostics hdiag) (by simpa using hgood)).2 type ht)

end

end TraitLang.Check
