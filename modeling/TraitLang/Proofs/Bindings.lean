import TraitLang.Proofs.Patterns

/-! Bindings, and the types of declarations. A binding is checked as a unit of its own when someone
first asks for it: while that goes on it is in progress, and afterwards it has a type, and so have
the variables of its pattern. -/
namespace TraitLang.Check

open TraitLang.Tree NodeMap List

/-! ### From untouched to typed -/

def State.enter (s : State) (binding : DeclId) : State :=
  { s with inProgress := binding :: s.inProgress }

def State.leave (s : State) (binding : DeclId) (type : Ty) : State :=
  { s with inProgress := s.inProgress.erase binding, declTypes := s.declTypes.insert binding type }

section

variable {base : Program} {root : Nat} (hr : base.tree.Rooted root) {s s' : State} {id : Nat}

/-! What bindings are in progress is no part of what was recorded about nodes. -/

variable {region : Region} {node : Node}

lemma FreshIn.progress (h : FreshIn base region s) (inProgress : List DeclId) : FreshIn base region
    { s with inProgress } :=
  { h with node := fun other ho => { h.node other ho with } }

lemma Done.progress {records top} (h : Done base records s top)
    (inProgress : List DeclId) : Done base records { s with inProgress } top :=
  fun other hi hu => { h other hi hu with meant := (h other hi hu).meant.congr rfl rfl }

lemma Inv.enter (hi : Inv base s) (hu : s.Untouched id) : Inv base (s.enter id) :=
  { hi with
    untouched := fun hb hub => (hi.untouched hb ⟨hub.1, fun hm => hub.2 (mem_cons_of_mem _ hm)⟩).progress _
    typed := fun {binding type} hb ht => by
      obtain ⟨hnot, hvars, hdone⟩ := hi.typed hb ht
      refine ⟨fun hm => ?_, hvars, fun hdiag hgood => (hdone hdiag hgood).progress _⟩
      rcases mem_cons.1 hm with rfl | hm
      · have ht : s.declTypes[binding]? = some type := ht
        simp [hu.1] at ht
      · exact hnot hm
    conformances := fun h => (hi.conformances h).congr (s.enter id) rfl
    packed := fun h => { hi.packed h with } }

lemma Context.enter (h : Context base s id) (binding : Nat) :
    Context base (s.enter binding) id := by
  intro case node hc hin
  obtain ⟨ho, hvars⟩ := h case node hc hin
  exact ⟨fun other hother => mem_cons_of_mem _ (ho other hother), hvars⟩

include hr in
lemma Inv.midway_enter (hi : Inv base s) (hb : base.tree.isBinding id) (hu : s.Untouched id)
    (hn : base.tree.node? id = some node) (hcontext : Context base s id) :
    Midway base [] True (s.enter id) (s.enter id) id node [] (base.tree.children id) := by
  have hunit := unit_of_binding hb
  refine (hi.enter hu).midway hr hn ?_ ?_ (hcontext.enter id)
  · exact ((hi.untouched hb hu).progress _).within (.inr ⟨hunit, le_rfl, le_rfl⟩)
  · intro binding heq
    cases hunit.symm.trans heq
    exact mem_cons_self

lemma ne_of_isBinding (hb : base.tree.isBinding id) (other : Nat)
    (hv : base.tree.Declares DeclKind.isVar other) : id ≠ other := by
  rintro rfl
  simp [isBinding_of_declares hv fun _ => rfl] at hb

/-- Work on a binding, from the outside: nodes of its unit were checked, and others stay. -/
lemma Evolves.leave (he : Evolves base region (s.enter id) s') (hregion : region.unit = some id)
    (hb : base.tree.isBinding id) (hu : s.Untouched id) (type : Ty) :
    Evolves base .nowhere s (s'.leave id type) := by
  have hsame {other} (h : Same base (s.enter id) s' other) : Same base s (s'.leave id type) other :=
    ⟨h.node_eq, h.expr_eq, fun hv => (getElem?_insert_of_ne (ne_of_isBinding hb other hv)).trans (h.var_eq hv)⟩
  have hentered {unit} (h : Entered (s.enter id) s' unit) : Entered s (s'.leave id type) unit := by
    obtain ⟨binding, rfl, hun, ht⟩ := h
    exact ⟨binding, rfl, ⟨hun.1, fun hm => hun.2 (mem_cons_of_mem _ hm)⟩, isSome_insert ht⟩
  have hown : Entered s (s'.leave id type) region.unit :=
    ⟨id, hregion, hu, Option.isSome_iff_exists.2 ⟨type, getElem?_insert_self⟩⟩
  exact { he with
    inProgress_eq := by
      show s'.inProgress.erase id = s.inProgress
      rw [he.inProgress_eq]
      exact erase_cons_head id s.inProgress
    declTypes := fun {other known} h => by
      refine (getElem?_insert_of_ne ?_).trans (he.declTypes h)
      rintro rfl
      simp [hu.1] at h
    added := fun other hge hlt => hsame (he.added other hge hlt)
    nodes := fun other hlt => by
      rcases he.nodes other hlt with ⟨hunit, -⟩ | hent | h
      · exact .inr (.inl (hunit ▸ hown))
      · exact .inr (.inl (hentered hent))
      · exact .inr (.inr (hsame h))
    judged := fun other hlt => by
      rcases he.judged other hlt with ⟨hunit, -⟩ | hent | h
      · exact .inr (.inl (hunit ▸ hown))
      · exact .inr (.inl (hentered hent))
      · exact .inr (.inr h) }

include hr in
lemma Midway.leave {good : Prop}
    {decl span ahead} (h : Midway base [] good (s.enter id) s' id node decl.pattern.nodes [] ahead)
    (hd : base.tree.decl? id = some ⟨.binding decl, span⟩) (hu : s.Untouched id)
    {type} (hk : Known base s' type) (hdone : s'.diagnostics = [] → type.hasErrors = false → good ∧
    ((s'.leave id type).typing base []).Rule True id) :
    Step base .nowhere s (s'.leave id type) := by
  have hb : base.tree.isBinding id := isBinding_iff.2 ⟨_, hd, rfl⟩
  have hevolves := h.move.evolves.leave (unit_of_binding hb) hb hu type
  have hkept {other} (hne : id ≠ other) : (s'.declTypes.insert id type)[other]? = s'.declTypes[other]? :=
    getElem?_insert_of_ne hne
  have hnot := ne_of_isBinding hb
  have hnone : s'.declTypes[id]? = none := by
    cases ht : s'.declTypes[id]? with
    | none => rfl
    | some known =>
      refine absurd ?_ (h.inv.typed hb ht).1
      rw [h.move.evolves.inProgress_eq]
      exact mem_cons_self
  -- recording the type is a step of its own, but only with the binding out of progress is the state
  -- good
  have hinsert : Evolves base .nowhere s' { s' with declTypes := s'.declTypes.insert id type } :=
    { Evolves.refl base .nowhere s' with
      declTypes := insert_mono hnone
      added := fun other _ _ => ⟨rfl, rfl, fun hv => hkept (hnot other hv)⟩
      nodes := fun other _ => .inr (.inr ⟨rfl, rfl, fun hv => hkept (hnot other hv)⟩)
      judged := fun _ _ => .inr (.inr ⟨rfl, rfl⟩) }
  have hprogress : s'.inProgress = id :: s.inProgress := h.move.evolves.inProgress_eq
  have herase : (s'.leave id type).inProgress = s.inProgress := hevolves.inProgress_eq
  refine ⟨⟨hevolves, h.move.conformances, ?_⟩, h.loose⟩
  refine ⟨⟨{ h.inv.toTables.insertDecl hk fun hp => ?_ with },
    fun {binding} hbinding hub => ?_, fun {binding known} hbinding hw => ?_⟩,
    fun hl => (h.inv.conformances hl).congr (s'.leave id type) rfl, fun he => ?_, h.inv.balanced⟩
  · simp [isBinding_of_declares hp fun _ => rfl] at hb
  · have hne : id ≠ binding := by
      rintro rfl
      exact Option.some_ne_none _ (getElem?_insert_self.symm.trans hub.1)
    have huntouched : s'.Untouched binding := by
      refine ⟨(hkept hne).symm.trans hub.1, fun hm => hub.2 ?_⟩
      rw [hprogress] at hm
      rw [herase]
      exact (mem_cons.1 hm).resolve_left (Ne.symm hne)
    have hfresh := h.inv.untouched hbinding huntouched
    exact { hfresh with node := fun other ho => { hfresh.node other ho with
      var_eq := fun hv => (hkept (hnot other hv)).trans ((hfresh.node other ho).var_eq hv) } }
  · rw [herase]
    have hw : (s'.declTypes.insert id type)[binding]? = some known := hw
    rw [getElem?_insert] at hw
    split at hw
    next heq =>
      cases hw
      subst heq
      refine ⟨hu.2, fun decl' span' hd' var hv => ?_, fun hdiag hgood => ?_⟩
      · cases hd.symm.trans hd'
        have hvar := (hr.below (decl?_eq_some.1 hd)).1.1.1 var hv
        exact hinsert.isSome_declTypes (h.typed var ((Pattern.mem_nodes_iff _).2 (.inl hv)) hvar)
      · obtain ⟨hgood, hrule⟩ := hdone hdiag hgood
        refine Done.node hr h.lt_size hrule (.other (decl?_eq_some.1 hd) (by simp)) fun child hc => ?_
        have hlt := (hr.child hc).2.1.trans h.lt_size
        obtain ⟨hdone, hknown⟩ := (h.cleared hdiag hgood child (by simpa [h.layout] using hc)).after hr h.inv.toCore
          hinsert hlt (hr.owner_child hc ▸ h.isOpen) (.inl (by decide))
        exact ⟨fun hb => (hdone hb).progress _, hknown⟩
    next _ =>
      obtain ⟨hout, hvars, hdone⟩ := h.inv.typed hbinding hw
      rw [hprogress, mem_cons, not_or] at hout
      refine ⟨hout.2, fun decl' span' hd' var hv => hinsert.isSome_declTypes
        (hvars decl' span' hd' var hv), fun hdiag hgood => ?_⟩
      refine Done.progress ((hdone hdiag hgood).evolves hr h.inv.toCore hinsert
        (isBinding_iff.1 hbinding).lt_size fun other _ _ => ?_) _
      exact ⟨rfl, rfl, fun hv => hkept (hnot other hv)⟩
  · have hp := h.inv.packed he
    exact { hp with }

end

/-! ### Initializers -/

lemma Handed.patchInitializer {base root}
    (hr : base.tree.Rooted root) {good : Prop} {start s} {id child slot decl span done rest ahead}
    (h : Handed base [] good start s id (.decl ⟨.binding decl, span⟩) done rest slot ahead)
    (hd : base.tree.decl? id = some ⟨.binding decl, span⟩) (hinit : decl.initializer = some child)
    (hp : s.program.tree.Packs child slot) : Move base (.single base id)
    s (s.put id (.decl ⟨.binding { decl with initializer := some slot }, span⟩)) ∧ Midway base
      [] good start (s.put id (.decl ⟨.binding { decl with initializer := some slot }, span⟩)) id
        (.decl ⟨.binding { decl with initializer := some slot }, span⟩) done rest ahead := by
  have hn := decl?_eq_some.1 hd
  have hfront : (Node.decl ⟨.binding decl, span⟩).children = decl.pattern.nodes ++ child :: [] := by
    simp [Node.children, DeclKind.children, hinit]
  exact h.patch hr hn (.binding hinit hp) (by simp [children_of_node? hn, hfront]) hfront rfl

section

variable {base : Program} {root : Nat} (hs : base.Surveyed root) {start s : State} {id : Nat}
  {decl : BindingDecl} {span : Span} {depth : Nat} {ask : Answerer} (ha : Answers base depth ask)

include hs ha

lemma ensures_checkInitializer {initializer expected}
    (h : Midway base [] True start s id (.decl ⟨.binding decl, span⟩) []
    (decl.pattern.nodes ++ [initializer])) (hd : base.tree.decl? id = some ⟨.binding decl, span⟩)
    (hinit : decl.initializer = some initializer) (hexpected : ∀ type ∈ expected, Known base s type)
    (hafford : Affords base s (id + 1) depth) (scope : ScopeId) :
    Ensures (checkInitializer ask id initializer expected scope) s fun type s' =>
    ∃ slot, Midway base [] (type.hasErrors = false)
      start s' id (.decl ⟨.binding { decl with initializer := some slot }, span⟩)
      [] decl.pattern.nodes [initializer] ∧ Move base (.since base id (base.tree.first id)) s s' ∧
        Known base s' type ∧ s'.program.tree.Packs initializer slot ∧
      (s'.diagnostics = [] → type.hasErrors = false → ∀ type ∈ expected, Holds s' slot type) := by
  have hn := decl?_eq_some.1 hd
  have hchild : initializer ∈ base.tree.children id := by simp [h.children]
  obtain ⟨hsize, hlt, -, hfirst⟩ := hs.rooted.child hchild
  have he : base.tree.HasExpr initializer := (hs.rooted.below hn).1.2.2 initializer hinit
  have hready : Ready base s initializer := by
    refine h.readyChild hs.rooted (by simp) fun node hcase => ?_
    rw [case?_eq_some, hn] at hcase
    cases hcase
  have hrank : Affords base s (initializer + 2) depth := hafford.mono (by omega)
  refine ensures_get_bind.2 ((ensures_checkExpr hs ha hready he hexpected hrank scope _).bind
    fun checked s1 h1 => ?_)
  have hhanded : Handed base [] (checked.type.hasErrors = false) start s1 id
      (.decl ⟨.binding decl, span⟩) [] decl.pattern.nodes checked.expr [initializer] :=
    ⟨h.last hs.rooted he h1.move fun hdiag hgood => ⟨trivial, (h1.done hdiag hgood).1⟩,
      fun hl => (h1.loose hl).imp_right h.loose⟩
  obtain ⟨h2, hmidway⟩ := hhanded.patchInitializer hs.rooted hd hinit h1.packs
  refine ensures_updateTree_bind (updateDecl_eq hhanded.current rfl) (ensures_pure.2 ⟨checked.expr,
    hmidway, (h1.move.ofChild hs.rooted hchild hfirst).trans (h2.ofSelf (hs.rooted.first_le hsize)),
    h1.known.mono h2.evolves.later,
    h2.evolves.packs hs.rooted h1.move.inv.descends h1.packs, fun hdiag hgood type ht => ?_⟩)
  have hopen : s1.Open (base.tree.unit initializer) := by
    rw [hs.rooted.unit_child hchild (isBinding_of_expr he)]
    exact hhanded.isOpen
  exact ((h1.done (h2.evolves.diagnostics hdiag) hgood).2 type ht).evolves h1.move.inv.toCore
    h2.evolves (h2.evolves.slot hs.rooted h1.move.inv.descends hopen (hlt.trans hsize)
    (Region.not_hasNode_of_lt hlt) h1.packs)

/-- What a binding gives to its pattern. -/
structure Announced (base : Program) (start s : State) (id : Nat) (decl : BindingDecl) (span : Span)
    (slot : Option ExprId) (type : Ty) (fits : Bool) : Prop where
  midway : Midway base [] (fits = true ∧ type.hasErrors = false) start s id (.decl ⟨.binding
    { decl with initializer := slot }, span⟩) [] decl.pattern.nodes decl.initializer.toList
  known : Known base s type
  bad : fits = false → s.Faulty base
  packs : ∀ expr ∈ slot, ∃ initializer ∈ decl.initializer, s.program.tree.Packs initializer expr
  written : s.diagnostics = [] → fits = true → ∀ written ∈ decl.ascription,
    (base.scopeOf id).bind (base.meaning · written) = some type ∧ ∀ expr ∈ slot, Holds s expr type

lemma ensures_bindingType (h : Midway base [] True start s id (.decl ⟨.binding decl, span⟩) []
    (base.tree.children id)) (hd : base.tree.decl? id = some ⟨.binding decl, span⟩)
    (hafford : Affords base s (id + 1) depth) {scope} (hscope : base.scopeOf id = some scope) :
    Ensures (bindingType ask id decl scope) s fun answer s' =>
      ∃ slot, Announced base start s' id decl span slot answer.1 answer.2 ∧ Affords base s' (id + 1) depth := by
  have hn := decl?_eq_some.1 hd
  rw [children_of_node? hn] at h
  have hle : scope ≤ root := hs.le_root_of_scopeOf hscope
  have hchildren : (Node.decl ⟨.binding decl, span⟩).children = decl.pattern.nodes ++ decl.initializer.toList := rfl
  rw [hchildren] at h
  -- without an initializer, all that is left to do is to find the type
  have hbare {type s1} (hinit : decl.initializer = none) (hstep : Step base .nowhere s s1)
      (hknown : Known base s1 type) (hwritten : s1.diagnostics = [] → ∀ written ∈ decl.ascription,
        base.meaning scope written = some type) : ∃ slot,
      Announced base start s1 id decl span slot type true ∧ Affords base s1 (id + 1) depth := by
    have hdecl : { decl with initializer := none } = decl := by rw [← hinit]
    refine ⟨none, ⟨?_, hknown, by simp, by simp, fun hdiag _ written hw => ⟨?_, by simp⟩⟩,
      hafford.evolves hstep.evolves⟩
    · rw [hdecl]
      simpa [hinit] using (h.quiet hs.rooted hstep).imp fun _ => trivial
    · rw [hscope]
      exact hwritten hdiag written hw
  unfold bindingType
  cases hasc : decl.ascription with
  | some ascription =>
    cases hinit : decl.initializer with
    | some initializer =>
      refine (ensures_writtenType hs hle ascription h.inv.toCore).bind ?_
      rintro type s1 ⟨h1, hplain, hmeaning⟩
      have hstep := h1.step hs.rooted h.inv .nowhere
      have hmidway := h.quiet hs.rooted hstep
      rw [hinit] at hmidway
      refine (ensures_checkInitializer hs ha hmidway hd hinit (by simpa using hplain.known)
        (hafford.evolves hstep.evolves) scope).bind ?_
      rintro found s2 ⟨slot, hmidway2, h2, hknown, hpacks, hholds⟩
      refine ensures_pure.2 ⟨some slot, ⟨?_, hplain.known.mono h2.evolves.later, fun hbad => ?_, ?_,
        fun hdiag hfits => ?_⟩, (hafford.evolves hstep.evolves).evolves h2.evolves⟩
      · rw [hinit]
        exact hmidway2.imp fun hgood => by simpa using hgood.1
      · exact hknown.faulty (by simpa using hbad)
      · simpa [hinit] using hpacks
      · have hmeaning := hmeaning (h2.evolves.diagnostics hdiag)
        have hholds := hholds hdiag (by simpa using hfits)
        simpa [hasc, hscope, hmeaning] using hholds
    | none =>
      refine (ensures_writtenType hs hle ascription h.inv.toCore).bind ?_
      rintro type s1 ⟨h1, hplain, hmeaning⟩
      have hstep := h1.step hs.rooted h.inv .nowhere
      exact ensures_pure.2 (hbare hinit hstep hplain.known fun hdiag => by simpa [hasc] using hmeaning hdiag)
  | none =>
    cases hinit : decl.initializer with
    | some initializer =>
      rw [hinit] at h
      refine (ensures_checkInitializer hs ha h hd hinit (by simp) hafford scope).bind ?_
      rintro found s2 ⟨slot, hmidway2, h2, hknown, hpacks, hholds⟩
      refine ensures_pure.2 ⟨some slot, ⟨?_, hknown, by simp, ?_, ?_⟩, hafford.evolves h2.evolves⟩
      · rw [hinit]
        exact hmidway2.imp And.right
      · simpa [hinit] using hpacks
      · simp [hasc]
    | none =>
      refine ensures_reportAt_bind hs.rooted h.inv h.lt_size fun s1 hstep hdiag => ensures_pure.2 ?_
      exact hbare hinit hstep (known_error (.inl hdiag)) (by simp [hasc])

omit hs ha in
/-- The pattern of a binding lies apart from its initializer. -/
lemma exists_region_pattern
    (hr : base.tree.Rooted root) (hd : base.tree.decl? id = some ⟨.binding decl, span⟩) :
    ∃ region, (∀ child ∈ decl.pattern.nodes, (Region.below base child).Within region) ∧
      ∀ initializer ∈ decl.initializer, ¬region.HasNode base initializer := by
  have hchildren : base.tree.children id = decl.pattern.nodes ++ decl.initializer.toList :=
    children_of_node? (decl?_eq_some.1 hd)
  have hwithin (high : Nat) (hhigh : ∀ child ∈ decl.pattern.nodes, child ≤ high)
      (child : Nat) (hc : child ∈ decl.pattern.nodes) :
      (Region.below base child).Within ⟨base.tree.unit id, base.tree.first id, high⟩ := by
    have hmem : child ∈ base.tree.children id := by simp [hchildren, hc]
    exact .inr ⟨hr.owner_child hmem, (hr.child hmem).2.2.2, hhigh child hc⟩
  cases hinit : decl.initializer with
  | none =>
    refine ⟨_, hwithin id fun child hc => ?_, by simp⟩
    exact (hr.child (show child ∈ base.tree.children id by simp [hchildren, hc])).2.1.le
  | some initializer =>
    by_cases hempty : decl.pattern.nodes = []
    · exact ⟨.nowhere, by simp [hempty], fun _ _ => Region.not_hasNode_nowhere _⟩
    rw [hinit] at hchildren
    obtain ⟨hbefore, -⟩ := Underway.child_lt hr hchildren
    have hfirst : base.tree.first initializer ≤ initializer :=
      (hr.child (show initializer ∈ base.tree.children id by simp [hchildren])).2.2.1
    obtain ⟨some, hsome⟩ := exists_mem_of_ne_nil _ hempty
    obtain ⟨high, rfl⟩ : ∃ high : Nat, initializer = high + 1 :=
      Nat.exists_eq_succ_of_ne_zero
        (Nat.ne_of_gt ((Nat.zero_le some).trans_lt ((hbefore some hsome).trans_le hfirst)))
    refine ⟨_, hwithin high fun child hc => Nat.le_of_lt_succ ((hbefore child hc).trans_le hfirst), ?_⟩
    rintro _ ⟨⟩ ⟨-, -, hle⟩
    exact Nat.not_succ_le_self high hle

omit hs ha in
lemma exists_binding
    {program} (h : base.Descends program) (hd : base.tree.decl? id = some ⟨.binding decl, span⟩) :
    ∃ slot, program.tree.decl? id = some ⟨.binding { decl with initializer := slot }, span⟩ := by
  rcases h.decl?_cases id with heq | ⟨_, _, slot, hd', hcurrent⟩
  · exact ⟨decl.initializer, heq.trans hd⟩
  · cases hd.symm.trans hd'
    exact ⟨slot, hcurrent⟩

/-- What asking for the type of a declaration leads to. -/
def Realized (base : Program) (s s' : State) (id : Nat) (type : Ty) : Prop :=
  Step base .nowhere s s' ∧ (s'.declTypes[id]? = some type ∨ type = .error ∧ s'.Faulty base)

variable {rank : Nat}

lemma ensures_realizeBinding (hi : Inv base s)
    (hd : base.tree.decl? id = some ⟨.binding decl, span⟩) (hcontext : Context base s id)
    (hafford : Affords base s rank (depth + 1)) : Ensures (realizeBinding ask id) s fun type s' =>
    Realized base s s' id type := by
  have hn := decl?_eq_some.1 hd
  have hb : base.tree.isBinding id := isBinding_iff.2 ⟨_, hd, rfl⟩
  have hlt := lt_size hn
  have hroot : id < root := hs.rooted.lt_root hlt (by simp [declares_iff hd, DeclKind.isModule])
  obtain ⟨hfits, hnone, hinitializer⟩ := (hs.rooted.below hn).1
  unfold realizeBinding
  simp only [ensures_get_bind]
  cases htype : s.declTypes[id]? with
  | some known => exact ensures_pure.2 ⟨.refl hi, .inl htype⟩
  | none =>
    by_cases hprogress : id ∈ s.inProgress
    · obtain ⟨slot, hcurrent⟩ := exists_binding hi.descends hd
      refine (ensures_decl hcurrent).read ?_
      have hcontains : s.inProgress.contains id := by simpa using hprogress
      simp only [ensures_get_bind, if_pos hcontains]
      have hreport (name : String) : Ensures (do
          reportAt (.circularReference name) id
          return Ty.error) s fun type s' => Realized base s s' id type :=
        ensures_reportAt_bind hs.rooted hi hlt fun s1 h1 hdiag => ensures_pure.2 ⟨h1, .inr ⟨rfl, .inl hdiag⟩⟩
      cases hvar : decl.pattern.vars.head? with
      | none => exact hreport "_"
      | some var =>
        have hv := hfits.1 var (mem_of_head? hvar)
        exact (ensures_declName hi.descends hv.isSome_decl?).read (hreport (base.declName var))
    · have hu : s.Untouched id := ⟨htype, hprogress⟩
      have hmidway := hi.midway_enter hs.rooted hb hu hn hcontext
      have hcurrent : s.program.tree.decl? id = some ⟨.binding decl, span⟩ := decl?_eq_some.2 hmidway.current
      refine (ensures_decl hcurrent).read ?_
      have hcontains : ¬s.inProgress.contains id := by simpa using hprogress
      simp only [ensures_get_bind, if_neg hcontains]
      refine ensures_modify_bind.2 ((ensures_enclosingScope hs (hi.enter hu).descends hroot).bind ?_)
      rintro scope _ ⟨hscope, rfl⟩
      refine (ensures_bindingType hs ha hmidway hd (hafford.enter (pending_begin hlt hu) (by omega)) hscope).bind ?_
      rintro ⟨type, fits⟩ s1 ⟨slot, h1, hafford1⟩
      obtain ⟨_, hwithin, hapart⟩ := exists_region_pattern hs.rooted hd
      have hpattern : Midway base [] (fits = true ∧ type.hasErrors = false) (s.enter id) s1 id
          (.decl ⟨.binding { decl with initializer := slot }, span⟩) []
          (decl.pattern.nodes ++ []) decl.initializer.toList := by
        simpa using h1.midway
      refine (ensures_bindPattern hs ha (Nat.lt_succ_self id) scope decl.pattern hfits
        (by simp [hnone]) hpattern hwithin h1.known hafford1).bind fun bound s2 h2 => ?_
      refine ensures_modify_bind.2 (ensures_modify_bind.2 (ensures_pure.2 ?_))
      refine ⟨h2.midway.leave hs.rooted hd hu ?_ fun hdiag hgood => ?_, .inl ?_⟩
      · refine Known.ite_error (fun _ => h1.known.mono h2.move.evolves.later) fun hbad => ?_
        rw [Bool.not_eq_true, Bool.and_eq_false_iff] at hbad
        exact hbad.elim (fun hfalse => h2.move.evolves.faulty (h1.bad hfalse)) h2.bad
      · split at hgood
        next hboth =>
          rw [if_pos hboth]
          rw [Bool.and_eq_true] at hboth
          refine ⟨⟨⟨hboth.1, hgood⟩, hboth.2⟩, _, h2.midway.current, s2.solver.resolve type, ?_,
            fun written hw => ?_⟩
          · exact congrArg (Option.map s2.solver.resolve) getElem?_insert_self
          · obtain ⟨hmeaning, hholds⟩ := h1.written (h2.move.evolves.diagnostics hdiag) hboth.1 written hw
            have hresolve : s2.solver.resolve type = type := by
              rw [hscope] at hmeaning
              exact Program.resolveBy_meaning _ hmeaning
            refine ⟨hresolve.symm ▸ hmeaning, fun expr he => ?_⟩
            obtain ⟨initializer, hinit, hpacks⟩ := h1.packs expr he
            have hchild : initializer ∈ base.tree.children id := by simpa [h1.midway.layout] using .inr hinit
            have hopen : s1.Open (base.tree.unit initializer) := by
              rw [hs.rooted.unit_child hchild (isBinding_of_expr (hinitializer initializer hinit))]
              exact h1.midway.isOpen
            have hkept : Holds s2 expr type :=
              (hholds expr he).evolves h1.midway.inv.toCore h2.move.evolves
                (h2.move.evolves.slot hs.rooted h1.midway.inv.descends hopen
                ((hs.rooted.child hchild).2.1.trans hlt) (hapart initializer hinit) hpacks)
            exact hkept
        next => cases hgood
      · exact getElem?_insert_self

lemma ensures_realizeVar
    (hi : Inv base s) (hasked : Asked base s id) (hafford : Affords base s rank (depth + 1)) :
    Ensures (realizeVar ask id) s fun type s' => Realized base s s' id type ∧
      (base.owningBinding? id = none → type = (s.declTypes[id]?).getD .error) := by
  unfold realizeVar
  simp only [ensures_get_bind]
  cases htype : s.declTypes[id]? with
  | some known => exact ensures_pure.2 ⟨⟨.refl hi, .inl htype⟩, fun _ => rfl⟩
  | none =>
    refine ensures_get_bind.2 ((ensures_demand_bind hi.descends fun binding hb => ?_).2 ?_)
    · obtain ⟨_, hstands⟩ := hs.stands_of_bindingOf (hi.descends.bindingOf_eq id ▸ Option.mem_toList.1 hb)
      exact hstands.isSome_decl? rfl
    simp only [ensures_get_bind, hi.descends.owningBinding?_eq]
    have hget (s' : State) : s'.declTypes.getD id .error = (s'.declTypes[id]?).getD .error :=
      Std.TreeMap.getD_eq_getD_getElem?
    unfold Asked at hasked
    cases hbinding : base.owningBinding? id with
    | none =>
      rw [hbinding] at hasked
      have hf : s.Faulty base := .inr (hasked.resolve_left (by simp [htype]))
      refine ensures_get_bind.2 (ensures_pure.2 ?_)
      rw [hget, htype]
      exact ⟨⟨.refl hi, .inr ⟨rfl, hf⟩⟩, fun _ => rfl⟩
    | some binding =>
      rw [hbinding] at hasked
      obtain ⟨decl, span, hd, hmem⟩ := hs.owningBinding?_eq_some.1 hbinding
      refine (ensures_realizeBinding hs ha hi hd hasked hafford).bind ?_
      rintro found s1 ⟨h1, hfound⟩
      refine ensures_get_bind.2 (ensures_pure.2 ⟨⟨h1, ?_⟩, by simp⟩)
      rw [hget]
      cases htype1 : s1.declTypes[id]? with
      | some type => exact .inl rfl
      | none =>
        refine .inr ⟨rfl, (hfound.resolve_left fun hfound => ?_).2⟩
        have := (h1.inv.typed (isBinding_iff.2 ⟨_, hd, rfl⟩) hfound).2.1 decl span hd id hmem
        simp [htype1] at this

lemma ensures_realizeLocal (hi : Inv base s) (hd : base.tree.decl? id = some ⟨.binding decl, span⟩)
    (hcontext : Context base s id) (hafford : Affords base s rank (depth + 1)) :
    Ensures (realize ask id) s fun type s' => Realized base s s' id type := by
  unfold realize
  simp only [ensures_get_bind]
  cases htype : s.declTypes[id]? with
  | some known => exact ensures_pure.2 ⟨.refl hi, .inl htype⟩
  | none =>
    obtain ⟨_, hcurrent⟩ := exists_binding hi.descends hd
    refine (ensures_decl hcurrent).read ?_
    exact ensures_realizeBinding hs ha hi hd hcontext hafford

lemma ensures_realizeNamed (hi : Inv base s) (hv : base.tree.Declares DeclKind.isVar id)
    (hasked : Asked base s id) (hafford : Affords base s rank (depth + 1)) :
    Ensures (realize ask id) s fun type s' => Realized base s s' id type ∧
      (base.owningBinding? id = none → type = (s.declTypes[id]?).getD .error) := by
  unfold realize
  simp only [ensures_get_bind]
  cases htype : s.declTypes[id]? with
  | some known => exact ensures_pure.2 ⟨⟨.refl hi, .inl htype⟩, fun _ => rfl⟩
  | none =>
    obtain ⟨⟨kind, _⟩, hd, hk⟩ := hv
    cases kind with
    | var name =>
      refine (ensures_decl (hi.descends.decl?_of_not_binding hd rfl)).read ?_
      simpa [htype] using ensures_realizeVar hs ha hi hasked hafford
    | _ => cases hk

omit ha in
lemma note_declType (hc : Core base s)
    (hd : base.tree.Declares (fun kind => kind.isParam || kind.isProduct) id)
    (hnew : s.declTypes[id]? = none) {type} (ht : Plain base s type) : Noted base s
    { s with declTypes := s.declTypes.insert id type } := by
  have hkept {other} (hne : id ≠ other) : (s.declTypes.insert id type)[other]? = s.declTypes[other]? :=
    getElem?_insert_of_ne hne
  have hn : Notes base s { s with declTypes := s.declTypes.insert id type } :=
    { Notes.refl base s with
      declTypes := insert_mono hnew
      kept := fun other ho => hkept (by
        rintro rfl
        obtain ⟨⟨kind, _⟩, hd, hk⟩ := hd
        obtain ⟨_, hd', hk'⟩ := ho
        cases hd.symm.trans hd'
        cases kind <;> simp [DeclKind.isVar, DeclKind.isBinding, DeclKind.isParam, DeclKind.isProduct] at hk hk') }
  exact ⟨⟨hn, hn.core hs.rooted hc (hc.toTables.insertDecl ht.known fun _ => ht), rfl⟩, rfl⟩

omit ha in
lemma ensures_realizeDeclared
    (hc : Core base s) (hd : base.tree.Declares (fun kind => kind.isParam || kind.isProduct) id) :
    Ensures (realize ask id) s fun type s' => Noted base s s' ∧ s'.declTypes[id]? = some type ∧
      s'.signatures = s.signatures := by
  unfold realize
  simp only [ensures_get_bind]
  cases htype : s.declTypes[id]? with
  | some known => exact ensures_pure.2 ⟨.refl hc, htype, rfl⟩
  | none =>
    have hdeclared := hd
    obtain ⟨⟨kind, _⟩, hd, hk⟩ := hd
    have hbinding : kind.isBinding = false := by cases kind <;> first | rfl | cases hk
    refine (ensures_decl (hc.descends.decl?_of_not_binding hd hbinding)).read ?_
    -- what is left to do once the type is known
    have hkeep {type s1} (h1 : Reported s s1) (hplain : Plain base s1 type) : Ensures (do
          setDeclType id type
          return type) s1 fun type s' => Noted base s s' ∧ s'.declTypes[id]? = some type ∧
            s'.signatures = s.signatures := by
      have hn := h1.noted hs.rooted hc
      obtain ⟨_, -, rfl⟩ := h1
      refine ensures_modify_bind.2
        (ensures_pure.2 ⟨hn.trans (note_declType hs hn.core hdeclared htype hplain), ?_, rfl⟩)
      exact getElem?_insert_self
    cases kind with
    | param name ascription =>
      have hlt : id < root :=
        hs.rooted.lt_root (lt_size (decl?_eq_some.1 hd)) (by simp [declares_iff hd, DeclKind.isModule])
      refine (ensures_enclosingScope hs hc.descends hlt).bind ?_
      rintro scope s ⟨hscope, rfl⟩
      refine (ensures_writtenType hs (hs.le_root_of_scopeOf hscope) ascription hc).bind ?_
      rintro type s1 ⟨h1, hplain, -⟩
      exact hkeep h1 hplain
    | product decl => exact hkeep (.refl s) ((Ty.over_end rfl).2 ⟨_, hd, rfl⟩)
    | _ => cases hk

end

end TraitLang.Check
