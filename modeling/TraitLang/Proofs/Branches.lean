import TraitLang.Proofs.Bodies.Items
import TraitLang.Proofs.Inference
import TraitLang.Proofs.Patterns

/-! Conditionals and matches, and with them the types of all expressions. -/
namespace TraitLang.Check

open ConditionItem TraitLang.Tree List Region Bool Underway

/-! ### Lists -/

section

variable {α : Type} (view : α → BlockMember)

abbrev nodesOf (items : List α) : List Nat := items.map fun item => (view item).node

/-- The expressions in a list have the type that is expected of them. -/
def HoldAll (s : State) (slots : List α) (expected : Option Ty) : Prop :=
  ∀ type ∈ expected, ∀ slot ∈ slots, ∀ expr, view slot = .expr expr → Holds s expr type

/-- What checking some of the items of a list leads to, with what is stored for them. -/
structure Tested (base : Program) (records : List ReturnRecord) (good : Prop) (start s s' : State)
    (id : Nat) (node : Node) (items slots : List α) (rest : List Nat) (expected : Option Ty)
    (sound : Bool) : Prop extends Passed base records good start s s' id (.since base id 0)
    node (nodesOf view items) rest sound where
  patched : Forall₂ (fun item slot => (view item).Patched s'.program.tree.Packs (view slot)) items slots
  holds : s'.diagnostics = [] → sound = true → HoldAll view s' slots expected

variable {view} {base : Program} {root : Nat} (hr : base.tree.Rooted root)
  {records others : List ReturnRecord} {good : Prop} {start s s1 s' : State}
  {id child : Nat} {node node1 : Node} {rest : List Nat} {items slots : List α} {item slot : α}
  {expected : Option Ty} {sound first : Bool}

lemma Midway.tested (h : Midway base records good start s id node [] rest) :
    Tested view base records good start s s id node [] [] rest expected true :=
  ⟨⟨h.imp And.left, .refl h.inv, by simp⟩, .nil, fun _ _ _ _ _ h => nomatch h⟩

variable {region : Region} {expr : ExprId}

include hr

lemma Tested.evolves_patched (h : Tested view base records good start s s1 id node items slots rest expected sound)
    (he : Evolves base region s1 s') :
    Forall₂ (fun item slot => (view item).Patched s'.program.tree.Packs (view slot)) items slots :=
  h.patched.imp fun _ _ => .imp fun _ _ => he.packs hr h.midway.inv.descends

variable (h : Tested view base records good start s s1 id node items slots
  (child :: rest) expected sound) (hfits : ∀ item ∈ items, (view item).Fits base.tree)

include h hfits

/-- Expressions that were checked stay as they are while work is done after them. -/
lemma Tested.keeps (he : Evolves base (.since base id (base.tree.first child)) s1 s')
    (hdiag : s'.diagnostics = []) (hgood : sound = true) : HoldAll view s' slots expected := by
  intro type ht slot hslot expr hexpr
  obtain ⟨item, hitem, hp⟩ := exists_mem_of_forall₂ h.patched hslot
  rw [hexpr] at hp
  obtain ⟨before, hbefore, hpacks⟩ := hp.exists_expr fun _ => .inl rfl
  have hmem : before ∈ nodesOf view items := mem_map.2 ⟨item, hitem, by rw [hbefore]; rfl⟩
  have hfit := hfits item hitem
  rw [hbefore] at hfit
  exact h.midway.keeps_holds hr hmem hfit he
    (not_hasNode_of_lt ((child_lt hr h.midway.children).1 before hmem)) hpacks
    (h.holds (he.diagnostics hdiag) hgood type ht slot hslot expr hexpr)

lemma Tested.snoc
    (hitem : (view item).node = child) (h1 : Passed base others (good ∧ sound = true) start s1 s' id
    (.since base id (base.tree.first child)) node1 (nodesOf view items ++ [child]) rest first)
    (hslot : (view item).Patched s'.program.tree.Packs (view slot))
    (hholds : s'.diagnostics = [] → first = true → HoldAll view s' [slot] expected) :
    Tested view base others good start s s' id node1 (items ++ [item])
    (slots ++ [slot]) rest expected (sound && first) := by
  have hpassed := h.toPassed.trans ⟨h1.midway, h1.move.since (Nat.zero_le _), h1.bad⟩
  refine ⟨by simpa [hitem] using hpassed, rel_append (h.evolves_patched hr h1.move.evolves)
    (.cons hslot .nil), fun hdiag hgood type ht other ho => ?_⟩
  rw [and_eq_true] at hgood
  rcases mem_append.1 ho with ho | ho
  · exact h.keeps hr hfits h1.move.evolves hdiag hgood.1 type ht other ho
  · exact hholds hdiag hgood.2 type ht other ho

lemma Tested.other (hitem : (view item).node = child) (hne : ∀ expr, view item ≠ .expr expr)
    (h1 : Passed base others (good ∧ sound = true) start s1 s' id
    (.since base id (base.tree.first child)) node1 (nodesOf view items ++ [child]) rest first) :
    Tested view base others good start s s' id node1 (items ++ [item])
    (slots ++ [item]) rest expected (sound && first) := by
  refine h.snoc hr hfits hitem h1 (.same _) fun _ _ type _ other ho expr hexpr => ?_
  rw [mem_singleton.1 ho] at hexpr
  exact absurd hexpr (hne expr)

lemma Tested.stored (hitem : view item = .expr child) (hslot : view slot = .expr expr)
    (h1 : Stored base others (good ∧ sound = true) start s1 s' id node1 (nodesOf view items) rest
    child expr expected first) : Tested view base others good start s s' id node1 (items ++ [item])
    (slots ++ [slot]) rest expected (sound && first) := by
  refine h.snoc hr hfits (by rw [hitem]; rfl) h1.toPassed ?_ fun hdiag hgood type ht other ho expr' hexpr => ?_
  · rw [hitem, hslot]
    exact .expr h1.packs
  · rw [mem_singleton.1 ho, hslot] at hexpr
    cases hexpr
    exact h1.holds hdiag hgood type ht

omit hfits in
lemma Tested.patched_next (item slot : α) (hitem : view item = .expr child)
    (hslot : view slot = .expr expr) (he : Evolves base region s1 s')
    (hp : s'.program.tree.Packs child expr) (later : List α) :
    Forall₂ (fun item slot => (view item).Patched s'.program.tree.Packs (view slot))
    (items ++ item :: later) (slots ++ slot :: later) := by
  refine rel_append (h.evolves_patched hr he) (.cons ?_ (forall₂_same.2 fun _ _ => .same _))
  rw [hitem, hslot]
  exact .expr hp

end

/-! ### Conditions -/

lemma resolve_bool (solver : Solver) : solver.resolve .bool = .bool :=
  Solver.resolveBy_leaf _ rfl (by simp)

lemma known_bool (base : Program) (s : State) : ∀ type ∈ some Ty.bool, Known base s type := by
  rintro _ ⟨⟩
  exact (Ty.over_end rfl).2 trivial

lemma HoldAll.tests {s slots} (h : HoldAll asMember s slots (some .bool))
    (base : Program) (records : List ReturnRecord) : (s.typing base records).Tests True slots := by
  intro test htest
  have hholds := h .bool rfl (.expr test) htest test rfl
  rwa [Holds, resolve_bool] at hholds

def checkClause (ask : Answerer) (id : ExprId) (scope : ScopeId) (index : Nat) : ConditionItem → Check Bool
  | .decl decl => ask (.verdict decl)
  | .expr test => do
    let (checked, type) ← coerce ask test .bool scope .value
    updateTree id fun tree => tree.updateExpr id (setTest index checked)
    return !type.hasErrors

lemma checkConditions_eq
    (ask : Answerer) (id : ExprId) (scope : ScopeId) (index : Nat) (items : List ConditionItem) :
    checkConditions ask id scope index items = inTurn (checkClause ask id scope) index items := by
  induction items generalizing index with
  | nil => rfl
  | cons item items ih => cases item <;> simp [checkConditions, inTurn, checkClause, ih]

variable {base : Program} {root : Nat} (hs : base.Surveyed root) {start s : State} {id : Nat}
  {span : Span} {depth : Nat} {ask : Answerer} (ha : Answers base depth ask)
  {success failure : ExprId} {subject result : Ty}

include hs ha

lemma ensures_checkConditions
    {all} {good : Prop} (he : base.tree.expr? id = some ⟨.cond all success failure, span⟩)
    (hfits : ∀ item ∈ all, item.Fits base.tree) (hmidway : Midway base [] good start s id
    (.expr ⟨.cond all success failure, span⟩) [] (all.map node ++ [success, failure]))
    (hafford : Affords base s (id + 1) depth) (scope : ScopeId) :
    Ensures (checkConditions ask id scope 0 all) s fun sound s' => ∃ slots, Tested asMember base
      [] good start s s' id (.expr ⟨.cond slots success failure, span⟩) all slots
        [success, failure] (some .bool) sound := by
  rw [checkConditions_eq]
  refine (ensures_inTurn (I := fun done rest sound s' => ∃ slots,
    Tested asMember base [] good start s s' id (.expr ⟨.cond (slots ++ rest) success failure,
    span⟩) done slots (rest.map node ++ [success, failure])
    (some .bool) sound) all ?_ ⟨[], hmidway.tested⟩).imp ?_
  swap
  · grind
  rintro done item rest sound s0 hall ⟨slots, h⟩
  have hitem := hfits item (by simp [hall])
  have hdone (other : ConditionItem) (ho : other ∈ done) : other.asMember.Fits base.tree :=
    (hfits other (by simp [hall, ho])).asMember
  have hafford := hafford.evolves h.move.evolves
  cases item with
  | decl decl =>
    have hdecl : base.tree.Declares DeclKind.isItem decl :=
      hitem.imp fun found hd => ⟨hd.1, by simp [DeclKind.isItem, DeclKind.isLocal, hd.2]⟩
    refine (h.midway.judged hs.rooted ha hdecl hafford).imp ?_
    rintro first s1 ⟨_, h1⟩
    refine ⟨slots ++ [.decl decl], ?_⟩
    rw [append_assoc]
    exact h.other hs.rooted hdone rfl (by simp [asMember]) h1
  | expr test =>
    refine (h.midway.coerced hs ha hitem (known_bool base s0 _ rfl)
      (Nat.lt_succ_self id) hafford scope .value).bind ?_
    rintro ⟨slot, type⟩ s1 ⟨h1, hhanded, -⟩
    have hpatched : Forall₂ (ConditionItem.Patched s1.program.tree.Packs) all (slots ++ .expr slot :: rest) := by
      rw [hall]
      exact (h.patched_next hs.rooted (.expr test)
        (.expr slot) rfl rfl h1.move.evolves h1.packs rest).imp fun _ _ => patched_iff.2
    have h2 := hhanded.store hs h1.toSettled hitem (slots.map node)
      (rest.map node ++ [success, failure]) (expr?_eq_some.1 he) (.expr (.cond hpatched (.inl rfl)))
      (by simp [Node.children, ExprKind.children, node])
      (by simp [Node.children, ExprKind.children, node])
    have hset : setTest done.length slot (.cond (slots ++ .expr test :: rest) success failure) =
        some (.cond (slots ++ .expr slot :: rest) success failure) := by simp [setTest, setSlot, h.patched.length_eq]
    refine ensures_updateTree_bind (updateExpr_eq hhanded.current hset) (ensures_pure.2 ⟨slots ++ [.expr slot], ?_⟩)
    rw [append_assoc]
    exact h.stored hs.rooted hdone rfl rfl h2

/-! ### Matches -/

/-- What checking a match case leads to. -/
structure Handled (base : Program) (s s' : State) (case : Nat) (result : Ty) (sound : Bool) : Prop where
  step : Step base (.below base case) s s'
  bad : sound = false → s'.Faulty base
  done : s'.diagnostics = [] → sound = true → Done base [] s' case ∧
    ∃ node child, s'.program.tree.case? case = some node ∧ child ∈ base.tree.children case ∧
      base.tree.HasExpr child ∧ s'.program.tree.Packs child node.body ∧ Holds s' node.body result

lemma ensures_checkCase {k : Bool → Check Bool}
    {post case found} (hready : Ready base s case) (hc : base.tree.case? case = some found)
    (hsubject : Known base s subject) (hresult : Known base s result) {rank}
    (hrank : case < rank) (hafford : Affords base s rank depth)
    (hk : ∀ sound s', Handled base s s' case result sound → Ensures (k sound) s' post) : Ensures (do
      let bound ← bindPattern ask case case found.pattern subject
      let (checked, type) ← coerce ask found.body result case .value
      updateTree case fun tree => tree.updateCase case fun found => { found with body := checked }
      k (bound && !type.hasErrors)) s post := by
  have hn := case?_eq_some.1 hc
  obtain ⟨hpattern, hbody⟩ := (hs.rooted.below hn).1
  have hb : base.tree.isBinding case = false := isBinding_of_case ⟨_, hc⟩
  have hmidway : Midway base [] True s s case (.case found) [] (base.tree.children case) :=
    hready.midway hs.rooted hn hb
  rw [children_of_node? hn] at hmidway
  have hwithin (child : Nat) (hm : child ∈ found.pattern.nodes) :
      (below base child).Within (.since base case (base.tree.first case)) := by
    have hchild : child ∈ base.tree.children case := by simp [hmidway.children, Node.children, hm]
    obtain ⟨-, hlt, -, hfirst⟩ := hs.rooted.child hchild
    exact .inr ⟨hs.rooted.owner_child hchild, hfirst, hlt.le⟩
  refine (ensures_bindPattern hs ha hrank case found.pattern hpattern (fun expr he =>
    ⟨case, found, hc, he⟩) hmidway hwithin hsubject hafford).bind fun bound s1 h1 => ?_
  refine (h1.midway.coerced hs ha hbody (hresult.mono h1.move.evolves.later) hrank
    (hafford.evolves h1.move.evolves) case .value).bind ?_
  rintro ⟨slot, type⟩ s2 ⟨h2, hhanded, -⟩
  have h3 := hhanded.store hs h2.toSettled hbody _ _ hn (.case h2.packs) rfl rfl
  refine ensures_updateTree_bind (updateCase_eq hhanded.current _)
    (hk _ _ ⟨h3.midway.below hb, fun hwrong => ?_, fun hdiag hgood => ?_⟩)
  · rcases and_eq_false_iff.1 hwrong with hwrong | hwrong
    · exact h3.move.evolves.faulty (h1.bad hwrong)
    · exact h3.bad hwrong
  · rw [and_eq_true] at hgood
    have hcurrent := h3.midway.current
    exact ⟨h3.midway.finished hs.rooted hdiag ⟨⟨trivial, hgood.1⟩, hgood.2⟩
      ⟨_, hcurrent, trivial⟩ (.other hn (by simp)),
      _, found.body, case?_eq_some.2 hcurrent, by simp [hhanded.children], hbody, h3.packs,
      h3.holds hdiag hgood.2 _ rfl⟩

lemma ensures_checkCases {all head node} : ∀ cases {processed s good low},
    all = processed ++ cases → Midway base [] good start s id node (head :: processed) cases →
      (∀ case ∈ cases, base.tree.HasCase case) → Known base s subject → Known base s result →
      Affords base s (id + 1) depth → (∀ case ∈ cases, low ≤ base.tree.first case) →
      Ensures (checkCases ask subject result cases) s fun sound s' =>
        Passed base [] good start s s' id (.since base id low) node (head :: all) [] sound ∧
        (s'.diagnostics = [] → sound = true → ∀ case ∈ cases, ∃ found,
          s'.program.tree.case? case = some found ∧ Holds s' found.body result)
  | [], processed, s, good, low, hall, hmidway, _, _, _, _, _ => by
    obtain rfl : all = processed := by simpa using hall
    exact ensures_pure.2 ⟨⟨hmidway.imp And.left, .refl hmidway.inv, by simp⟩, by simp⟩
  | case :: cases, processed, s, good, low, hall, hmidway, hfits, hsubject, hresult, hafford, hlow => by
    obtain ⟨⟨found, hc⟩, hfits⟩ := forall_mem_cons.1 hfits
    have hchild : case ∈ base.tree.children id := by simp [hmidway.children]
    have hlt := (hs.rooted.child hchild).2.1
    have hready := hmidway.ready hs.rooted
    have hn := case?_eq_some.1 hc
    have hb : base.tree.isBinding case = false := isBinding_of_case ⟨_, hc⟩
    obtain ⟨-, hlater⟩ := child_lt hs.rooted hmidway.children
    have hcurrent : Midway base [] True s s case (.case found) [] (base.tree.children case) :=
      hready.midway hs.rooted hn hb
    have hscope : base.tree.isScope case := by simp [isScope, hn, Node.isScope]
    refine (ensures_case (case?_eq_some.2 hcurrent.current)).read ?_
    refine (ensures_ownScope hmidway.inv.descends hcurrent.lt_size hscope).bind ?_
    rintro scope s ⟨heq, rfl⟩
    obtain rfl := heq.symm
    refine ensures_checkCase (k := fun sound => do
      let rest ← checkCases ask subject result cases
      return sound && rest) hs ha hready hc hsubject hresult (hlt.trans (Nat.lt_succ_self id)) hafford
      fun sound s1 h1 => ?_
    have hmidway1 : Midway base [] (good ∧ sound = true) start s1 id node (head :: (processed ++ [case])) cases := by
      refine hmidway.next hs.rooted ?_ (fun hdiag hgood => ⟨hgood.1, fun _ =>
        (h1.done hdiag hgood.2).1, ?_⟩) (accounted_of_inner hs.rooted (.inr (.inl ⟨_, hc⟩))) h1.step
      · rintro ⟨decl, hd, -⟩
        rw [decl?_eq_some, hn] at hd
        cases hd
      · exact fun hbinding => by simp [hb] at hbinding
    have hall1 : all = (processed ++ [case]) ++ cases := by simp [hall]
    have hle := hlow case mem_cons_self
    have hself := hs.rooted.first_le (lt_size hn)
    refine (ensures_checkCases cases hall1 hmidway1 hfits (hsubject.mono h1.step.evolves.later)
      (hresult.mono h1.step.evolves.later) (hafford.evolves h1.step.evolves) hlater).bind ?_
    rintro rest s2 ⟨h2, hholds⟩
    have hmove := h2.move
    refine ensures_pure.2 ⟨.trans ⟨hmidway1, h1.step.toMove.ofChild hs.rooted hchild hle, h1.bad⟩
      ⟨h2.midway, hmove.since (by omega), h2.bad⟩, fun hdiag hgood => ?_⟩
    rw [and_eq_true] at hgood
    refine forall_mem_cons.2 ⟨?_, hholds hdiag hgood.2⟩
    obtain ⟨-, found1, child, hfound, hbody, hexpr, hpacks, hholds1⟩ :=
      h1.done (hmove.evolves.diagnostics hdiag) hgood.1
    have hout {inner} (hle : inner ≤ case) : ¬(since base id (case + 1)).HasNode base inner :=
      not_hasNode_of_lt (Nat.lt_succ_of_le hle)
    obtain ⟨hsize, hinner, -, -⟩ := hs.rooted.child hbody
    have hopen : s1.Open (base.tree.unit child) := by
      rw [hs.rooted.unit_child hbody (isBinding_of_expr hexpr), hs.rooted.unit_child hchild hb]
      exact hmidway1.isOpen
    have hsame := hmidway1.same hs.rooted (by simp) hb hmove.evolves (hout le_rfl) (.inl rfl)
    refine ⟨found1, case?_eq_some.2 (hsame.node_eq.trans (case?_eq_some.1 hfound)), ?_⟩
    exact hholds1.evolves hmidway1.inv.toCore hmove.evolves (hmove.evolves.slot hs.rooted hmidway1.inv.descends hopen
      (hinner.trans hsize) (hout hinner.le) hpacks)

/-! ### All expressions -/

variable (hready : Ready base s id) (hafford : Affords base s (id + 1) depth) (useSite : ScopeId)

include hready hafford

lemma ensures_inferCond
    {condition} (he : base.tree.expr? id = some ⟨.cond condition success failure, span⟩) :
    Ensures (inferCond ask id condition success failure useSite) s fun type s' =>
      Inferred base s s' id type := by
  obtain ⟨hmidway, ⟨hcondition, hsuccess, hfailure⟩, hb⟩ := hready.begin hs he
  have hrank := Nat.lt_succ_self id
  have hscope : base.tree.isScope id := by simp [isScope, expr?_eq_some.1 he, Node.isScope]
  refine (ensures_ownScope hmidway.inv.descends hmidway.lt_size hscope).bind ?_
  rintro scope s ⟨rfl, rfl⟩
  refine (ensures_checkConditions hs ha he hcondition hmidway hafford scope).bind ?_
  rintro tested s1 ⟨slots, h1⟩
  refine (h1.midway.asked hs ha hsuccess hrank (hafford.evolves h1.move.evolves) scope).bind ?_
  rintro type s2 ⟨h2, hmidway2, hafford2⟩
  refine (hmidway2.coerced hs ha hfailure h2.known hrank hafford2 useSite .value).bind ?_
  rintro ⟨slot, failureType⟩ s3 ⟨h3, hhanded, -⟩
  have hpatched : Forall₂ (ConditionItem.Patched s3.program.tree.Packs) condition slots := by
    refine (h1.evolves_patched hs.rooted h2.step.evolves).imp fun _ _ hp => patched_iff.2 ?_
    exact hp.imp fun _ _ => h3.move.evolves.packs hs.rooted h2.step.inv.descends
  have h4 := hhanded.store hs h3.toSettled hfailure (slots.map node ++ [success]) [] (expr?_eq_some.1 he)
    (.expr (.cond hpatched h3.packs)) (by simp [Node.children, ExprKind.children])
    (by simp [Node.children, ExprKind.children])
  refine ensures_updateTree_bind (updateExpr_eq hhanded.current rfl) ?_
  split
  next hgood =>
    rw [and_eq_true] at hgood
    refine (ensures_resolve _ type).imp ?_
    rintro _ s4 ⟨rfl, rfl⟩
    refine h4.midway.inferred hb
      ((h2.known.mono h4.move.evolves.later).resolveBy h4.move.inv.solver) fun hdiag hspoiled => ?_
    have hchild : success ∈ base.tree.children scope := by simp [hhanded.children]
    have hbetween := (child_lt hs.rooted hmidway2.children).1 success (by simp)
    have hfirst := (hs.rooted.child hchild).2.2.1
    have htests := h1.keeps hs.rooted (fun item hi => (hcondition item hi).asMember)
      ((h2.step.toMove.ofChild hs.rooted hchild le_rfl).trans (h4.move.since (by omega))).evolves hdiag hgood.1
    have hrecords := hmidway2.keeps_records hs.rooted (by simp) hsuccess h4.move.evolves
      (not_hasNode_of_lt hbetween) h2.recorded
    rw [(Solver.Refines.refl _).resolve h4.move.inv.lawful]
    exact ⟨⟨⟨⟨trivial, hgood.1⟩, Ty.not_spoiled_of_resolve hspoiled⟩, hgood.2⟩,
      ⟨htests.tests base [], hrecords, h4.holds hdiag hgood.2 _ rfl⟩, .plain he rfl⟩
  next hbad =>
    refine ensures_pure.2 (h4.midway.inferred hb (known_error ?_) fun _ h => by cases h)
    simp only [and_eq_true, not_and_or, not_eq_true] at hbad
    rcases hbad with hbad | hbad
    · exact h4.move.evolves.faulty (h2.step.evolves.faulty (h1.bad hbad))
    · exact h4.bad hbad

lemma ensures_inferSelect {subject cases}
    (he : base.tree.expr? id = some ⟨.select subject cases, span⟩) :
    Ensures (inferSelect ask subject cases useSite) s fun type s' =>
      Inferred base s s' id type := by
  obtain ⟨hmidway, ⟨hsubject, hcases⟩, hb⟩ := hready.begin hs he
  refine (hmidway.asked hs ha hsubject (Nat.lt_succ_self id) hafford useSite).bind ?_
  rintro subjectType s1 ⟨h1, hmidway1, hafford1⟩
  refine (ensures_fresh hs h1.step.inv).bind ?_
  rintro result s2 ⟨h2, hresult, var, hvar, hfree⟩
  -- what is left to do once it is known that no cases give the unit type
  have hrest {s3} (h3 : Step base .nowhere s1 s3) (hresult : Known base s3 result)
      (hunit : cases = [] → s3.solver.resolve result = .unit) : Ensures (do
        let known := !(← resolve subjectType).hasErrors
        let sound ← checkCases ask subjectType result cases
        if known && sound then resolve result else return .error) s3 fun type s' => Inferred base s s' id type := by
    have hknown := h1.known.mono h3.evolves.later
    refine (ensures_resolve s3 subjectType).read ?_
    obtain ⟨-, hlater⟩ := child_lt hs.rooted hmidway.children
    refine (ensures_checkCases hs ha cases rfl (hmidway1.quiet hs.rooted h3) hcases hknown hresult
      (hafford1.evolves h3.evolves) hlater).bind ?_
    rintro sound s4 ⟨h4, hholds⟩
    have hmove := h4.move
    split
    next hgood =>
      simp only [and_eq_true, not_eq_true'] at hgood
      refine (ensures_resolve s4 result).imp ?_
      rintro _ s4 ⟨rfl, rfl⟩
      refine h4.midway.inferred hb ((hresult.mono hmove.evolves.later).resolveBy hmove.inv.solver) fun hdiag _ => ?_
      have hrecords :=
        (hmidway1.quiet hs.rooted h3).keeps_records hs.rooted (by simp) hsubject hmove.evolves
        (not_hasNode_of_lt (Nat.lt_succ_self subject)) (hmidway1.keeps_records hs.rooted
        (by simp) hsubject h3.evolves (not_hasNode_nowhere _) h1.recorded)
      rw [(Solver.Refines.refl _).resolve hmove.inv.lawful]
      refine ⟨⟨⟨trivial, Ty.not_spoiled_of_resolve (Ty.not_spoiled hgood.1)⟩, hgood.2⟩,
        ⟨⟨_, hrecords⟩, fun hnone => ?_, hholds hdiag hgood.2⟩, .plain he rfl⟩
      rw [← hmove.evolves.refines.resolve h3.inv.lawful, hunit hnone]
      simp [Ty.unit, Solver.resolve, Solver.resolveBy_tuple]
    next hwrong =>
      refine ensures_pure.2 (h4.midway.inferred hb (known_error ?_) fun _ h => by cases h)
      simp only [and_eq_true, not_and_or, not_eq_true, not_eq_false'] at hwrong
      rcases hwrong with hwrong | hwrong
      · exact hmove.evolves.faulty ((hknown.resolveBy h3.inv.solver).faulty hwrong)
      · exact h4.bad hwrong
  cases cases with
  | nil =>
    subst hvar
    refine (ensures_unify_unit hs h2.inv hresult hfree).bind ?_
    rintro _ s3 ⟨h3, hunit⟩
    exact hrest (h2.trans h3) (hresult.mono h3.evolves.later) fun _ => hunit
  | cons case cases => exact hrest h2 hresult (by simp)

lemma ensures_inferKind {kind} (he : base.tree.expr? id = some ⟨kind, span⟩) :
    Ensures (inferKind ask id useSite kind) s fun type s' => Inferred base s s' id type := by
  obtain ⟨hmidway, hfits, hb⟩ := hready.begin hs he
  cases kind with
  | int | str | bool =>
    refine ensures_pure.2 (hmidway.inferred hb ((Ty.over_end rfl).2 trivial) fun _ _ => ?_)
    exact ⟨trivial, Solver.resolveBy_leaf _ rfl (by simp), .plain he rfl⟩
  | name name =>
    refine (ensures_inferName hs ha hmidway.inv he hready.context
      (hafford.mono (by omega)) useSite).imp fun type s1 h1 => ?_
    refine (hmidway.quiet hs.rooted h1.step).inferred hb h1.known fun hdiag hspoiled => ?_
    refine ⟨trivial, fun found hfound => ⟨fun hdeclares => ?_, h1.chosen hspoiled found hfound⟩,
      .ofName he (h1.timely hdiag hspoiled) (h1.declared hdiag hspoiled)⟩
    exact congrArg (Option.map s1.solver.resolve) (h1.recorded hspoiled found hfound hdeclares)
  | call callee arguments => exact ensures_inferCall hs ha hready hafford useSite he
  | binary operator left right => exact ensures_inferBinary hs ha hready hafford useSite he
  | unary operator operand => exact ensures_inferUnary hs ha hready hafford useSite he
  | assign assignee value => exact ensures_inferAssign hs ha hready hafford useSite he
  | tuple elements =>
    exact (ensures_inferTuple hs ha hready hafford useSite he).bind fun types s1 h1 => ensures_pure.2 h1
  | member value name => exact ensures_inferMemberOf hs ha hready hafford useSite he
  | cond condition success failure => exact ensures_inferCond hs ha hready hafford useSite he
  | select subject cases => exact ensures_inferSelect hs ha hready hafford useSite he
  | existential witness traits => exact hfits.elim

lemma ensures_infer (he : base.tree.HasExpr id) : Ensures (infer ask id useSite) s fun type s' =>
    Typed base s s' id type := by
  obtain ⟨⟨_, _⟩, hexpr⟩ := he
  obtain ⟨hmidway, -, -⟩ := hready.begin hs hexpr
  refine (ensures_expr (expr?_eq_some.2 hmidway.current)).read ?_
  refine (ensures_inferKind hs ha hready hafford useSite hexpr).bind fun type s1 h1 => ?_
  exact ensures_modify_bind.2 (ensures_pure.2 (h1.typed hs ⟨_, hexpr⟩))

end TraitLang.Check
