import TraitLang.Proofs.Bindings
import TraitLang.Proofs.Branches

/-! Statements. One run checks the body of a function, and keeps the return statements that it
meets: a value that is returned has the type that was recorded for its statement. -/
namespace TraitLang

open TraitLang.Tree Body List ConditionItem

/-! ### Runs -/

section

variable {σ α : Type} {run : Body.Run σ} {post : α → Body.Run σ → Prop} {work : EStateM Halt σ α}

lemma ensures_ask : Ensures (ask work) run post ↔ Ensures work run.context fun answer context =>
    post answer { run with context } := by
  unfold Ensures ask
  cases work run.context with
  | ok answer context => simp
  | error halt context => simp

lemma Ensures.askBind {β : Type} {f found} {post : β → Body.Run σ → Prop}
    (h : Ensures work run.context found)
    (hf : ∀ answer context, found answer context → Ensures (f answer) { run with context } post) :
    Ensures (ask work >>= f) run post :=
  (ensures_ask.2 (h.imp fun answer context ha => hf answer context ha)).bind fun _ _ h => h

lemma ensures_within {scope work} : Ensures (within scope work) run post ↔ Ensures work
    { run with body.useSite := scope } fun answer after =>
      post answer { after with body.useSite := run.body.useSite } := by
  unfold Ensures within
  cases work { run with body.useSite := scope } with
  | ok answer after => simp
  | error halt after => simp

end

namespace Tree.InFunction

variable {tree : Tree} {root : Nat} (h : tree.Rooted root) {function id inner : Nat}

include h

lemma ofChild (hf : tree.Declares DeclKind.isFunction function)
    (hc : inner ∈ tree.children function) : tree.InFunction function inner := by
  refine ⟨hf, h.encloses_child hc, fun other _ he => ?_⟩
  rcases h.encloses_parent hc he with rfl | he
  · exact le_rfl
  · exact he.2.le

/-- What is below a statement is in the same function. -/
lemma child (hf : tree.InFunction function id) (hs : tree.HasStmt id)
    (hc : inner ∈ tree.children id) : tree.InFunction function inner := by
  refine ⟨hf.declares, h.encloses_trans hf.declares.lt_size hf.encloses (h.encloses_child hc),
    fun other hother he => ?_⟩
  refine hf.least other hother ((h.encloses_parent hc he).resolve_left ?_)
  rintro rfl
  obtain ⟨_, hd, -⟩ := hother
  exact (decl_only hd).2.1 hs

end Tree.InFunction

lemma Program.Descends.enclosingFunction?_eq {base program : Program}
    {root} (h : base.Descends program) (hs : base.Surveyed root) {scope} (hscope : scope ≤ root) :
    program.enclosingFunction? scope = base.enclosingFunction? scope := by
  have hsize := hs.rooted.size_eq
  have hchain := hs.chain_eq_of_agree (fun id hid => h.scopeOf_eq id (by omega)) hscope
  have htest : program.tree.isFunction = base.tree.isFunction := funext h.isFunction_eq
  rw [enclosingFunction?, enclosingFunction?, hchain, htest]

namespace Check

/-! ### The body of a function -/

/-- What a run needs to go on in the body of a function. -/
structure Working (base : Program) (function rank depth : Nat) (run : Body.Run State) : Prop where
  signed : (run.context.signatures[function]?).isSome
  site : run.body.useSite = function ∨ base.tree.InFunction function run.body.useSite
  records : ∀ record ∈ run.body.returns, record.function = function ∧
  Plain base run.context record.expected
  afford : Affords base run.context rank depth

/-- From a run to a later one that has met the return statements inside of some nodes. -/
structure Onward (base : Program) (function : Nat) (nodes : List Nat) (run run' : Body.Run State) : Prop where
  useSite_eq : run'.body.useSite = run.body.useSite
  met : ∃ records, run'.body.returns = run.body.returns ++ records ∧
    Collected base run'.context function (fun id => ∃ node ∈ nodes, base.tree.Inside node id) records

/-- What checking a statement leads to. -/
structure Walked (base : Program) (function rank depth : Nat) (run run' : Body.Run State) (id : Nat)
    (good : Bool) : Prop extends Onward base function [id] run run' where
  working : Working base function rank depth run'
  judged : Judged base run'.body.returns run.context run'.context id good

section

variable {base : Program} {root : Nat} {region : Region} {start s' : State}
  {function rank depth id : Nat} {run run' run'' : Body.Run State} {records : List ReturnRecord}
  {good : Prop} {node : Node} {done rest nodes others : List Nat}

lemma Onward.returns (h : Onward base function nodes run run') : run.body.returns ⊆ run'.body.returns := by
  obtain ⟨_, heq, -⟩ := h.met
  exact heq ▸ subset_append_left _ _

/-- Nodes are passed that have no return statements. -/
lemma Onward.pass (h : ∀ node ∈ nodes, base.tree.NoReturn function node) (run : Body.Run State)
    (s' : State) : Onward base function nodes run { run with context := s' } :=
  ⟨rfl, [], by simp, collected_nil fun id hr hf ⟨node, hn, hi⟩ => h node hn id hr hf hi⟩

lemma Onward.evolves (h : Onward base function nodes run run') (he : Evolves base region run'.context s') :
    Onward base function nodes run { run' with context := s' } := by
  obtain ⟨records, heq, hc⟩ := h.met
  exact ⟨h.useSite_eq, records, heq, hc.evolves he⟩

protected lemma Onward.trans (h1 : Onward base function nodes run run')
    (h2 : Onward base function others run' run'')
    (he : Evolves base region run'.context run''.context) (hlt : ∀ x ∈ nodes, ∀ y ∈ others,
    x < base.tree.first y) : Onward base function (nodes ++ others) run run'' := by
  obtain ⟨records, heq, hc⟩ := h1.met
  obtain ⟨more, heq', hc'⟩ := h2.met
  refine ⟨h2.useSite_eq.trans h1.useSite_eq, records ++ more, by rw [heq', heq, append_assoc], ?_⟩
  refine ((hc.evolves he).append hc' ?_).congr fun id _ _ => ?_
  · rintro x y ⟨node, hn, hx⟩ ⟨other, ho, hy⟩
    exact lt_of_le_of_lt hx.2 (lt_of_lt_of_le (hlt node hn other ho) hy.1)
  · simp only [mem_append, or_and_right, exists_or]

/-- The return statements inside of a statement of another kind are those inside of its children. -/
lemma Onward.parent (hr : base.tree.Rooted root)
    (h : Onward base function (base.tree.children id) run run') (hid : id < base.tree.size)
    (hnot : ¬base.tree.IsReturn id) : Onward base function [id] run run' := by
  obtain ⟨records, heq, hc⟩ := h.met
  refine ⟨h.useSite_eq, records, heq, hc.congr fun inner hreturn _ => ?_⟩
  simp only [mem_singleton, exists_eq_left]
  constructor
  · rintro ⟨child, hchild, hin⟩
    obtain ⟨-, hlt, -, hfirst⟩ := hr.child hchild
    exact ⟨hfirst.trans hin.1, hin.2.trans hlt.le⟩
  · intro hin
    rcases hr.inside_cases hid hin with rfl | hchild
    · exact absurd hreturn hnot
    · exact hchild

lemma Working.evolves (h : Working base function rank depth run) (he : Evolves base region run.context s') :
    Working base function rank depth { run with context := s' } := by
  refine ⟨?_, h.site, fun record hr => (h.records record hr).imp_right (.mono he.faulty), h.afford.evolves he⟩
  obtain ⟨signature, hs⟩ := Option.isSome_iff_exists.1 h.signed
  exact Option.isSome_iff_exists.2 ⟨signature, he.signatures hs⟩

lemma Midway.records_subset {others ahead}
    (h : Midway base records good start s' id node done rest ahead) (hsub : records ⊆ others) :
    Midway base others good start s' id node done rest ahead :=
  ⟨{ h.toUnderway with
    cleared := fun hdiag hgood child hc => (h.cleared hdiag hgood child hc).records_subset hsub }, h.loose⟩

end

/-- What checking some of the children of a statement leads to. -/
structure Advanced (base : Program) (function rank depth : Nat) (good : Prop) (start : State)
    (run run' : Body.Run State) (id : Nat) (node : Node) (nodes done rest : List Nat)
    (sound : Bool) : Prop extends Onward base function nodes run run', Passed base run'.body.returns
    good start run.context run'.context id (.since base id 0) node done rest sound where
  working : Working base function rank depth run'

variable {run' : Body.Run State} {span : Span} {answer : Bool}

lemma Advanced.trans {base function rank depth}
    {good : Prop} {start run run''} {id node node' nodes nodes' done rest done' rest' first second}
    (h1 : Advanced base function rank depth good start run run' id node nodes done rest first)
    (h2 : Advanced base function rank depth (good ∧ first = true) start run' run''
    id node' nodes' done' rest' second) (hlt : ∀ x ∈ nodes, ∀ y ∈ nodes', x < base.tree.first y) :
    Advanced base function rank depth good start run run'' id node' (nodes ++ nodes')
    done' rest' (first && second) :=
  ⟨h1.toOnward.trans h2.toOnward h2.move.evolves hlt, h1.toPassed.trans h2.toPassed, h2.working⟩

/-- A way to check the statements that have numbers below a bound. -/
def Nests (base : Program) (function rank depth bound : Nat) (nested : StmtId → Body.Steps State Bool) : Prop :=
  ∀ {run : Body.Run State} {inner : Nat}, inner < bound → Ready base run.context inner → base.tree.HasStmt inner →
    base.tree.InFunction function inner → Working base function rank depth run →
    Ensures (nested inner) run fun good run' => Walked base function rank depth run run' inner good

variable {base : Program} {root : Nat} (hs : base.Surveyed root) {start : State}
  {run : Body.Run State} {function rank depth id : Nat} {good : Prop} {node : Node}
  {done rest : List Nat} {child : Nat}

include hs

lemma Ready.beginStmt {kind} (records : List ReturnRecord)
    (h : Ready base run.context id) (hn : base.tree.stmt? id = some ⟨kind, span⟩) :
    Midway base records True run.context run.context id (.stmt ⟨kind, span⟩)
    [] kind.children ∧ kind.Fits base.tree := by
  have hnode := stmt?_eq_some.1 hn
  have hmidway : Midway base records True run.context run.context id (.stmt ⟨kind, span⟩) [] (base.tree.children id) :=
    h.midway hs.rooted hnode (isBinding_of_stmt ⟨_, hn⟩)
  rw [children_of_node? hnode] at hmidway
  exact ⟨hmidway, (hs.rooted.below hnode).1⟩

lemma Midway.walked {nested} (hnested : Nests base function rank depth id nested)
    (h : Midway base run.body.returns good start run.context id node done (child :: rest))
    (hstmt : base.tree.HasStmt child) (hin : base.tree.InFunction function child)
    (hw : Working base function rank depth run) : Ensures (nested child) run fun answer run' =>
    Advanced base function rank depth good start run run' id node [child]
      (done ++ [child]) rest answer ∧ Step base (.below base child) run.context run'.context := by
  have hchild : child ∈ base.tree.children id := by simp [h.children]
  refine (hnested (hs.rooted.child hchild).2.1 (h.ready hs.rooted) hstmt hin hw).imp fun answer run' hwalked => ?_
  have hstep := hwalked.judged.step
  refine ⟨⟨hwalked.toOnward, ⟨?_, hstep.ofChild hs.rooted hchild (Nat.zero_le _),
    hwalked.judged.bad⟩, hwalked.working⟩, hstep⟩
  refine (h.records_subset hwalked.returns).next hs.rooted ?_ (fun hdiag hgood =>
    ⟨hgood.1, hwalked.judged.cleared hdiag hgood.2⟩) hwalked.judged.accounted hstep
  rintro ⟨decl, hd, -⟩
  exact absurd hstmt (decl_only hd).2.1

omit hs in
lemma ensures_stmt {ask found} (h : run.context.program.tree.stmt? id = some found) :
    Ensures (Body.stmt (collaborator ask) id) run fun answer run' => answer = found ∧ run' = run := by
  simp [Body.stmt, program, collaborator, h]

omit hs in
lemma ensures_scopeOfStmt_bind {ask what stmt}
    {f : ScopeId → Body.Steps State Bool} {post} (hd : base.Descends run.context.program)
    (hn : base.tree.stmt? id = some stmt) (hscope : Node.isScope (.stmt stmt)) :
    Ensures (scopeFor (collaborator ask) id what >>= f) run post ↔ Ensures (f id) run post := by
  have hnode := stmt?_eq_some.1 hn
  have : run.context.program.tree.scope? id = some id := by
    rw [hd.scope?_eq (lt_size hnode), scope?, isScope, hnode, Option.any_some, if_pos hscope]
  simp [scopeFor, program, collaborator, this]

lemma Midway.walk {kind} (h : Midway base run'.body.returns good run.context run'.context id
    (.stmt ⟨kind, span⟩) done [])
    (hstmt : base.tree.HasStmt id) (honward : Onward base function [id] run run')
    (hw : Working base function rank depth run') (hbad : answer = false → run'.context.Faulty base)
    (hgood : answer = true → good) (hrule : run'.context.diagnostics = [] →
    answer = true → (run'.context.typing base run'.body.returns).StmtRule True id kind) :
    Walked base function rank depth run run' id answer := by
  have hb := isBinding_of_stmt hstmt
  obtain ⟨stmt, hstmt⟩ := hstmt
  have haccounted : Accounted base run'.context id := by
    refine accounted_of_children hs.rooted h.lt_size (reckoned_of_other fun ⟨decl, hd, _⟩ => ?_)
      (by simpa [h.children] using h.accounted)
    exact absurd ⟨stmt, hstmt⟩ (decl_only hd).2.1
  refine ⟨honward, hw, h.below hb, hbad, fun hdiag hanswer => ⟨fun _ => ?_, fun hb' => by simp [hb] at hb'⟩, haccounted⟩
  exact h.finished hs.rooted hdiag (hgood hanswer) ⟨_, h.current, hrule hdiag hanswer⟩
    (.other (stmt?_eq_some.1 hstmt) (by simp))

/-- All the children of a statement that returns nothing itself were checked. -/
lemma Advanced.walk {kind found nodes}
    (h : Advanced base function rank depth True run.context run run' id (.stmt ⟨kind, span⟩) nodes
    done [] answer) (hn : base.tree.stmt? id = some ⟨found, span⟩) (hnot : ¬base.tree.IsReturn id)
    (hnodes : base.tree.children id = nodes) (hrule : run'.context.diagnostics = [] →
    answer = true → (run'.context.typing base run'.body.returns).StmtRule True id kind) :
    Walked base function rank depth run run' id answer := by
  subst hnodes
  exact h.midway.walk hs ⟨_, hn⟩ (h.toOnward.parent hs.rooted h.midway.lt_size hnot) h.working h.bad
    (fun hanswer => ⟨trivial, hanswer⟩) hrule

variable {ask : Answerer} (ha : Answers base depth ask)

include ha

lemma Midway.settled {records s}
    (expected : Option Ty) (h : Midway base records good start s id node done (child :: rest))
    (he : base.tree.HasExpr child) (hexpected : ∀ type ∈ expected, Known base s type)
    (hrank : id < rank) (hafford : Affords base s rank depth) (useSite : ScopeId)
    (policy : FreePolicy) : Ensures (checkExpr ask child expected useSite policy) s
    fun checked s' => Settled base s s' child expected checked ∧ Handed base records (good ∧
      checked.type.hasErrors = false) start s' id node (done ++ [child]) rest checked.expr := by
  have hlt := (hs.rooted.child (show child ∈ base.tree.children id by simp [h.children])).2.1
  refine (ensures_checkExpr hs ha (h.ready hs.rooted) he hexpected (hafford.mono (by omega)) useSite policy).imp ?_
  intro checked s' hsettled
  exact ⟨hsettled, h.nextExpr hs he hsettled.move fun hdiag hgood => ⟨hgood.1,
    (hsettled.done hdiag hgood.2).1⟩, fun hl => (hsettled.loose hl).imp_right h.loose⟩

/-! ### Return statements -/

omit ha in
/-- A run in the body of a function sees the function around it. -/
lemma isWithin_site {program} (hd : base.Descends program)
    {site} (hf : base.tree.Declares DeclKind.isFunction function) (hsite : site = function ∨
    base.tree.InFunction function site) : program.isWithin site function := by
  have hsize := hs.rooted.size_eq
  have hroot : function < root := by
    refine hs.rooted.lt_root hf.lt_size fun hm => ?_
    obtain ⟨⟨kind, _⟩, hdecl, hk⟩ := hf
    rw [declares_iff hdecl] at hm
    cases kind <;> simp_all [DeclKind.isFunction, DeclKind.isModule]
  have hle : site ≤ root := by
    rcases hsite with rfl | hin
    · exact hroot.le
    · exact (hin.encloses.2.trans hroot).le
  have hchain := hs.chain_eq_of_agree (fun id hid => hd.scopeOf_eq id (by omega)) hle
  rw [Program.isWithin, hchain, hs.chain_eq hle, contains_iff_mem, mem_cons]
  rcases hsite with rfl | hin
  · exact .inl rfl
  · obtain ⟨_, houter⟩ := Option.isSome_iff_exists.1 (hs.scopeOf_isSome (hin.encloses.2.trans hroot))
    rw [houter]
    exact .inr (hs.mem_chain_of_inFunction hin houter)

omit ha in
lemma ensures_returnTarget (hi : Inv base run.context) (hin : base.tree.InFunction function id)
    (hroot : id < root) (hw : Working base function rank depth run) :
    Ensures (returnTarget (collaborator ask) id) run fun answer run' => ∃ s',
    run' = { run with context := s' } ∧ Step base .nowhere run.context s' ∧ answer.1 = function ∧
      s'.returnType? function = some answer.2 ∧ Plain base s' answer.2 := by
  obtain ⟨scope, hscope⟩ := Option.isSome_iff_exists.1 (hs.scopeOf_isSome hroot)
  have hlt : id < base.tree.size := by have := hs.rooted.size_eq; omega
  have hfunction : (run.context.program.scopeOf id).bind run.context.program.enclosingFunction? = some function := by
    rw [hi.descends.scopeOf_eq id hlt, hscope, Option.bind_some,
      hi.descends.enclosingFunction?_eq hs (hs.le_root_of_scopeOf hscope), hs.enclosingFunction?_eq hin hscope]
  obtain ⟨signature, hsignature⟩ := Option.isSome_iff_exists.1 hw.signed
  have houtput : Plain base run.context signature.output := (hi.signatures hsignature).2.1
  unfold returnTarget
  simp only [program, bind_assoc, pure_bind, ensures_get_bind, collaborator, hfunction, hsignature]
  split
  next hparams =>
    obtain ⟨_, hd, -⟩ := hin.declares
    refine (ensures_genericsOf hs hi.toCore hd).askBind ?_
    rintro found s1 ⟨h1, hfound⟩
    have hstep := h1.step hs.rooted hi .nowhere
    have htype : s1.returnType? function = some (found.elim .error fun generics =>
        generics.inside signature.output) := by
      simp [State.returnType?, hstep.evolves.signatures hsignature, hparams, hfound]
    cases found with
    | none => exact ensures_pure.2 ⟨s1, rfl, hstep, rfl, htype, plain_error (.inl (h1.core.generics hfound))⟩
    | some generics =>
      obtain ⟨_, _, -, hcollects⟩ := h1.core.generics hfound
      have hwithin : s1.program.isWithin run.body.useSite generics.scope :=
        hcollects.scope_eq.symm ▸ isWithin_site hs hstep.inv.descends hin.declares hw.site
      refine ensures_get_bind.2 ((ensures_instantiate_inside hcollects
        (houtput.mono hstep.evolves.faulty) hwithin).askBind ?_)
      rintro answer _ ⟨rfl, hanswer, hplain⟩
      exact ensures_pure.2 ⟨_, rfl, hstep, rfl, htype.trans (congrArg some hanswer.symm), hplain⟩
  next hparams =>
    exact ensures_pure.2 ⟨run.context, rfl, .refl hi, rfl, by simp [State.returnType?, hsignature, hparams], houtput⟩

lemma ensures_checkReturn {value} (hready : Ready base run.context id)
    (hn : base.tree.stmt? id = some ⟨.ret value, span⟩) (hin : base.tree.InFunction function id)
    (hrank : id < rank) (hw : Working base function rank depth run) :
    Ensures (checkReturn (collaborator ask) id value) run fun good run' =>
      Walked base function rank depth run run' id good := by
  have hstmt : base.tree.HasStmt id := ⟨_, hn⟩
  obtain ⟨hmidway, hvalue⟩ := hready.beginStmt hs run.body.returns hn
  have hroot : id < root := by
    refine hs.rooted.lt_root hmidway.lt_size ?_
    rintro ⟨decl, hd, -⟩
    exact (decl_only hd).2.1 hstmt
  refine (ensures_returnTarget hs hready.inv hin hroot hw).bind ?_
  rintro ⟨found, expected⟩ _ ⟨s1, rfl, h1, hfound, htype, hplain⟩
  obtain rfl : function = found := hfound.symm
  refine ensures_modify_bind.2 ?_
  -- the run with the record of the statement
  generalize hrun1 : Body.Run.mk { run.body with returns := run.body.returns ++ [⟨id, function, expected⟩] } s1 = run1
  have honward1 : Onward base function [id] run run1 := by
    subst hrun1
    exact ⟨rfl, _, rfl, collected_return hs.rooted ⟨_, _, hn⟩ hin htype⟩
  have hmidway1 : Midway base run1.body.returns True run.context run1.context id
      (.stmt ⟨.ret value, span⟩) [] value.toList :=
    hrun1 ▸ (hmidway.quiet hs.rooted h1).records_subset (subset_append_left _ _)
  have hw1 : Working base function rank depth run1 := by
    subst hrun1
    exact { hw.evolves h1.evolves with
      records := forall_mem_append.2 ⟨(hw.evolves h1.evolves).records, forall_mem_singleton.2 ⟨rfl, hplain⟩⟩ }
  have hplain1 : Plain base run1.context expected := hrun1 ▸ hplain
  have hrecord : ⟨id, function, expected⟩ ∈ run1.body.returns := by simp [← hrun1]
  clear hrun1
  cases value with
  | none =>
    simp only [ensures_get_bind]
    split
    next =>
      refine (ensures_stmt (stmt?_eq_some.2 hmidway1.current)).read ?_
      refine ensures_modify_bind.2 (ensures_pure.2 ?_)
      have hreported : Reported run1.context ((collaborator ask).report ⟨.missingReturnValue,
          span.start⟩ run1.context) :=
        ⟨[_], by simp [Problem.isNonConforming], rfl⟩
      have hstep := hreported.step hs.rooted hmidway1.inv .nowhere
      refine (hmidway1.quiet hs.rooted hstep).walk hs hstmt (honward1.evolves hstep.evolves)
        (hw1.evolves hstep.evolves) (fun _ => .inl ?_) (by simp) (by simp)
      exact append_ne_nil_of_right_ne_nil _ (cons_ne_nil _ _)
    next =>
      exact ensures_pure.2 (hmidway1.walk hs hstmt honward1 hw1 (by simp) (fun _ => trivial)
        fun _ _ => by simp [Typing.StmtRule])
  | some expr =>
    have he : base.tree.HasExpr expr := hvalue expr rfl
    have hsettled := hmidway1.settled hs ha (some expected) he (by simpa using hplain1.known) hrank hw1.afford
    refine ensures_get_bind.2 ((hsettled _ _).askBind ?_)
    rintro checked s2 ⟨h2, hhanded⟩
    have h3 := hhanded.store hs h2 he [] [] (stmt?_eq_some.1 hn) (.stmt (.ret h2.packs)) rfl rfl
    refine ensures_updateSlots_bind (Tree.updateStmt_eq hhanded.current rfl)
      (ensures_pure.2 (h3.midway.walk hs hstmt (honward1.evolves h3.move.evolves)
      (hw1.evolves h3.move.evolves) h3.bad (fun hanswer => ⟨trivial, hanswer⟩)
      fun hdiag hanswer => ?_))
    rintro _ ⟨⟩
    exact ⟨_, ⟨function, expected, .inl hrecord, rfl⟩, h3.holds hdiag hanswer expected rfl⟩

/-! ### Statements of all kinds -/

section

variable {nested : StmtId → Body.Steps State Bool}
  (hnested : Nests base function rank depth id nested) {span : Span}
  (hready : Ready base run.context id) (hin : base.tree.InFunction function id) (hrank : id < rank)
  (hw : Working base function rank depth run)

include hnested hready hin hrank hw

lemma ensures_checkItems {α : Type} (row : Body.Row α)
    {all} (hn : base.tree.stmt? id = some ⟨row.kind all, span⟩) (hfits : ∀ item ∈ all,
    (row.view item).Fits base.tree) (hexpected : ∀ s, ∀ type ∈ row.expected, Known base s type) :
    Ensures (inTurn (checkItem (collaborator ask) nested id row) 0 all) run fun sound run' =>
    ∃ slots,
      Onward base function (nodesOf row.view all) run run' ∧ Working base function rank depth run' ∧
      Tested row.view base run'.body.returns True run.context run.context run'.context id (.stmt
      ⟨row.kind slots, span⟩) all slots row.tail row.expected sound := by
  obtain ⟨hmidway, -⟩ := hready.beginStmt hs run.body.returns hn
  rw [row.children_eq] at hmidway
  refine (ensures_inTurn (I := fun done rest sound run' => ∃ slots,
    Onward base function (nodesOf row.view done) run run' ∧ Working base function rank depth run' ∧
    Tested row.view base run'.body.returns True run.context run.context run'.context id
      (.stmt ⟨row.kind (slots ++ rest), span⟩) done slots (nodesOf row.view rest ++ row.tail)
      row.expected sound) all ?_ ⟨[], .pass (by simp) run run.context, hw, hmidway.tested⟩).imp ?_
  swap
  · grind
  rintro done item rest sound run0 hall ⟨slots, honward, hw0, h⟩
  have hitem := hfits item (by simp [hall])
  have hdone (other : α) (ho : other ∈ done) : (row.view other).Fits base.tree := hfits other (by simp [hall, ho])
  have hchild : (row.view item).node ∈ base.tree.children id := by simp [h.midway.children]
  have hinside := hin.child hs.rooted ⟨_, hn⟩ hchild
  -- one more item was checked
  have hsnoc {run1 slot first region}
      (honward1 : Onward base function [(row.view item).node] run0 run1)
      (hw1 : Working base function rank depth run1)
      (he : Evolves base region run0.context run1.context)
      (h1 : Tested row.view base run1.body.returns True run.context run.context run1.context id
        (.stmt ⟨row.kind (slots ++ slot :: rest), span⟩) (done ++ [item]) (slots ++ [slot])
        (nodesOf row.view rest ++ row.tail) row.expected first) : ∃ slots, Onward base function
      (nodesOf row.view (done ++ [item])) run run1 ∧ Working base function rank depth run1 ∧
      Tested row.view base run1.body.returns True run.context run.context run1.context id
        (.stmt ⟨row.kind (slots ++ rest), span⟩)
        (done ++ [item]) slots (nodesOf row.view rest ++ row.tail) row.expected first := by
    refine ⟨slots ++ [slot], ?_, hw1, by rwa [append_assoc]⟩
    rw [nodesOf, map_append]
    exact honward.trans honward1 he (by simpa using (Underway.child_lt hs.rooted h.midway.children).1)
  rw [show nodesOf row.view (item :: rest) = (row.view item).node :: nodesOf row.view rest from rfl] at h
  unfold checkItem
  cases hview : row.view item with
  | decl decl =>
    rw [hview] at h hitem hinside
    have hdecl : base.tree.Declares DeclKind.isItem decl :=
      hitem.imp fun found hd => ⟨hd.1, by simp [DeclKind.isItem, hd.2]⟩
    refine ensures_ask.2 ((h.midway.judged hs.rooted ha hdecl hw0.afford).imp ?_)
    rintro first s1 ⟨_, h1⟩
    refine hsnoc (.pass ?_ _ _) (hw0.evolves h1.move.evolves) h1.move.evolves
      (h.other hs.rooted hdone (congrArg _ hview) (by simp [hview]) h1)
    simpa [hview] using hinside.noReturn hs.rooted hitem
  | stmt inner =>
    rw [hview] at h hitem hinside hchild hsnoc
    refine (h.midway.walked hs hnested hitem hinside hw0).imp ?_
    rintro first run1 ⟨h1, hstep⟩
    exact hsnoc h1.toOnward h1.working hstep.evolves (h.other hs.rooted hdone (congrArg _ hview)
      (by simp [hview]) ⟨h1.midway, hstep.ofChild hs.rooted hchild le_rfl, h1.bad⟩)
  | expr expr =>
    rw [hview] at h hitem hsnoc
    refine ensures_get_bind.2
      ((h.midway.settled hs ha row.expected hitem (hexpected _) hrank hw0.afford _ _).askBind ?_)
    rintro checked s1 ⟨h1, hhanded⟩
    have hslot := row.view_ofExpr checked.expr
    have hpatched : (row.kind all).Patched s1.program.tree.Packs
        (row.kind (slots ++ row.ofExpr checked.expr :: rest)) := by
      rw [hall]
      exact row.patched_iff.2 ⟨_, rfl, h.patched_next hs.rooted item _ hview hslot h1.move.evolves h1.packs rest⟩
    have h2 := hhanded.store hs h1 hitem (nodesOf row.view slots) (nodesOf row.view rest ++ row.tail)
      (stmt?_eq_some.1 hn) (.stmt hpatched) (by simp [Node.children, row.children_eq, hview])
      (by simp [Node.children, row.children_eq, hslot])
    have hset : row.store done.length checked.expr (row.kind (slots ++ item :: rest)) =
        some (row.kind (slots ++ row.ofExpr checked.expr :: rest)) := by
      simp [row.store_eq, Tree.setSlot, h.patched.length_eq]
    have hpass : ∀ node ∈ [expr], base.tree.NoReturn function node := by
      simpa using Tree.Inner.noReturn (.inl hitem) hs.rooted
    exact ensures_updateSlots_bind (Tree.updateStmt_eq hhanded.current hset) (ensures_pure.2 (hsnoc (.pass hpass _ _)
      (hw0.evolves h2.move.evolves) h2.move.evolves (h.stored hs.rooted hdone hview hslot h2)))

lemma ensures_checkBlock {members} (hn : base.tree.stmt? id = some ⟨.block members, span⟩) :
    Ensures (Body.checkKind (collaborator ask) nested id (.block members)) run fun answer run' =>
      Walked base function rank depth run run' id answer := by
  have hnode := stmt?_eq_some.1 hn
  simp only [Body.checkKind, Body.checkMembers_eq]
  refine (ensures_scopeOfStmt_bind hready.inv.descends hn rfl).2 ?_
  have hinside : Working base function rank depth { run with body.useSite := id } :=
    ⟨hw.signed, .inr hin, hw.records, hw.afford⟩
  refine ensures_within.2 ((ensures_checkItems hs ha hnested (by exact hready)
    hin hrank hinside .block hn (hs.rooted.below hnode).1 (by rintro _ _ ⟨⟩)).imp ?_)
  rintro answer after ⟨slots, honward, hw1, h1⟩
  have honward : Onward base function (base.tree.children id) run { after with body.useSite := run.body.useSite } :=
    ⟨rfl, children_of_node? hnode ▸ honward.met⟩
  exact Midway.walk hs h1.midway ⟨_, hn⟩
    (honward.parent hs.rooted h1.midway.lt_size (not_isReturn hn (by simp))) ⟨hw1.signed, hw.site,
    hw1.records, hw1.afford⟩ h1.bad (fun hanswer => ⟨trivial, hanswer⟩) fun _ _ => trivial

/-- A statement with a condition: the clauses are checked first, and then the statement behind
them. -/
lemma ensures_checkTested (row : Body.Row ConditionItem) {items head tail}
    (hview : row.view = ConditionItem.asMember) (hexpected : row.expected = some .bool)
    (htail : row.tail = head :: tail) (hn : base.tree.stmt? id = some ⟨row.kind items, span⟩)
    (hfits : ∀ item ∈ items, item.Fits base.tree) (hhead : base.tree.HasStmt head)
    {f : Bool → Bool → Body.Steps State Bool} {post} (hf : ∀ {tested taken run1 slots},
    Advanced base function rank depth True run.context run run1 id
        (.stmt ⟨row.kind slots, span⟩) (items.map ConditionItem.node ++ [head])
        (items.map ConditionItem.node ++ [head]) tail (tested && taken) →
      (∀ {s'} records, Move base (.since base id (base.tree.first head)) run1.context s' →
      s'.diagnostics = [] → tested && taken → (s'.typing base records).Tests True slots) →
        Ensures (f tested taken) run1 post) :
    Ensures (inTurn (checkItem (collaborator ask) nested id row) 0 items >>= fun tested =>
    nested head >>= f tested) run post := by
  have hfits' (item : ConditionItem) (hi : item ∈ items) : (row.view item).Fits base.tree :=
    hview ▸ (hfits item hi).asMember
  refine (ensures_checkItems hs ha hnested hready hin hrank hw row hn hfits' fun s =>
    hexpected ▸ known_bool base s).bind ?_
  rintro tested run1 ⟨slots, honward, hw1, h1⟩
  rw [hview, hexpected, htail] at h1
  simp only [hview, nodesOf, ConditionItem.node_asMember] at honward
  have hadvanced :
      Advanced base function rank depth True run.context run run1 id (.stmt ⟨row.kind slots, span⟩)
      (items.map ConditionItem.node) (items.map ConditionItem.node) (head :: tail) tested :=
      ⟨honward, by simpa [nodesOf] using h1.toPassed, hw1⟩
  have hchildren := hadvanced.midway.children
  have hchild : head ∈ base.tree.children id := by simp [hchildren]
  refine (hadvanced.midway.walked hs hnested hhead (hin.child hs.rooted ⟨_, hn⟩ hchild) hw1).bind ?_
  rintro taken run2 ⟨h2, hstep⟩
  refine hf (hadvanced.trans h2 (by simpa using (Underway.child_lt hs.rooted hchildren).1))
    fun records hmove hdiag hgood => ?_
  exact (h1.keeps hs.rooted (fun item hi =>
    (hfits item hi).asMember) ((hstep.ofChild hs.rooted hchild le_rfl).trans hmove).evolves
    hdiag (Bool.and_eq_true_iff.1 hgood).1).tests base records

variable {condition : List ConditionItem} {body : StmtId}

lemma ensures_checkConditional {success failure}
    (hn : base.tree.stmt? id = some ⟨.cond condition success failure, span⟩) :
    Ensures (Body.checkKind (collaborator ask) nested id (.cond condition success failure)) run fun answer run' =>
      Walked base function rank depth run run' id answer := by
  obtain ⟨hfits, hsuccess, hfailure⟩ := (hs.rooted.below (stmt?_eq_some.1 hn)).1
  refine (ensures_scopeOfStmt_bind hready.inv.descends hn rfl).2 ?_
  rw [Body.checkConditions_eq _ nested]
  refine ensures_checkTested hs ha hnested hready hin hrank hw (.cond id success failure)
    rfl rfl rfl hn hfits hsuccess.hasStmt fun {tested taken run1 slots} h1 htests => ?_
  have hnot := not_isReturn hn (by simp)
  have hchildren := h1.midway.children
  cases failure with
  | none =>
    refine ensures_pure.2 ?_
    rw [Bool.and_true]
    exact h1.walk hs hn hnot (hchildren.trans (append_nil _)) (htests _ (.refl h1.midway.inv))
  | some failure =>
    have hother : failure ∈ base.tree.children id := by simp [hchildren]
    refine (h1.midway.walked hs hnested (hfailure failure rfl).hasStmt
      (hin.child hs.rooted ⟨_, hn⟩ hother) h1.working).bind ?_
    rintro other run2 ⟨h2, hstep⟩
    refine ensures_pure.2 ?_
    have hlater := (Underway.child_lt hs.rooted hchildren).1
    have hfirst := (hs.rooted.child (show success ∈ base.tree.children id by simp [hchildren])).2.2.1
    have hmove := hstep.ofChild hs.rooted hother (hfirst.trans (hlater success (by simp)).le)
    exact (h1.trans h2 (by simpa using hlater)).walk hs hn hnot hchildren fun hdiag hanswer =>
      htests _ hmove hdiag (Bool.and_eq_true_iff.1 hanswer).1

lemma ensures_checkWhile (hn : base.tree.stmt? id = some ⟨.whileLoop condition body, span⟩) :
    Ensures (Body.checkKind (collaborator ask) nested id (.whileLoop condition body)) run fun answer run' =>
      Walked base function rank depth run run' id answer := by
  obtain ⟨hfits, hbody⟩ := (hs.rooted.below (stmt?_eq_some.1 hn)).1
  refine (ensures_scopeOfStmt_bind hready.inv.descends hn rfl).2 ?_
  rw [Body.checkConditions_eq _ nested]
  refine ensures_checkTested hs ha hnested hready hin hrank hw
    (.whileLoop id body) rfl rfl rfl hn hfits hbody.hasStmt fun h1 htests => ensures_pure.2 ?_
  exact h1.walk hs hn (not_isReturn hn (by simp)) (h1.midway.children.trans (append_nil _))
    (htests _ (.refl h1.midway.inv))

lemma ensures_checkDoWhile {condition}
    (hn : base.tree.stmt? id = some ⟨.doWhile body condition, span⟩) : Ensures (Body.checkKind
    (collaborator ask) nested id (.doWhile body condition)) run fun answer run' =>
      Walked base function rank depth run run' id answer := by
  obtain ⟨hmidway, hbody, hcondition⟩ := hready.beginStmt hs run.body.returns hn
  have hchildren : base.tree.children id = [] ++ body :: [condition] := hmidway.children
  have hchild : body ∈ base.tree.children id := by simp [hchildren]
  refine (Midway.walked hs hnested hmidway hbody.hasStmt (hin.child hs.rooted ⟨_, hn⟩ hchild) hw).bind ?_
  rintro repeated run1 ⟨h1, _⟩
  obtain ⟨_, _, hblock⟩ := hbody
  refine (ensures_scopeOfStmt_bind h1.midway.inv.descends hblock rfl).2 ?_
  refine ensures_get_bind.2 ((h1.midway.settled hs ha (some .bool) hcondition
    (known_bool base _) hrank h1.working.afford _ _).askBind ?_)
  rintro checked s2 ⟨h2, hhanded⟩
  have h3 := hhanded.store hs h2 hcondition [body] [] (stmt?_eq_some.1 hn) (.stmt (.doWhile h2.packs)) rfl rfl
  have hpass : ∀ node ∈ [condition], base.tree.NoReturn function node := by
    simpa using Tree.Inner.noReturn (.inl hcondition) hs.rooted
  have h4 := h1.trans ⟨.pass hpass run1 _, ⟨h3.midway, h3.move.since (Nat.zero_le _), h3.bad⟩,
    h1.working.evolves h3.move.evolves⟩ (by simpa using (Underway.child_lt hs.rooted hchildren).2)
  refine ensures_updateSlots_bind (Tree.updateStmt_eq hhanded.current rfl)
    (ensures_pure.2 (h4.walk hs hn (not_isReturn hn (by simp)) hchildren fun hdiag hanswer => ?_))
  have hholds := h3.holds hdiag (Bool.and_eq_true_iff.1 hanswer).2 _ rfl
  rwa [Holds, resolve_bool] at hholds

end

lemma ensures_checkWithin : ∀ (level : Nat) {id run}, id < level → Ready base run.context id →
    base.tree.HasStmt id → base.tree.InFunction function id → id < rank → Working base function rank depth run →
    Ensures (Body.checkWithin (collaborator ask) level id) run fun good run' =>
      Walked base function rank depth run run' id good
  | level + 1, id, run, hlt, hready, hstmt, hin, hrank, hw => by
    obtain ⟨⟨kind, span⟩, hn⟩ := hstmt
    have hnested : Nests base function rank depth id (Body.checkWithin (collaborator ask) level) := by
      intro run inner hinner hready hstmt hin hw
      exact ensures_checkWithin level (by omega) hready hstmt hin (hinner.trans hrank) hw
    obtain ⟨hmidway, -⟩ := hready.beginStmt hs [] hn
    refine (ensures_stmt (stmt?_eq_some.2 hmidway.current)).read ?_
    cases kind with
    | block members => exact ensures_checkBlock hs ha hnested hready hin hrank hw hn
    | ret value => exact ensures_checkReturn hs ha hready hn hin hrank hw
    | cond condition success failure => exact ensures_checkConditional hs ha hnested hready hin hrank hw hn
    | whileLoop condition body => exact ensures_checkWhile hs ha hnested hready hin hrank hw hn
    | doWhile body condition => exact ensures_checkDoWhile hs ha hnested hready hin hrank hw hn

/-- The numbers below a statement are smaller, so the depth that its tree allows is enough. -/
lemma ensures_check (hready : Ready base run.context id)
    (hstmt : base.tree.HasStmt id) (hin : base.tree.InFunction function id) (hrank : id < rank)
    (hw : Working base function rank depth run) : Ensures (check (collaborator ask) id) run
    fun good run' => Walked base function rank depth run run' id good := by
  obtain ⟨stmt, hn⟩ := hstmt
  have hsize := (lt_size (stmt?_eq_some.1 hn)).trans_le hready.inv.descends.size_le
  exact ensures_get_bind.2 (ensures_checkWithin hs ha _ (Nat.lt_succ_of_lt hsize) hready ⟨stmt, hn⟩ hin hrank hw)

end Check

end TraitLang
