import TraitLang.Proofs.Statements

/-! Verdicts. A declaration is checked once, with everything in it, and only where checking comes by
the place where it stands. No question goes deeper than the number of nodes allows, so all of them
are answered. -/
namespace TraitLang.Check

open TraitLang.Tree Bool List

/-! ### The parts of a declaration -/

section

variable {base : Program} {root : Nat} (hr : base.tree.Rooted root) {start s : State}
  {records : List ReturnRecord} {good : Prop} {id : Nat} {node : Node} {done rest : List Nat}

/-- What verdicts were given is no part of what was recorded about nodes. -/
lemma Done.verdict {top} (h : Done base records s top) (verdicts : NodeMap Bool) :
    Done base records { s with verdicts } top :=
  fun other hi hu => { h other hi hu with meant := (h other hi hu).meant.congr rfl rfl }

/-- Return statements that were entered need not be kept apart any more. -/
lemma Done.enter {top function} (h : Done base records s top) (hown : ∀ record ∈ records, record.function = function) :
    Done base [] { s with returns := s.returns.insert function (s.returns.getD function [] ++ records) } top := by
  have hmem {id record} := @mem_getD_insert_append s.returns function records id record
  generalize s.returns.insert function (s.returns.getD function [] ++ records) = returns at hmem ⊢
  intro id hi hu
  obtain ⟨hrule, hbindings, hmeant⟩ := h id hi hu
  refine ⟨?_, hbindings, hmeant.congr rfl rfl⟩
  refine Typing.Rule.refine (.inl fun h =>
    h) [] (show (State.typing base [] { s with returns }).program = (s.typing base records).program
    from rfl) rfl (fun _ ht => ht) (fun _ _ _ ht => ht) (fun _ _ _ hc => ⟨hc, fun _ ht => ht⟩)
    (fun _ _ ht => ht) (fun _ _ ht => ht) ?_ hrule
  rintro type ⟨found, expected, hrecord, ht⟩
  exact ⟨found, expected, .inr (hmem.2 (hrecord.symm.imp_right fun hrecord => ⟨(hown _ hrecord).symm, hrecord⟩)), ht⟩

include hr

lemma Midway.enter (h : Midway base records good start s id node done [])
    (hf : base.tree.Declares DeclKind.isFunction id) (hown : ∀ record ∈ records,
    record.function = id ∧ Plain base s record.expected) : Midway base [] good start
    { s with returns := s.returns.insert id (s.returns.getD id [] ++ records) } id node done
    [] := by
  have hb := isBinding_of_declares hf fun _ => rfl
  have hstep := step_returns hr h.inv id (fun record hrecord => (hown record hrecord).2)
    (unit_of_not_binding hb ▸ h.isOpen)
  have hmove : Move base (.single base id) s _ :=
    hstep.toMove.weaken (.inr ⟨(unit_of_not_binding hb).symm, le_rfl, le_rfl⟩)
  refine ⟨{ h.self hr hmove h.current h.blank with cleared := fun hdiag hgood child hc => ?_ }, h.loose⟩
  obtain ⟨hdone, hbinding⟩ := h.cleared hdiag hgood child hc
  exact ⟨fun hb => (hdone hb).enter fun record hrecord => (hown record hrecord).1, hbinding⟩

/-- Parameters that have types need no checking of their own. -/
lemma Midway.params : ∀ {params done}, Midway base records good start s id node done
    (params ++ rest) → (∀ param ∈ params, base.tree.Declares DeclKind.isGenericParam param ∨
      base.tree.Declares DeclKind.isParam param ∧ (s.declTypes[param]?).isSome) →
    Midway base records good start s id node (done ++ params) rest
  | [], done, h, _ => by simpa using h
  | param :: params, done, h, hparams => by
    have hlt := (hr.child (show param ∈ base.tree.children id by simp [h.children])).2.1.trans h.lt_size
    have hparam : ∃ kind span, base.tree.decl? param = some ⟨kind, span⟩ ∧ kind.isBinding = false ∧
        kind.isVar = false ∧ (kind.isFunction || kind.isProduct) = false ∧ kind.children = [] ∧
        (s.typing base records).DeclRule True param kind := by
      rcases hparams param (by simp) with ⟨⟨kind, span⟩, hd, hk⟩ | ⟨⟨⟨kind, span⟩, hd, hk⟩, htyped⟩
      · cases kind with
        | genericParam name => exact ⟨_, _, hd, rfl, rfl, rfl, rfl, trivial⟩
        | _ => cases hk
      · obtain ⟨type, ht⟩ := Option.isSome_iff_exists.1 htyped
        cases kind with
        | param name ascription =>
          exact ⟨_, _, hd, rfl, rfl, rfl, rfl, s.solver.resolve type, by simp [State.typing, State.declType?, ht]⟩
        | _ => cases hk
    obtain ⟨_, _, hd, hbinding, hvar, hfunction, hchildren, hrule⟩ := hparam
    have hb : base.tree.isBinding param = false := by simpa [isBinding, hd] using hbinding
    have hcurrent := h.inv.descends.decl?_of_not_binding hd hbinding
    have hdone : Done base records s param := by
      refine .node hr hlt ⟨_, decl?_eq_some.1 hcurrent, hrule⟩ (.other (decl?_eq_some.1 hd) (by simp)) ?_
      simp [children_of_node? (decl?_eq_some.1 hd), Node.children, hchildren]
    have haccounted : Accounted base s param := by
      refine accounted_of_children hr hlt (reckoned_of_other fun hother => ?_) ?_
      · exact absurd ((declares_iff hd).1 hother) (by simp [hfunction])
      · simp [children_of_node? (decl?_eq_some.1 hd), Node.children, hchildren]
    have hnext : Midway base records good start s id node (done ++ [param]) (params ++ rest) := by
      refine h.next hr ?_ (fun _ hgood =>
        ⟨hgood, fun _ => hdone, fun hb' => by simp [hb] at hb'⟩) haccounted (.refl h.inv)
      simp [declares_iff hd, hvar]
    simpa using hnext.params fun other ho => hparams other (mem_cons_of_mem _ ho)

lemma Midway.judge {kind span answer}
    (h : Midway base [] good start s id (.decl ⟨kind, span⟩) done [])
    (hd : base.tree.Declares (fun kind => !kind.isBinding) id) (hbad : answer = false →
    s.Faulty base) (hgood : answer = true → good) (hrule : (s.typing base []).DeclRule True id kind)
    (hown : Reckoned base s id) : Judged base [] start s id answer := by
  have hb : base.tree.isBinding id = false := isBinding_of_declares hd fun _ => rfl
  refine ⟨h.below hb, hbad, fun hdiag hanswer => ⟨fun _ => ?_, fun hb' => by simp [hb] at hb'⟩,
    accounted_of_children hr h.lt_size hown (by simpa [h.children] using h.accounted)⟩
  obtain ⟨_, hd, -⟩ := hd
  exact h.finished hr hdiag (hgood hanswer) ⟨_, h.current, hrule⟩ (.other (decl?_eq_some.1 hd) (by simp))

end

section

variable {base : Program} {root : Nat} (hs : base.Surveyed root) {start s : State}
  {id rank depth : Nat} {good : Prop} {node : Node} {ask : Answerer} (ha : Answers base depth ask)

include hs ha

lemma ensures_verdicts : ∀ (members : List Nat) {done good s},
    (∀ member ∈ members, base.tree.Declares DeclKind.isItem member) →
    Midway base [] good start s id node done members → Affords base s rank depth →
    Ensures (verdicts ask members) s fun answer s' =>
      Midway base [] (good ∧ answer = true) start s' id node (done ++ members) [] ∧
        (s.Faulty base ∨ answer = false → s'.Faulty base) ∧
        ∀ product : Nat, (s.conformances[product]?).isSome → (s'.conformances[product]?).isSome
  | [], done, good, s, _, h, _ => ensures_pure.2 ⟨by simpa using h, by simp, fun _ hp => hp⟩
  | member :: members, done, good, s, hitems, h, hafford => by
    refine (h.judged hs.rooted ha (hitems member (by simp)) hafford).bind ?_
    rintro first s1 ⟨hstep, h1⟩
    refine (ensures_verdicts members (fun other ho => hitems other (mem_cons_of_mem _ ho)) h1.midway
      (hafford.evolves hstep.evolves)).bind ?_
    rintro second s2 ⟨h2, hbad2, hkept⟩
    rw [append_assoc, singleton_append] at h2
    refine ensures_pure.2 ⟨h2.both, ?_, fun product hp => hkept product (hstep.isSome_conformances hp)⟩
    rintro (hf | hwrong)
    · exact hbad2 (.inl (hstep.evolves.faulty hf))
    · exact hbad2 ((and_eq_false_iff.1 hwrong).imp_left h1.bad)

/-! ### Functions -/

lemma ensures_checkBody {function body} (hf : base.tree.Declares DeclKind.isFunction function)
    (hc : body ∈ base.tree.children function) (hready : Ready base s body) (hstmt : base.tree.HasStmt body)
    (hsigned : (s.signatures[function]?).isSome) (hrank : body < rank) (hafford : Affords base s rank depth) :
    Ensures (checkBody ask function body) s fun good s' => ∃ s1 records, Judged base records s s1 body good ∧
      (∀ record ∈ records, record.function = function ∧ Plain base s1 record.expected) ∧
      Collected base s1 function (base.tree.Inside body) records ∧
      s' = { s1 with returns := s1.returns.insert function (s1.returns.getD function [] ++ records) } := by
  obtain ⟨_, _, hd, -⟩ := exists_function hready.inv.descends hf
  have hscope : base.tree.isScope function := by simp [isScope, decl?_eq_some.1 hd, Node.isScope]
  refine ensures_get_bind.2 ((ensures_ownScope hready.inv.descends hf.lt_size hscope).bind ?_)
  rintro scope s ⟨hscope, rfl⟩
  obtain rfl : function = scope := hscope.symm
  have hworking : Working base function rank depth
      ⟨.new function s.settings.freePolicy s.settings.diagnoseMissingReturns, s⟩ :=
    ⟨hsigned, .inl rfl, by simp [Body.new], hafford⟩
  obtain ⟨good, run, hrun, hwalked⟩ := ensures_check hs ha hready hstmt (.ofChild hs.rooted hf hc) hrank hworking
  have hbody : runBody ask (.new function s.settings.freePolicy s.settings.diagnoseMissingReturns)
      body s = (.ok good, run.body, run.context) := by
    simp [runBody, hrun]
  refine ensures_modifyGet_bind.2 ?_
  rw [hbody]
  obtain ⟨records, hreturns, hcollected⟩ := hwalked.met
  obtain rfl : run.body.returns = records := hreturns
  refine ensures_modify_bind.2 (ensures_pure.2 ⟨run.context, run.body.returns, hwalked.judged,
    hwalked.working.records, ?_, rfl⟩)
  exact hcollected.congr fun id _ _ => by simp

/-! ### Declarations of all kinds -/

variable {span : Span} {kind : DeclKind}

lemma ensures_checkFunction {decl} (hd : base.tree.decl? id = some ⟨.function decl, span⟩)
    (h : Midway base [] True start s id (.decl ⟨.function decl, span⟩) [] (base.tree.children id))
    (hnew : s.returns[id]? = none) (hafford : Affords base s (id + 1) depth) :
    Ensures (checkFunction ask id decl) s fun good s' => Judged base [] start s' id good := by
  have hn := decl?_eq_some.1 hd
  have hf : base.tree.Declares DeclKind.isFunction id := ⟨_, hd, rfl⟩
  have hdepth : 0 < depth := (Nat.zero_le _).trans_lt hafford
  obtain ⟨hgeneric, hparams, hbody⟩ := (hs.rooted.below hn).1
  refine (ensures_signatureOf hs ha hdepth h.inv.toCore hf).bind ?_
  rintro signature s1 ⟨h1, hsignature⟩
  have hstep1 := h1.step hs.rooted h.inv .nowhere
  have hnowhere : ¬Region.nowhere.HasVerdict base id := by
    rintro ⟨-, hlow, hhigh⟩
    exact absurd (hlow.trans hhigh) (by decide)
  -- what is left to do once the generic parameters are known
  have hrest {constrained s2} (h2 : Noted base s1 s2) (hbad2 : constrained = false →
      s2.diagnostics ≠ []) : Ensures (do
        let checked ← decl.body.elim (pure true) (checkBody ask id)
        return !signature.toTy.hasErrors && constrained && checked) s2 fun good s' =>
          Judged base [] start s' id good := by
    have hstep2 := h2.step hs.rooted hstep1.inv .nowhere
    have hsignature2 := h2.signatures hsignature
    have hsigned := (h2.core.signatures hsignature2).2.2 decl span hd
    have hfaulty : (!signature.toTy.hasErrors && constrained) = false → s2.Faulty base := by
      intro hwrong
      rcases and_eq_false_iff.1 hwrong with hwrong | hwrong
      · exact ((plain_signature h2.core hsignature2).known).faulty (by simpa using hwrong)
      · exact .inl (hbad2 hwrong)
    have hmidway := (h.quiet hs.rooted hstep1).quiet hs.rooted hstep2
    have hchildren : base.tree.children id = (decl.genericParams ++ decl.params) ++ decl.body.toList :=
      children_of_node? hn
    rw [hchildren] at hmidway
    have hparams : ∀ param ∈ decl.genericParams ++ decl.params, base.tree.Declares DeclKind.isGenericParam param ∨
        base.tree.Declares DeclKind.isParam param ∧ (s2.declTypes[param]?).isSome := by grind
    have hmidway := hmidway.params hs.rooted hparams
    have hnot {s' : State} (hp : base.tree.Declares DeclKind.isProduct id) : (s'.conformances[id]?).isSome := by
      simp [declares_iff hd, DeclKind.isProduct] at hp
    have hnew2 : s2.returns[id]? = none := by
      rw [hstep2.evolves.returns_eq hs.rooted hf hnowhere, hstep1.evolves.returns_eq hs.rooted hf hnowhere, hnew]
    cases hbody' : decl.body with
    | none =>
      rw [hbody'] at hmidway
      refine ensures_pure.2 (hmidway.judge hs.rooted ⟨_, hd, rfl⟩ ?_ (fun _ => trivial) trivial ⟨fun _ => ?_, hnot⟩)
      · simpa using hfaulty
      · rw [Std.TreeMap.getD_eq_getD_getElem?, hnew2]
        refine collected_nil fun inner hreturn hin _ => ?_
        obtain ⟨body, hb, -⟩ := hin.inside_body hs.rooted hd hreturn
        simp [hbody'] at hb
    | some body =>
      rw [hbody'] at hmidway hchildren
      have hchild : body ∈ base.tree.children id := by simp [hchildren]
      have hstmt := (hbody body hbody').hasStmt
      have hlt := (hs.rooted.child hchild).2.1
      refine (ensures_checkBody hs ha hf hchild (hmidway.ready hs.rooted) hstmt (by simp [hsignature2])
        (Nat.lt_succ_of_lt hlt) ((hafford.evolves hstep1.evolves).evolves hstep2.evolves)).bind ?_
      rintro checked _ ⟨s3, records, h3, hown, hcollected, rfl⟩
      have hmidway3 : Midway base records (checked = true) start s3 id (.decl ⟨.function decl,
          span⟩) ([] ++ (decl.genericParams ++ decl.params) ++ [body]) [] := by
        refine (hmidway.records_subset (nil_subset _)).next hs.rooted ?_
          (fun hdiag hgood => ⟨trivial, h3.cleared hdiag hgood⟩) h3.accounted h3.step
        rintro ⟨found, hfound, -⟩
        exact absurd hstmt (decl_only hfound).2.1
      have hfaulty3 : (!signature.toTy.hasErrors && constrained && checked) = false → s3.Faulty base := by
        intro hwrong
        rcases and_eq_false_iff.1 hwrong with hwrong | hwrong
        · exact h3.step.evolves.faulty (hfaulty hwrong)
        · exact h3.bad hwrong
      refine ensures_pure.2 ((hmidway3.enter hs.rooted hf hown).judge hs.rooted ⟨_, hd,
        rfl⟩ hfaulty3 (fun hanswer => (and_eq_true_iff.1 hanswer).2) trivial ⟨fun _ => ?_, hnot⟩)
      -- nothing was entered for the function before
      have hbelow : ¬(Region.below base body).HasVerdict base id := by
        rintro ⟨-, -, hhigh⟩
        exact absurd hlt (Nat.not_lt_of_le hhigh)
      have hnew3 : s3.returns.getD id [] = [] := by
        rw [Std.TreeMap.getD_eq_getD_getElem?, h3.step.evolves.returns_eq hs.rooted hf hbelow, hnew2, Option.getD_none]
      rw [Std.TreeMap.getD_insert_self, hnew3, nil_append]
      refine ⟨hcollected.ordered, fun inner => (hcollected.mem_iff inner).trans ?_, hcollected.owned⟩
      refine and_congr_right fun hreturn => and_congr_right fun hin => iff_true_intro ?_
      obtain ⟨other, hother, hi⟩ := hin.inside_body hs.rooted hd hreturn
      obtain rfl : body = other := by simpa [hbody'] using hother
      exact hi
  split
  next => exact hrest (.refl h1.core) (by simp)
  next =>
    refine (ensures_genericsOf hs h1.core hd).bind ?_
    rintro generics s2 ⟨h2, hfound⟩
    refine hrest h2 fun hnone => ?_
    rw [Option.isSome_eq_false_iff, Option.isNone_iff_eq_none] at hnone
    subst hnone
    exact h2.core.generics hfound

omit ha in
lemma ensures_checkRefinements {scope} (hscope : scope ≤ root) :
    ∀ names {s}, Core base s → Ensures (checkRefinements scope names) s fun good s' =>
    Reported s s' ∧ (good = false → s'.diagnostics ≠ [])
  | [], s, _ => ensures_pure.2 ⟨.refl s, nofun⟩
  | name :: names, s, hc => by
    refine (ensures_resolveTrait hs hscope hc.descends name).bind ?_
    rintro found s1 ⟨h1, _, hnone⟩
    refine (ensures_checkRefinements hscope names (h1.noted hs.rooted hc).core).bind ?_
    rintro rest s2 ⟨h2, hbad⟩
    refine ensures_pure.2 ⟨h1.trans h2, fun hwrong => ?_⟩
    rcases and_eq_false_iff.1 hwrong with hwrong | hwrong
    · rw [Option.isSome_eq_false_iff, Option.isNone_iff_eq_none] at hwrong
      exact fun hdiag => hnone hwrong (h2.diagnostics hdiag)
    · exact hbad hwrong

lemma ensures_judgeMembers (first : Bool) (members : List Nat) (hd : base.tree.decl? id = some
    ⟨kind, span⟩) (hb : kind.isLocal = false) (hchildren : kind.children = members)
    (hitems : ∀ member ∈ members, base.tree.Declares DeclKind.isItem member)
    (h : Midway base [] True start s id (.decl ⟨kind, span⟩) [] (base.tree.children id))
    (hafford : Affords base s rank depth) (hfirst : first = false → s.Faulty base)
    (hrule : ∀ s', (State.typing base [] s').DeclRule True id kind)
    (hproduct : kind.isProduct = true → (s.conformances[id]?).isSome) :
    Ensures (do return first && (← verdicts ask members)) s fun good s' => Judged base
    [] start s' id good := by
  rw [children_of_node? (decl?_eq_some.1 hd)] at h
  subst hchildren
  refine (ensures_verdicts hs ha kind.children hitems h hafford).bind
    fun second s1 ⟨h1, hbad, hkept⟩ => ensures_pure.2 ?_
  obtain ⟨hfunction, hbinding⟩ := or_eq_false_iff.1 hb
  refine h1.judge hs.rooted ⟨_, hd, by simp [hbinding]⟩ (fun hwrong => ?_) (fun hanswer =>
    ?_) (hrule _) ⟨fun hf => by simp [declares_iff hd, hfunction] at hf, fun hp =>
    hkept id (hproduct ((declares_iff hd).1 hp))⟩
  · exact hbad ((and_eq_false_iff.1 hwrong).imp_left hfirst)
  · exact ⟨trivial, (and_eq_true_iff.1 hanswer).2⟩

lemma ensures_checkKind (hd : base.tree.decl? id = some ⟨kind, span⟩)
    (hkind : (kind.isItem && !kind.isBinding) || kind.isModule)
    (h : Midway base [] True start s id (.decl ⟨kind, span⟩) [] (base.tree.children id))
    (hnew : s.returns[id]? = none) (hafford : Affords base s (id + 1) depth) :
    Ensures (checkKind ask id kind) s fun good s' => Judged base [] start s' id good := by
  have hn := decl?_eq_some.1 hd
  have hdepth : 0 < depth := (Nat.zero_le _).trans_lt hafford
  cases kind with
  | module name members =>
    have hmembers := ensures_judgeMembers hs ha true members hd rfl rfl
      (hs.rooted.below hn).1 h hafford (by simp) (fun _ => trivial) (by simp [DeclKind.isProduct])
    simpa [checkKind] using hmembers
  | function decl => exact ensures_checkFunction hs ha hd h hnew hafford
  | trait decl =>
    have hroot : id < root := hs.rooted.lt_root (lt_size hn) (by simp [declares_iff hd, DeclKind.isModule])
    refine (ensures_enclosingScope hs h.inv.descends hroot).bind ?_
    rintro scope s ⟨hscope, rfl⟩
    refine (ensures_checkRefinements hs (hs.le_root_of_scopeOf hscope) decl.refinements h.inv.toCore).bind ?_
    rintro refined s1 ⟨h1, hbad⟩
    have hstep := h1.step hs.rooted h.inv .nowhere
    refine ensures_judgeMembers hs ha refined decl.members hd rfl rfl (fun member hm => ?_)
      (h.quiet hs.rooted hstep) (hafford.evolves hstep.evolves) (fun hwrong => .inl (hbad hwrong))
      (fun _ => trivial) (by simp [DeclKind.isProduct])
    obtain ⟨found, hfound, hf⟩ := (hs.rooted.below hn).1 member hm
    exact ⟨found, hfound, by simp [DeclKind.isItem, DeclKind.isLocal, hf]⟩
  | product decl =>
    refine (ensures_checkConformances hs ha hdepth h.inv ⟨_, hd, rfl⟩).bind ?_
    rintro conforming s1 ⟨hstep, hlist, hbad⟩
    refine ensures_judgeMembers hs ha conforming decl.members hd rfl rfl (fun member hm => ?_)
      (h.quiet hs.rooted hstep) (hafford.evolves hstep.evolves) (fun hwrong => .inl (hbad hwrong))
      (fun _ => trivial) fun _ => Option.isSome_iff_exists.2 hlist
    obtain ⟨found, hfound, hf⟩ := (hs.rooted.below hn).1 member hm
    exact ⟨found, hfound, by simp [DeclKind.isItem, hf]⟩
  | _ => cases hkind

/-- The verdict on a binding says whether it has a good type. -/
lemma ensures_judgeBinding {decl} (hd : base.tree.decl? id = some ⟨.binding decl, span⟩)
    (hi : Inv base s) (hcontext : Context base s id) (hafford : Affords base s rank (depth + 1)) :
    Ensures (do checkKind ask id (← Check.decl id).kind) s fun good s' => Judged base
    [] s s' id good := by
  have hb : base.tree.isBinding id := isBinding_iff.2 ⟨_, hd, rfl⟩
  obtain ⟨_, hcurrent⟩ := exists_binding hi.descends hd
  refine (ensures_decl hcurrent).read ?_
  refine (ensures_realizeLocal hs ha hi hd hcontext hafford).bind fun type s1 ⟨h1, htype⟩ => ensures_pure.2 ?_
  refine ⟨h1.anywhere _, fun hwrong => ?_, fun _ hgood => ⟨fun hb' => by simp [hb] at hb', fun _ => ?_⟩,
    accounted_of_inner hs.rooted (.inr (.inr (.inl (isBinding_iff.1 hb))))⟩
  · rcases htype with htype | ⟨-, hf⟩
    · exact (h1.inv.declTypes htype).1.faulty (by simpa using hwrong)
    · exact hf
  · rcases htype with htype | ⟨rfl, -⟩
    · exact ⟨type, htype, by simpa using hgood⟩
    · cases hgood

omit hs ha in
/-- Work on a declaration begins and ends with its verdict, which is good for the time being. -/
lemma Judged.enter {good s'} (hr : base.tree.Rooted root) (h : Judged base [] s s' id good)
    (hid : id < base.tree.size) (ho : s.Open (base.tree.owner id)) :
    Judged base [] s { s' with verdicts := s'.verdicts.insert id good } id good := by
  have hstep := step_verdict hr h.step.inv id good (h.step.evolves.openUnit ho)
  refine ⟨h.step.trans (hstep.weaken (.inr ⟨rfl, hr.first_le hid, le_rfl⟩)),
    h.bad, fun hdiag hgood => ?_,
    fun other hi => ⟨fun hf => ((h.accounted other hi).returns hf).evolves hstep.evolves,
    (h.accounted other hi).conformances⟩⟩
  obtain ⟨hdone, hbinding⟩ := h.cleared hdiag hgood
  exact ⟨fun hb => (hdone hb).verdict _, hbinding⟩

lemma ensures_judge {s1} (hready : Ready base s id) (hd : base.tree.decl? id = some ⟨kind, span⟩)
    (hk : kind.isItem || kind.isModule) (hstep : Step base ⟨base.tree.owner id, id, id⟩ s s1)
    (hprogram : s1.program = s.program) (htypes : s1.exprTypes = s.exprTypes)
    (hnew : s1.returns[id]? = none) (hafford : Affords base s1 (id + 1) depth) :
    Ensures (do checkKind ask id (← decl id).kind) s1 fun good s' => Judged base
    [] s s' id good := by
  have hn := decl?_eq_some.1 hd
  cases hb : kind.isBinding with
  | true =>
    cases kind with
    | binding decl =>
      have hbelow : Step base (.below base id) s s1 :=
        hstep.weaken (.inr ⟨rfl, hs.rooted.first_le (lt_size hn), le_rfl⟩)
      have hcontext : Context base s1 id := by
        refine hready.context.evolves hs.rooted hstep.evolves ?_
        rintro var hlt ⟨-, -, hle⟩
        exact Nat.not_le_of_lt hlt hle
      refine (ensures_judgeBinding hs ha hd hstep.inv hcontext hafford.succ).imp fun good s2 h2 => ?_
      exact { h2 with step := hbelow.trans h2.step }
    | _ => cases hb
  | false =>
    have hnot : base.tree.isBinding id = false := by simpa [isBinding, hd] using hb
    have hmidway : Midway base [] True s s id (.decl ⟨kind, span⟩) [] (base.tree.children id) :=
      hready.midway hs.rooted hn hnot
    have hmove : Move base (.single base id) s s1 :=
      hstep.toMove.weaken (.inr ⟨(unit_of_not_binding hnot).symm, le_rfl, le_rfl⟩)
    have hmidway1 : Midway base [] True s s1 id (.decl ⟨kind, span⟩) [] (base.tree.children id) :=
      ⟨hmidway.self hs.rooted hmove (hprogram ▸ hmidway.current) (htypes ▸ hmidway.blank), hstep.loose⟩
    refine (ensures_decl (decl?_eq_some.2 hmidway1.current)).read ?_
    exact ensures_checkKind hs ha hd (by simpa [hb] using hk) hmidway1 hnew hafford

lemma ensures_checkDeclaration (hready : Ready base s id)
    (hd : base.tree.Declares (fun kind => kind.isItem || kind.isModule) id)
    (hafford : Affords base s rank (depth + 1)) : Ensures (checkDeclaration ask id) s fun good s' =>
    Judged base [] s s' id good := by
  have hid := hd.lt_size
  obtain ⟨hnew, hnoReturns⟩ := hready.fresh.verdict id ⟨rfl, hs.rooted.first_le hid, le_rfl⟩
  obtain ⟨⟨_, _⟩, hd, hk⟩ := hd
  unfold checkDeclaration
  simp only [ensures_get_bind, hnew]
  refine ensures_modify_bind.2 ?_
  rw [← bind_assoc]
  refine (ensures_judge hs ha hready hd hk (step_verdict hs.rooted hready.inv id true hready.isOpen) rfl rfl
    hnoReturns (hafford.enter (pending_verdict hid hnew true) (by omega))).bind fun good s2 h2 => ?_
  exact ensures_modify_bind.2 (ensures_pure.2 (h2.enter hs.rooted hid hready.isOpen))

end

/-! ### All questions are answered -/

section

variable {base : Program} {root : Nat} (hs : base.Surveyed root)

lemma Step.sound {region : Region} {s s' : State} (h : Step base region s s') :
    Core base s' ∧ s.solver.next ≤ s'.solver.next :=
  ⟨h.inv.toCore, h.evolves.refines.1⟩

include hs

omit hs in
lemma answers_zero (ask : Answerer) : Answers base 0 ask := by
  refine ⟨fun _ _ h => ?_, fun _ _ _ h => ?_, fun _ _ h => ?_, fun _ _ _ h => ?_⟩
  all_goals exact absurd h (Nat.not_lt_zero _)

/-- A question that is about what the program has, with room for another one if it is about an
expression. -/
def Query.Posed (base : Program) (depth : Nat) {α : Type} : Query α → Prop
  | .exprType id _ => base.tree.HasExpr id ∧ 0 < depth
  | .verdict _ | .declType _ => True

/-- It is enough to keep the rules where such questions are asked, and answered in a sound state. -/
lemma Answers.succ {depth : Nat} {ask other : Answerer} (ha : Answers base depth ask)
    (hrule : ∀ {α : Type} {query : Query α} {s : State} {post : α → State → Prop},
    query.Posed base depth → Core base s → Ensures (Query.rule ask query) s
      (fun answer s' => (Core base s' ∧ s.solver.next ≤ s'.solver.next) ∧ post answer s') →
      Ensures (other query) s post) : Answers base (depth + 1) other := by
  refine ⟨fun {s id} hc hd _ => hrule trivial hc ?_, fun {s id} hi hv hasked hafford => hrule trivial hi.toCore ?_,
    fun {s id} hready hitem hafford => hrule trivial hready.inv.toCore ?_,
    fun {s id} useSite hready he hafford => hrule ⟨he, by unfold Affords at hafford; omega⟩ hready.inv.toCore ?_⟩
  · refine (ensures_realizeDeclared hs hc hd).imp fun type s' h => ⟨⟨h.1.core, ?_⟩, h⟩
    rw [h.1.solver_eq]
  · refine (ensures_realizeNamed hs ha hi hv hasked hafford).imp ?_
    rintro type s' ⟨⟨hstep, htype⟩, hcase⟩
    exact ⟨hstep.sound, hstep, htype, hcase⟩
  · obtain ⟨decl, hd, hk⟩ := hitem
    exact (ensures_checkDeclaration hs ha hready ⟨decl, hd, by simp [hk]⟩ hafford).imp fun _ _ h => ⟨h.step.sound, h⟩
  · exact (ensures_infer hs ha hready (hafford.lower (Nat.lt_succ_self _)) useSite he).imp
      fun _ _ h => ⟨h.step.sound, h⟩

lemma answers_answerWithin : ∀ depth, Answers base depth (Query.answerWithin depth)
  | 0 => answers_zero _
  | depth + 1 => (answers_answerWithin depth).succ hs fun _ _ hrule => hrule.imp fun _ _ h => h.2

end

end TraitLang.Check
