import Mathlib.Data.Finset.Card
import TraitLang.Proofs.Naming

/-! Questions and their answers. A question about a node may be asked if nothing was recorded about
it, and if the variables of the match cases around it have types so far as their patterns come
before it. How deep the questions that it leads to can lie on top of each other is bounded by what
is still untouched. -/
namespace TraitLang.Check

open Finset Nat

/-! ### When a node may be checked -/

/-- In the match cases around a node, the variables before it have types and those after it have
none. -/
def Context (base : Program) (s : State) (id : Nat) : Prop :=
  ∀ case node, base.tree.case? case = some node → base.tree.Encloses case id →
    s.Open (base.tree.unit case) ∧ ∀ var : Nat, var ∈ node.pattern.vars →
      (var < id → (s.declTypes[var]?).isSome) ∧ (id < var → s.declTypes[var]? = none)

structure Ready (base : Program) (s : State) (id : Nat) : Prop where
  inv : Inv base s
  fresh : FreshIn base (.below base id) s
  isOpen : s.Open (base.tree.owner id)
  context : Context base s id

lemma FreshIn.within {base s small large} (h : FreshIn base large s) (hw : small.Within large) :
    FreshIn base small s :=
  ⟨fun id hid => h.node id (hw.hasNode hid), fun id hid => h.verdict id (hw.hasVerdict hid)⟩

section

variable {base : Program} {root : Nat} (hr : base.tree.Rooted root) {region : Region} {s s' : State}

include hr

lemma var_of_case {case var node} (hc : base.tree.case? case = some node)
    (hv : var ∈ node.pattern.vars) : var ∈ base.tree.children case ∧
    base.tree.Declares DeclKind.isVar var := by
  have hn := Tree.case?_eq_some.1 hc
  refine ⟨?_, (hr.below hn).1.1.1 var hv⟩
  rw [Tree.children_of_node? hn]
  exact List.mem_append_left _ ((Pattern.mem_nodes_iff _).2 (.inl hv))

lemma Context.evolves {id} (h : Context base s id) (he : Evolves base region s s')
    (hafter : ∀ var, id < var → ¬region.HasNode base var) : Context base s' id := by
  intro case node hc hin
  obtain ⟨ho, hvars⟩ := h case node hc hin
  refine ⟨he.openUnit ho, fun var hv => ⟨fun hlt => he.isSome_declTypes ((hvars var hv).1 hlt),
    fun hlt => ?_⟩⟩
  obtain ⟨hchild, hvar⟩ := var_of_case hr hc hv
  have hunit : base.tree.unit var = base.tree.unit case :=
    hr.unit_child hchild (Tree.isBinding_of_declares hvar fun _ => rfl)
  rcases he.nodes var hvar.lt_size with hn | hent | hsame
  · exact absurd hn (hafter var hlt)
  · exact absurd (hunit ▸ hent) ho.not_entered
  · rw [hsame.var_eq hvar, (hvars var hv).2 hlt]

/-- What is known about the match cases around a node is known about those around its children,
given what is known about its own variables if it is a match case. -/
lemma Context.child {id child} (h : Context base s id) (hc : child ∈ base.tree.children id)
    (ho : s.Open (base.tree.unit id))
    (hown : ∀ node, base.tree.case? id = some node → ∀ var : Nat, var ∈ node.pattern.vars →
      (var < child → (s.declTypes[var]?).isSome) ∧ (child < var → s.declTypes[var]? = none)) :
    Context base s child := by
  obtain ⟨hid, hlt, -, -⟩ := hr.child hc
  intro case node hcase hin
  rcases hr.encloses_parent hc hin with rfl | hout
  · exact ⟨ho, hown node hcase⟩
  · obtain ⟨ho, hvars⟩ := h case node hcase hout
    refine ⟨ho, fun var hv => ⟨fun hvar => (hvars var hv).1 (hvar.trans hlt), fun hvar => (hvars var hv).2 ?_⟩⟩
    -- the variable is no part of the node, so it comes after the node too
    rcases lt_trichotomy id var with hafter | rfl | hbefore
    · exact hafter
    · obtain ⟨⟨kind, _⟩, hd, hk⟩ := (var_of_case hr hcase hv).2
      cases kind with
      | var name =>
        rw [Tree.children_of_node? (Tree.decl?_eq_some.1 hd)] at hc
        cases hc
      | _ => cases hk
    · have := hr.var_lt_of_encloses hcase hv hout hbefore (hr.encloses_child hc)
      omega

end

/-! ### What stays true of checked nodes -/

section

variable {base : Program} {root : Nat} (hr : base.tree.Rooted root) {region : Region} {s s' : State}
  {records : List ReturnRecord}

/-- What is in the slot of an expression has a type, as far as inference variables are known. -/
def Holds (s : State) (slot : ExprId) (type : Ty) : Prop :=
  ∃ actual, s.exprType? slot = some actual ∧ actual.Agree True (s.solver.resolve type)

def Records (s : State) (id : Nat) (type : Ty) : Prop :=
  s.exprType? id = some (s.solver.resolve type)

/-- Good checking of a node was finished; for a binding it says that the binding has a type. -/
def Cleared (base : Program) (records : List ReturnRecord) (s : State) (id : Nat) : Prop :=
  (base.tree.isBinding id = false → Done base records s id) ∧
    (base.tree.isBinding id → ∃ type, s.declTypes[id]? = some type ∧ type.hasErrors = false)

variable {id top : Nat} {others : List ReturnRecord}

lemma Records.evolves {type} (h : Records s id type) (hc : Core base s)
    (he : Evolves base region s s') (hsame : Same base s s' id) : Records s' id type := by
  rw [Records, hsame.exprType hc.lawful he.refines h, he.refines.resolve hc.lawful]

lemma Records.holds {actual expected} (h : Records s id actual)
    (ha : (s.solver.resolve actual).Agree True (s.solver.resolve expected)) : Holds s id expected :=
  ⟨_, h, ha⟩

lemma Holds.evolves {slot type} (h : Holds s slot type) (hc : Core base s)
    (he : Evolves base region s s') (hsame : Same base s s' slot) : Holds s' slot type := by
  obtain ⟨_, ha, hagree⟩ := h
  refine ⟨_, hsame.exprType hc.lawful he.refines ha, ?_⟩
  have hagree := hagree.resolveBy s'.solver.bindings
  rwa [← Solver.resolve, ← Solver.resolve, he.refines.resolve hc.lawful] at hagree

lemma Done.records_subset (h : Done base records s top) (hsub : records ⊆ others) :
    Done base others s top := by
  intro id hi hu
  obtain ⟨hrule, hbindings, hmeant⟩ := h id hi hu
  refine ⟨?_, hbindings, hmeant⟩
  exact Typing.Rule.refine (.inl fun h => h) [] (show (s.typing base others).program =
    (s.typing base records).program from rfl) rfl (fun _ ht => ht) (fun _ _ _ ht =>
    ht) (fun _ _ _ hc => ⟨hc, fun _ ht => ht⟩) (fun _ _ ht => ht) (fun _ _ ht => ht)
    (fun _ ⟨function, expected, hr, ht⟩ => ⟨function, expected, hr.imp_left (hsub ·), ht⟩) hrule

lemma Cleared.records_subset (h : Cleared base records s id) (hsub : records ⊆ others) :
    Cleared base others s id :=
  ⟨fun hb => (h.1 hb).records_subset hsub, h.2⟩

include hr

lemma Done.after (h : Done base records s top) (hc : Core base s) (he : Evolves base region s s')
    (ht : top < base.tree.size) (ho : s.Open (base.tree.unit top)) (hm : region.Misses base top) :
    Done base records s' top := by
  refine h.evolves hr hc he ht fun id hi hu => he.same (lt_of_le_of_lt hi.2 ht) (hm.hasNode hi) ?_
  intro binding hb huntouched
  exact huntouched.2 (ho binding (hu.symm.trans hb))

lemma Cleared.after (h : Cleared base records s id) (hc : Core base s)
    (he : Evolves base region s s') (hid : id < base.tree.size) (ho : s.Open (base.tree.owner id))
    (hm : region.Misses base id) : Cleared base records s' id := by
  refine ⟨fun hb => (h.1 hb).after hr hc he hid (Tree.unit_of_not_binding hb ▸ ho) hm, fun hb => ?_⟩
  obtain ⟨type, ht, hgood⟩ := h.2 hb
  exact ⟨type, he.declTypes ht, hgood⟩

lemma Done.node {id} (hid : id < base.tree.size) (hrule : (s.typing base records).Rule True id)
    (hmeant : Meant base s id) (hchildren : ∀ child ∈ base.tree.children id,
    Cleared base records s child) : Done base records s id := by
  refine hr.inside_unit_cases hid ⟨hrule, fun child hc => (hchildren child hc).2, hmeant⟩ ?_
  intro child hc hb
  exact (hchildren child hc).1 hb

end

/-! ### How much is left to do -/

instance (s : State) (binding : Nat) : Decidable (s.Untouched binding) :=
  inferInstanceAs (Decidable (_ ∧ _))

/-- The declarations whose checking has not begun, and the bindings that no one has asked for. -/
def State.pending (base : Program) (s : State) : Nat :=
  ((Finset.range base.tree.size).filter fun id => s.verdicts[id]? = none).card +
    ((Finset.range base.tree.size).filter fun id => s.Untouched id).card

/-- The questions below one of a rank may lie as deep as this. -/
def Affords (base : Program) (s : State) (rank depth : Nat) : Prop :=
  s.pending base * (base.tree.size + 3) + rank < depth

section

variable {base : Program} {region : Region} {s s' : State} {rank rank' depth : Nat}

lemma Evolves.pending_le (he : Evolves base region s s') : s'.pending base ≤ s.pending base := by
  refine Nat.add_le_add (card_le_card ?_) (card_le_card ?_)
  · refine monotone_filter_right _ fun id _ hid => ?_
    cases hv : s.verdicts[id]? with
    | none => rfl
    | some good =>
      have : (s'.verdicts[id]?).isSome := he.verdicts (by simp [hv])
      simp [hid] at this
  · exact monotone_filter_right _ fun id _ hid => he.untouched hid

lemma pending_verdict {id}
    (hid : id < base.tree.size) (hnew : s.verdicts[id]? = none) (good : Bool) : State.pending base
    { s with verdicts := s.verdicts.insert id good } < s.pending base := by
  refine Nat.add_lt_add_right (card_lt_card ?_) _
  refine ssubset_iff_of_subset ?_ |>.2 ⟨id, mem_filter.2 ⟨mem_range.2 hid, hnew⟩, ?_⟩
  · grind
  · simp [NodeMap.getElem?_insert]

lemma pending_begin {id} (hid : id < base.tree.size) (hnew : s.Untouched id) :
    State.pending base { s with inProgress := id :: s.inProgress } < s.pending base := by
  refine Nat.add_lt_add_left (card_lt_card ?_) _
  refine ssubset_iff_of_subset ?_ |>.2 ⟨id, by simp [hid, hnew], ?_⟩
  · exact monotone_filter_right _ fun other _ ho => ⟨ho.1, fun hm => ho.2 (List.mem_cons_of_mem _ hm)⟩
  · simp [State.Untouched]

lemma Affords.evolves (h : Affords base s rank depth) (he : Evolves base region s s') :
    Affords base s' rank depth := by
  have := mul_le_mul_right (base.tree.size + 3) he.pending_le
  unfold Affords at h ⊢
  omega

lemma Affords.mono (h : Affords base s rank depth) (hle : rank' ≤ rank) :
    Affords base s rank' depth := by
  unfold Affords at h ⊢
  omega

lemma Affords.lower (h : Affords base s rank (depth + 1)) (hlt : rank' < rank) :
    Affords base s rank' depth := by
  unfold Affords at h ⊢
  omega

lemma Affords.succ (h : Affords base s rank depth) : Affords base s rank (depth + 1) :=
  lt_succ_of_lt h

/-- Once something was begun, questions of any rank can follow. -/
lemma Affords.enter (h : Affords base s rank (depth + 1)) (hp : s'.pending base < s.pending base)
    (hle : rank' ≤ base.tree.size + 2) : Affords base s' rank' depth := by
  have := mul_le_mul_right (base.tree.size + 3) (succ_le_of_lt hp)
  rw [succ_mul] at this
  unfold Affords at h ⊢
  omega

end

/-! ### Answers -/

/-- What the type of an expression says once it was found. -/
structure Typed (base : Program) (s s' : State) (id : Nat) (type : Ty) : Prop where
  step : Step base (.below base id) s s'
  known : Known base s' type
  recorded : Records s' id type
  done : s'.diagnostics = [] → type.spoiled = false → Done base [] s' id

/-- What a verdict says about a node and everything in it. -/
structure Judged (base : Program) (records : List ReturnRecord) (s s' : State) (id : Nat)
    (good : Bool) : Prop where
  step : Step base (.below base id) s s'
  bad : good = false → s'.Faulty base
  cleared : s'.diagnostics = [] → good = true → Cleared base records s' id
  accounted : Accounted base s' id

/-- The type of a variable may be asked for. -/
def Asked (base : Program) (s : State) (var : Nat) : Prop :=
  match base.owningBinding? var with
  | some binding => Context base s binding
  | none => (s.declTypes[var]?).isSome ∨ ∃ id var, base.EarlyUse id var

/-- An answerer answers the questions that lie less deep than a bound. -/
structure Answers (base : Program) (depth : Nat) (ask : Answerer) : Prop where
  declared : ∀ {s : State} {id : Nat}, Core base s →
    base.tree.Declares (fun kind => kind.isParam || kind.isProduct) id → 0 < depth →
    Ensures (ask (.declType id)) s fun type s' => Noted base s s' ∧ s'.declTypes[id]? = some type ∧
      s'.signatures = s.signatures
  var : ∀ {s : State} {id : Nat}, Inv base s → base.tree.Declares DeclKind.isVar id →
  Asked base s id → Affords base s 1 depth → Ensures (ask (.declType id)) s fun type s' =>
      Step base .nowhere s s' ∧ (s'.declTypes[id]? = some type ∨ type = .error ∧ s'.Faulty base) ∧
        (base.owningBinding? id = none → type = (s.declTypes[id]?).getD .error)
  verdict : ∀ {s : State} {id : Nat}, Ready base s id → base.tree.Declares DeclKind.isItem id →
    Affords base s 0 depth → Ensures (ask (.verdict id)) s fun good s' =>
    Judged base [] s s' id good
  expr : ∀ {s : State} {id : Nat} (useSite : ScopeId), Ready base s id → base.tree.HasExpr id →
    Affords base s (id + 2) depth → Ensures (ask (.exprType id useSite)) s fun type s' =>
    Typed base s s' id type

end TraitLang.Check
