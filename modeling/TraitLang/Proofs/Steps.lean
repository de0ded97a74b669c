import TraitLang.Proofs.Invariant
import TraitLang.Proofs.Outcome

/-! The single writes that checking consists of. Each keeps the invariant and stays in its place. -/
namespace TraitLang

open TraitLang.Tree NodeMap List

/-- An expression stands in the pattern of a match case. -/
def Tree.InPattern (tree : Tree) (id : ExprId) : Prop :=
  ∃ case node, tree.case? case = some node ∧ id ∈ node.pattern.exprs

namespace Check

/-- A packed value that no node holds. Those of match patterns do not count: their slots are never
written. -/
structure Loose (base tree : Tree) (slot : Nat) : Prop where
  packs : ∃ witness traits span, tree.expr? slot = some ⟨.existential witness traits, span⟩ ∧ ¬base.InPattern witness
  unheld : ∀ parent node, tree.node? parent = some node → slot ∉ node.children

/-- Work in a region, from a state to one where the invariant holds. -/
structure Move (base : Program) (region : Region) (s s' : State) : Prop where
  evolves : Evolves base region s s'
  conformances : s.conformances.Grows s'.conformances
  inv : Inv base s'

/-- Work that leaves packed values in their slots. -/
structure Step (base : Program) (region : Region) (s s' : State) : Prop extends Move base region s s' where
  loose : ∀ {slot : Nat}, Loose base.tree s'.program.tree slot → Loose base.tree s.program.tree slot

section

variable {base : Program} {region large : Region} {s s' s'' : State}

protected lemma Move.refl (hi : Inv base s) : Move base region s s :=
  ⟨.refl base region s, fun h => h, hi⟩

protected lemma Move.trans (h1 : Move base region s s') (h2 : Move base region s' s'') : Move base region s s'' :=
  ⟨h1.evolves.trans h2.evolves h1.inv.lawful, fun h => h2.conformances (h1.conformances h), h2.inv⟩

lemma Move.weaken (h : Move base region s s') (hw : region.Within large) : Move base large s s' :=
  ⟨h.evolves.weaken hw, h.conformances, h.inv⟩

lemma Move.isSome_conformances (h : Move base region s s') {product : Nat}
    (hp : (s.conformances[product]?).isSome) : (s'.conformances[product]?).isSome := by
  obtain ⟨list, hl⟩ := Option.isSome_iff_exists.1 hp
  exact Option.isSome_iff_exists.2 ⟨list, h.conformances hl⟩

/-- Work that changes no node can be done anywhere. -/
lemma Move.anywhere (h : Move base .nowhere s s') (region : Region) : Move base region s s' :=
  h.weaken (.inl (by decide))

/-- Work that keeps the tree keeps its slots. -/
lemma Move.step (h : Move base region s s') (ht : s'.program.tree = s.program.tree) : Step base region s s' :=
  ⟨h, fun hl => ht ▸ hl⟩

protected lemma Step.refl (hi : Inv base s) : Step base region s s := ⟨.refl hi, id⟩

protected lemma Step.trans (h1 : Step base region s s') (h2 : Step base region s' s'') : Step base region s s'' :=
  ⟨h1.toMove.trans h2.toMove, h1.loose ∘ h2.loose⟩

lemma Step.weaken (h : Step base region s s') (hw : region.Within large) : Step base large s s' :=
  ⟨h.toMove.weaken hw, h.loose⟩

lemma Step.anywhere (h : Step base .nowhere s s') (region : Region) : Step base region s s' :=
  ⟨h.toMove.anywhere region, h.loose⟩

end

lemma Noted.step {base root s s'} (h : Noted base s s')
    (hr : base.tree.Rooted root) (hi : Inv base s) (region : Region) : Step base region s s' :=
  Move.step ⟨h.evolves region, fun hl => by rwa [h.conformances_eq], h.inv hr hi⟩
    (congrArg Program.tree h.program_eq)

/-! ### Reports -/

/-- What is known stays known when problems are reported. -/
lemma gathered_report {base root s} (hr : base.tree.Rooted root) (hc : Core base s)
    (more : List Diagnostic) : Gathered base s { s with diagnostics := s.diagnostics ++ more } := by
  have hd (h : s.diagnostics ++ more = []) : s.diagnostics = [] := (append_eq_nil_iff.1 h).1
  have hn : Notes base s { s with diagnostics := s.diagnostics ++ more } := { Notes.refl base s with diagnostics := hd }
  have hf := hn.faulty
  have hlater : s.Later base { s with diagnostics := s.diagnostics ++ more } := ⟨hf, le_rfl⟩
  refine ⟨hn, hn.core hr hc ⟨hc.descends,
    hc.lawful, fun binding hb => (hc.solver binding hb).imp_right fun hk => hk.mono hlater,
    fun htype => ?_, fun htype => ?_, fun hsig => ?_, fun {id found} hg => ?_,
    fun hrecord => (hc.returns hrecord).mono hf⟩, rfl⟩
  · exact ⟨(hc.declTypes htype).1.mono hlater, fun hp => ((hc.declTypes htype).2 hp).mono hf⟩
  · exact ⟨(hc.exprTypes htype).1.mono hlater, (hc.exprTypes htype).2⟩
  · obtain ⟨hparams, houtput, htyped⟩ := hc.signatures hsig
    exact ⟨fun type hp => (hparams type hp).mono hf, houtput.mono hf, htyped⟩
  · cases found with
    | none => exact fun hd' => hc.generics hg (hd hd')
    | some generics =>
      obtain ⟨function, span, hfunction, hcollects⟩ := hc.generics hg
      exact ⟨function, span, hfunction, hcollects.mono (fun _ hp => hp.mono hf) hd⟩

/-- Some problems were reported, none of them about requirements, and nothing else was done. -/
def Reported (s s' : State) : Prop :=
  ∃ more : List Diagnostic, (∀ diagnostic ∈ more, diagnostic.problem.isNonConforming = false) ∧
    s' = { s with diagnostics := s.diagnostics ++ more }

namespace Reported

variable {base : Program} {s s' s'' : State}

protected lemma refl (s : State) : Reported s s := ⟨[], by simp⟩

protected lemma trans : Reported s s' → Reported s' s'' → Reported s s''
  | ⟨xs, hx, h⟩, ⟨ys, hy, h'⟩ =>
    ⟨xs ++ ys, forall_mem_append.2 ⟨hx, hy⟩, by rw [h', h, append_assoc]⟩

lemma program_eq (h : Reported s s') : s'.program = s.program := by
  obtain ⟨_, -, rfl⟩ := h
  rfl

lemma diagnostics (h : Reported s s') (hd : s'.diagnostics = []) : s.diagnostics = [] := by
  obtain ⟨_, -, rfl⟩ := h
  exact (append_eq_nil_iff.1 hd).1

lemma faulty (h : Reported s s') : s.Faulty base → s'.Faulty base :=
  Or.imp_left fun hd hd' => hd (h.diagnostics hd')

lemma noted {root} (hr : base.tree.Rooted root) (hc : Core base s) (h : Reported s s') : Noted base s s' := by
  obtain ⟨more, hmore, rfl⟩ := h
  have hnone : more.filter (fun diagnostic => diagnostic.problem.isNonConforming) = [] :=
    filter_eq_nil_iff.2 fun diagnostic hd => by simp [hmore diagnostic hd]
  refine ⟨gathered_report hr hc more, ?_⟩
  simp only [State.breached, filter_append, hnone, append_nil]

lemma step {root} (h : Reported s s') (hr : base.tree.Rooted root) (hi : Inv base s)
    (region : Region) : Step base region s s' :=
  (h.noted hr hi.toCore).step hr hi region

end Reported

lemma ensures_report (s : State) {diagnostic} (h : diagnostic.problem.isNonConforming = false := by rfl) :
    Ensures (report diagnostic) s fun _ s' => Reported s s' ∧ s'.diagnostics ≠ [] :=
  ensures_modify.2 ⟨⟨[diagnostic], forall_mem_singleton.2 h, rfl⟩, by simp⟩

abbrev State.put (s : State) (id : NodeId) (node : Node) : State :=
  { s with program.tree := s.program.tree.put id node }

variable {id other product : Nat} {type : Ty} {before current node : Node} {scope : ScopeId}
  {list : List Conformance}

lemma ensures_reportAt {s problem} (hid : id < s.program.tree.size) (h : problem.isNonConforming = false := by rfl) :
    Ensures (reportAt problem id) s fun _ s' => Reported s s' ∧ s'.diagnostics ≠ [] := by
  obtain ⟨_, hn⟩ := exists_node? hid
  simp only [reportAt, tree, bind_assoc, pure_bind, ensures_get_bind, span?, hn, Option.map_some]
  exact ensures_report s h

variable {base : Program} {root : Nat} (hr : base.tree.Rooted root) {s : State}

include hr

lemma ensures_reportAt_bind {α : Type} {f : PUnit → Check α} {post problem}
    (hi : Inv base s) (hid : id < base.tree.size) (hf : ∀ s', (∀ {region}, Step base region s s') →
    s'.diagnostics ≠ [] → Ensures (f ⟨⟩) s' post) (h : problem.isNonConforming = false := by rfl) :
    Ensures (reportAt problem id >>= f) s post := by
  refine (ensures_reportAt (hid.trans_le hi.descends.size_le) h).bind ?_
  rintro _ s' ⟨hreported, hdiag⟩
  exact hf s' (hreported.step hr hi _) hdiag

/-! ### Types of expressions and variables -/

omit hr in
lemma resolve_exprType (hl : Solver.Lawful s.solver.bindings) (h : s.exprType? id = some type) :
    s.solver.resolve type = type := by
  obtain ⟨raw, -, rfl⟩ := Option.map_eq_some_iff.1 h
  exact (Solver.Refines.refl _).resolve hl raw

section

variable (hi : Inv base s)

include hi

/-- The type of an expression is written. It says what was known before, or it is new in its
place. -/
lemma step_insertExpr {region} (he : s.program.tree.HasExpr id) (hk : Known base s type)
    (ho : s.Open region.unit) (hid : s.exprType? id = some (s.solver.resolve type) ∨
      id < base.tree.size ∧ region.HasNode base id ∧ (s.exprTypes[id]? = none ∨ s.Faulty base)) :
      Step base region s { s with exprTypes := s.exprTypes.insert id type } := by
  have hsame {other} (h : id ≠ other ∨ s.exprType? id = some (s.solver.resolve type)) :
      Same base s { s with exprTypes := s.exprTypes.insert id type } other := by
    refine ⟨rfl, ?_, fun _ => rfl⟩
    simp only [State.exprType?, getElem?_insert]
    split
    next heq =>
      subst heq
      exact (h.resolve_left (absurd rfl)).symm
    next => rfl
  have hevolves : Evolves base region s { s with exprTypes := s.exprTypes.insert id type } :=
    { Evolves.refl base region s with
      added := fun other hge _ => hsame (hid.symm.imp_left fun h => by omega)
      nodes := fun other _ => by
        grind
      judged := fun _ _ => .inr (.inr ⟨rfl, rfl⟩) }
  refine Move.step ⟨hevolves, fun h => h, hi.step hr hevolves ho (fun _ _ => rfl)
    { hi.toTables with exprTypes := fun hw => of_insert hw ⟨hk, he⟩ hi.exprTypes } (fun h => h) (fun _ _ => .inl)
    (fun _ => isSome_insert) (fun other written hw hf => ?_) (fun _ _ _ _ => .inl) hi.balanced⟩ rfl
  refine (hsame (hid.symm.imp_left ?_)).exprType hi.lawful (.refl _) hw
  rintro ⟨-, -, hnone | hfaulty⟩ rfl
  · simp [State.exprType?, hnone] at hw
  · exact hf hfaulty

/-- The type of an expression is written. If there was one before, something has to be wrong. -/
lemma step_setExpr (he : s.program.tree.HasExpr id) (hlt : id < base.tree.size) (hk : Known base s type)
    (ho : s.Open (base.tree.unit id)) (hnew : s.exprTypes[id]? = none ∨ s.Faulty base) :
    Step base (.single base id) s { s with exprTypes := s.exprTypes.insert id type } :=
  step_insertExpr hr hi he hk ho (.inr ⟨hlt, ⟨rfl, le_rfl, le_rfl⟩, hnew⟩)

/-- The type of an expression is written as it is known now. -/
lemma step_retype (hk : Known base s type) (hold : s.exprType? id = some (s.solver.resolve type)) :
    Step base .nowhere s { s with exprTypes := s.exprTypes.insert id type } := by
  obtain ⟨_, hraw, -⟩ := Option.map_eq_some_iff.1 hold
  exact step_insertExpr hr hi (hi.exprTypes hraw).2 hk (fun _ h => nomatch h) (.inl hold)

lemma step_setVar (hv : base.tree.Declares DeclKind.isVar id)
    (hk : Known base s type) (ho : s.Open (base.tree.unit id)) (hnew : s.declTypes[id]? = none) :
    Step base (.single base id) s { s with declTypes := s.declTypes.insert id type } := by
  have hkept {other} (hne : id ≠ other) : (s.declTypes.insert id type)[other]? = s.declTypes[other]? :=
    getElem?_insert_of_ne hne
  have hnot : base.tree.isBinding id = false := isBinding_of_declares hv fun _ => rfl
  have hevolves : Evolves base (.single base id) s { s with declTypes := s.declTypes.insert id type } :=
    { Evolves.refl base (.single base id) s with
      declTypes := insert_mono hnew
      added := fun other hge _ => ⟨rfl, rfl, fun _ => hkept (by have := hv.lt_size; omega)⟩
      nodes := fun other _ => by
        by_cases hne : id = other
        · subst hne
          exact .inl ⟨rfl, le_rfl, le_rfl⟩
        · exact .inr (.inr ⟨rfl, rfl, fun _ => hkept hne⟩)
      judged := fun _ _ => .inr (.inr ⟨rfl, rfl⟩) }
  refine Move.step ⟨hevolves, fun h => h, hi.step hr hevolves ho ?_ ?_ (fun h => h) (fun _ _ =>
    .inl) (fun _ h => h) ?_ (fun _ _ _ _ => .inl) hi.balanced⟩ rfl
  · grind
  · refine hi.toTables.insertDecl hk fun hp => ?_
    obtain ⟨⟨kind, _⟩, hd, hkind⟩ := hv
    obtain ⟨_, hd', hkind'⟩ := hp
    cases hd.symm.trans hd'
    cases kind <;> simp [DeclKind.isVar, DeclKind.isParam] at hkind hkind'
  · intro other written hw _
    exact hw.trans (congrArg some (resolve_exprType hi.lawful hw).symm)

/-! ### Inference variables -/

lemma step_solver {solver} (hrefines : s.solver.Refines solver) (hl : Solver.Lawful solver.bindings)
    (hk : ∀ binding ∈ solver.bindings, binding.1 < s.solver.next ∧ Known base s binding.2) :
    Step base .nowhere s { s with solver } := by
  have hsame (id : Nat) : Same base s { s with solver } id := ⟨rfl, rfl, fun _ => rfl⟩
  have hevolves : Evolves base .nowhere s { s with solver } :=
    { Evolves.refl base .nowhere s with
      refines := hrefines
      added := fun id _ _ => hsame id
      nodes := fun id _ => .inr (.inr (hsame id))
      judged := fun _ _ => .inr (.inr ⟨rfl, rfl⟩) }
  have htables : Tables base { s with solver } :=
    { hi.toTables with
      lawful := hl
      solver := fun binding hb => ⟨(hk binding hb).1.trans_le hrefines.1, (hk binding hb).2.mono hevolves.later⟩
      declTypes := fun h => ⟨(hi.declTypes h).1.mono hevolves.later, (hi.declTypes h).2⟩
      exprTypes := fun h => ⟨(hi.exprTypes h).1.mono hevolves.later, (hi.exprTypes h).2⟩ }
  exact Move.step ⟨hevolves, fun h => h, hi.step hr hevolves (fun _ h => nomatch h) (fun _ _ =>
    rfl) htables (fun h => h) (fun _ _ => .inl) (fun _ h => h) (fun id type ht _ =>
    (hsame id).exprType hi.lawful hrefines ht) (fun _ _ _ _ => .inl) hi.balanced⟩ rfl

/-! ### Slots -/

lemma move_put (hb : base.tree.node? id = some before) (hp : before.Patched s.program.tree.Packs node)
    (ho : s.Open (base.tree.unit id)) : Move base (.single base id) s (s.put id node) := by
  have hid := lt_size hb
  have hdescends := hi.descends.put hr hb hp
  have hput (other : Nat) := node?_put (hid.trans_le hi.descends.size_le) node other
  have hnode {other} (hne : id ≠ other) : (s.program.tree.put id node).node? other = s.program.tree.node? other := by
    rw [hput, if_neg hne]
  have hevolves : Evolves base (.single base id) s (s.put id node) :=
    { Evolves.refl base (.single base id) s with
      size_le := by simp
      added := fun other hge _ => ⟨hnode (by omega), rfl, fun _ => rfl⟩
      nodes := fun other _ => by
        by_cases hne : id = other
        · subst hne
          exact .inl ⟨rfl, le_rfl, le_rfl⟩
        · exact .inr (.inr ⟨hnode hne, rfl, fun _ => rfl⟩)
      judged := fun _ _ => .inr (.inr ⟨rfl, rfl⟩) }
  have hfamily {expr} (hc : s.program.tree.node? id = some (.expr expr)) : ∃ expr', node = .expr expr' := by
    cases hi.descends.patched id hid before _ hb hc with
    | expr => cases hp with
      | expr => exact ⟨_, rfl⟩
  refine ⟨hevolves, fun h => h, hi.step hr hevolves ho (fun _ _ => rfl) ?_ (fun h => h) (fun _ _ =>
    .inl) (fun _ h => h) ?_ ?_ hi.balanced⟩
  · refine { hi.toTables with descends := hdescends, exprTypes := fun {other type} ht => ⟨(hi.exprTypes ht).1, ?_⟩ }
    obtain ⟨expr, he⟩ := (hi.exprTypes ht).2
    rw [expr?_eq_some] at he
    by_cases hne : id = other
    · subst hne
      obtain ⟨expr', rfl⟩ := hfamily he
      exact ⟨expr', expr?_eq_some.2 ((hput id).trans (if_pos rfl))⟩
    · exact ⟨expr, expr?_eq_some.2 ((hnode hne).trans he)⟩
  · intro other type ht _
    exact ht.trans (congrArg some (resolve_exprType hi.lawful ht).symm)
  · intro other witness traits span he
    have hge := (hdescends.size_le_of_packed hr he).1
    rw [expr?_eq_some] at he ⊢
    exact .inl ((hnode (by omega)).symm.trans he)

/-- What is put into a slot in the place of a child is held then, and all else is still held. -/
lemma loose_put (hb : base.tree.node? id = some before)
    (hc : s.program.tree.node? id = some current) (hp : before.Patched s.program.tree.Packs node)
    {child slot front back} (hcurrent : current.children = front ++ child :: back)
    (hafter : node.children = front ++ slot :: back)
    (hchild : child < base.tree.size) (h : Loose base.tree (s.program.tree.put id node) other) :
    other ≠ slot ∧ Loose base.tree s.program.tree other := by
  have hlt := lt_size hb
  have hput (parent : Nat) := node?_put (hlt.trans_le hi.descends.size_le) node parent
  have hnode (parent : Nat) (hne : id ≠ parent) :
      (s.program.tree.put id node).node? parent = s.program.tree.node? parent := by
    rw [hput, if_neg hne]
  obtain ⟨⟨witness, traits, span, he, hcase⟩, hunheld⟩ := h
  have hge := ((hi.descends.put hr hb hp).size_le_of_packed hr he).1
  have hself : other ∉ front ++ slot :: back := by grind
  refine ⟨fun heq => hself (by simp [heq]), ⟨witness, traits, span, ?_, hcase⟩, fun parent node hn hmem => ?_⟩
  · rw [expr?_eq_some] at he ⊢
    rwa [hnode other (by omega)] at he
  · grind

end

def State.pack (s : State) (node : Node) (scope : ScopeId) (type : Ty) : State :=
  { s with
    program := (s.program.push node).2.register s.program.tree.size scope
    exprTypes := s.exprTypes.insert s.program.tree.size type }

lemma move_pack (hi : Inv base s) {witness types expr} (hw : base.tree.expr? witness = some expr)
    (hs : base.scopeOf witness = some scope) (hk : Known base s (.existential types))
    {name} (htype : s.exprType? witness = some (.product product name))
    (hlist : s.conformances[product]? = some list)
    (hall : ∀ trait ∈ Ty.traitDeclsAll types, trait ∈ list.map Conformance.trait) :
    Move base .nowhere s (s.pack (.expr ⟨.existential witness (Ty.traitDeclsAll types), expr.span⟩)
      scope (.existential types)) := by
  generalize hnew : Node.expr ⟨.existential witness (Ty.traitDeclsAll types), expr.span⟩ = new
  have hdescends : base.Descends (s.pack new scope (.existential types)).program :=
    hnew ▸ hi.descends.push hw hs
  have hle := hi.descends.size_le
  have hsize : (s.pack new scope (.existential types)).program.tree.size = s.program.tree.size + 1 :=
    size_push _ _
  have hnode (id : Nat) : (s.pack new scope (.existential types)).program.tree.node? id =
      if id = s.program.tree.size then some new else s.program.tree.node? id := s.program.tree.node?_push _ id
  have htypes (id : Nat) : (s.pack new scope (.existential types)).exprTypes[id]? =
      if s.program.tree.size = id then some (.existential types) else s.exprTypes[id]? :=
    getElem?_insert _ _ _ _
  have hfree : s.exprTypes[s.program.tree.size]? = none := by
    cases he : s.exprTypes[s.program.tree.size]? with
    | none => rfl
    | some type =>
      obtain ⟨expr, hexpr⟩ := (hi.exprTypes he).2
      exact absurd (lt_size (expr?_eq_some.1 hexpr)) (lt_irrefl _)
  have hother {id} (hne : s.program.tree.size ≠ id) : Same base s (s.pack new scope (.existential types)) id := by
    refine ⟨by rw [hnode, if_neg (Ne.symm hne)], ?_, fun _ => rfl⟩
    rw [State.exprType?, htypes, if_neg hne]
  have hsome {id type} (ht : s.exprType? id = some type) : s.program.tree.size ≠ id := by
    rintro rfl
    simp [State.exprType?, hfree] at ht
  have hkept {id type} (ht : s.exprType? id = some type) :
      (s.pack new scope (.existential types)).exprType? id = some (s.solver.resolve type) :=
    (hother (hsome ht)).exprType hi.lawful (.refl _) ht
  have hevolves : Evolves base .nowhere s (s.pack new scope (.existential types)) :=
    { Evolves.refl base .nowhere s with
      size_le := by omega
      added := fun id _ hlt => hother (by omega)
      nodes := fun id hlt => .inr (.inr (hother (by omega)))
      judged := fun _ _ => .inr (.inr ⟨rfl, rfl⟩) }
  refine ⟨hevolves, fun h => h, hi.step hr hevolves (fun _ h => by cases h) (fun _ _ => rfl) ?_
    (fun h => h) (fun _ _ => .inl) ?_ (fun id type ht _ => hkept ht) ?_ hi.balanced⟩
  · refine { hi.toTables with descends := hdescends, exprTypes := fun {id type} ht => ?_ }
    rw [htypes] at ht
    split at ht
    next heq =>
      cases ht
      subst heq
      exact ⟨hk, ⟨_, expr?_eq_some.2 ((hnode _).trans ((if_pos rfl).trans (congrArg some hnew.symm)))⟩⟩
    next hne =>
      obtain ⟨hknown, expr, he⟩ := hi.exprTypes ht
      exact ⟨hknown, expr, expr?_eq_some.2 ((hother hne).node_eq.trans (expr?_eq_some.1 he))⟩
  · exact fun _ => isSome_insert
  · intro id w traits span he
    rw [expr?_eq_some, hnode] at he
    split at he
    next heq =>
      cases hnew.trans (Option.some.inj he)
      subst heq
      have htraits := hk.isTrait
      refine .inr ⟨⟨types, ?_, htraits, rfl⟩, ?_, fun _ => ⟨product, name, list, ?_, hlist, hall⟩⟩
      · rw [State.exprType?, htypes, if_pos rfl, Option.map_some]
        exact congrArg some (Solver.resolveBy_traits _ htraits)
      · rw [htypes, if_neg (hsome htype)]
        obtain ⟨_, hraw, -⟩ := Option.map_eq_some_iff.1 htype
        simp [hraw]
      · rw [hkept htype]
        exact congrArg some (Solver.resolveBy_leaf _ rfl (by simp))
    next => exact .inl (expr?_eq_some.2 he)

omit hr in
/-- No node holds a value that was just packed; all others are held as before. -/
lemma loose_pack {node} (h : Loose base.tree (s.pack node scope type).program.tree other) :
    other = s.program.tree.size ∨ Loose base.tree s.program.tree other := by
  by_cases hne : other = s.program.tree.size
  · exact .inl hne
  have hnode (id : Nat) : (s.pack node scope type).program.tree.node? id =
      if id = s.program.tree.size then some node else s.program.tree.node? id := s.program.tree.node?_push _ id
  obtain ⟨⟨witness, traits, span, he, hcase⟩, hunheld⟩ := h
  refine .inr ⟨⟨witness, traits, span, ?_, hcase⟩, fun parent found hn => hunheld parent found ?_⟩
  · rw [expr?_eq_some] at he ⊢
    rwa [hnode, if_neg hne] at he
  · rw [hnode, if_neg (lt_size hn).ne, hn]

/-! ### Verdicts, return statements and conformances -/

/-- What is entered about a declaration: the verdict on it, or the return statements in it. -/
lemma step_judged (hi : Inv base s) {verdicts returns}
    (hverdicts : ∀ {other : Nat}, (s.verdicts[other]?).isSome → (verdicts[other]?).isSome)
    (hreturns : ∀ {other record}, record ∈ s.returns.getD other [] → record ∈ returns.getD other [])
    (hother : ∀ other : Nat, id ≠ other → verdicts[other]? = s.verdicts[other]? ∧ returns[other]? = s.returns[other]?)
    (hplain : ∀ {other record}, record ∈ returns.getD other [] → Plain base s record.expected)
    (ho : s.Open (base.tree.owner id)) : Step base ⟨base.tree.owner id, id, id⟩ s { s with verdicts, returns } := by
  have hevolves : Evolves base ⟨base.tree.owner id, id, id⟩ s { s with verdicts, returns } :=
    { Evolves.refl base ⟨base.tree.owner id, id, id⟩ s with
      verdicts := hverdicts
      returns := hreturns
      added := fun _ _ _ => ⟨rfl, rfl, fun _ => rfl⟩
      nodes := fun _ _ => .inr (.inr ⟨rfl, rfl, fun _ => rfl⟩)
      judged := fun other _ => by
        by_cases hne : id = other
        · subst hne
          exact .inl ⟨rfl, le_rfl, le_rfl⟩
        · exact .inr (.inr (hother other hne)) }
  exact Move.step ⟨hevolves, fun h => h, hi.step hr hevolves ho (fun _ _ =>
    rfl) { hi.toTables with returns := hplain } (fun h => h) (fun _ _ => .inl) (fun _ h => h)
    (fun _ _ ht _ => ht.trans (congrArg some (resolve_exprType hi.lawful ht).symm)) (fun _ _ _ _ =>
    .inl) hi.balanced⟩ rfl

lemma step_verdict (hi : Inv base s) (id : Nat) (good : Bool) (ho : s.Open (base.tree.owner id)) :
    Step base ⟨base.tree.owner id, id, id⟩ s { s with verdicts := s.verdicts.insert id good } :=
  step_judged hr hi isSome_insert (fun h => h) (fun _ hne => ⟨getElem?_insert_of_ne hne, rfl⟩) hi.returns ho

omit hr in
lemma mem_getD_insert_append (returns : NodeMap (List ReturnRecord)) (function : Nat)
    (records : List ReturnRecord)
    {id} {record} : record ∈ (returns.insert function (returns.getD function [] ++ records)).getD id
    [] ↔ record ∈ returns.getD id [] ∨ function = id ∧ record ∈ records := by
  rw [Std.TreeMap.getD_insert]
  simp only [Nat.compare_eq_eq]
  split
  next heq => simp [heq]
  next hne => simp [hne]

lemma step_returns (hi : Inv base s) (function : Nat) {records} (hp : ∀ record ∈ records,
    Plain base s record.expected) (ho : s.Open (base.tree.owner function)) :
    Step base ⟨base.tree.owner function, function, function⟩ s
      { s with returns := s.returns.insert function (s.returns.getD function [] ++ records) } := by
  have hmem {id record} := @mem_getD_insert_append s.returns function records id record
  refine step_judged hr hi (fun h => h) (fun h => hmem.2 (.inl h)) (fun _ hne =>
    ⟨rfl, getElem?_insert_of_ne hne⟩) (fun h => ?_) ho
  exact (hmem.1 h).elim hi.returns fun h => hp _ h.2

omit hr in
/-- The table of conformances is no part of what notes are about. -/
lemma notes_conformances (base : Program) (s : State) (conformances : NodeMap (List Conformance)) :
    Notes base s { s with conformances } :=
  { Notes.refl base s with }

lemma core_conformances (hc : Core base s) (conformances : NodeMap (List Conformance)) : Core base
    { s with conformances } :=
  (notes_conformances base s conformances).core hr hc { hc.toTables with }

/-- The conformances of a product are entered, or stay as they were. -/
lemma step_conformances {s'} (hi : Inv base s) (hn : Notes base s s')
    (hc : Core base s') (hget : ∀ id : Nat, s'.conformances[id]? = if product = id then some list
    else s.conformances[id]?) (hnew : ∀ known, s.conformances[product]? = some known → known = list)
    (hconforms : Conforms base s' product list) (hbalanced : s'.Balanced base) :
    Step base .nowhere s s' := by
  have hkept : s.conformances.Grows s'.conformances := fun {id known} h => by
    grind
  refine Move.step ⟨hn.evolves .nowhere, hkept, hn.inv hr hi hc hkept (fun id known h =>
    ?_) hbalanced⟩ (congrArg Program.tree hn.program_eq)
  rw [hget] at h
  split at h
  next heq =>
    cases h
    exact .inr (heq ▸ hconforms)
  next => exact .inl h

end Check

end TraitLang
