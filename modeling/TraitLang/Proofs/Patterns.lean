import TraitLang.Proofs.Coercion

/-! Patterns that take a value apart. All their variables get types, one after the other, and the
expressions in them are checked with the types of the variables before them at hand. -/
namespace TraitLang

open List Pattern

mutual

variable {test : NodeId → Bool}

/-- The variables of a pattern are those of its nodes that a test tells from expressions. -/
lemma Pattern.filter_nodes : ∀ {pattern : Pattern}, (∀ var ∈ pattern.vars, test var) →
    (∀ expr ∈ pattern.exprs, test expr = false) → pattern.nodes.filter test = pattern.vars
  | .name var, hv, _ => by simp [nodes, vars, hv var (by simp [vars])]
  | .tuple elements, hv, he => filter_nodesAll hv he
  | .wildcard, _, _ => rfl
  | .expr id, _, he => by simp [nodes, vars, he id (by simp [exprs])]

lemma Pattern.filter_nodesAll : ∀ {elements},
    (∀ var ∈ varsAll elements, test var) → (∀ expr ∈ exprsAll elements, test expr = false) →
    (nodesAll elements).filter test = varsAll elements
  | [], _, _ => rfl
  | element :: elements, hv, he => by
    simp only [varsAll, exprsAll, forall_mem_append] at hv he
    rw [nodesAll, varsAll, filter_append, filter_nodes hv.1 he.1, filter_nodesAll hv.2 he.2]

end

namespace Check

variable {base : Program} {root : Nat} (hs : base.Surveyed root)

/-! ### Taking types apart -/

include hs in
lemma ensures_elementTypes {s} (hi : Inv base s) {type} (hk : Known base s type) (count : Nat) :
    Ensures (elementTypes count type) s fun found s' => Step base .nowhere s s' ∧
      ∀ types, found = some types → types.length = count ∧ ∀ type ∈ types, Known base s' type := by
  unfold elementTypes
  split
  next types =>
    refine ensures_pure.2 ⟨.refl hi, fun found hf => ?_⟩
    split at hf
    next hlength =>
      cases hf
      exact ⟨hlength, Ty.over_tuple.1 hk⟩
    next => cases hf
  next _ =>
    refine (ensures_mapM (I := fun (xs : List Nat) types s1 => Step base .nowhere s s1 ∧ types.length = xs.length ∧
      ∀ type ∈ types, Known base s1 type) (range count) ?_ ⟨.refl hi, rfl, by simp⟩).bind ?_
    · intro done x rest types s1 _ ⟨h1, hlength, htypes⟩
      refine (ensures_fresh hs h1.inv).imp fun type s2 ⟨h2, htype, _⟩ => ⟨h1.trans h2, by simp [hlength], ?_⟩
      exact forall_mem_append.2 ⟨fun type ht => (htypes type ht).mono h2.evolves.later, by simpa using htype⟩
    · intro types s1 ⟨h1, hlength, htypes⟩
      refine (ensures_unify hs h1.inv (hk.mono h1.evolves.later) (Ty.over_tuple.2 htypes)).bind ?_
      rintro _ s2 ⟨h2, _⟩
      refine ensures_pure.2 ⟨h1.trans h2, ?_⟩
      rintro _ ⟨⟩
      exact ⟨by simpa using hlength, fun type ht => (htypes type ht).mono h2.evolves.later⟩
  next =>
    refine ensures_pure.2 ⟨.refl hi, ?_⟩
    rintro _ ⟨⟩
    exact ⟨by simp, fun type ht => (mem_replicate.1 ht).2 ▸ hk⟩
  next => exact ensures_pure.2 ⟨.refl hi, nofun⟩

/-! ### Variables -/

section

variable {start s : State} {records : List ReturnRecord} {good : Prop} {place : Nat} {node : Node}
  {done rest ahead : List Nat}

include hs

lemma Midway.setVar {var} (h : Midway base records good start s place node done (var :: rest) ahead)
    (hv : base.tree.Declares DeclKind.isVar var) {type} (hk : Known base s type) :
    Step base (.below base var) s { s with declTypes := s.declTypes.insert var type } ∧
      Midway base records good start { s with declTypes := s.declTypes.insert var type }
      place node (done ++ [var]) rest ahead := by
  have hready := h.ready hs.rooted
  have hb : base.tree.isBinding var = false := Tree.isBinding_of_declares hv fun _ => rfl
  have hu := Tree.unit_of_not_binding hb
  have hfirst := hs.rooted.first_le hv.lt_size
  have hfresh := hready.fresh.node var ⟨hu, hfirst, le_rfl⟩
  have hset := step_setVar hs.rooted h.inv hv hk (hu ▸ hready.isOpen) (hfresh.var_eq hv)
  have hstep : Step base (.below base var) s { s with declTypes := s.declTypes.insert var type } :=
    hset.weaken (.inr ⟨hu, hfirst, le_rfl⟩)
  have htype : (s.declTypes.insert var type)[var]? = some type := NodeMap.getElem?_insert_self
  refine ⟨hstep, h.next hs.rooted (fun _ => Option.isSome_iff_exists.2 ⟨type, htype⟩) (fun hdiag hgood =>
    ⟨hgood, fun _ => ?_, fun hb' => by simp [hb] at hb'⟩) (accounted_of_inner hs.rooted (.inr (.inr (.inr hv)))) hstep⟩
  obtain ⟨⟨kind, _⟩, hd, hkind⟩ := hv
  have hn := Tree.decl?_eq_some.1 hd
  cases kind with
  | var name =>
    refine Done.node hs.rooted (Tree.lt_size hn) ⟨_, hfresh.node_eq.trans hn, s.solver.resolve type,
      ?_⟩ (.other hn (by simp)) ?_
    · exact congrArg (Option.map s.solver.resolve) htype
    · rw [Tree.children_of_node? hn]
      nofun
  | _ => cases hkind

/-- The next child is passed over, since something was reported. -/
lemma Midway.skip {child} (h : Midway base records good start s place node done
    (child :: rest) ahead) (hd : s.diagnostics ≠ []) (he : base.tree.HasExpr child) :
    Midway base records good start s place node (done ++ [child]) rest ahead := by
  refine h.next hs.rooted ?_ (fun hdiag => absurd hdiag hd) (accounted_of_inner hs.rooted (.inl he)) (.refl h.inv)
  rintro ⟨decl, hdecl, -⟩
  exact absurd he (Tree.decl_only hdecl).1

lemma ensures_spoilVars {test} (htest : ∀ id, test id ↔ base.tree.Declares DeclKind.isVar id)
    {region} : ∀ (nodes : List Nat) {s done},
      Midway base records good start s place node done (nodes ++ rest) ahead → s.diagnostics ≠ [] →
      (∀ child ∈ nodes, (Region.below base child).Within region) →
      (∀ child ∈ nodes, test child = false → base.tree.HasExpr child) →
      Ensures ((nodes.filter test).forM fun var => setDeclType var .error) s fun _ s' =>
        Move base region s s' ∧ Midway base records good start s' place node
          (done ++ nodes) rest ahead ∧ s'.diagnostics ≠ []
  | [], s, done, h, hd, _, _ => ensures_pure.2 ⟨.refl h.inv, by simpa using h, hd⟩
  | child :: nodes, s, done, h, hd, hwithin, hexprs => by
    obtain ⟨hhead, htail⟩ := forall_mem_cons.1 hwithin
    obtain ⟨hexpr, hexprs⟩ := forall_mem_cons.1 hexprs
    cases htc : test child with
    | true =>
      obtain ⟨hstep, hnext⟩ := h.setVar hs ((htest child).1 htc) (known_error (.inl hd))
      rw [filter_cons_of_pos htc]
      refine ensures_modify_bind.2 ?_
      refine (ensures_spoilVars htest nodes hnext hd htail hexprs).imp ?_
      rintro _ s2 ⟨h2, hmidway, hdiag⟩
      exact ⟨(hstep.toMove.weaken hhead).trans h2, by simpa using hmidway, hdiag⟩
    | false =>
      have hskip := h.skip hs hd (hexpr htc)
      rw [filter_cons_of_neg (by simp [htc])]
      refine (ensures_spoilVars htest nodes hskip hd htail hexprs).imp ?_
      rintro _ s2 ⟨h2, hmidway, hdiag⟩
      exact ⟨h2, by simpa using hmidway, hdiag⟩

end

/-! ### Patterns -/

mutual

variable {depth place rank : Nat} {ask : Answerer} {start : State} {region : Region} {node : Node}
  {ahead : List Nat}

lemma ensures_bindPattern (hs : base.Surveyed root) (ha : Answers base depth ask)
    (hrank : place < rank) (scope : ScopeId) : ∀ (pattern : Pattern) {s good done rest type},
    pattern.Fits base.tree → (∀ expr ∈ pattern.exprs, base.tree.InPattern expr) → Midway base
      [] good start s place node done (pattern.nodes ++ rest) ahead → (∀ child ∈ pattern.nodes,
      (Region.below base child).Within region) → Known base s type → Affords base s rank depth →
      Ensures (bindPattern ask scope place pattern type) s fun bound s' =>
        Passed base [] good start s s' place region node (done ++ pattern.nodes) rest bound ahead
  | .name var, s, good, done, rest, type, hfits, _, h, hwithin, hk, _ => by
    have hv := hfits.1 var (by simp [vars])
    obtain ⟨hstep, hnext⟩ := h.setVar hs hv hk
    exact ensures_pure.2 ⟨hnext.imp And.left, hstep.toMove.weaken (hwithin var (by simp [nodes])), nofun⟩
  | .wildcard, s, good, done, rest, type, _, _, h, _, _, _ =>
    ensures_pure.2 ⟨by simpa [nodes] using h, .refl h.inv, nofun⟩
  | .expr id, s, good, done, rest, type, hfits, hin, h, hwithin, hk, hafford => by
    have he := hfits.2 id (by simp [exprs])
    refine (h.coerced hs ha he hk hrank hafford scope .value).bind ?_
    rintro ⟨slot, found⟩ s1 ⟨hcoerced, hhanded, -⟩
    have hmidway := hhanded.drop hs.rooted hcoerced.packs (hin id (by simp [exprs]))
    refine ensures_pure.2 ⟨?_, hcoerced.move.weaken (hwithin id (by simp [nodes])), fun hbad => ?_⟩
    · exact hmidway.imp fun hgood => ⟨hgood.1, by simpa using hgood.2⟩
    · exact hcoerced.known.faulty (by simpa using hbad)
  | .tuple elements, s, good, done, rest, type, hfits, hin, h, hwithin, hk, hafford => by
    refine (ensures_resolve s type).read ?_
    refine (ensures_elementTypes hs h.inv (hk.resolveBy h.inv.solver) elements.length).bind ?_
    rintro found s1 ⟨h1, htypes⟩
    have hmidway := h.quiet hs.rooted h1
    cases found with
    | some types =>
      obtain ⟨hlength, hknown⟩ := htypes types rfl
      refine (ensures_bindPatterns hs ha hrank scope elements (fits_tuple.1 hfits)
        hin hmidway hwithin hknown hlength (hafford.evolves h1.evolves)).imp fun bound s2 h2 => ?_
      exact ⟨h2.midway, (h1.toMove.anywhere _).trans h2.move, h2.bad⟩
    | none =>
      refine ensures_reportAt_bind hs.rooted h1.inv h.lt_size fun s2 hreport hdiag => ?_
      have hvar (id : Nat) : (base.tree.decl? id).any (fun decl => decl.kind.isVar) ↔
          base.tree.Declares DeclKind.isVar id := by
        unfold Tree.Declares
        cases base.tree.decl? id <;> simp
      have hexpr (id : Nat) (he : id ∈ exprsAll elements) :
          (base.tree.decl? id).any (fun decl => decl.kind.isVar) = false := by
        obtain ⟨expr, he⟩ := hfits.2 id he
        cases hd : base.tree.decl? id with
        | none => rfl
        | some decl => exact absurd ⟨expr, he⟩ (Tree.decl_only hd).1
      rw [← filter_nodesAll (fun var hv => (hvar var).2 (hfits.1 var hv)) hexpr]
      have hnodes (id : Nat) (hid : id ∈ nodesAll elements) (hnot : (base.tree.decl? id).any
          (fun decl => decl.kind.isVar) = false) : base.tree.HasExpr id := by
        rcases (mem_nodesAll_iff elements).1 hid with hv | he
        · simp [(hvar id).2 (hfits.1 id hv)] at hnot
        · exact hfits.2 id he
      refine (ensures_spoilVars hs hvar (nodesAll elements)
        (hmidway.quiet hs.rooted hreport) hdiag hwithin hnodes).bind ?_
      rintro _ s3 ⟨h3, hmidway3, hdiag3⟩
      exact ensures_pure.2 ⟨hmidway3.imp And.left, ((h1.trans hreport).toMove.anywhere _).trans h3,
        fun _ => .inl hdiag3⟩

lemma ensures_bindPatterns (hs : base.Surveyed root)
    (ha : Answers base depth ask) (hrank : place < rank) (scope : ScopeId) :
    ∀ elements {s good done rest types}, (∀ element ∈ elements, element.Fits base.tree) →
      (∀ expr ∈ exprsAll elements, base.tree.InPattern expr) → Midway base
      [] good start s place node done (nodesAll elements ++ rest) ahead →
      (∀ child ∈ nodesAll elements, (Region.below base child).Within region) → (∀ type ∈ types,
      Known base s type) → types.length = elements.length → Affords base s rank depth →
      Ensures (bindPatterns ask scope place elements types) s fun bound s' =>
        Passed base [] good start s s' place region node (done ++ nodesAll elements) rest bound ahead
  | [], s, good, done, rest, types, _, _, h, _, _, hlength, _ => by
    exact ensures_pure.2 ⟨by simpa [nodesAll] using h, .refl h.inv, nofun⟩
  | element :: elements, s, good, done, rest, types, hfits, hin, h, hwithin, hk, hlength, hafford => by
    cases types with
    | nil => cases hlength
    | cons type types =>
      obtain ⟨hfit, hfits⟩ := forall_mem_cons.1 hfits
      obtain ⟨hk, hks⟩ := forall_mem_cons.1 hk
      obtain ⟨hin, hins⟩ := forall_mem_append.1 hin
      obtain ⟨hwithin, hwithins⟩ := forall_mem_append.1 hwithin
      rw [nodesAll, append_assoc] at h
      refine (ensures_bindPattern hs ha hrank scope element hfit hin h hwithin hk hafford).bind fun good s1 h1 => ?_
      refine (ensures_bindPatterns hs ha hrank scope elements hfits hins h1.midway hwithins
        (fun type ht => (hks type ht).mono h1.move.evolves.later) (by simpa using hlength)
        (hafford.evolves h1.move.evolves)).bind fun rest s2 h2 => ?_
      rw [nodesAll, ← append_assoc]
      exact ensures_pure.2 (h1.trans h2)

end

end Check

end TraitLang
