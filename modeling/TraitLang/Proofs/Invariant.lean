import TraitLang.Proofs.Conformances.Verified
import TraitLang.Proofs.Instances
import TraitLang.Proofs.Members

/-! What holds of the state whenever a question is asked or answered. -/
namespace TraitLang.Check

open Option TraitLang.Tree

/-! ### Checked nodes -/

/-- A type of a generic function where it is named: that of its signature, with a choice of types
for the parameters. -/
def State.Instance (s : State) (id : DeclId) (type : Ty) : Prop :=
  ∃ signature generics substitution, s.signatures[id]? = some signature ∧ s.generics[id]? = some (some generics) ∧
    generics.Admits substitution ∧ type = s.solver.resolve (signature.toTy.substitute substitution)

/-- The types that a state has for the nodes of its tree. Some return statements may be known that
were not entered yet. -/
def State.typing (base : Program) (records : List ReturnRecord) (s : State) : Typing where
  tree := s.program.tree
  program := base
  declType := s.declType?
  exprType := s.exprType?
  returnType id type := ∃ function expected,
    (⟨id, function, expected⟩ ∈ records ∨ ⟨id, function, expected⟩ ∈ s.returns.getD function []) ∧
      type = s.solver.resolve expected
  instanceOf := s.Instance

/-- A node was checked and found good. -/
structure Sound (base : Program) (records : List ReturnRecord) (s : State) (id : Nat) : Prop where
  rule : (s.typing base records).Rule True id
  bindings : ∀ child ∈ base.tree.children id, base.tree.isBinding child →
    ∃ type, s.declTypes[child]? = some type ∧ type.hasErrors = false
  meant : Meant base s id

/-- A node was checked and found good, with everything in its unit below it. -/
def Done (base : Program) (records : List ReturnRecord) (s : State) (top : Nat) : Prop :=
  ∀ id, base.tree.Inside top id → base.tree.unit id = base.tree.unit top → Sound base records s id

/-! ### The invariant -/

/-- The signature of a function, with what was recorded on the way to it. -/
def Signed (base : Program) (s : State) (id : Nat) (signature : Signature) : Prop :=
  (∀ type ∈ signature.params, Plain base s type) ∧ Plain base s signature.output ∧
    ∀ decl span, base.tree.decl? id = some ⟨.function decl, span⟩ →
      ∀ param ∈ decl.params, (s.declTypes[param]?).isSome

/-- The generic parameters of a function, with its where clause. -/
def Constrained (base : Program) (s : State) (id : Nat) : Option Generics → Prop
  | none => s.diagnostics ≠ []
  | some generics => ∃ function span, base.tree.decl? id = some ⟨.function function, span⟩ ∧
    generics.Collects base (Plain base s) (s.diagnostics = []) id function.genericParams function.whereClause

structure Tables (base : Program) (s : State) : Prop where
  descends : base.Descends s.program
  lawful : Solver.Lawful s.solver.bindings
  solver : ∀ binding ∈ s.solver.bindings, binding.1 < s.solver.next ∧ Known base s binding.2
  declTypes : ∀ {id : Nat} {type : Ty}, s.declTypes[id]? = some type →
    Known base s type ∧ (base.tree.Declares DeclKind.isParam id → Plain base s type)
  exprTypes : ∀ {id : Nat} {type : Ty}, s.exprTypes[id]? = some type →
    Known base s type ∧ s.program.tree.HasExpr id
  signatures : ∀ {id : Nat} {signature : Signature}, s.signatures[id]? = some signature →
    Signed base s id signature
  generics : ∀ {id : Nat} {found : Option Generics}, s.generics[id]? = some found →
  Constrained base s id found
  returns : ∀ {id : Nat} {record : ReturnRecord}, record ∈ s.returns.getD id [] →
  Plain base s record.expected

lemma Tables.insertDecl {base s id type} (h : Tables base s) (hk : Known base s type)
    (hp : base.tree.Declares DeclKind.isParam id → Plain base s type) :
    Tables base { s with declTypes := s.declTypes.insert id type } :=
  { h with
    declTypes := fun hd => NodeMap.of_insert hd ⟨hk, hp⟩ h.declTypes
    signatures := fun hsig => by
      obtain ⟨hparams, houtput, htyped⟩ := h.signatures hsig
      exact ⟨hparams, houtput, fun decl span hd param hp => NodeMap.isSome_insert (htyped decl span hd param hp)⟩ }

/-- What holds of a state also while the conformances of a product are being verified. -/
structure Core (base : Program) (s : State) : Prop extends Tables base s where
  untouched : ∀ {binding : Nat}, base.tree.isBinding binding → s.Untouched binding →
    FreshIn base (.within base binding) s
  typed :
  ∀ {binding : Nat} {type : Ty}, base.tree.isBinding binding → s.declTypes[binding]? = some type →
    binding ∉ s.inProgress ∧ (∀ decl span, base.tree.decl? binding = some ⟨.binding decl, span⟩ →
      ∀ var ∈ decl.pattern.vars, (s.declTypes[var]?).isSome) ∧
    (s.diagnostics = [] → type.hasErrors = false → Done base [] s binding)

/-- A packed value: if nothing is wrong, it is of a product that conforms to the traits. -/
structure Packed (base : Program) (s : State) (id witness : Nat) (traits : List DeclId) : Prop where
  type : ∃ types, s.exprType? id = some (.existential types) ∧ (∀ type ∈ types, type.isTrait) ∧
    Ty.traitDeclsAll types = traits
  recorded : (s.exprTypes[witness]?).isSome
  product :
  ¬s.Faulty base → ∃ product name list, s.exprType? witness = some (.product product name) ∧
    s.conformances[product]? = some list ∧ ∀ trait ∈ traits, trait ∈ list.map Conformance.trait

/-- What holds of a state whenever a question is asked or answered. -/
structure Inv (base : Program) (s : State) : Prop extends Core base s where
  conformances : ∀ {product : Nat} {list : List Conformance}, s.conformances[product]? = some list →
    Conforms base s product list
  packed : ∀ {id witness : Nat} {traits : List DeclId} {span : Span}, s.program.tree.expr? id = some
    ⟨.existential witness traits, span⟩ → Packed base s id witness traits
  balanced : s.Balanced base

/-! ### Keeping what was checked -/

section

variable {base : Program} {root : Nat} (hr : base.tree.Rooted root) {region : Region} {s s' : State}

lemma Same.exprType {id} (h : Same base s s' id) (hl : Solver.Lawful s.solver.bindings)
    (hrefines : s.solver.Refines s'.solver) {type} (ht : s.exprType? id = some type) :
    s'.exprType? id = some (s'.solver.resolve type) := by
  obtain ⟨_, hraw, rfl⟩ := map_eq_some_iff.1 ht
  rw [h.expr_eq, hraw, map_some, hrefines.resolve hl]

include hr

omit hr in
lemma Core.child (hc : Core base s) (he : Evolves base region s s')
    {id} (hsame : ∀ child ∈ base.tree.children id, base.tree.isBinding child = false →
    Same base s s' child) {child} (hchild : child ∈ base.tree.children id) {type}
    (ht : s.exprType? child = some type) : s'.exprType? child = some (s'.solver.resolve type) := by
  cases hb : base.tree.isBinding child with
  | false => exact (hsame child hchild hb).exprType hc.lawful he.refines ht
  | true =>
    -- no types of expressions are recorded for bindings
    exfalso
    obtain ⟨_, hraw, -⟩ := map_eq_some_iff.1 ht
    exact (hc.descends.not_expr_or_case hb).1 (hc.exprTypes hraw).2

/-- The types of what stands in the slots of a node are kept with those of its children. -/
lemma Core.slot (hc : Core base s) (he : Evolves base region s s') {id} (hid : id < base.tree.size)
    (hsame : ∀ child ∈ base.tree.children id, base.tree.isBinding child = false →
    Same base s s' child) {slot} (hslot : slot ∈ s.program.tree.children id) {type}
    (ht : s.exprType? slot = some type) : s'.exprType? slot = some (s'.solver.resolve type) := by
  rcases hc.descends.child_cases hr hid hslot with hchild | ⟨hge, hlt⟩
  · exact hc.child he hsame hchild ht
  · exact (he.added slot hge hlt).exprType hc.lawful he.refines ht

variable {records : List ReturnRecord}

lemma Sound.evolves {id} (hc : Core base s) (he : Evolves base region s s')
    (hid : id < base.tree.size) (h : Sound base records s id) (hsame : ∀ inner,
    base.tree.Inside id inner → base.tree.unit inner = base.tree.unit id → Same base s s' inner) :
    Sound base records s' id := by
  have hchildren {parent} (hp : parent < base.tree.size) (hin : base.tree.Inside id parent)
      (hu : base.tree.unit parent = base.tree.unit id) (child : Nat) (hchild : child ∈ base.tree.children parent)
      (hb : base.tree.isBinding child = false) : Same base s s' child := by
    obtain ⟨-, hlt, hself, hfirst⟩ := hr.child hchild
    refine hsame child ⟨(hr.first_mono hid hin.1 hin.2).trans (hfirst.trans hself), hlt.le.trans hin.2⟩ ?_
    rw [hr.unit_child hchild hb, hu]
  have hin := hr.inside_self hid
  refine ⟨?_, ?_, h.meant.refine he.generics s'.solver.bindings fun child hchild type ht =>
    hc.child he (hchildren hid hin rfl) hchild ht⟩
  · refine Typing.Rule.refine (.inl fun h => h) s'.solver.bindings
      (show (s'.typing base records).program = (s.typing base records).program from rfl)
      (hsame id hin rfl).node_eq (fun type ht =>
      (hsame id hin rfl).exprType hc.lawful he.refines ht) (fun slot hslot type ht =>
      hc.slot hr he hid (hchildren hid hin rfl) hslot ht) ?_ ?_ ?_ ?_ h.rule
    · intro child hchild case hcase
      have hnode : s.program.tree.node? child = some (.case case) := case?_eq_some.1 hcase
      rcases hc.descends.child_cases hr hid hchild with hbase | ⟨hge, hlt⟩
      · have hb : base.tree.isBinding child = false := by
          by_contra hb
          exact (hc.descends.not_expr_or_case (by simpa using hb)).2 ⟨case, hcase⟩
        obtain ⟨-, hlt, hself, hfirst⟩ := hr.child hbase
        have hin' : base.tree.Inside id child := ⟨hfirst.trans hself, hlt.le⟩
        have hu := hr.unit_child hbase hb
        refine ⟨?_, fun type ht => ?_⟩
        · have := (hsame child hin' hu).node_eq
          exact case?_eq_some.2 (this.trans hnode)
        · refine hc.slot hr he (hlt.trans hid) (hchildren (hlt.trans hid) hin' hu) ?_ ht
          rw [children_of_node? hnode]
          exact List.mem_append_right _ (List.mem_singleton.2 rfl)
      · obtain ⟨_, _, _, -, hexpr, -⟩ := hc.descends.added child hge hlt
        rw [expr?_eq_some, hnode] at hexpr
        cases hexpr
    · intro decl type ht
      obtain ⟨raw, hraw, rfl⟩ := map_eq_some_iff.1 ht
      show s'.declTypes[decl]?.map _ = _
      rw [he.declTypes hraw, map_some]
      exact congrArg some (he.refines.resolve hc.lawful raw).symm
    · rintro decl type ⟨signature, generics, substitution, hsignature, hgenerics, hadmits, rfl⟩
      exact ⟨signature, generics, substitution, he.signatures hsignature, he.generics hgenerics,
        hadmits, he.refines.resolve hc.lawful _⟩
    · rintro type ⟨function, expected, hrecord, rfl⟩
      exact ⟨function, expected, hrecord.imp_right he.returns, he.refines.resolve hc.lawful expected⟩
  · intro child hchild hb
    obtain ⟨type, ht, hgood⟩ := h.bindings child hchild hb
    exact ⟨type, he.declTypes ht, hgood⟩

lemma Done.evolves {top} (hc : Core base s) (he : Evolves base region s s')
    (ht : top < base.tree.size) (h : Done base records s top) (hsame : ∀ id,
    base.tree.Inside top id → base.tree.unit id = base.tree.unit top → Same base s s' id) :
    Done base records s' top := by
  intro id hi hu
  have hid : id < base.tree.size := lt_of_le_of_lt hi.2 ht
  refine (h id hi hu).evolves hr hc he hid fun inner hin hu' => ?_
  have hmono := hr.first_mono ht hi.1 hi.2
  exact hsame inner ⟨hmono.trans hin.1, hin.2.trans hi.2⟩ (hu'.trans hu)

/-! ### Keeping the invariant -/

omit hr in
lemma FreshIn.evolves (he : Evolves base region s s') {place} (hp : place.high < base.tree.size)
    (h : FreshIn base place s) (ha : place.Apart region) (hn : ¬Entered s s' place.unit) :
    FreshIn base place s' := by
  refine ⟨fun id hid => ?_, fun id hid => ?_⟩
  · rcases he.nodes id (lt_of_le_of_lt hid.2.2 hp) with hr | hent | hsame
    · exact absurd hr (ha.hasNode hid)
    · exact absurd (hid.1 ▸ hent) hn
    · exact (h.node id hid).same hsame
  · rcases he.judged id (lt_of_le_of_lt hid.2.2 hp) with hr | hent | hsame
    · exact absurd hr (ha.hasVerdict hid)
    · exact absurd (hid.1 ▸ hent) hn
    · rw [hsame.1, hsame.2]
      exact h.verdict id hid

/-- Work that finds no types for bindings keeps the invariant if it keeps the tables. -/
lemma Core.step (hc : Core base s) (he : Evolves base region s s') (ho : s.Open region.unit)
    (hb : ∀ binding, base.tree.isBinding binding → s'.declTypes[binding]? = s.declTypes[binding]?)
    (ht : Tables base s') : Core base s' where
  toTables := ht
  untouched := by
    intro binding hbinding hu
    have hu0 := he.untouched hu
    have hlt := (isBinding_iff.1 hbinding).lt_size
    refine (hc.untouched hbinding hu0).evolves he hlt (.inl fun hunit => ?_) ?_
    · exact hu0.2 (ho binding hunit.symm)
    · rintro ⟨other, hother, -, htyped⟩
      cases hother
      simp [hu.1] at htyped
  typed := by
    intro binding type hbinding htype
    rw [hb binding hbinding] at htype
    obtain ⟨hnot, hvars, hdone⟩ := hc.typed hbinding htype
    refine ⟨by rwa [he.inProgress_eq], fun decl span hd var hv => he.isSome_declTypes
      (hvars decl span hd var hv), fun hdiag hgood => ?_⟩
    refine (hdone (he.diagnostics hdiag) hgood).evolves hr hc he (isBinding_iff.1 hbinding).lt_size ?_
    intro id hi hu
    rw [unit_of_binding hbinding] at hu
    refine he.same (lt_of_le_of_lt hi.2 (isBinding_iff.1 hbinding).lt_size) ?_ ?_
    · rintro ⟨hregion, -⟩
      exact hnot (ho binding (hregion.symm.trans hu))
    · intro other hother huntouched
      cases hu.symm.trans hother
      simp [huntouched.1] at htype

/-- Work keeps the invariant if besides it keeps the types of packed values, or something is wrong,
and the reports in balance. -/
lemma Inv.step (hi : Inv base s) (he : Evolves base region s s') (ho : s.Open region.unit)
    (hb : ∀ binding, base.tree.isBinding binding → s'.declTypes[binding]? = s.declTypes[binding]?)
    (ht : Tables base s') (hkept : s.conformances.Grows s'.conformances)
    (hconforms : ∀ (product : Nat) list, s'.conformances[product]? = some list →
      s.conformances[product]? = some list ∨ Conforms base s' product list)
    (hrecorded : ∀ id : Nat, (s.exprTypes[id]?).isSome → (s'.exprTypes[id]?).isSome)
    (hexpr : ∀ (id : Nat) type, s.exprType? id = some type → ¬s'.Faulty base →
      s'.exprType? id = some (s'.solver.resolve type)) (hpacked : ∀ id witness traits span,
    s'.program.tree.expr? id = some ⟨.existential witness traits, span⟩ →
      s.program.tree.expr? id = some ⟨.existential witness traits, span⟩ ∨
      Packed base s' id witness traits) (hbalanced : s'.Balanced base) : Inv base s' where
  toCore := hi.toCore.step hr he ho hb ht
  conformances := fun h =>
  (hconforms _ _ h).elim (fun h => (hi.conformances h).mono he.signatures) id
  balanced := hbalanced
  packed := by
    intro id witness traits span hexpr'
    refine (hpacked id witness traits span hexpr').elim (fun hold => ?_) (fun hnew => hnew)
    obtain ⟨⟨types, htype, htraits, hdecls⟩, hrec, hproduct⟩ := hi.packed hold
    obtain ⟨hge, hlt⟩ := hi.descends.size_le_of_packed hr hold
    refine ⟨⟨types, ?_, htraits, hdecls⟩, hrecorded witness hrec, fun hf => ?_⟩
    · rw [(he.added id hge hlt).exprType hi.lawful he.refines htype]
      exact congrArg some (Solver.resolveBy_traits _ htraits)
    · obtain ⟨product, name, list, hw, hlist, hall⟩ := hproduct fun hf' => hf (he.faulty hf')
      refine ⟨product, name, list, ?_, hkept hlist, hall⟩
      rw [hexpr witness _ hw hf]
      exact congrArg some (Solver.resolveBy_leaf _ rfl (by simp))

end

/-! ### Notes -/

/-- Work that only looks things up by name and takes down what it finds. -/
structure Notes (base : Program) (s s' : State) : Prop where
  program_eq : s'.program = s.program
  settings_eq : s'.settings = s.settings
  solver_eq : s'.solver = s.solver
  exprTypes_eq : s'.exprTypes = s.exprTypes
  verdicts_eq : s'.verdicts = s.verdicts
  inProgress_eq : s'.inProgress = s.inProgress
  returns_eq : s'.returns = s.returns
  declTypes : s.declTypes.Grows s'.declTypes
  kept : ∀ id, base.tree.Declares (fun kind => kind.isVar || kind.isBinding) id →
    s'.declTypes[id]? = s.declTypes[id]?
  signatures : s.signatures.Grows s'.signatures
  generics : s.generics.Grows s'.generics
  diagnostics : s'.diagnostics = [] → s.diagnostics = []

namespace Notes

variable {base : Program} {s s' s'' : State}

protected lemma refl (base : Program) (s : State) : Notes base s s :=
  ⟨rfl, rfl, rfl, rfl, rfl, rfl, rfl, id, fun _ _ => rfl, id, id, id⟩

protected lemma trans (h1 : Notes base s s') (h2 : Notes base s' s'') : Notes base s s'' where
  program_eq := h2.program_eq.trans h1.program_eq
  settings_eq := h2.settings_eq.trans h1.settings_eq
  solver_eq := h2.solver_eq.trans h1.solver_eq
  exprTypes_eq := h2.exprTypes_eq.trans h1.exprTypes_eq
  verdicts_eq := h2.verdicts_eq.trans h1.verdicts_eq
  inProgress_eq := h2.inProgress_eq.trans h1.inProgress_eq
  returns_eq := h2.returns_eq.trans h1.returns_eq
  declTypes := h2.declTypes ∘ h1.declTypes
  kept := fun id hid => (h2.kept id hid).trans (h1.kept id hid)
  signatures := h2.signatures ∘ h1.signatures
  generics := h2.generics ∘ h1.generics
  diagnostics := h1.diagnostics ∘ h2.diagnostics

lemma faulty (h : Notes base s s') : s.Faulty base → s'.Faulty base :=
  Or.imp_left fun hd hd' => hd (h.diagnostics hd')

lemma evolves (h : Notes base s s') (region : Region) : Evolves base region s s' := by
  have hvar {id} (hv : base.tree.Declares DeclKind.isVar id) : s'.declTypes[id]? = s.declTypes[id]? := by
    obtain ⟨decl, hd, hk⟩ := hv
    exact h.kept id ⟨decl, hd, by simp [hk]⟩
  have hsame (id : Nat) : Same base s s' id :=
    ⟨by rw [h.program_eq], by rw [State.exprType?, h.exprTypes_eq], hvar⟩
  exact { h with
    size_le := by rw [h.program_eq]
    refines := h.solver_eq ▸ .refl _
    returns := by rw [h.returns_eq]; exact id
    verdicts := by rw [h.verdicts_eq]; exact id
    added := fun id _ _ => hsame id
    nodes := fun id _ => .inr (.inr (hsame id))
    judged := fun id _ => .inr (.inr (by rw [h.verdicts_eq, h.returns_eq]; exact ⟨rfl, rfl⟩)) }

lemma kept_binding (h : Notes base s s') {binding} (hb : base.tree.isBinding binding) :
    s'.declTypes[binding]? = s.declTypes[binding]? := by
  obtain ⟨decl, hd, hk⟩ := isBinding_iff.1 hb
  exact h.kept binding ⟨decl, hd, by simp [hk]⟩

lemma core {root} (hr : base.tree.Rooted root) (h : Notes base s s') (hc : Core base s)
    (ht : Tables base s') : Core base s' :=
  hc.step hr (h.evolves .nowhere) (fun _ h => nomatch h) (fun _ => h.kept_binding) ht

/-- Notes keep the invariant if all that comes into the table was verified, and the reports are in
balance with it. -/
lemma inv {root} (hr : base.tree.Rooted root) (h : Notes base s s')
    (hi : Inv base s) (hc : Core base s') (hkept : s.conformances.Grows s'.conformances)
    (hconforms : ∀ (product : Nat) list, s'.conformances[product]? = some list →
      s.conformances[product]? = some list ∨ Conforms base s' product list)
    (hbalanced : s'.Balanced base) : Inv base s' := by
  refine hi.step hr (h.evolves .nowhere) (fun _ h => nomatch h) (fun _ => h.kept_binding)
    hc.toTables hkept hconforms (fun id hid => by rwa [h.exprTypes_eq]) (fun id type ht _ =>
    ?_) (fun id witness traits span he => .inl (by rwa [← h.program_eq])) hbalanced
  have hidem : s.solver.resolve type = type := by
    obtain ⟨raw, -, rfl⟩ := map_eq_some_iff.1 ht
    exact (Solver.Refines.refl _).resolve hi.lawful raw
  rw [State.exprType?, h.exprTypes_eq, h.solver_eq, hidem]
  exact ht

end Notes

/-- Work that takes notes, to a state that is good. -/
structure Gathered (base : Program) (s s' : State) : Prop extends Notes base s s' where
  core : Core base s'
  conformances_eq : s'.conformances = s.conformances

/-- Work that takes notes and verifies no conformances. -/
structure Noted (base : Program) (s s' : State) : Prop extends Gathered base s s' where
  breached_eq : s'.breached = s.breached

variable {base : Program} {s s' s'' : State}

protected lemma Gathered.trans (h1 : Gathered base s s') (h2 : Gathered base s' s'') : Gathered base s s'' :=
  ⟨h1.toNotes.trans h2.toNotes, h2.core, h2.conformances_eq.trans h1.conformances_eq⟩

namespace Noted

protected lemma refl (hc : Core base s) : Noted base s s := ⟨⟨.refl base s, hc, rfl⟩, rfl⟩

protected lemma trans (h1 : Noted base s s') (h2 : Noted base s' s'') : Noted base s s'' :=
  ⟨h1.toGathered.trans h2.toGathered, h2.breached_eq.trans h1.breached_eq⟩

lemma inv {root} (hr : base.tree.Rooted root) (h : Noted base s s') (hi : Inv base s) : Inv base s' :=
  h.toNotes.inv hr hi h.core (fun hl => by rwa [h.conformances_eq])
    (fun product list hl => .inl (by rwa [← h.conformances_eq])) (hi.balanced.mono (fun _ _ =>
    hi.conformances) h.signatures (fun _ => by rw [h.conformances_eq]) h.breached_eq)

end Noted

end TraitLang.Check
