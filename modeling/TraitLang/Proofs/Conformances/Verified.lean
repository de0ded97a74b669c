import Mathlib.Data.List.Perm.Basic
import TraitLang.Check.Conformance
import TraitLang.Proofs.Refinement
import TraitLang.Proofs.Tables

/-! What it means that a conformance is verified. It only takes the signatures that are known:
whatever verification did not look at may become known later and changes nothing. What verification
reports is accounted for by the conformances in the table. -/
namespace TraitLang

open List Conformance Option Std.TreeMap

def Problem.isNonConforming : Problem → Bool
  | .nonConforming _ _ _ => true
  | _ => false

namespace Check

def State.breached (s : State) : List Diagnostic :=
  s.diagnostics.filter fun diagnostic => diagnostic.problem.isNonConforming

/-- A function of the name of a requirement. -/
def Namesake (base : Program) (requirement member : DeclId) : Bool :=
  base.tree.isFunction member && base.declName member = base.declName requirement

/-- The first of some members that has the name and the signature of a requirement. -/
def State.implementation? (base : Program) (s : State) (members : List DeclId)
    (requirement : DeclId) : Option DeclId :=
  (s.signatures[requirement]?).bind fun required => members.find? fun member =>
    Namesake base requirement member && s.signatures[member]? = some required

def State.unmet (base : Program) (s : State) (members requirements : List DeclId) : List DeclId :=
  requirements.filter fun requirement => (s.implementation? base members requirement).isNone

def State.met (base : Program) (s : State) (members requirements : List DeclId) : List ConformanceEntry :=
  requirements.filterMap fun requirement => (s.implementation? base members requirement).map (⟨requirement, ·⟩)

/-- A conformance of a product as verification leaves it. -/
def State.settle (base : Program) (s : State) (product : DeclId) (conformance : Conformance) : Conformance :=
  let members := productMembers base.tree product
  let requirements := conformance.requirements base.tree
  if s.unmet base members requirements = [] then
    { conformance with entries := s.met base members requirements, state := .checked }
  else { conformance with entries := [], state := .invalid }

/-- What there is to report about a conformance of a product. -/
def State.breaches (base : Program) (s : State) (product : DeclId) (conformance : Conformance) : List Diagnostic :=
  match base.tree.decl? product with
  | none => []
  | some decl =>
    let unmet := s.unmet base (productMembers base.tree product) (conformance.requirements base.tree)
    unmet.map fun requirement =>
      ⟨.nonConforming (base.declName product) (conformance.traitType base.tree).describe
        (base.declName requirement), (conformance.span.getD decl.span).start⟩

/-! ### The search for an implementation -/

/-- A search through members for an implementation, with all signatures known that it looks at. -/
inductive Selects (base : Program) (s : State) (requirement : DeclId) (required : Signature) :
    List DeclId → Option DeclId → Prop
  | nothing : Selects base s requirement required [] none
  | take {member : DeclId} {members : List DeclId} : Namesake base requirement member →
    s.signatures[member]? = some required → Selects base s requirement required (member :: members) (some member)
  | pass {member : DeclId} {members : List DeclId} {found : Option DeclId} :
    (Namesake base requirement member → ∃ other, s.signatures[member]? = some other ∧
    other ≠ required) → Selects base s requirement required members found →
    Selects base s requirement required (member :: members) found

/-- The implementations of some requirements were looked for. -/
def Examined (base : Program) (s : State) (members requirements : List DeclId) : Prop :=
  ∀ requirement ∈ requirements, ∃ required, s.signatures[requirement]? = some required ∧
    ∃ found, Selects base s requirement required members found

section

variable {base : Program} {s s' : State} {members requirements : List DeclId} {requirement : DeclId}
  {required : Signature} {found : Option DeclId}

lemma Selects.implementation?_eq (h : Selects base s requirement required members found)
    (hr : s.signatures[requirement]? = some required) : s.implementation? base members requirement = found := by
  rw [State.implementation?, hr, bind_some]
  induction h with
  | nothing => rfl
  | take hname hsignature => simp [hname, hsignature]
  | pass hother _ ih => grind

/-- An implementation has the name and the signature of the requirement. -/
lemma State.of_implementation?
    {implementation} (h : s.implementation? base members requirement = some implementation) :
    implementation ∈ members ∧ base.tree.isFunction implementation ∧ base.declName implementation =
      base.declName requirement ∧ ∃ signature, s.signatures[implementation]? = some signature ∧
      s.signatures[requirement]? = some signature := by
  obtain ⟨signature, hs, hf⟩ := bind_eq_some_iff.1 h
  have htest := find?_some hf
  simp only [Namesake, Bool.and_eq_true, decide_eq_true_eq] at htest
  exact ⟨mem_of_find?_eq_some hf, htest.1.1, htest.1.2, signature, htest.2, hs⟩

lemma State.isSome_implementation? :
    (s.implementation? base members requirement).isSome ↔ ∃ member ∈ members,
    base.tree.isFunction member ∧ base.declName member = base.declName requirement ∧ ∃ signature,
      s.signatures[member]? = some signature ∧ s.signatures[requirement]? = some signature := by
  constructor
  · intro h
    obtain ⟨member, hm⟩ := isSome_iff_exists.1 h
    exact ⟨member, State.of_implementation? hm⟩
  · rintro ⟨member, hm, hfunction, hname, signature, hs, hr⟩
    rw [implementation?, hr, bind_some, find?_isSome]
    exact ⟨member, hm, by simp [Namesake, hfunction, hname, hs]⟩

/-- If no requirement is left over, each has an entry. -/
lemma forall₂_met (h : s.unmet base members requirements = []) :
    Forall₂ (fun requirement entry => entry.requirement = requirement ∧
      s.implementation? base members requirement = some entry.implementation)
      requirements (s.met base members requirements) := by
  induction requirements with
  | nil => exact .nil
  | cons requirement requirements ih =>
    rw [State.unmet, filter_cons] at h
    split at h
    next => cases h
    next hfound =>
      obtain ⟨_, hm⟩ := ne_none_iff_exists'.1 (by simpa using hfound)
      rw [State.met, filterMap_cons, hm]
      exact .cons ⟨rfl, hm⟩ (ih h)

variable (hmono : s.signatures.Grows s'.signatures)

include hmono

lemma Selects.mono (h : Selects base s requirement required members found) :
    Selects base s' requirement required members found := by
  induction h with
  | nothing => exact .nothing
  | take hname hsignature => exact .take hname (hmono hsignature)
  | pass hother _ ih =>
    refine .pass (fun hname => ?_) ih
    obtain ⟨other, hsignature, hne⟩ := hother hname
    exact ⟨other, hmono hsignature, hne⟩

variable (h : Examined base s members requirements)

include h

lemma Examined.mono : Examined base s' members requirements := by
  intro requirement hm
  obtain ⟨required, hr, found, hfound⟩ := h requirement hm
  exact ⟨required, hmono hr, found, hfound.mono hmono⟩

lemma Examined.implementation?_eq (hm : requirement ∈ requirements) :
    s'.implementation? base members requirement = s.implementation? base members requirement := by
  obtain ⟨_, hr, _, hfound⟩ := h requirement hm
  rw [hfound.implementation?_eq hr, (hfound.mono hmono).implementation?_eq (hmono hr)]

lemma Examined.unmet_eq : s'.unmet base members requirements = s.unmet base members requirements :=
  filter_congr fun _ hm => by rw [h.implementation?_eq hmono hm]

lemma Examined.met_eq : s'.met base members requirements = s.met base members requirements :=
  filterMap_congr fun _ hm => by rw [h.implementation?_eq hmono hm]

end

/-! ### Verified conformances -/

/-- A verified conformance of a product. -/
structure Implements (base : Program) (s : State) (product : Nat) (conformance : Conformance) : Prop where
  examined : Examined base s (productMembers base.tree product) (conformance.requirements base.tree)
  settled : s.settle base product conformance = conformance

/-- The conformances of a product as they stand in the table. -/
structure Conforms (base : Program) (s : State) (product : Nat) (list : List Conformance) : Prop where
  claims : base.Claims product list
  implements : ∀ conformance ∈ list, Implements base s product conformance

section

variable {base : Program} {s s' : State} {product : DeclId} {conformance : Conformance}

lemma settle_state_ne : (s.settle base product conformance).state ≠ .realized := by
  unfold State.settle
  dsimp only
  split <;> simp

lemma claim_settle : Program.claim (s.settle base product conformance) = Program.claim conformance := by
  unfold State.settle
  dsimp only
  split <;> rfl

/-- A conformance is verified by settling it once its requirements were examined. -/
lemma Examined.implements
    (he : Examined base s (productMembers base.tree product) (conformance.requirements base.tree)) :
    Implements base s product (s.settle base product conformance) := by
  by_cases h : s.unmet base (productMembers base.tree product) (conformance.requirements base.tree) = []
  · have heq : s.settle base product conformance = { conformance with
        entries := s.met base (productMembers base.tree product)
          (conformance.requirements base.tree), state := .checked } :=
      if_pos h
    rw [heq]
    exact ⟨he, if_pos h⟩
  · have heq : s.settle base product conformance = { conformance with entries := [], state := .invalid } := if_neg h
    rw [heq]
    exact ⟨he, if_neg h⟩

lemma breaches_settle : s.breaches base product (s.settle base product conformance) =
    s.breaches base product conformance := by
  unfold State.settle
  dsimp only
  split <;> rfl

/-- All of it is about requirements that are not implemented. -/
lemma filter_breaches : (s.breaches base product conformance).filter (fun diagnostic =>
    diagnostic.problem.isNonConforming) = s.breaches base product conformance := by
  refine filter_eq_self.2 fun diagnostic hm => ?_
  unfold State.breaches at hm
  split at hm
  next => cases hm
  next =>
    obtain ⟨_, -, rfl⟩ := mem_map.1 hm
    rfl

section

variable (h : Implements base s product conformance)

include h

/-- A verified conformance is good and has its entries, or it failed and has none. -/
lemma Implements.good_or_failed : (s.unmet base (productMembers base.tree product)
    (conformance.requirements base.tree) = [] ∧ conformance.state = .checked ∧ conformance.entries =
      s.met base (productMembers base.tree product) (conformance.requirements base.tree)) ∨
    (s.unmet base (productMembers base.tree product) (conformance.requirements base.tree) ≠ [] ∧
      conformance.state = .invalid ∧ conformance.entries = []) := by
  have hsettled := h.settled
  rw [State.settle] at hsettled
  split at hsettled <;> grind

/-- A requirement of a conformance that was found good has its implementation. -/
lemma Implements.exists_implementation (hc : conformance.state = .checked)
    {requirement} (hr : requirement ∈ conformance.requirements base.tree) : ∃ implementation,
    s.implementation? base (productMembers base.tree product) requirement = some implementation ∧
      conformance.implementation? requirement = some implementation := by
  rcases h.good_or_failed with ⟨hunmet, -, hentries⟩ | ⟨-, hstate, -⟩
  · obtain ⟨implementation, hi⟩ := ne_none_iff_exists'.1 (by simpa using filter_eq_nil_iff.1 hunmet requirement hr)
    refine ⟨implementation, hi, ?_⟩
    rw [implementation?, if_pos hc, hentries]
    -- all entries of the requirement are the same
    obtain ⟨entry, he⟩ : ∃ entry,
        (s.met base (productMembers base.tree product) (conformance.requirements base.tree)).find?
        (fun entry => entry.requirement = requirement) = some entry :=
      isSome_iff_exists.1 (find?_isSome.2 ⟨⟨requirement, implementation⟩,
        mem_filterMap.2 ⟨requirement, hr, by rw [hi]; rfl⟩, by simp⟩)
    obtain ⟨other, -, hother⟩ := mem_filterMap.1 (mem_of_find?_eq_some he)
    obtain ⟨_, hm, rfl⟩ := map_eq_some_iff.1 hother
    grind
  · simp [hc] at hstate

lemma Implements.breaches_ne
    (hc : conformance.state = .invalid) (hp : base.tree.Declares DeclKind.isProduct product) :
    s.breaches base product conformance ≠ [] := by
  obtain ⟨_, hd, -⟩ := hp
  rcases h.good_or_failed with ⟨-, hstate, -⟩ | ⟨hunmet, -, -⟩
  · simp [hc] at hstate
  · simpa [State.breaches, hd] using hunmet

end

variable (hmono : s.signatures.Grows s'.signatures)

include hmono

section

variable (h : Examined base s (productMembers base.tree product)
  (conformance.requirements base.tree))

include h

lemma Examined.breaches_eq : s'.breaches base product conformance = s.breaches base product conformance := by
  rw [State.breaches, State.breaches, h.unmet_eq hmono]

lemma Examined.settle_eq : s'.settle base product conformance = s.settle base product conformance := by
  rw [State.settle, State.settle, h.unmet_eq hmono, h.met_eq hmono]

end

lemma Implements.mono (h : Implements base s product conformance) : Implements base s' product conformance :=
  ⟨h.examined.mono hmono, (h.examined.settle_eq hmono).trans h.settled⟩

variable {list : List Conformance}

variable (h : Conforms base s product list)

include h

lemma Conforms.mono : Conforms base s' product list :=
  ⟨h.claims, fun conformance hm => (h.implements conformance hm).mono hmono⟩

omit hmono in
lemma Conforms.congr (s' : State) (hs : s'.signatures = s.signatures) : Conforms base s' product list :=
  h.mono fun hknown => hs ▸ hknown

lemma Conforms.breaches_eq : list.flatMap (s'.breaches base product) = list.flatMap (s.breaches base product) :=
  flatMap_congr fun conformance hm => (h.implements conformance hm).examined.breaches_eq hmono

end

/-! ### Reports -/

def products (base : Program) : List DeclId :=
  (range base.tree.size).filter fun id => (base.tree.decl? id).any fun decl => decl.kind.isProduct

lemma mem_products {base id} : id ∈ products base ↔ base.tree.Declares DeclKind.isProduct id := by
  simp only [products, mem_filter, mem_range, Option.any_eq_true]
  exact ⟨fun h => h.2, fun h => ⟨h.lt_size, h⟩⟩

/-- What there is to report about all conformances in the table. -/
def State.breachesOf (base : Program) (s : State) (product : DeclId) : List Diagnostic :=
  (s.conformances.getD product []).flatMap (s.breaches base product)

/-- A requirement that is not implemented was reported once for each conformance in the table. -/
def State.Balanced (base : Program) (s : State) : Prop :=
  s.breached.Perm ((products base).flatMap (s.breachesOf base))

section

lemma balanced_new (base : Program) (settings : Settings) : (State.new base settings).Balanced base := by
  have hnone (product : Nat) : State.breachesOf base (.new base settings) product = [] := by
    rw [State.breachesOf, getD_eq_getD_getElem?]
    simp [State.new]
  rw [State.Balanced, flatMap_eq_nil_iff.2 fun product _ => hnone product]
  rfl

variable {base : Program} {s s' : State} {product : Nat}
  (h : ∀ (product : Nat) list, s.conformances[product]? = some list → Conforms base s product list)
  (hmono : s.signatures.Grows s'.signatures)

include h hmono

lemma breachesOf_eq (hp : s'.conformances[product]? = s.conformances[product]?) :
    s'.breachesOf base product = s.breachesOf base product := by
  rw [State.breachesOf, State.breachesOf, getD_eq_getD_getElem?, getD_eq_getD_getElem?, hp]
  cases hlist : s.conformances[product]? with
  | none => rfl
  | some list => exact (h product list hlist).breaches_eq hmono

/-- The reports stay in balance as long as no conformance is verified. -/
lemma State.Balanced.mono (hb : s.Balanced base)
    (hsame : ∀ product : Nat, s'.conformances[product]? = s.conformances[product]?)
    (hquiet : s'.breached = s.breached) : s'.Balanced base := by
  rw [State.Balanced, hquiet, flatMap_congr fun product _ => breachesOf_eq h hmono (hsame product)]
  exact hb

/-- The reports are in balance again once the conformances of a product were verified. -/
lemma State.Balanced.verify (hb : s.Balanced base)
    (hp : base.tree.Declares DeclKind.isProduct product) (hnew : s.conformances[product]? = none)
    (hother : ∀ other : Nat, product ≠ other → s'.conformances[other]? = s.conformances[other]?)
    (hreports : s'.breached = s.breached ++ s'.breachesOf base product) : s'.Balanced base := by
  have hperm := perm_cons_erase (mem_products.2 hp)
  have hnothing : s.breachesOf base product = [] := by
    rw [State.breachesOf, getD_eq_getD_getElem?, hnew]
    rfl
  have hrest : ((products base).erase product).flatMap (s'.breachesOf base) =
      ((products base).erase product).flatMap (s.breachesOf base) := by
    refine flatMap_congr fun other ho => breachesOf_eq h hmono (hother other fun heq => ?_)
    have hnodup : (products base).Nodup := nodup_range.filter _
    exact (hnodup.mem_erase_iff.1 ho).1 heq.symm
  calc s'.breached
    _ = s.breached ++ s'.breachesOf base product := hreports
    _ |>.Perm ((products base).flatMap (s.breachesOf base) ++ s'.breachesOf base product) := hb.append_right _
    _ |>.Perm ((product :: (products base).erase product).flatMap
    (s.breachesOf base) ++ s'.breachesOf base product) :=
      (hperm.flatMap_right _).append_right _
    _ = ((products base).erase product).flatMap (s'.breachesOf base) ++ s'.breachesOf base product := by
      rw [flatMap_cons, hnothing, nil_append, hrest]
    _ |>.Perm ((product :: (products base).erase product).flatMap (s'.breachesOf base)) := perm_append_comm
    _ |>.Perm ((products base).flatMap (s'.breachesOf base)) := (hperm.flatMap_right _).symm

end

end Check

end TraitLang
