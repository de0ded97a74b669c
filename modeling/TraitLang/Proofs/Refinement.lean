import Mathlib.Algebra.BigOperators.Group.Finset.Basic
import Mathlib.Data.List.Perm.Subperm
import TraitLang.Proofs.Shape
import TraitLang.Traits.Refinement

/-! Searches through the refinement of traits. Both come to an end on every program whose traits are
placed somewhere, cyclic refinement or not: the conformances of a product are to the traits that
refinement leads to from those that it names, and a requirement is found by name if one of the
traits that refinement leads to has it. -/
namespace TraitLang

open List

namespace Program

def bases (program : Program) (trait : DeclId) : List DeclId :=
  match program.refined trait with
  | .ok traits => traits
  | .error _ => []

/-- Refinement leads from one trait to another, through any number of others. -/
def Leads (program : Program) : DeclId → DeclId → Prop :=
  Relation.ReflTransGen fun trait base => base ∈ program.bases trait

def refinementsOf (program : Program) (id : NodeId) : Nat :=
  match program.tree.node? id with
  | some (.decl ⟨.trait decl, _⟩) => decl.refinements.length
  | _ => 0

/-- Every trait of a program stands in a scope, and what scopes and traits have as declarations are
some. -/
structure TraitsPlaced (program : Program) : Prop where
  isSome_scopeOf : ∀ {trait}, program.tree.Declares DeclKind.isTrait trait → (program.scopeOf trait).isSome
  demandFrom_eq_ok : ∀ scope, program.demandFrom scope = .ok ()
  demand_eq_ok : ∀ {trait decl span}, program.tree.decl? trait = some ⟨.trait decl, span⟩ →
    program.demand decl.members = .ok ()

variable {program : Program} {claimed : List Conformance} {trait base product : DeclId}

lemma declares_of_trait? {name scope trait} (h : program.trait? name scope = some trait) :
    program.tree.Declares DeclKind.isTrait trait := by
  obtain ⟨-, htest⟩ := Option.filter_eq_some_iff.1 h
  split at htest
  next _ _ hd => exact ⟨_, hd, rfl⟩
  next => cases htest

section

variable {program : Program} (hp : program.TraitsPlaced) {trait : Nat}
  (ht : program.tree.Declares DeclKind.isTrait trait)

include hp ht

lemma refined_eq_ok : program.refined trait = .ok (program.bases trait) ∧
    (∀ base ∈ program.bases trait, program.tree.Declares DeclKind.isTrait base) ∧
    (program.bases trait).length ≤ program.refinementsOf trait := by
  obtain ⟨⟨kind, _⟩, hd, hk⟩ := ht
  cases kind with
  | trait decl =>
    obtain ⟨scope, hs⟩ := Option.isSome_iff_exists.1 (hp.isSome_scopeOf ⟨_, hd, hk⟩)
    have hrefined : program.refined trait = .ok (decl.refinements.filterMap fun refinement =>
        program.trait? refinement.name scope) := by
      simp only [refined, hd, enclosingScope, hs, bind, Except.bind, hp.demandFrom_eq_ok scope]
      rfl
    have hbases : program.bases trait = decl.refinements.filterMap fun refinement =>
        program.trait? refinement.name scope := by
      rw [bases, hrefined]
    refine ⟨by rw [hrefined, hbases], ?_, ?_⟩
    · intro base hb
      rw [hbases, mem_filterMap] at hb
      obtain ⟨_, -, hr⟩ := hb
      exact declares_of_trait? hr
    · rw [hbases, refinementsOf, Tree.decl?_eq_some.1 hd]
      exact length_filterMap_le _ _
  | _ => cases hk

end

/-! ### Conformances implied by refinement -/

/-- What the step of the search adds: the traits named that are not claimed yet, once each. -/
lemma addImplied_spec : ∀ (traits : List DeclId) claimed,
    (addImplied claimed traits).1 = claimed ++ (addImplied claimed traits).2.map (.new · none) ∧
    (∀ trait ∈ traits, trait ∈ claimed.map Conformance.trait ∨
    trait ∈ (addImplied claimed traits).2) ∧ (∀ trait ∈ (addImplied claimed traits).2,
    trait ∈ traits ∧ trait ∉ claimed.map Conformance.trait) ∧ (addImplied claimed traits).2.Nodup
  | [], claimed => by simp [addImplied]
  | trait :: traits, claimed => by
    simp only [addImplied]
    split
    next hclaimed =>
      obtain ⟨happend, hall, hnew, hnodup⟩ := addImplied_spec traits claimed
      grind
    next hclaimed =>
      have hmem : trait ∉ claimed.map Conformance.trait := by simpa using hclaimed
      obtain ⟨happend, hall, hnew, hnodup⟩ := addImplied_spec traits (claimed ++ [.new trait none])
      have htraits : (claimed ++ [Conformance.new trait none]).map Conformance.trait =
          claimed.map Conformance.trait ++ [trait] := by simp [Conformance.new]
      rw [htraits] at hall hnew
      refine ⟨by simpa using happend, forall_mem_cons.2 ⟨.inr (by simp), ?_⟩,
        forall_mem_cons.2 ⟨⟨by simp, hmem⟩, ?_⟩, nodup_cons.2 ⟨?_, hnodup⟩⟩
      · grind
      · grind
      · intro hm
        exact (hnew trait hm).2 (by simp)

/-- A list of conformances to different traits, all of them declared. -/
structure Claimed (program : Program) (claimed : List Conformance) : Prop where
  nodup : (claimed.map Conformance.trait).Nodup
  declares : ∀ trait ∈ claimed.map Conformance.trait, program.tree.Declares DeclKind.isTrait trait

lemma Claimed.length_le (h : program.Claimed claimed) : claimed.length ≤ program.tree.size := by
  have hsub : claimed.map Conformance.trait ⊆ range program.tree.size :=
    fun trait ht => mem_range.2 (h.declares trait ht).lt_size
  simpa using (h.nodup.subperm hsub).length_le

/-- A list of conformances is closed under refinement. -/
def Closed (program : Program) (claimed : List Conformance) : Prop :=
  ∀ trait ∈ claimed.map Conformance.trait, ∀ base ∈ program.bases trait,
    base ∈ claimed.map Conformance.trait

lemma Closed.leads (h : program.Closed claimed) (ht : trait ∈ claimed.map Conformance.trait)
    (hl : program.Leads trait base) : base ∈ claimed.map Conformance.trait := by
  induction hl with
  | refl => exact ht
  | tail _ hb ih => exact h _ ih _ hb

/-- The traits that some names stand for, each with the place where it is named first. -/
def mentions (program : Program) (scope : ScopeId) : List TraitName → List (DeclId × Span)
  | [] => []
  | name :: names =>
    match program.trait? name.name scope with
    | none => mentions program scope names
    | some trait => (trait, name.span) :: (mentions program scope names).filter fun mention => mention.1 ≠ trait

def named (program : Program) (product : DeclId) : List (DeclId × Span) :=
  match program.tree.decl? product, program.scopeOf product with
  | some ⟨.product decl, _⟩, some scope => program.mentions scope decl.conformances
  | _, _ => []

lemma declares_of_mem_named {mention} (h : mention ∈ program.named product) :
    program.tree.Declares DeclKind.isProduct product := by
  unfold named at h
  split at h
  next hd _ => exact ⟨_, hd, rfl⟩
  next => cases h

/-- What a conformance claims: the trait, and where it is declared. -/
def claim (conformance : Conformance) : DeclId × Option Span :=
  (conformance.trait, conformance.span)

/-- The conformances of a product: first those to the traits that it names, then those that follow
by refinement, which stand nowhere. -/
structure Claims (program : Program) (product : DeclId) (claimed : List Conformance) : Prop extends
    program.Claimed claimed where
  listed : ∃ added : List DeclId, claimed.map claim =
    (program.named product).map (fun mention => (mention.1, some mention.2)) ++ added.map (·, none)
  mem_iff : ∀ trait, trait ∈ claimed.map Conformance.trait ↔
    ∃ start ∈ (program.named product).map Prod.fst, program.Leads start trait

lemma claimed_mentions (program : Program) (scope : ScopeId) (names : List TraitName) :
    program.Claimed ((program.mentions scope names).map fun mention => .new mention.1 (some mention.2)) := by
  induction names with
  | nil => exact ⟨by simp [mentions], by simp [mentions]⟩
  | cons name names ih =>
    rw [mentions]
    cases hfound : program.trait? name.name scope with
    | none => exact ih
    | some trait =>
      have hsub : ((mentions program scope names).filter fun mention => mention.1 ≠ trait).Sublist
        (mentions program scope names) := filter_sublist
      refine ⟨nodup_cons.2 ⟨?_, ih.nodup.sublist ((hsub.map _).map _)⟩, forall_mem_cons.2
        ⟨declares_of_trait? hfound, fun other ho => ih.declares other (((hsub.map _).map _).subset ho)⟩⟩
      simp [Conformance.new]

/-- Only what is claimed matters, not how far it is verified. -/
lemma Claims.congr {settled} (h : program.Claims product claimed)
    (heq : settled.map claim = claimed.map claim) : program.Claims product settled := by
  have htraits : settled.map Conformance.trait = claimed.map Conformance.trait := by
    simpa [claim, Function.comp_def] using congrArg (List.map Prod.fst) heq
  exact ⟨⟨htraits ▸ h.nodup, htraits ▸ h.declares⟩, heq ▸ h.listed, htraits ▸ h.mem_iff⟩

lemma Claims.leads (h : program.Claims product claimed) (ht : trait ∈ claimed.map Conformance.trait)
    (hl : program.Leads trait base) : base ∈ claimed.map Conformance.trait := by
  obtain ⟨start, hstart, hleads⟩ := (h.mem_iff trait).1 ht
  exact (h.mem_iff base).2 ⟨start, hstart, hleads.trans hl⟩

section

variable {program : Program} (hp : program.TraitsPlaced)

include hp

lemma impliedWithin_spec : ∀ {bound pending claimed}, program.Claimed claimed → (∀ trait ∈ pending,
    trait ∈ claimed.map Conformance.trait) → (∀ trait ∈ claimed.map Conformance.trait,
    trait ∈ pending ∨ ∀ base ∈ program.bases trait, base ∈ claimed.map Conformance.trait) →
    pending.length + (program.tree.size - claimed.length) ≤ bound → ∃ added : List DeclId,
    program.impliedWithin bound pending claimed = .ok (claimed ++ added.map (.new · none)) ∧
      program.Claimed (claimed ++ added.map (.new · none)) ∧
      program.Closed (claimed ++ added.map (.new · none)) ∧ ∀ trait ∈ added,
      ∃ start ∈ claimed.map Conformance.trait, program.Leads start trait := by
  intro bound
  induction bound with
  | zero =>
    intro pending claimed hc _ hclosed hbound
    obtain rfl : pending = [] := length_eq_zero_iff.1 (by omega)
    refine ⟨[], by simp [impliedWithin], by simpa using hc, ?_, by simp⟩
    intro trait ht
    simpa using (hclosed trait (by simpa using ht)).resolve_left (by simp)
  | succ bound ih =>
    intro pending claimed hc hpending hclosed hbound
    cases pending with
    | nil =>
      refine ⟨[], by simp [impliedWithin], by simpa using hc, ?_, by simp⟩
      intro trait ht
      simpa using (hclosed trait (by simpa using ht)).resolve_left (by simp)
    | cons trait pending =>
      obtain ⟨hhead, hpending⟩ := forall_mem_cons.1 hpending
      obtain ⟨hrefined, hbases, -⟩ := refined_eq_ok hp (hc.declares trait hhead)
      obtain ⟨happend, hall, hnew, hnodup⟩ := addImplied_spec (program.bases trait) claimed
      have hstep : program.impliedWithin (bound + 1) (trait :: pending) claimed =
          program.impliedWithin bound ((addImplied claimed (program.bases trait)).2.reverse ++
          pending) (addImplied claimed (program.bases trait)).1 := by
        simp only [impliedWithin, hrefined]
        rfl
      rw [hstep, happend]
      generalize (addImplied claimed (program.bases trait)).2 = added at hall hnew hnodup
      have htraits : (claimed ++ added.map (Conformance.new · none)).map Conformance.trait =
          claimed.map Conformance.trait ++ added := by
        simp [Conformance.new, Function.comp_def]
      have hc' : program.Claimed (claimed ++ added.map (.new · none)) := by
        refine ⟨?_, ?_⟩
        · rw [htraits]
          exact nodup_append.2 ⟨hc.nodup, hnodup, fun a ha b hb hab => (hnew b hb).2 (hab ▸ ha)⟩
        · rw [htraits]
          intro other ho
          rcases mem_append.1 ho with ho | ho
          · exact hc.declares other ho
          · exact hbases other (hnew other ho).1
      have hlength := hc'.length_le
      simp only [length_append, length_map] at hlength
      obtain ⟨more, hok, hclaimed, hdone, hled⟩ := ih hc'
        (by
          rw [htraits]
          intro other ho
          rcases mem_append.1 ho with ho | ho
          · exact mem_append_right _ (mem_reverse.1 ho)
          · exact mem_append_left _ (hpending other ho))
        (by
          grind)
        (by
          simp only [length_append, length_reverse, length_map, length_cons] at hbound ⊢
          omega)
      refine ⟨added ++ more, ?_, ?_, ?_, ?_⟩
      · rw [hok]; simp
      · simpa using hclaimed
      · simpa using hdone
      · have hadded (other : DeclId) (ho : other ∈ added) : program.Leads trait other := .single (hnew other ho).1
        intro other ho
        rcases mem_append.1 ho with ho | ho
        · exact ⟨trait, hhead, hadded other ho⟩
        · obtain ⟨start, hstart, hleads⟩ := hled other ho
          rw [htraits] at hstart
          rcases mem_append.1 hstart with hs | hs
          · exact ⟨start, hs, hleads⟩
          · exact ⟨trait, hhead, (hadded start hs).trans hleads⟩

/-- The conformances that follow from declared ones are found: those to the traits that refinement
leads to. -/
lemma implied_spec {declared} (hd : program.Claimed declared) :
    ∃ added : List DeclId, program.implied declared = .ok (declared ++ added.map (.new · none)) ∧
      program.Claimed (declared ++ added.map (.new · none)) ∧
      ∀ trait, trait ∈ (declared ++ added.map (Conformance.new · none)).map Conformance.trait ↔
        ∃ start ∈ declared.map Conformance.trait, program.Leads start trait := by
  have hbound : (declared.map Conformance.trait).reverse.length + (program.tree.size - declared.length) ≤
      program.tree.size + (declared.map Conformance.trait).length := by grind
  obtain ⟨added, hok, hclaimed, hclosed, hled⟩ := impliedWithin_spec hp hd (fun trait ht =>
    mem_reverse.1 ht) (fun trait ht => .inl (mem_reverse.2 ht)) hbound
  refine ⟨added, hok, hclaimed, fun trait => ⟨fun ht => ?_, fun ⟨start, hstart, hleads⟩ => ?_⟩⟩
  · rw [map_append, mem_append] at ht
    rcases ht with ht | ht
    · exact ⟨trait, ht, .refl⟩
    · exact hled trait (by simpa [Conformance.new, Function.comp_def] using ht)
  · exact hclosed.leads (by rw [map_append]; exact mem_append_left _ hstart) hleads

end

/-! ### Requirements by name -/

/-- The number of refinements that the traits outside a list name. -/
def refinementsOutside (program : Program) (seen : List DeclId) : Nat :=
  ∑ id ∈ (Finset.range program.tree.size).filter (· ∉ seen), program.refinementsOf id

lemma refinementsOutside_cons (seen : List DeclId) {id} (hid : id < program.tree.size)
    (hs : id ∉ seen) : program.refinementsOf id + program.refinementsOutside
    (id :: seen) = program.refinementsOutside seen := by
  have hmem : id ∈ (Finset.range program.tree.size).filter (· ∉ seen) := by simp [hid, hs]
  rw [refinementsOutside, refinementsOutside, ← Finset.add_sum_erase _ _ hmem]
  congr 2
  ext other
  simp only [Finset.mem_filter, Finset.mem_range, mem_cons, Finset.mem_erase]
  tauto

lemma refinementsOutside_nil (program : Program) : program.refinementsOutside [] = program.refinementCount := by
  have hcount : program.refinementCount = ((range program.tree.size).map program.refinementsOf).sum := by
    rw [refinementCount, sum_eq_foldr, ← foldr_map]
    congr 1
    refine ext_getElem (by simp [Tree.size]) ?_
    intro i h1 h2
    have hi : i < program.tree.nodes.size := by simpa using h1
    simp only [getElem_map, Array.getElem_toList, getElem_range, refinementsOf, Tree.node?,
      Array.getElem?_eq_getElem hi, refinementCount.named]
    split <;> split <;> simp_all
  have hall : (Finset.range program.tree.size).filter (· ∉ ([] : List DeclId)) = Finset.range program.tree.size := by
    simp
  rw [hcount, refinementsOutside, hall]
  rfl

section

variable {program : Program} (hp : program.TraitsPlaced) (name : String)

/-- A function of a name is a member of a trait. -/
def Requires (program : Program) (trait : DeclId) (name : String) (requirement : DeclId) : Prop :=
  ∃ decl span, program.tree.decl? trait = some ⟨.trait decl, span⟩ ∧ requirement ∈ decl.members ∧
    program.tree.declName? requirement = some name

/-- Declarations none of which requires a function of a name, with all that they refine. -/
def Lacks (program : Program) (name : String) (searched : List DeclId) : Prop :=
  ∀ trait ∈ searched, (∀ requirement, ¬program.Requires trait name requirement) ∧
    ∀ base ∈ program.bases trait, base ∈ searched

/-- The declarations that a search has seen require no function of the name, and what they refine is
seen or yet to be looked at. -/
def Passed (program : Program) (name : String) (pending seen : List DeclId) : Prop :=
  ∀ trait ∈ seen, (∀ requirement, ¬program.Requires trait name requirement) ∧
    ∀ base ∈ program.bases trait, base ∈ seen ∨ base ∈ pending

/-- What a search comes to: a requirement that refinement leads to, or all that it leads to lacks
one. -/
structure Sought (program : Program) (name : String) (pending seen : List DeclId) (found : Option DeclId) : Prop where
  requires : ∀ requirement, found = some requirement → ∃ start ∈ pending, ∃ trait,
    program.Leads start trait ∧ program.Requires trait name requirement
  lacks : found = none → ∃ searched, program.Lacks name searched ∧ ∀ trait ∈ pending ++ seen,
  trait ∈ searched

variable {name} {pending seen : List DeclId} {trait : DeclId} {found : Option DeclId}

lemma Lacks.leads {searched} (h : program.Lacks name searched) {start}
    (hs : start ∈ searched) (hl : program.Leads start trait) : trait ∈ searched := by
  induction hl with
  | refl => exact hs
  | tail _ hstep ih => exact (h _ ih).2 _ hstep

lemma Passed.sought (h : program.Passed name [] seen) : program.Sought name [] seen none :=
  ⟨nofun, fun _ => ⟨seen, by simpa [Lacks, Passed] using h, by simp⟩⟩

lemma Passed.of_mem (h : program.Passed name (trait :: pending) seen) (hm : trait ∈ seen) :
    program.Passed name pending seen := by
  refine fun other ho => ⟨(h other ho).1, fun base hb => ?_⟩
  rcases (h other ho).2 base hb with hb | hb
  · exact .inl hb
  · grind

lemma Passed.cons (h : program.Passed name (trait :: pending) seen)
    (hn : ∀ requirement, ¬program.Requires trait name requirement) :
    program.Passed name ((program.bases trait).reverse ++ pending) (trait :: seen) := by
  refine forall_mem_cons.2 ⟨⟨hn, fun base hb => by simp [hb]⟩, fun other ho => ⟨(h other ho).1, fun base hb => ?_⟩⟩
  have := (h other ho).2 base hb
  simp only [mem_cons, mem_append] at this ⊢
  tauto

lemma Sought.of_mem (h : program.Sought name pending seen found) (hm : trait ∈ seen) :
    program.Sought name (trait :: pending) seen found := by
  refine ⟨fun requirement hr => ?_, fun hn => ?_⟩
  · obtain ⟨start, hs, hl⟩ := h.requires requirement hr
    exact ⟨start, mem_cons_of_mem _ hs, hl⟩
  · obtain ⟨searched, hlacks, hall⟩ := h.lacks hn
    exact ⟨searched, hlacks, forall_mem_cons.2 ⟨hall trait (mem_append_right _ hm), hall⟩⟩

lemma Sought.of_bases (h : program.Sought name ((program.bases trait).reverse ++ pending) (trait :: seen) found) :
    program.Sought name (trait :: pending) seen found := by
  refine ⟨fun requirement hr => ?_, fun hn => ?_⟩
  · obtain ⟨start, hs, base, hl, hm⟩ := h.requires requirement hr
    rcases mem_append.1 hs with hs | hs
    · exact ⟨trait, by simp, base, hl.head (mem_reverse.1 hs), hm⟩
    · exact ⟨start, mem_cons_of_mem _ hs, base, hl, hm⟩
  · obtain ⟨searched, hlacks, hall⟩ := h.lacks hn
    refine ⟨searched, hlacks, fun other ho => hall other ?_⟩
    simp only [mem_cons, mem_append] at ho ⊢
    tauto

variable (name)

include hp

lemma requirementWithin_spec : ∀ (bound : Nat) (pending seen : List DeclId),
    (∀ trait ∈ pending, (program.tree.decl? trait).isSome) → program.Passed name pending seen →
    pending.length + program.refinementsOutside seen ≤ bound →
    ∃ found, program.requirementWithin name bound pending seen = .ok found ∧
    program.Sought name pending seen found := by
  intro bound
  induction bound with
  | zero =>
    intro pending seen _ hseen hbound
    obtain rfl : pending = [] := length_eq_zero_iff.1 (by omega)
    exact ⟨none, by simp [requirementWithin], hseen.sought⟩
  | succ bound ih =>
    intro pending seen hpending hseen hbound
    cases pending with
    | nil => exact ⟨none, by simp [requirementWithin], hseen.sought⟩
    | cons trait pending =>
      obtain ⟨hhead, hrest⟩ := forall_mem_cons.1 hpending
      simp only [length_cons] at hbound
      simp only [requirementWithin]
      split
      next hold =>
        have hold : trait ∈ seen := by simpa using hold
        obtain ⟨found, hok, hfound⟩ := ih pending seen hrest (hseen.of_mem hold) (by omega)
        exact ⟨found, hok, hfound.of_mem hold⟩
      next hnew =>
        obtain ⟨⟨kind, span⟩, hd⟩ := Option.isSome_iff_exists.1 hhead
        have hcount := refinementsOutside_cons seen (Tree.lt_size (Tree.decl?_eq_some.1 hd)) (by simpa using hnew)
        -- a declaration without the requirement gives way to those that it refines
        have hstep (hlength : (program.bases trait).length ≤ program.refinementsOf trait)
            (hbases : ∀ base ∈ program.bases trait, (program.tree.decl? base).isSome)
            (hnone : ∀ requirement, ¬program.Requires trait name requirement) :
            ∃ found, program.requirementWithin name bound ((program.bases trait).reverse ++ pending)
            (trait :: seen) = .ok found ∧ program.Sought name (trait :: pending) seen found := by
          obtain ⟨found, hok, hfound⟩ := ih ((program.bases trait).reverse ++ pending)
            (trait :: seen) (forall_mem_append.2 ⟨fun base hb => hbases base (mem_reverse.1 hb),
            hrest⟩) (hseen.cons hnone) (by simp only [length_append, length_reverse]; omega)
          exact ⟨found, hok, hfound.of_bases⟩
        cases kind with
        | trait decl =>
          obtain ⟨hrefined, hbases, hlength⟩ := refined_eq_ok hp ⟨_, hd, rfl⟩
          simp only [hd, bind, Except.bind, hp.demand_eq_ok hd]
          cases hmember : program.memberNamed? decl.members name with
          | some requirement =>
            refine ⟨some requirement, rfl, ?_, nofun⟩
            rintro _ ⟨⟩
            have htest := find?_some hmember
            exact ⟨trait, by simp, trait, .refl, decl, span, hd, mem_of_find?_eq_some hmember,
              by simpa using htest⟩
          | none =>
            rw [hrefined]
            refine hstep hlength (fun base hb => (hbases base hb).isSome_decl?) ?_
            rintro requirement ⟨decl, _, hd', hm, hn⟩
            cases hd.symm.trans hd'
            exact find?_eq_none.1 hmember requirement hm (by simpa using hn)
        | _ =>
          have hbases : program.bases trait = [] := by simp [bases, refined, hd]
          simp only [hd]
          rw [hbases] at hstep
          exact hstep (by simp) (by simp) (by simp [Requires, hd])

/-- A requirement is looked for to the end, and one is found if a trait that refinement leads to
requires a function of the name. -/
lemma requirement?_spec {traits} (ht : ∀ trait ∈ traits, (program.tree.decl? trait).isSome) :
    ∃ found, program.requirement? traits name = .ok found ∧ (∀ requirement,
      found = some requirement → ∃ start ∈ traits, ∃ trait, program.Leads start trait ∧
        program.Requires trait name requirement) ∧ (found = none → ∀ start ∈ traits, ∀ trait,
      program.Leads start trait → ∀ requirement, ¬program.Requires trait name requirement) := by
  obtain ⟨found, hok, hfound, hnone⟩ := requirementWithin_spec hp name (traits.length + program.refinementCount)
    traits.reverse [] (fun trait hm => ht trait (mem_reverse.1 hm)) (by simp [Passed])
    (by simp [refinementsOutside_nil])
  refine ⟨found, hok, fun requirement hr => ?_, fun hn start hs trait hl => ?_⟩
  · grind
  · obtain ⟨_, hlacks, hall⟩ := hnone hn
    exact (hlacks trait (hlacks.leads (hall start (by simp [hs])) hl)).1

end

end Program

end TraitLang
