import TraitLang.Proofs.Completion
import TraitLang.Proofs.Unification.Generality

/-! Two notions of equal signatures. Verification takes a member for an implementation if its
signature is the same as that of the requirement. Unification takes more signatures for the same: it
compares existentials by their traits, and signatures that differ in the parameters of their
functions only would be the same to it once these are identified. The two differ on nothing else. -/
namespace TraitLang

open List Ty

/-- The generic parameters of a function. -/
def Tree.ownParams (tree : Tree) (function : DeclId) : List DeclId :=
  match tree.decl? function with
  | some ⟨.function decl, _⟩ => decl.genericParams
  | _ => []

namespace Ty

/-- A type on which the two notions may differ: a parameter of the function at hand, or an
existential of several traits. -/
def isPeculiar (own : List DeclId) : Ty → Bool
  | .param decl _ => own.contains decl
  | .existential (_ :: _ :: _) => true
  | _ => false

/-- Other parameters in the place of some, by their positions. -/
def identifying (program : Program) (params others : List DeclId) : Substitution :=
  .ofList (params.zip (others.map fun other => param other (program.declName other)))

lemma identifying_of_not_mem {program params others decl} (h : decl ∉ params) :
    (identifying program params others)[decl]? = none := by
  refine Std.TreeMap.getElem?_ofList_of_contains_eq_false ?_
  rw [Bool.eq_false_iff, ne_eq, contains_iff_mem]
  intro hm
  obtain ⟨_, hpair, rfl⟩ := mem_map.1 hm
  exact h (of_mem_zip hpair).1

/-- Parameters that do not occur can be replaced by anything. -/
lemma substitute_of_not_any {substitution own}
    (hs : ∀ decl : Nat, decl ∉ own → substitution[decl]? = none) {type : Ty}
    (h : type.any (isPeculiar own) = false) : type.substitute substitution = type := by
  induction type using byParts with
  | whole type ih =>
    obtain ⟨hself, hparts⟩ := any_eq_false_iff.1 h
    rcases substitute_cases substitution type with heq | ⟨decl, _, rfl, heq⟩
    · exact heq.trans (mapParts_eq_self.2 fun part hp => ih part hp (hparts part hp))
    · simp only [isPeculiar, contains_eq_mem, decide_eq_false_iff_not] at hself
      simp [hs decl hself] at heq

end Ty

namespace Check

/-- A single trait is named in one way only. -/
lemma canonical_end {program} (own own' : List DeclId) (faulty : Prop) (free : Nat → Prop) :
    Ty.Canonical False (fun type => End program faulty free type ∧ type.isPeculiar own = false)
      fun type => End program faulty free type ∧ type.isPeculiar own' = false := by
  have hsingle {own types} (ht : End program faulty free (.existential types) ∧
      isPeculiar own (.existential types) = false) :
      types = [] ∨ ∃ decl, types = [.trait decl (program.declName decl)] := by
    rcases types with _ | ⟨type, _ | _⟩
    · exact .inl rfl
    · obtain ⟨decl, _, rfl, -, hname⟩ := ht.1 type (by simp)
      exact .inr ⟨decl, by rw [Program.declName, hname, Option.getD_some]⟩
    · cases ht.2
  refine ⟨False.elim, False.elim, fun hx hy h => ?_⟩
  rcases hsingle hx with rfl | ⟨decl, rfl⟩ <;> rcases hsingle hy with rfl | ⟨decl', rfl⟩
  · rfl
  · simp [Solver.sameTraits, traitDeclsAll, traitDecls] at h
  · simp [Solver.sameTraits, traitDeclsAll, traitDecls] at h
  · have hsame : decl = decl' := by simpa [Solver.sameTraits, traitDeclsAll, traitDecls, eq_comm] using h
    rw [hsame]

/-- Unification takes the signature of a function for that of a requirement of the same name, once
their parameters are identified, and both mention known types only. -/
def Accepts (program : Program) (s : State) (requirement member : DeclId) : Bool :=
  Namesake program requirement member && (s.signatures[requirement]?).any fun required =>
    (s.signatures[member]?).any fun given =>
    !required.toTy.hasErrors && (!given.toTy.hasErrors && (Solver.empty.unify required.toTy
      (given.toTy.substitute (identifying program (program.tree.ownParams member)
      (program.tree.ownParams requirement)))).1)

/-- The signature of a function mentions one of its parameters or an existential of several
traits. -/
def Peculiar (program : Program) (s : State) (function : DeclId) : Prop :=
  ∃ signature, s.signatures[function]? = some signature ∧
    signature.toTy.any (isPeculiar (program.tree.ownParams function))

variable {files : List SourceFile} {name : String} {program : Program} {settings : Settings}
  {good : Bool} {s : State}

/-- After checking, a requirement is met if unification takes a member of the product for it, unless
the signature of one of the two is peculiar. -/
theorem Checked.met_or_peculiar (h : Checked files name settings program good s)
    {product requirement member : DeclId} (hm : member ∈ productMembers program.tree product)
    (haccepts : Accepts program s requirement member) (requirements : List DeclId) :
    requirement ∉ s.unmet program (productMembers program.tree product) requirements ∨
      Peculiar program s requirement ∨ Peculiar program s member := by
  simp only [Accepts, Bool.and_eq_true, Option.any_eq_true, Bool.not_eq_true'] at haccepts
  obtain ⟨hname, required, hrequired, given, hgiven, hsound, hsound', haccepts⟩ := haccepts
  by_contra hnot
  simp only [not_or, not_not, Peculiar, not_exists, not_and, Bool.not_eq_true] at hnot
  obtain ⟨hunmet, hordinary, hordinary'⟩ := hnot
  have hordinary := hordinary required hrequired
  have hordinary' := hordinary' given hgiven
  rw [Ty.substitute_of_not_any (fun _ => Ty.identifying_of_not_mem) hordinary'] at haccepts
  have hplain := plain_signature h.inv.toCore hrequired
  have hplain' := plain_signature h.inv.toCore hgiven
  have hagree : Ty.Agree True required.toTy given.toTy := by
    have hunified := Solver.unified_unify (traity_end _ _) Solver.lawful_empty Solver.closed_empty hplain hplain'
    simpa only [Solver.resolve, hplain.resolveBy, hplain'.resolveBy] using hunified.agree haccepts
  have heq := (hagree.relax (.inr hsound) (.inr hsound')).eq (canonical_end _ _ _ _)
    (hplain.of_not_any hordinary) (hplain'.of_not_any hordinary')
  obtain rfl : required = given := by
    cases required
    cases given
    simpa [Signature.toTy] using heq
  obtain ⟨hfunction, hsame⟩ := Bool.and_eq_true_iff.1 hname
  have hfound : (s.implementation? program (productMembers program.tree product) requirement).isSome :=
    State.isSome_implementation?.2 ⟨member, hm, hfunction, of_decide_eq_true hsame, required, hgiven, hrequired⟩
  rw [State.unmet, mem_filter, Option.isNone_iff_eq_none] at hunmet
  simp [hunmet.2] at hfound

/-- A requirement and a member that differ in the order of the traits of an existential, and another
two that do not differ. -/
def swappedTraits : List SourceFile :=
  [⟨"a", "trait A \x7b\x7d trait B \x7b\x7d trait T \x7b fun f(x: any A & B); fun g(x: any A); \x7d type P: T \x7b fun f(x: any B & A) \x7b\x7d fun g(x: any A) \x7b\x7d \x7d"⟩]

lemma run_swappedTraits : (checked? swappedTraits "main" {}).any fun (program, good, s) => !good &&
    ((productMembers program.tree 13).contains 9 && ((productMembers program.tree 13).contains 12 &&
    (Accepts program s 3 9 && (Accepts program s 5 12 && ([5, 12].all (fun function =>
    (s.signatures[function]?).all fun signature =>
      !signature.toTy.any (isPeculiar (program.tree.ownParams function))) &&
    (s.conformances[13]?).any fun list => list.any fun conformance =>
    decide (conformance.state = .invalid) && (s.unmet program (productMembers program.tree 13)
      (conformance.requirements program.tree)).contains 3))))) := by
  decide +kernel

theorem unmet_swappedTraits : ∃ program s, Checked swappedTraits "main"
    {} program false s ∧ 9 ∈ productMembers program.tree 13 ∧
    Accepts program s 3 9 ∧ ∃ list, s.finish.conformances[13]? = some list ∧ ∃ conformance ∈ list,
      conformance.state = .invalid ∧ 3 ∈ s.unmet program (productMembers program.tree 13)
        (conformance.requirements program.tree) := by
  obtain ⟨program, good, s, hchecked, htest⟩ := Checked.exists_of_any run_swappedTraits
  simp only [Bool.and_eq_true, Bool.not_eq_true', Option.any_eq_true, any_eq_true,
    decide_eq_true_eq, contains_iff_mem] at htest
  obtain ⟨rfl, hmember, -, haccepts, -, -, list, hlist, conformance, hm, hstate, hunmet⟩ := htest
  exact ⟨program, s, hchecked, hmember, haccepts, list, hlist, conformance, hm, hstate, hunmet⟩

theorem met_swappedTraits : ∃ program s, Checked swappedTraits "main" {} program false s ∧ Accepts program s 5 12 ∧
    ∀ requirements, 5 ∉ s.unmet program (productMembers program.tree 13) requirements := by
  obtain ⟨program, good, s, hchecked, htest⟩ := Checked.exists_of_any run_swappedTraits
  simp only [Bool.and_eq_true, Bool.not_eq_true', all_eq_true, Option.all_eq_true, contains_iff_mem] at htest
  obtain ⟨rfl, -, hmember, -, haccepts, hordinary, -⟩ := htest
  have hnot {function : DeclId} (hf : function ∈ [5, 12]) : ¬Peculiar program s function := by
    rintro ⟨signature, hs, hp⟩
    simp [hordinary function hf signature hs] at hp
  refine ⟨program, s, hchecked, haccepts, fun requirements => ?_⟩
  rcases hchecked.met_or_peculiar hmember haccepts requirements with hmet | hp | hp
  · exact hmet
  · exact absurd hp (hnot (by simp))
  · exact absurd hp (hnot (by simp))

end Check

end TraitLang
