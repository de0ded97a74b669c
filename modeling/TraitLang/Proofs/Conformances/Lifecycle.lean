import Mathlib.Tactic.Common
import TraitLang.Types.Conformance

/-! The life of a conformance. It is settled by the first attempt that succeeds, and all later ones
fail. Only one that was accepted has entries, and it has one for each requirement. -/
namespace TraitLang.Conformance

/-- What can be tried on a conformance. -/
inductive Attempt where
  | accept (entries : List ConformanceEntry)
  | reject

def Attempt.target : Attempt → ConformanceState
  | accept _ => .checked
  | reject => .invalid

def attempt (conformance : Conformance) (tree : Tree) : Attempt → Outcome
  | .accept entries => conformance.accept entries tree
  | .reject => conformance.reject

/-- What an attempt leaves, whether it succeeds or not. -/
def after (tree : Tree) (conformance : Conformance) (tried : Attempt) : Conformance :=
  match conformance.attempt tree tried with
  | .ok _ left | .error _ left => left

def afterAll (tree : Tree) (conformance : Conformance) (tried : List Attempt) : Conformance :=
  tried.foldl (after tree) conformance

/-- A conformance to a trait, as attempts leave it. -/
structure Lawful (tree : Tree) (trait : DeclId) (span : Option Span) (conformance : Conformance) : Prop where
  trait_eq : conformance.trait = trait
  span_eq : conformance.span = span
  entries : conformance.entries ≠ [] → conformance.state = .checked
  perm : conformance.state = .checked →
    (conformance.entries.map ConformanceEntry.requirement).Perm (conformance.requirements tree)

variable {tree : Tree} {trait : DeclId} {span : Option Span} {conformance left : Conformance}
  {tried : Attempt}

lemma attempt_of_ne (h : conformance.state ≠ .realized) (tree : Tree) (tried : Attempt) :
    conformance.attempt tree tried = .error (.illegalTransition conformance.state tried.target) conformance := by
  cases tried with
  | accept entries => exact if_pos h
  | reject => exact if_pos h

/-- What an attempt on an open conformance leaves: it is settled, or else the attempt fails and it
is as it was. -/
lemma attempt_cases (h : conformance.state = .realized) (tree : Tree) (tried : Attempt) :
    (∃ entries, (entries.map ConformanceEntry.requirement).Perm (conformance.requirements tree) ∧
      conformance.attempt tree tried = .ok () { conformance with entries, state := .checked }) ∨
    conformance.attempt tree tried = .ok () { conformance with state := .invalid } ∨
    conformance.attempt tree tried = .error (.incompleteConformance conformance.trait) conformance := by
  cases tried with
  | accept entries =>
    rw [attempt, accept, if_neg (not_not.2 h), transition, if_neg (not_not.2 h)]
    split
    next hperm => exact .inl ⟨entries, List.isPerm_iff.1 hperm, rfl⟩
    next => exact .inr (.inr rfl)
  | reject => exact .inr (.inl (if_neg (not_not.2 h)))

/-- An attempt that fails changes nothing. -/
lemma eq_of_attempt_eq_error {defect} (h : conformance.attempt tree tried = .error defect left) :
    left = conformance := by
  by_cases hopen : conformance.state = .realized
  · obtain ⟨_, -, heq⟩ | heq | heq := attempt_cases hopen tree tried <;> cases heq.symm.trans h
    rfl
  · cases (attempt_of_ne hopen tree tried).symm.trans h
    rfl

lemma state_ne_of_attempt_eq_ok (h : conformance.attempt tree tried = .ok () left) : left.state ≠ .realized := by
  by_cases hopen : conformance.state = .realized
  · obtain ⟨_, -, heq⟩ | heq | heq := attempt_cases hopen tree tried <;> cases heq.symm.trans h <;> simp
  · cases (attempt_of_ne hopen tree tried).symm.trans h

lemma Lawful.after (h : Lawful tree trait span conformance) (tried : Attempt) :
    Lawful tree trait span (conformance.after tree tried) := by
  unfold Conformance.after
  by_cases hopen : conformance.state = .realized
  · obtain ⟨entries, hperm, heq⟩ | heq | heq := attempt_cases hopen tree tried <;> rw [heq]
    · exact ⟨h.trait_eq, h.span_eq, fun _ => rfl, fun _ => hperm⟩
    · exact ⟨h.trait_eq, h.span_eq, fun hne => absurd (h.entries hne) (by simp [hopen]), by simp⟩
    · exact h
  · rw [attempt_of_ne hopen]
    exact h

lemma Lawful.afterAll (tried : List Attempt) (h : Lawful tree trait span conformance) :
    Lawful tree trait span (conformance.afterAll tree tried) := by
  induction tried generalizing conformance with
  | nil => exact h
  | cons first rest ih => exact ih (h.after first)

/-- What is settled stays. -/
lemma afterAll_of_ne (tried : List Attempt) (h : conformance.state ≠ .realized) :
    conformance.afterAll tree tried = conformance := by
  induction tried with
  | nil => rfl
  | cons first rest ih =>
    rw [afterAll, List.foldl_cons, after, attempt_of_ne h]
    exact ih

/-- A checked conformance has an implementation for each requirement that an entry names. -/
lemma Lawful.isSome_implementation? (h : Lawful tree trait span conformance)
    (requirement : DeclId) : (conformance.implementation? requirement).isSome ↔
      conformance.state = .checked ∧ requirement ∈ conformance.requirements tree := by
  unfold implementation?
  split
  next hstate =>
    rw [← (h.perm hstate).mem_iff]
    simp [hstate, List.find?_isSome]
  next hstate => simp [hstate]

/-- Whatever is tried on a new conformance, its trait and place stay, only an accepted one has
entries, one for each requirement of the trait, and it has implementations for just these. An
attempt that fails leaves it as it was, and after one that succeeded all others fail. -/
theorem lawful_attempts (tree : Tree) (trait : DeclId) (span : Option Span) (tried : List Attempt) :
    let conformance := (new trait span).afterAll tree tried
    (conformance.trait = trait ∧ conformance.span = span) ∧
    (conformance.entries ≠ [] → conformance.state = .checked) ∧
    (conformance.state = .checked →
      (conformance.entries.map ConformanceEntry.requirement).Perm (conformance.requirements tree)) ∧
    (∀ requirement, (conformance.implementation? requirement).isSome ↔
      conformance.state = .checked ∧ requirement ∈ conformance.requirements tree) ∧
    (∀ next defect left, conformance.attempt tree next = .error defect left → left = conformance) ∧
    ∀ before first rest settled, tried = before ++ first :: rest →
      ((new trait span).afterAll tree before).attempt tree first = .ok () settled →
      conformance = settled ∧ ∀ next, conformance.attempt tree next = .error
      (.illegalTransition conformance.state next.target) conformance := by
  have hnew : Lawful tree trait span (new trait span) := ⟨rfl, rfl, by simp [new], by simp [new]⟩
  have hlawful := hnew.afterAll tried
  refine ⟨⟨hlawful.trait_eq, hlawful.span_eq⟩, hlawful.entries, hlawful.perm,
    hlawful.isSome_implementation?, fun next defect left => eq_of_attempt_eq_error, ?_⟩
  rintro before first rest settled rfl hok
  have hsettled := state_ne_of_attempt_eq_ok hok
  have heq : (new trait span).afterAll tree (before ++ first :: rest) = settled := by
    rw [afterAll, List.foldl_append, List.foldl_cons]
    show afterAll tree (after tree (afterAll tree (new trait span) before) first) rest = settled
    rw [after, hok]
    exact afterAll_of_ne rest hsettled
  rw [heq]
  exact ⟨rfl, attempt_of_ne hsettled tree⟩

end TraitLang.Conformance
