import Mathlib.Logic.Relation
import TraitLang.Proofs.Resolution

/-! Following bindings. A variable is looked up by its number, whatever the age of its binding; a
type leads to its parts and a bound variable to what it is bound to. Under bindings that are lawful
this comes to an end, from every type, so the recursions that follow bindings do. -/
namespace TraitLang

open List Relation.TransGen

namespace Ty

/-! ### Parts -/

variable {type part whole : Ty}

lemma weight_le_weightAll : ∀ {types part}, part ∈ types → part.weight ≤ weightAll types
  | type :: types, part, h => by
    rcases mem_cons.1 h with rfl | h
    · exact Nat.le_add_right _ _
    · exact Nat.le_trans (weight_le_weightAll h) (Nat.le_add_left _ _)

lemma weight_lt (h : part ∈ whole.parts) : part.weight < whole.weight := by
  cases whole with
  | tuple types | existential types =>
    have : part.weight ≤ weightAll types := weight_le_weightAll h
    simp only [weight]
    omega
  | function params output =>
    simp only [weight]
    rcases mem_append.1 h with h | h
    · have := weight_le_weightAll h
      omega
    · obtain rfl := mem_singleton.1 h
      omega
  | _ => cases h

def Below : Ty → Ty → Prop := Relation.TransGen fun part whole => part ∈ whole.parts

lemma Below.weight_lt {inner outer} (h : Below inner outer) : inner.weight < outer.weight := by
  induction h with
  | single h => exact Ty.weight_lt h
  | tail _ h ih => exact Nat.lt_trans ih (Ty.weight_lt h)

/-- A variable that occurs in a type is the type or inside of it. -/
lemma eq_or_below_of_mentions {id} (h : type.mentions id) : type = .var id ∨ (var id).Below type := by
  induction type using byParts with
  | whole type ih =>
    rcases any_iff.1 h with h | ⟨part, hp, h⟩
    · exact .inl (of_decide_eq_true h)
    · right
      rcases ih part hp h with rfl | hbelow
      · exact .single hp
      · exact hbelow.tail hp

lemma not_below_self (type : Ty) : ¬Below type type := fun h => Nat.lt_irrefl _ h.weight_lt

end Ty

namespace Solver

variable {part whole type : Ty} {bindings : List (Nat × Ty)} {id : Nat}

lemma resolveBy_part (bindings : List (Nat × Ty)) (h : part ∈ whole.parts) :
    resolveBy bindings part ∈ (resolveBy bindings whole).parts := by
  rw [resolveBy_mapParts bindings (Ty.ne_var_of_part h), Ty.parts_mapParts]
  exact mem_map_of_mem h

lemma below_resolveBy (bindings : List (Nat × Ty)) {inner outer} (h : inner.Below outer) :
    (resolveBy bindings inner).Below (resolveBy bindings outer) :=
  lift (resolveBy bindings) (fun _ _ => resolveBy_part bindings) _ _ h

/-! ### Looking variables up -/

lemma lookup_eq_none (h : ∀ binding ∈ bindings, binding.1 ≠ id) : bindings.lookup id = none :=
  lookup_eq_none_iff.2 fun binding hb => by simpa using (h binding hb).symm

/-- What a type is bound to, if it is a bound variable. -/
def boundTo (bindings : List (Nat × Ty)) : Ty → Option Ty
  | .var id => bindings.lookup id
  | _ => none

lemma boundTo_cons_self (id : Nat) (value : Ty) (older : List (Nat × Ty)) :
    boundTo ((id, value) :: older) (.var id) = some value := by
  simp [boundTo]

lemma boundTo_cons_of_ne (h : type ≠ .var id) (value : Ty) (older : List (Nat × Ty)) :
    boundTo ((id, value) :: older) type = boundTo older type := by
  cases type with
  | var other =>
    have hne : (other == id) = false := by simpa using h
    simp only [boundTo, lookup_cons, hne]
  | _ => rfl

/-- Looking for the head of a type goes on with what the type is bound to. -/
lemma headBy_eq (h : Lawful bindings) (type : Ty) :
    headBy bindings type = (boundTo bindings type).elim type (headBy bindings) := by
  induction bindings with
  | nil => cases type <;> rfl
  | cons binding older ih =>
    obtain ⟨id, _⟩ := binding
    obtain ⟨hlawful, hnew, -⟩ := h
    have ih := ih hlawful
    by_cases hvar : type = .var id
    · subst hvar
      have hfree : headBy older (.var id) = .var id := by
        rw [ih, boundTo, lookup_eq_none hnew, Option.elim_none]
      rw [boundTo_cons_self, Option.elim_some]
      simp only [headBy, hfree, if_true]
      split <;> rfl
    · rw [boundTo_cons_of_ne hvar]
      cases hbound : boundTo older type with
      | none =>
        rw [hbound, Option.elim_none] at ih
        rw [Option.elim_none]
        simp only [headBy, ih, if_neg hvar]
      | some next =>
        rw [hbound, Option.elim_some] at ih
        rw [Option.elim_some]
        simp only [headBy, ih]

lemma resolveBy_of_boundTo (h : Lawful bindings) {next} (hb : boundTo bindings type = some next) :
    resolveBy bindings type = resolveBy bindings next := by
  induction bindings with
  | nil => cases type <;> cases hb
  | cons binding older ih =>
    obtain ⟨id, _⟩ := binding
    obtain ⟨hlawful, hnew, hvalue⟩ := h
    by_cases hvar : type = .var id
    · subst hvar
      rw [boundTo_cons_self] at hb
      obtain rfl := Option.some.inj hb
      have hfree : resolveBy older (.var id) = .var id :=
        resolveBy_of_not_mentions fun binding hb => by simpa using (hnew binding hb).symm
      rw [resolveBy_cons, resolveBy_cons, hfree, Ty.assign_eq, if_pos rfl,
        Ty.assign_of_not_mentions _ _ hvalue]
    · rw [boundTo_cons_of_ne hvar] at hb
      rw [resolveBy_cons, resolveBy_cons, ih hlawful hb]

/-- Resolving a type goes on with what the type is bound to, and else with its parts. -/
lemma resolveBy_eq (h : Lawful bindings) (type : Ty) : resolveBy bindings type =
    (boundTo bindings type).elim (type.mapParts (resolveBy bindings)) (resolveBy bindings) := by
  cases hb : boundTo bindings type with
  | some next => exact resolveBy_of_boundTo h hb
  | none =>
    cases type with
    | var id =>
      have hfree := lookup_eq_none_iff.1 hb
      exact resolveBy_of_not_mentions fun binding hm => by simpa using hfree binding hm
    | _ => exact resolveBy_mapParts bindings (by simp)

/-! ### No circles -/

/-- A type leads to its parts, and a bound variable to what it is bound to. -/
def Opens (bindings : List (Nat × Ty)) (whole part : Ty) : Prop :=
  part ∈ whole.parts ∨ boundTo bindings whole = some part

/-- A variable is bound to a type in which another one occurs. -/
def Leads (bindings : List (Nat × Ty)) (id other : Nat) : Prop :=
  ∃ type, boundTo bindings (.var id) = some type ∧ type.mentions other

/-- How far a type can lead, at most. A variable that is bound to a value leads one step further
than the value does, and so does every type that leads to the variable. -/
def rank : (bindings : List (Nat × Ty)) → Ty → Nat
  | [], type => type.weight
  | (id, value) :: older, type =>
    rank older type + if (resolveBy older type).mentions id then rank older value + 1 else 0

/-- Variables that can be reached from what a type leads to can be reached from the type. -/
lemma Opens.mentions (h : Lawful bindings) (ho : Opens bindings whole part)
    (hm : (resolveBy bindings part).mentions id) : (resolveBy bindings whole).mentions id := by
  rcases ho with hp | hb
  · exact Ty.any_of_part (resolveBy_part bindings hp) hm
  · rwa [resolveBy_of_boundTo h hb]

lemma rank_lt (h : Lawful bindings) (ho : Opens bindings whole part) : rank bindings part < rank bindings whole := by
  induction bindings generalizing whole part with
  | nil =>
    rcases ho with hp | hb
    · exact Ty.weight_lt hp
    · cases whole <;> cases hb
  | cons binding older ih =>
    obtain ⟨id, value⟩ := binding
    obtain ⟨hlawful, hnew, hvalue⟩ := h
    -- an older step stays one, for a type leads to the new variable if one of its parts does
    have hstep (ho : Opens older whole part) :
        rank ((id, value) :: older) part < rank ((id, value) :: older) whole := by
      have hlt := ih hlawful ho
      have hmentions (hm : (resolveBy older part).mentions id) := ho.mentions hlawful hm
      simp only [rank]
      split
      next hm =>
        rw [if_pos (hmentions hm)]
        omega
      next => omega
    rcases ho with hp | hb
    · exact hstep (.inl hp)
    · by_cases hvar : whole = .var id
      · subst hvar
        rw [boundTo_cons_self] at hb
        obtain rfl := Option.some.inj hb
        have hself : (resolveBy older (.var id)).mentions id := by
          rw [resolveBy_of_not_mentions fun binding hb => by simpa using (hnew binding hb).symm]
          simp
        simp only [rank, hself, hvalue, Bool.false_eq_true, if_false, if_true]
        omega
      · rw [boundTo_cons_of_ne hvar] at hb
        exact hstep (.inr hb)

/-- Whatever follows bindings and goes down into types comes to an end. -/
lemma wellFounded_opens (h : Lawful bindings) : WellFounded fun part whole => Opens bindings whole part :=
  Subrelation.wf (fun ho => rank_lt h ho) (InvImage.wf (rank bindings) Nat.lt_wfRel.wf)

/-- A type leads to the variables that occur in it. -/
lemma opens_mentions (bindings : List (Nat × Ty)) (h : type.mentions id) :
    Relation.ReflTransGen (Opens bindings) type (.var id) := by
  rcases Ty.eq_or_below_of_mentions h with rfl | hbelow
  · exact .refl
  · clear h
    induction hbelow with
    | single hp => exact .single (.inl hp)
    | tail _ hp ih => exact ih.head (.inl hp)

/-- No variable leads back to itself. -/
lemma not_leads_self (h : Lawful bindings) (id : Nat) : ¬Relation.TransGen (Leads bindings) id id := by
  intro hcircle
  have hopens : Relation.TransGen (Opens bindings) (.var id) (.var id) := by
    refine lift' Ty.var (fun first second hl => ?_) _ _ hcircle
    obtain ⟨_, hbound, hm⟩ := hl
    exact head' (.inr hbound) (opens_mentions bindings hm)
  have hrank {whole part} (ho : Relation.TransGen (Opens bindings) whole part) :
      rank bindings part < rank bindings whole := by
    induction ho with
    | single ho => exact rank_lt h ho
    | tail _ ho ih => exact Nat.lt_trans (rank_lt h ho) ih
  exact Nat.lt_irrefl _ (hrank hopens)

end Solver

end TraitLang
