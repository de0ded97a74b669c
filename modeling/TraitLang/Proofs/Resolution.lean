import Mathlib.Data.List.Forall2
import Mathlib.Order.Basic
import Mathlib.Tactic.Common
import TraitLang.Types.Generics

/-! What a solver says about types. Bindings never lead back to the variable they bind, so resolving
a type leaves no bound variable in it, later bindings only refine what earlier ones say, and types
that were unified stay in agreement. -/
namespace TraitLang

open List Ty Solver

namespace Ty

/-! ### Parts of types -/

/-- The types that a type is directly made of. -/
def parts : Ty → List Ty
  | .tuple types | .existential types => types
  | .function params output => params ++ [output]
  | _ => []

/-- A type with something else in place of each of its parts. -/
def mapParts (change : Ty → Ty) : Ty → Ty
  | .tuple types => .tuple (types.map change)
  | .function params output => .function (params.map change) (change output)
  | .existential types => .existential (types.map change)
  | type => type

/-- A type that consists of no other types. -/
def isLeaf : Ty → Bool
  | .tuple _ | .function _ _ | .existential _ => false
  | _ => true

lemma byParts {P : Ty → Prop} (whole : ∀ type, (∀ part ∈ type.parts, P part) → P type) (type : Ty) : P type := by
  apply @Ty.rec P fun types => ∀ type ∈ types, P type
  case tuple => exact fun types => whole (.tuple types)
  case function => exact fun _ _ hparams houtput => whole _ (forall_mem_append.2 ⟨hparams, by simpa using houtput⟩)
  case existential => exact fun types => whole (.existential types)
  case nil => exact forall_mem_nil _
  case cons => grind
  all_goals
    intros
    exact whole _ (forall_mem_nil _)

section

variable {type part whole : Ty} {change change' : Ty → Ty} {test : Ty → Bool} {id : Nat}

lemma parts_leaf (h : type.isLeaf) : type.parts = [] := by
  cases type with
  | tuple | function | existential => cases h
  | _ => rfl

lemma ne_var_of_part (h : part ∈ whole.parts) (id : Nat) : whole ≠ .var id := by
  rintro rfl
  cases h

lemma parts_mapParts (change : Ty → Ty) (type : Ty) : (type.mapParts change).parts = type.parts.map change := by
  cases type <;> simp [parts, mapParts]

lemma mapParts_mapParts (change change' : Ty → Ty) (type : Ty) :
    (type.mapParts change).mapParts change' = type.mapParts fun part => change' (change part) := by
  cases type <;> simp [mapParts, Function.comp_def]

lemma mapParts_inj : type.mapParts change = type.mapParts change' ↔ ∀ part ∈ type.parts,
    change part = change' part := by
  cases type <;> simp [mapParts, parts, or_imp, forall_and]

lemma mapParts_eq_self : type.mapParts change = type ↔ ∀ part ∈ type.parts, change part = part := by
  have hself : type.mapParts (fun part => part) = type := by cases type <;> simp [mapParts]
  rw [← mapParts_inj, hself]

lemma mapParts_eq_var : type.mapParts change = .var id ↔ type = .var id := by
  cases type <;> simp [mapParts]

lemma any_iff : type.any test ↔ test type ∨ ∃ part ∈ type.parts, part.any test := by
  cases type <;> simp [any, anyAll_eq, parts, or_assoc, or_and_right, exists_or]

lemma any_eq_false_iff : type.any test = false ↔ test type = false ∧ ∀ part ∈ type.parts, part.any test = false := by
  rw [← Bool.not_eq_true, any_iff]
  simp

lemma any_of_part (hp : part ∈ whole.parts) (h : part.any test) : whole.any test :=
  any_iff.2 (.inr ⟨part, hp, h⟩)

lemma replace_eq (replacement : Ty → Option Ty) (type : Ty) :
    type.replace replacement = (replacement type).getD (type.mapParts (replace replacement)) := by
  cases type <;> simp [replace, replaceAll_eq, mapParts]

end

lemma map_eq_self {change} {types : List Ty} (h : ∀ type ∈ types, change type = type) : types.map change = types := by
  rw [map_congr_left h, map_id']

def isTrait : Ty → Bool
  | .trait _ _ => true
  | _ => false

lemma isLeaf_of_isTrait {type : Ty} (h : type.isTrait) : type.isLeaf ∧ ∀ id, type ≠ .var id := by
  cases type with
  | trait => exact ⟨rfl, fun _ => by simp⟩
  | _ => cases h

/-- Nothing changes in an existential that is made of traits, if traits do not change. -/
lemma mapParts_traits {types change} (h : ∀ type ∈ types, type.isTrait) (hc : ∀ type, type.isTrait →
    change type = type) : (existential types).mapParts change = .existential types :=
  congrArg existential (map_eq_self fun type ht => hc type (h type ht))

/-! ### Variables in types -/

section

variable {type value : Ty} {id other : Nat}

@[simp]
lemma mentions_var : (var other).mentions id = decide (other = id) := by
  simp [mentions, any]

lemma mentions_mapParts {change} : (type.mapParts change).mentions id ↔
    type = .var id ∨ ∃ part ∈ type.parts, (change part).mentions id := by
  rw [mentions, any_iff, parts_mapParts, decide_eq_true_eq, mapParts_eq_var]
  simp only [mem_map, exists_exists_and_eq_and, mentions]

lemma assign_eq (type : Ty) (id : Nat) (value : Ty) :
    type.assign id value = if type = .var id then value else type.mapParts (assign · id value) := by
  rw [assign, replace_eq]
  split <;> rfl

lemma assign_of_not_mentions (id : Nat) (value : Ty) (h : type.mentions id = false) : type.assign id value = type := by
  induction type using byParts with
  | whole type ih =>
    obtain ⟨hself, hparts⟩ := any_eq_false_iff.1 h
    rw [assign_eq, if_neg (of_decide_eq_false hself), mapParts_eq_self.2 fun part hp => ih part hp (hparts part hp)]

lemma mentions_of_assign (h : (type.assign id value).mentions other) :
    type.mentions other ∧ other ≠ id ∨ value.mentions other := by
  induction type using byParts with
  | whole type ih =>
    rw [assign_eq] at h
    split at h
    · exact .inr h
    next hne =>
      rcases mentions_mapParts.1 h with rfl | ⟨part, hp, hm⟩
      · exact .inl ⟨by simp, fun ho => hne (by rw [ho])⟩
      · exact (ih part hp hm).imp_left (And.imp_left (any_of_part hp))

end

end Ty

/-! ### Resolving -/

namespace Solver

lemma resolveBy_cons (id : Nat) (value : Ty) (older : List (Nat × Ty)) (type : Ty) : resolveBy ((id,
    value) :: older) type = (resolveBy older type).assign id (resolveBy older value) := by
  simp only [resolveBy]
  split
  · rfl
  next h => exact (assign_of_not_mentions id _ (by simpa using h)).symm

section

variable (bindings : List (Nat × Ty))

lemma resolveBy_mapParts {type} (hv : ∀ id, type ≠ .var id) :
    resolveBy bindings type = type.mapParts (resolveBy bindings) := by
  induction bindings with
  | nil => exact (mapParts_eq_self.2 fun _ _ => rfl).symm
  | cons binding older ih =>
    obtain ⟨id, _⟩ := binding
    rw [resolveBy_cons, ih, assign_eq, if_neg (mt mapParts_eq_var.1 (hv id)), mapParts_mapParts]
    exact mapParts_inj.2 fun part _ => (resolveBy_cons _ _ _ part).symm

lemma resolveBy_tuple (types : List Ty) : resolveBy bindings (.tuple types) = .tuple (types.map (resolveBy bindings)) :=
  resolveBy_mapParts bindings (by simp)

lemma resolveBy_function (params : List Ty) (output : Ty) : resolveBy bindings (.function params output) =
    .function (params.map (resolveBy bindings)) (resolveBy bindings output) :=
  resolveBy_mapParts bindings (by simp)

lemma resolveBy_existential (types : List Ty) :
    resolveBy bindings (.existential types) = .existential (types.map (resolveBy bindings)) :=
  resolveBy_mapParts bindings (by simp)

lemma resolveBy_leaf {type} (hl : type.isLeaf) (hv : ∀ id, type ≠ .var id) : resolveBy bindings type = type := by
  rw [resolveBy_mapParts bindings hv, mapParts_eq_self.2 (by simp [parts_leaf hl])]

lemma resolveBy_traits {types} (h : ∀ type ∈ types, type.isTrait) :
    resolveBy bindings (.existential types) = .existential types := by
  rw [resolveBy_mapParts bindings (by simp), mapParts_traits h fun type ht => ?_]
  obtain ⟨hl, hv⟩ := isLeaf_of_isTrait ht
  exact resolveBy_leaf bindings hl hv

end

lemma resolve_error (solver : Solver) : solver.resolve .error = .error :=
  resolveBy_leaf _ rfl fun _ => by simp

/-- Variables are bound once, and never to a type that leads back to them. -/
def Lawful : List (Nat × Ty) → Prop
  | [] => True
  | (id, value) :: older => Lawful older ∧ (∀ binding ∈ older, binding.1 ≠ id) ∧
    (resolveBy older value).mentions id = false

variable {bindings : List (Nat × Ty)}

lemma resolveBy_of_not_mentions {type} (h : ∀ binding ∈ bindings, type.mentions binding.1 = false) :
    resolveBy bindings type = type := by
  induction bindings with
  | nil => rfl
  | cons binding older ih =>
    obtain ⟨_, _⟩ := binding
    obtain ⟨hid, holder⟩ := forall_mem_cons.1 h
    rw [resolveBy_cons, ih holder, assign_of_not_mentions _ _ hid]

/-- No bound variable is left in a resolved type. -/
lemma not_mentions_resolveBy (h : Lawful bindings) (type : Ty) :
    ∀ binding ∈ bindings, (resolveBy bindings type).mentions binding.1 = false := by
  induction bindings generalizing type with
  | nil => exact forall_mem_nil _
  | cons binding older ih =>
    obtain ⟨_, value⟩ := binding
    obtain ⟨hlawful, -, hvalue⟩ := h
    intro binding hb
    rw [resolveBy_cons, Bool.eq_false_iff]
    intro hm
    rcases mentions_of_assign hm with ⟨hm, hne⟩ | hm <;> grind

/-- Later bindings refine what earlier ones say. -/
lemma resolveBy_append {older} (h : Lawful older) (newer : List (Nat × Ty)) (type : Ty) :
    resolveBy (newer ++ older) (resolveBy older type) = resolveBy (newer ++ older) type := by
  induction newer with
  | nil => exact resolveBy_of_not_mentions (not_mentions_resolveBy h type)
  | cons binding newer ih =>
    obtain ⟨_, _⟩ := binding
    simp only [cons_append, resolveBy_cons, ih]

/-- The outermost part of a type, as far as it is known, and the type resolve to the same type. -/
lemma resolveBy_headBy (h : Lawful bindings) (type : Ty) :
    resolveBy bindings (headBy bindings type) = resolveBy bindings type := by
  induction bindings generalizing type with
  | nil => rfl
  | cons binding older ih =>
    obtain ⟨id, value⟩ := binding
    obtain ⟨hlawful, hnew, hvalue⟩ := h
    simp only [headBy]
    split
    next hhead =>
      have hvar : resolveBy older (.var id) = .var id :=
        resolveBy_of_not_mentions fun binding hb => by simpa using (hnew binding hb).symm
      have htype : resolveBy older type = .var id := by rw [← ih hlawful type, hhead, hvar]
      rw [resolveBy_cons, resolveBy_cons, ih hlawful value, htype,
        assign_of_not_mentions _ _ hvalue, assign_eq, if_pos rfl]
    · rw [resolveBy_cons, resolveBy_cons, ih hlawful type]

/-- A variable that is the outermost part of a type is free. -/
lemma free_of_headBy (h : Lawful bindings) {type id} (hid : headBy bindings type = .var id) :
    ∀ binding ∈ bindings, binding.1 ≠ id := by
  induction bindings generalizing type with
  | nil => exact forall_mem_nil _
  | cons binding older ih =>
    obtain ⟨_, _⟩ := binding
    obtain ⟨hlawful, hnew, hvalue⟩ := h
    simp only [headBy] at hid
    split at hid
    · refine forall_mem_cons.2 ⟨?_, ih hlawful hid⟩
      rintro rfl
      rw [← resolveBy_headBy hlawful, hid, resolveBy_of_not_mentions fun binding hb => by
        simpa using (hnew binding hb).symm] at hvalue
      simp at hvalue
    next hne => grind

end Solver

/-! ### What types consist of -/

namespace Ty

mutual

/-- A condition on the types at the ends of a type. Existentials count as ends. -/
def Over (leaf : Ty → Prop) : Ty → Prop
  | .tuple elements => OverAll leaf elements
  | .function params output => OverAll leaf params ∧ Over leaf output
  | type => leaf type

def OverAll (leaf : Ty → Prop) : List Ty → Prop
  | [] => True
  | type :: types => Over leaf type ∧ OverAll leaf types

end

/-- Existentials are made of traits. -/
def Traity (leaf : Ty → Prop) : Prop :=
  ∀ types, leaf (.existential types) → ∀ type ∈ types, type.isTrait

/-- A type that is made of no other types, or of traits. -/
def isEnd : Ty → Bool
  | .tuple _ | .function _ _ => false
  | _ => true

lemma isEnd_of_isLeaf {type : Ty} (h : type.isLeaf) : type.isEnd := by
  cases type <;> first | rfl | cases h

lemma byEnds {P : Ty → Prop} (ends : ∀ type, type.isEnd → P type) (whole : ∀ type,
    type.isEnd = false → (∀ part ∈ type.parts, P part) → P type) (type : Ty) : P type := by
  induction type using byParts with
  | whole type ih => grind

section

variable {leaf : Ty → Prop} {types : List Ty} {type part : Ty}

lemma overAll_iff : OverAll leaf types ↔ ∀ type ∈ types, Over leaf type := by
  induction types with
  | nil => exact ⟨fun _ => forall_mem_nil _, fun _ => trivial⟩
  | cons type types ih => exact (and_congr_right' ih).trans forall_mem_cons.symm

lemma over_tuple : Over leaf (.tuple types) ↔ ∀ type ∈ types, Over leaf type := overAll_iff

lemma over_function {params output} :
    Over leaf (.function params output) ↔ (∀ type ∈ params, Over leaf type) ∧ Over leaf output :=
  and_congr_left' overAll_iff

lemma over_end (h : type.isEnd) : Over leaf type ↔ leaf type := by
  cases type with
  | tuple | function => cases h
  | _ => exact Iff.rfl

lemma over_parts (h : type.isEnd = false) : Over leaf type ↔ ∀ part ∈ type.parts, Over leaf part := by
  cases type with
  | tuple => exact over_tuple
  | function => exact over_function.trans (by simp [parts, or_imp, forall_and])
  | _ => cases h

lemma over_mapParts {change} (h : type.isEnd = false) :
    Over leaf (type.mapParts change) ↔ ∀ part ∈ type.parts, Over leaf (change part) := by
  have he : (type.mapParts change).isEnd = false := by cases type <;> first | rfl | cases h
  rw [over_parts he, parts_mapParts, forall_mem_map]

lemma Over.imp {other} (h : Over leaf type) (hi : ∀ type, leaf type → other type) : Over other type := by
  induction type using byEnds with
  | ends type he => exact (over_end he).2 (hi _ ((over_end he).1 h))
  | whole type he ih => exact (over_parts he).2 fun part hp => ih part hp ((over_parts he).1 h part hp)

lemma assign_trait (id : Nat) (value : Ty) (h : type.isTrait) : type.assign id value = type := by
  obtain ⟨hl, hv⟩ := isLeaf_of_isTrait h
  rw [assign_eq, if_neg (hv id), mapParts_eq_self.2 (by simp [parts_leaf hl])]

lemma assign_traits {id value} (h : ∀ type ∈ types, type.isTrait) :
    (existential types).assign id value = .existential types := by
  rw [assign_eq, if_neg (by simp), mapParts_traits h fun _ => assign_trait id value]

variable (ht : Traity leaf)

include ht

lemma Traity.isTrait (he : type.isEnd) (h : leaf type) (hp : part ∈ type.parts) : part.isTrait := by
  cases type with
  | existential types => exact ht types h part hp
  | tuple | function => cases he
  | _ => cases hp

lemma Over.assign {value} (h : Over leaf type) (hv : Over leaf value) (id : Nat) :
    Over leaf (type.assign id value) := by
  induction type using byEnds with
  | ends type he =>
    rw [assign_eq]
    split
    · exact hv
    · rwa [mapParts_eq_self.2 fun part hp => assign_trait id value (ht.isTrait he ((over_end he).1 h) hp)]
  | whole type he ih =>
    grind [assign_eq, over_mapParts, over_parts]

lemma Over.of_any {test} (h : Over leaf type) (ha : type.any test) (hends : ∀ type,
    test type → type.isEnd ∧ type.isTrait = false := by rintro ⟨⟩ <;> simp [isEnd, isTrait]) :
    ∃ end_, test end_ ∧ leaf end_ := by
  induction type using byEnds with
  | ends type he =>
    have hleaf := (over_end he).1 h
    refine ⟨type, (any_iff.1 ha).resolve_right ?_, hleaf⟩
    rintro ⟨part, hp, ha⟩
    have htrait := ht.isTrait he hleaf hp
    rw [any_iff, parts_leaf (isLeaf_of_isTrait htrait).1] at ha
    simp [(hends part (by simpa using ha)).2] at htrait
  | whole type he ih =>
    grind [any_iff, over_parts]

/-- The error type in a type is at one of its ends. -/
lemma Over.error (h : Over leaf type) (he : type.hasErrors) : leaf .error := by
  obtain ⟨end_, htest, hleaf⟩ := h.of_any ht he
  cases end_ with
  | error => exact hleaf
  | _ => cases htest

lemma Over.var (h : Over leaf type) (he : type.hasVars) : ∃ id, leaf (.var id) := by
  obtain ⟨end_, htest, hleaf⟩ := h.of_any ht he
  cases end_ with
  | var id => exact ⟨id, hleaf⟩
  | _ => cases htest

lemma Over.mentions (h : Over leaf type) {id} (hm : type.mentions id) : leaf (.var id) := by
  obtain ⟨_, htest, hleaf⟩ := h.of_any ht hm
  rwa [of_decide_eq_true htest] at hleaf

end

end Ty

namespace Solver

variable {leaf : Ty → Prop} {bindings : List (Nat × Ty)}

/-- The variables that may stand at the ends of types are bound to types with such ends. -/
def Closed (leaf : Ty → Prop) (bindings : List (Nat × Ty)) : Prop :=
  ∀ binding ∈ bindings, leaf (.var binding.1) → binding.2.Over leaf

lemma over_resolveBy (ht : Ty.Traity leaf) (hb : Closed leaf bindings) {type} (h : type.Over leaf) :
    (resolveBy bindings type).Over leaf := by
  induction bindings generalizing type with
  | nil => exact h
  | cons binding older ih =>
    obtain ⟨id, _⟩ := binding
    obtain ⟨hvalue, holder⟩ := forall_mem_cons.1 hb
    simp only [resolveBy]
    split
    next hm => exact (ih holder h).assign ht (ih holder (hvalue ((ih holder h).mentions ht hm))) id
    next => exact ih holder h

lemma over_headBy (hb : Closed leaf bindings) {type} (h : type.Over leaf) : (headBy bindings type).Over leaf := by
  induction bindings generalizing type with
  | nil => exact h
  | cons binding older ih =>
    obtain ⟨_, _⟩ := binding
    obtain ⟨hvalue, holder⟩ := forall_mem_cons.1 hb
    simp only [headBy]
    split
    next hv => exact ih holder (hvalue ((over_end rfl).1 (hv ▸ ih holder h)))
    next => exact ih holder h

end Solver

/-! ### Agreement -/

namespace Ty

mutual

/-- Two types are the same up to the order and repetition of the traits of existentials. In lax
agreement the error type goes with every type. -/
inductive Agree (lax : Prop) : Ty → Ty → Prop
  | errorLeft {type : Ty} : lax → Agree lax .error type
  | errorRight {type : Ty} : lax → Agree lax type .error
  | same (type : Ty) : Agree lax type type
  | tuple {xs ys : List Ty} : AgreeAll lax xs ys → Agree lax (.tuple xs) (.tuple ys)
  | function {ps qs : List Ty} {r s : Ty} : AgreeAll lax ps qs → Agree lax r s →
    Agree lax (.function ps r) (.function qs s)
  | existential {xs ys : List Ty} : (∀ type ∈ xs, type.isTrait) → (∀ type ∈ ys, type.isTrait) →
    sameTraits (traitDeclsAll xs) (traitDeclsAll ys) → Agree lax (.existential xs) (.existential ys)

inductive AgreeAll (lax : Prop) : List Ty → List Ty → Prop
  | nil : AgreeAll lax [] []
  | cons {x y : Ty} {xs ys : List Ty} : Agree lax x y → AgreeAll lax xs ys →
    AgreeAll lax (x :: xs) (y :: ys)

end

lemma agreeAll_iff {lax : Prop} : ∀ {xs ys}, AgreeAll lax xs ys ↔ Forall₂ (Agree lax) xs ys
  | [], [] => ⟨fun _ => .nil, fun _ => .nil⟩
  | [], _ :: _ | _ :: _, [] => ⟨nofun, nofun⟩
  | _ :: _, _ :: _ =>
    ⟨fun | .cons h hs => .cons h (agreeAll_iff.1 hs), fun | .cons h hs => .cons h (agreeAll_iff.2 hs)⟩

section

variable {lax lax' : Prop} (id : Nat) (value : Ty)

mutual

lemma Agree.assign : ∀ {a b}, Agree lax a b → Agree lax (a.assign id value) (b.assign id value)
  | _, _, .errorLeft h => .errorLeft h
  | _, _, .errorRight h => .errorRight h
  | _, _, .same type => .same _
  | _, _, .tuple h => by
    rw [assign_eq, if_neg (by simp), assign_eq, if_neg (by simp)]
    exact .tuple (AgreeAll.assign h)
  | _, _, .function hs h => by
    rw [assign_eq, if_neg (by simp), assign_eq, if_neg (by simp)]
    exact .function (AgreeAll.assign hs) (Agree.assign h)
  | _, _, .existential hx hy h => by
    rw [assign_traits hx, assign_traits hy]
    exact .existential hx hy h

lemma AgreeAll.assign : ∀ {xs ys}, AgreeAll lax xs ys →
    AgreeAll lax (xs.map (Ty.assign · id value)) (ys.map (Ty.assign · id value))
  | _, _, .nil => .nil
  | _, _, .cons h hs => .cons (Agree.assign h) (AgreeAll.assign hs)

end

lemma Agree.resolveBy {a b} (h : Agree lax a b) (bindings : List (Nat × Ty)) :
    Agree lax (resolveBy bindings a) (resolveBy bindings b) := by
  induction bindings with
  | nil => exact h
  | cons binding older ih =>
    obtain ⟨id, _⟩ := binding
    rw [resolveBy_cons, resolveBy_cons]
    exact ih.assign id _

lemma strict_of_part {p : Prop} {whole part : Ty} (h : p ∨ whole.hasErrors = false)
    (hp : part ∈ whole.parts) : p ∨ part.hasErrors = false :=
  h.imp_right fun h => (any_eq_false_iff.1 h).2 part hp

mutual

/-- Where no errors are, agreement is strict. -/
lemma Agree.relax : ∀ {a b}, Agree lax a b → (lax → lax') ∨ a.hasErrors = false → (lax → lax') ∨
    b.hasErrors = false → Agree lax' a b
  | _, _, .errorLeft h, ha, _ => .errorLeft (ha.resolve_right (by simp [hasErrors, any]) h)
  | _, _, .errorRight h, _, hb => .errorRight (hb.resolve_right (by simp [hasErrors, any]) h)
  | _, _, .same type, _, _ => .same type
  | _, _, .tuple h, ha, hb => .tuple (AgreeAll.relax h (fun _ => strict_of_part ha) fun _ => strict_of_part hb)
  | _, _, .function hs h, ha, hb => .function
    (AgreeAll.relax hs (fun _ hm => strict_of_part ha (mem_append_left _ hm))
      fun _ hm => strict_of_part hb (mem_append_left _ hm))
    (Agree.relax h (strict_of_part ha mem_concat_self) (strict_of_part hb mem_concat_self))
  | _, _, .existential hx hy h, _, _ => .existential hx hy h

lemma AgreeAll.relax : ∀ {xs ys}, AgreeAll lax xs ys → (∀ type ∈ xs, (lax → lax') ∨ type.hasErrors = false) →
    (∀ type ∈ ys, (lax → lax') ∨ type.hasErrors = false) → AgreeAll lax' xs ys
  | _, _, .nil, _, _ => .nil
  | _, _, .cons h hs, hx, hy => by
    obtain ⟨hx, hxs⟩ := forall_mem_cons.1 hx
    obtain ⟨hy, hys⟩ := forall_mem_cons.1 hy
    exact .cons (Agree.relax h hx hy) (AgreeAll.relax hs hxs hys)

end

end

end Ty

/-! ### Unification -/

namespace Solver

/-- A solver that knows at least what another one knows. -/
def Refines (before after : Solver) : Prop :=
  before.next ≤ after.next ∧ ∃ newer, after.bindings = newer ++ before.bindings

namespace Refines

variable {a b c : Solver}

protected lemma refl (solver : Solver) : Refines solver solver := ⟨Nat.le_refl _, [], rfl⟩

protected lemma trans : Refines a b → Refines b c → Refines a c
  | ⟨hn, xs, hx⟩, ⟨hm, ys, hy⟩ => ⟨Nat.le_trans hn hm, ys ++ xs, by rw [hy, hx, append_assoc]⟩

lemma resolve (h : Refines a b) (ha : Lawful a.bindings) (type : Ty) : b.resolve (a.resolve type) = b.resolve type := by
  obtain ⟨-, newer, hb⟩ := h
  rw [Solver.resolve, Solver.resolve, Solver.resolve, hb]
  exact resolveBy_append ha newer type

lemma agree (h : Refines a b) (ha : Lawful a.bindings) {lax : Prop} {s t}
    (hs : Ty.Agree lax (a.resolve s) (a.resolve t)) : Ty.Agree lax (b.resolve s) (b.resolve t) := by
  rw [← h.resolve ha s, ← h.resolve ha t]
  exact hs.resolveBy b.bindings

end Refines

/-- What holds of a solver after it was told to make two things equal. -/
structure Unified (leaf : Ty → Prop) (before : Solver) (good : Bool) (after : Solver) (agree : Prop) : Prop where
  refines : Refines before after
  next_eq : after.next = before.next
  lawful : Lawful after.bindings
  bound : ∀ binding ∈ after.bindings, binding ∈ before.bindings ∨ leaf (.var binding.1) ∧
  binding.2.Over leaf
  agree : good → agree

section

variable {leaf : Ty → Prop}

lemma Unified.closed {before after good} {agree : Prop} (h : Unified leaf before good after agree)
    (ho : Closed leaf before.bindings) : Closed leaf after.bindings := fun binding hb hv =>
  (h.bound binding hb).elim (fun hold => ho binding hold hv) And.right

variable (ht : Ty.Traity leaf) {solver : Solver} (hl : Lawful solver.bindings)
  (ho : Closed leaf solver.bindings) {first second : Ty}

include hl in
lemma head_resolve (type : Ty) : solver.resolve (solver.head type) = solver.resolve type :=
  resolveBy_headBy hl type

include hl in
lemma unified_bind {id} (hf : solver.head first = .var id) (hfirst : (solver.head first).Over leaf)
    (hs : (solver.head second).Over leaf) :
    Unified leaf solver (solver.bind id (solver.head second)).1
      (solver.bind id (solver.head second)).2
      ((solver.bind id (solver.head second)).2.resolve first =
        (solver.bind id (solver.head second)).2.resolve second) := by
  unfold bind
  split
  · exact ⟨.refl _, rfl, hl, fun _ => .inl, fun h => by cases h⟩
  next hm =>
    have hfree := free_of_headBy hl hf
    have hm : (solver.resolve second).mentions id = false := by grind [head_resolve]
    have hid : leaf (.var id) := (over_end rfl).1 (hf ▸ hfirst)
    refine ⟨⟨Nat.le_refl _, [(id, solver.head second)], rfl⟩, rfl, ⟨hl, hfree, ?_⟩,
      forall_mem_cons.2 ⟨.inr ⟨hid, hs⟩, fun _ => .inl⟩, fun _ => ?_⟩
    · have := head_resolve hl second
      rw [resolve, resolve] at this
      rwa [this]
    · have h1 : resolveBy solver.bindings first = .var id := by
        rw [← resolveBy_headBy hl first]
        rw [head] at hf
        rw [hf]
        exact resolveBy_of_not_mentions fun binding hb => by simpa using (hfree binding hb).symm
      simp only [resolve, resolveBy_cons, h1]
      rw [assign_eq, if_pos rfl]
      have h2 := head_resolve hl second
      rw [resolve, resolve] at h2
      rw [h2]
      exact (assign_of_not_mentions _ _ hm).symm

/-- What is to be done about the heads of two types. -/
inductive Encounter where
  | answer (good : Bool)
  | bind (id : Nat) (type : Ty)
  | parts (xs ys : List Ty)

def encounter : (first second : Ty) → Encounter
  | .error, _ => .answer true
  | _, .error => .answer true
  | .var x, .var y => if x = y then .answer true else .bind x (.var y)
  | .var x, type => .bind x type
  | type, .var y => .bind y type
  | .tuple xs, .tuple ys => if xs.length = ys.length then .parts xs ys else .answer false
  | .function ps r, .function qs s => if ps.length = qs.length then .parts (ps ++ [r]) (qs ++ [s]) else .answer false
  | .existential xs, .existential ys => .answer (sameTraits (Ty.traitDeclsAll xs) (Ty.traitDeclsAll ys))
  | first, second => .answer (decide (first = second))

lemma unifyAll_snoc (unify : Solver → Ty → Ty → Option (Bool × Solver)) (x y : Ty) :
    ∀ {xs ys} solver, xs.length = ys.length → unifyAll unify solver (xs ++ [x]) (ys ++ [y]) =
      match unifyAll unify solver xs ys with
      | some (true, solver) => unify solver x y
      | stopped => stopped
  | [], [], solver, _ => by
    simp only [nil_append, unifyAll]
    rcases unify solver x y with _ | ⟨_ | _, _⟩ <;> rfl
  | a :: xs, b :: ys, solver, h => by
    simp only [cons_append, unifyAll]
    rcases unify solver a b with _ | ⟨_ | _, middle⟩
    · rfl
    · rfl
    · exact unifyAll_snoc unify x y middle (Nat.succ.inj h)

/-- What functions take and give is unified like the elements of tuples. -/
lemma unifyWithin_succ (depth : Nat) (solver : Solver) (first second : Ty) :
    unifyWithin (depth + 1) solver first second =
    match encounter (solver.head first) (solver.head second) with
    | .answer good => some (good, solver)
    | .bind id type => some (solver.bind id type)
    | .parts xs ys => unifyAll (unifyWithin depth) solver xs ys := by
  rw [unifyWithin]
  generalize solver.head first = p, solver.head second = q
  fun_cases encounter p q
  case case9 ps r qs s hlength =>
    rcases hparts : unifyAll (unifyWithin depth) solver ps qs with _ | ⟨_ | _, _⟩ <;>
      simp [hlength, unifyAll_snoc, hparts]
  all_goals simp_all

section

variable {leaf : Ty → Prop} {p q type : Ty} {id : Nat} {xs ys : List Ty}

lemma of_encounter_bind (h : encounter p q = .bind id type) :
    p ≠ q ∧ (p = .var id ∧ q = type ∨ q = .var id ∧ p = type ∧ ∀ x, type ≠ .var x) := by
  revert h
  fun_cases encounter p q <;> grind

lemma of_encounter_parts (h : encounter p q = .parts xs ys) : p = .tuple xs ∧ q = .tuple ys ∧
    xs.length = ys.length ∨ ∃ ps r qs s, p = .function ps r ∧ q = .function qs s ∧ xs = ps ++ [r] ∧
    ys = qs ++ [s] ∧ ps.length = qs.length := by
  revert h
  fun_cases encounter p q <;> grind

lemma over_of_encounter (h : encounter p q = .parts xs ys) (hp : p.Over leaf) (hq : q.Over leaf) :
    (∀ x ∈ xs, x.Over leaf) ∧ ∀ y ∈ ys, y.Over leaf := by
  rcases of_encounter_parts h with ⟨rfl, rfl, -⟩ | ⟨_, _, _, _, rfl, rfl, rfl, rfl, -⟩
  · exact ⟨over_tuple.1 hp, over_tuple.1 hq⟩
  · obtain ⟨hps, hr⟩ := over_function.1 hp
    obtain ⟨hqs, hs⟩ := over_function.1 hq
    exact ⟨forall_mem_append.2 ⟨hps, by simpa using hr⟩, forall_mem_append.2 ⟨hqs, by simpa using hs⟩⟩

lemma agree_of_encounter (ht : Ty.Traity leaf) (hp : p.Over leaf) (hq : q.Over leaf)
    (h : encounter p q = .answer true) : Ty.Agree True p q := by
  revert h hp hq
  fun_cases encounter p q with
  | case1 => exact fun _ _ _ => .errorLeft trivial
  | case2 => exact fun _ _ _ => .errorRight trivial
  | case11 xs ys =>
    simp only [Ty.Over, Encounter.answer.injEq]
    exact fun hp hq hsame => .existential (ht _ hp) (ht _ hq) hsame
  | case12 =>
    simp only [Encounter.answer.injEq, decide_eq_true_eq]
    rintro - - rfl
    exact .same _
  | case3 => exact fun _ _ _ => .same _
  | _ => simp

/-- Types agree where their parts do. -/
lemma agree_of_parts (h : encounter p q = .parts xs ys) (bindings : List (Nat × Ty))
    (ha : Ty.AgreeAll True (xs.map (resolveBy bindings)) (ys.map (resolveBy bindings))) :
    Ty.Agree True (resolveBy bindings p) (resolveBy bindings q) := by
  rcases of_encounter_parts h with ⟨rfl, rfl, -⟩ | ⟨_, _, _, _, rfl, rfl, rfl, rfl, hlength⟩
  · rw [resolveBy_tuple, resolveBy_tuple]
    exact .tuple ha
  · rw [map_append, map_append, agreeAll_iff] at ha
    have hparams := forall₂_take_append _ _ _ ha
    have houtput := forall₂_drop_append _ _ _ ha
    rw [take_left' (by simp [hlength])] at hparams
    rw [drop_left' (by simp [hlength])] at houtput
    rw [resolveBy_function, resolveBy_function]
    exact .function (agreeAll_iff.2 hparams) (forall₂_cons.1 houtput).1

end

lemma unified_unifyAll {unify} (hunify : ∀ {solver first second good after},
    Lawful solver.bindings → Closed leaf solver.bindings → first.Over leaf → second.Over leaf →
      unify solver first second = some (good, after) →
      Unified leaf solver good after (Ty.Agree True (after.resolve first) (after.resolve second))) :
    ∀ {xs ys solver after good}, Lawful solver.bindings → Closed leaf solver.bindings → (∀ x ∈ xs,
      x.Over leaf) → (∀ y ∈ ys, y.Over leaf) → unifyAll unify solver xs ys = some (good, after) →
      Unified leaf solver good after (Ty.AgreeAll True (xs.map after.resolve)
      (ys.map after.resolve))
  | [], [], solver, after, good, hl, ho, _, _, h => by
    cases h
    exact ⟨.refl _, rfl, hl, fun _ => .inl, fun _ => .nil⟩
  | x :: xs, y :: ys, solver, after, good, hl, ho, hx, hy, h => by
    obtain ⟨hx, hxs⟩ := forall_mem_cons.1 hx
    obtain ⟨hy, hys⟩ := forall_mem_cons.1 hy
    simp only [unifyAll] at h
    split at h
    next _ hu =>
      have h1 := hunify hl ho hx hy hu
      have h2 := unified_unifyAll hunify h1.lawful (h1.closed ho) hxs hys h
      refine ⟨h1.refines.trans h2.refines, h2.next_eq.trans h1.next_eq, h2.lawful,
        fun binding hb => (h2.bound binding hb).elim (h1.bound binding) .inr, fun hg => ?_⟩
      exact .cons (h2.refines.agree h1.lawful (h1.agree rfl)) (h2.agree hg)
    next hu =>
      have h1 := hunify hl ho hx hy h
      refine ⟨h1.refines, h1.next_eq, h1.lawful, h1.bound, ?_⟩
      rintro rfl
      exact absurd h (hu after)
  | [], _ :: _, _, _, _, hl, _, _, _, h | _ :: _, [], _, _, _, hl, _, _, _, h => by
    cases h
    exact ⟨.refl _, rfl, hl, fun _ => .inl, fun h => by cases h⟩

include ht in
lemma unified_unifyWithin (depth : Nat) : ∀ {solver first second good after},
    Lawful solver.bindings → Closed leaf solver.bindings → first.Over leaf → second.Over leaf →
    unifyWithin depth solver first second = some (good, after) → Unified leaf solver good after
    (Ty.Agree True (after.resolve first) (after.resolve second)) := by
  induction depth with
  | zero => intro _ _ _ _ _ _ _ _ _ h; cases h
  | succ depth ih =>
    intro solver first second good after hl ho hfirst hsecond h
    have hf : (solver.head first).Over leaf := over_headBy ho hfirst
    have hs : (solver.head second).Over leaf := over_headBy ho hsecond
    have hr1 := head_resolve hl first
    have hr2 := head_resolve hl second
    -- agreement of heads is agreement of the types themselves, also later
    have lift {after} (hrefines : Refines solver after) (ha : Ty.Agree True
        (after.resolve (solver.head first)) (after.resolve (solver.head second))) :
        Ty.Agree True (after.resolve first) (after.resolve second) := by
      rw [← hrefines.resolve hl first, ← hrefines.resolve hl second, ← hr1, ← hr2,
        hrefines.resolve hl, hrefines.resolve hl]
      exact ha
    rw [unifyWithin_succ] at h
    split at h
    next he =>
      cases h
      refine ⟨.refl _, rfl, hl, fun _ => .inl, fun hg => lift (.refl _) ?_⟩
      exact (agree_of_encounter ht hf hs (by rw [he, hg])).resolveBy _
    next id type he =>
      have hb : Unified leaf solver (solver.bind id type).1 (solver.bind id type).2
          ((solver.bind id type).2.resolve first = (solver.bind id type).2.resolve second) := by
        obtain ⟨-, ⟨hx, rfl⟩ | ⟨hy, rfl, -⟩⟩ := of_encounter_bind he
        · exact unified_bind hl hx hf hs
        · have hb := unified_bind hl hy hs hf
          exact { hb with agree := fun hg => (hb.agree hg).symm }
      rw [Option.some.inj h] at hb
      exact { hb with agree := fun hg => hb.agree hg ▸ .same _ }
    next _ _ he =>
      obtain ⟨hxs, hys⟩ := over_of_encounter he hf hs
      have hall := unified_unifyAll (fun hl ho hf hs h => ih hl ho hf hs h) hl ho hxs hys h
      exact { hall with agree := fun hg => lift hall.refines (agree_of_parts he after.bindings (hall.agree hg)) }

include ht hl ho in
/-- Unification keeps to the rules of a solver, and types that it makes equal agree from then on. -/
lemma unified_unify (hf : first.Over leaf) (hs : second.Over leaf) :
    Unified leaf solver (solver.unify first second).1 (solver.unify first second).2
      (Ty.Agree True ((solver.unify first second).2.resolve first)
        ((solver.unify first second).2.resolve second)) := by
  unfold unify
  cases h : solver.unifyWithin (solver.depthBound first second) first second with
  | none => exact ⟨.refl _, rfl, hl, fun _ => .inl, fun h => by cases h⟩
  | some result => exact unified_unifyWithin ht _ hl ho hf hs h

end

lemma headBy_of_unbound {type bindings} (h : ∀ binding ∈ bindings, type ≠ .var binding.1) :
    headBy bindings type = type := by
  induction bindings with
  | nil => rfl
  | cons binding older ih =>
    obtain ⟨hne, holder⟩ := forall_mem_cons.1 h
    rw [headBy, ih holder, if_neg hne]

/-- A free variable can be made the unit type. -/
lemma resolve_unify_unit {solver : Solver} {id} (h : ∀ binding ∈ solver.bindings, binding.1 ≠ id) :
    (solver.unify (.var id) .unit).2.resolve (.var id) = .unit := by
  have hvar : solver.head (.var id) = .var id :=
    headBy_of_unbound fun binding hb he => h binding hb (Ty.var.inj he).symm
  have hunit : solver.head .unit = .unit := headBy_of_unbound fun _ _ he => by cases he
  have hresolve (bindings : List (Nat × Ty)) : resolveBy bindings .unit = .unit := by simp [Ty.unit, resolveBy_tuple]
  have hwithin (depth : Nat) : solver.unifyWithin (depth + 1) (.var id) .unit = some (solver.bind id .unit) := by
    simp only [unifyWithin, hvar, hunit]
    rfl
  have hbind : solver.unify (.var id) .unit = (true, { solver with bindings := (id, .unit) :: solver.bindings }) := by
    have hmentions : Ty.unit.mentions id = false := rfl
    simp [unify, depthBound, hwithin, bind, resolve, hresolve, hmentions]
  rw [hbind, resolve, resolveBy_cons, resolveBy_of_not_mentions, hresolve, assign_eq, if_pos rfl]
  intro binding hb
  simpa [mentions_var] using (h binding hb).symm

end Solver

end TraitLang
