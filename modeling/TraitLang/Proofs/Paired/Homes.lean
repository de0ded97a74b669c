import TraitLang.Proofs.Instances
import TraitLang.Proofs.Levels

/-! Where types belong while a program is checked. An inference variable is made for a value in some
function, and only types of values in that function mention it: where a value is complete its type
has no free variables left, if the policy is to reject them, and only such types go further. -/
namespace TraitLang

open List Ty.Over NodeMap

/-- The level that the type of a declaration belongs to; the type of a function is seen from
inside. -/
def Program.declLevel (program : Program) (id : DeclId) : Option DeclId :=
  if program.tree.isFunction id then some id else program.level id

def Program.whereClause (program : Program) (id : DeclId) : List Requirement :=
  match program.tree.decl? id with
  | some ⟨.function decl, _⟩ => decl.whereClause
  | _ => []

/-- The type that is written for a parameter, as it is read where the parameter stands. -/
def Program.paramType? (program : Program) (id : DeclId) : Option Ty :=
  match program.tree.decl? id with
  | some ⟨.param _ written, _⟩ => (program.scopeOf id).map (program.reading · written)
  | _ => none

/-- The type that is written for the parameter that an expression names. -/
def Program.namedParamType? (program : Program) (id : ExprId) : Option Ty :=
  match program.tree.expr? id with
  | some ⟨.name name, _⟩ => (program.valueNamed id name).bind program.paramType?
  | _ => none

/-- A type that an expression may have, seen from what it names: that of a parameter is the one that
is written. -/
def Program.Agrees (program : Program) (id : ExprId) (type : Ty) : Prop :=
  ∀ declared, program.namedParamType? id = some declared → type = declared ∨ type = .error

variable {program : Program} {id : DeclId} {span : Span}

lemma Program.paramType?_of_kind {kind} (hd : program.tree.decl? id = some ⟨kind, span⟩)
    (hk : kind.isParam = false) : program.paramType? id = none := by
  unfold paramType?
  split
  next h =>
    cases hd.symm.trans h
    cases hk
  next => rfl

lemma Program.agrees_of_kind {id type} (h : ∀ name span,
    program.tree.expr? id ≠ some ⟨.name name, span⟩) : program.Agrees id type := by
  intro declared hdeclared
  unfold namedParamType? at hdeclared
  split at hdeclared
  next he => exact absurd he (h _ _)
  next => cases hdeclared

namespace Check

section

variable (base : Program) (settings : Settings)

/-- What the end of a type may be at a level: a parameter that can be seen there or that is exposed,
or a variable that is allowed. -/
def EndAt (free : Nat → Prop) (level : Option DeclId) : Ty → Prop
  | .param param _ => settings.freePolicy = .reject → base.Exposed param ∨ base.Visible level param
  | .var id => settings.freePolicy = .reject → free id
  | .existential types => ∀ type ∈ types, type.isTrait
  | _ => True

/-- A type that may come up at a level, given the levels of the variables that were made. -/
def Belongs (homes : List (Option DeclId)) (level : Option DeclId) : Ty → Prop :=
  Ty.Over (EndAt base settings (fun id => homes[id]? = some level) level)

/-- What is found out about a value in a scope: a type that may come up there. -/
abbrev BelongsIn (useSite : ScopeId) (type : Ty) (homes : List (Option DeclId)) (_ : State) : Prop :=
  Belongs base settings homes (base.enclosingFunction? useSite) type

/-- A type that may come up at a level and waits for nothing. -/
def Ground (level : Option DeclId) : Ty → Prop :=
  Ty.Over (EndAt base settings (fun _ => False) level)

/-- A type that may come up at a level, and that waits for nothing if it has to be strict. -/
def Suits (strict : Prop) (homes : List (Option DeclId)) (level : Option DeclId) (type : Ty) : Prop :=
  Belongs base settings homes level type ∧ (strict → Ground base settings level type)

/-- A type that a declaration may have. That of a parameter is the one that is written. -/
structure Fitting (homes : List (Option DeclId)) (id : DeclId) (type : Ty) : Prop where
  suits : Suits base settings (¬base.tree.CaseVar id) homes (base.declLevel id) type
  written : ∀ declared, base.paramType? id = some declared → type = declared

/-- The generic parameters of a function, with the types that some requirements want them to be. -/
structure Abides (id : DeclId) (requirements : List Requirement) (generics : Generics) : Prop where
  scope_eq : generics.scope = id
  params_eq : ∃ decl span, base.tree.decl? id = some ⟨.function decl, span⟩ ∧
    generics.params.map Prod.fst = decl.genericParams
  sourced : ∀ {param : DeclId} {type : Ty}, generics.equality? param = some type →
  ∃ name written span, .equality name written span ∈ requirements ∧
    generics.paramNamed? name = some param ∧ type = base.reading id written
  meets : ∀ {name : String} {written : TypeExpr} {span : Span},
  .equality name written span ∈ requirements → ∃ param, generics.paramNamed? name = some param ∧
    generics.equality? param = some (base.reading id written)

end

section

variable {base : Program} {settings : Settings} {homes homes' : List (Option DeclId)}
  {level level' : Option DeclId} {type : Ty}

lemma traity_endAt (free : Nat → Prop) (level : Option DeclId) : Ty.Traity (EndAt base settings free level) :=
  fun _ h => h

lemma EndAt.imp
    {free free'} (hp : settings.freePolicy = .reject → ∀ param, base.Visible level param →
    base.Visible level' param) (hv : settings.freePolicy = .reject → ∀ id, free id → free' id) :
    ∀ type, EndAt base settings free level type → EndAt base settings free' level' type
  | .param param _, h => fun hr => (h hr).imp_right (hp hr param)
  | .var id, h => fun hr => hv hr id (h hr)
  | .existential _, h => h
  | .int, _ | .bool, _ | .string, _ | .tuple _, _ | .function _ _, _ | .product _ _, _ | .trait _ _, _ | .error, _ => trivial

lemma Belongs.mono (h : Belongs base settings homes level type) (hp : homes <+: homes') :
    Belongs base settings homes' level type := by
  obtain ⟨_, rfl⟩ := hp
  refine imp h (EndAt.imp (fun _ _ => id) fun _ id hid => ?_)
  grind

lemma Ground.mono (h : Ground base settings level type) (hp : ∀ param, base.Visible level param →
    base.Visible level' param) : Ground base settings level' type :=
  imp h (EndAt.imp (fun _ => hp) fun _ _ => id)

lemma Ground.belongs (h : Ground base settings level type) (homes : List (Option DeclId)) :
    Belongs base settings homes level type :=
  imp h (EndAt.imp (fun _ _ => id) fun _ _ => False.elim)

/-- What comes up outside of all functions comes up everywhere. -/
lemma Ground.everywhere (h : Ground base settings none type) (level : Option DeclId) :
    Ground base settings level type :=
  h.mono fun _ hv => absurd hv Program.not_visible_none

lemma Belongs.ground (h : Belongs base settings homes level type)
    (hv : settings.freePolicy = .reject → type.hasVars = false) : Ground base settings level type := by
  by_cases hr : settings.freePolicy = .reject
  · refine (of_not_any h (hv hr)).imp fun end_ he => ?_
    cases end_ with
    | var id => cases he.2
    | param | existential => exact he.1
    | _ => trivial
  · exact imp h (EndAt.imp (fun _ _ => id) fun h => absurd h hr)

lemma Ground.hasVars (h : Ground base settings level type) (hr : settings.freePolicy = .reject) :
    type.hasVars = false := by
  by_contra hv
  obtain ⟨_, hid⟩ := var (traity_endAt _ _) h (by simpa using hv)
  exact hid hr

lemma Ground.suits (h : Ground base settings level type) (strict : Prop)
    (homes : List (Option DeclId)) : Suits base settings strict homes level type :=
  ⟨h.belongs homes, fun _ => h⟩

lemma Suits.mono {strict : Prop} (h : Suits base settings strict homes level type)
    (hp : homes <+: homes') : Suits base settings strict homes' level type :=
  ⟨h.1.mono hp, h.2⟩

lemma Suits.fitting {id} (h : Suits base settings (¬base.tree.CaseVar id) homes (base.declLevel id) type)
    (hp : base.paramType? id = none) : Fitting base settings homes id type :=
  ⟨h, fun declared hd => by rw [hp] at hd; cases hd⟩

lemma ground_error (level : Option DeclId) : Ground base settings level .error :=
  (Ty.over_end rfl).2 trivial

lemma ground_unit (level : Option DeclId) : Ground base settings level .unit :=
  Ty.over_tuple.2 (by simp)

lemma Ground.ite_error {p : Prop} [Decidable p] (h : Ground base settings level type) :
    Ground base settings level (if p then type else .error) := by
  split
  · exact h
  · exact ground_error level

lemma Belongs.ite_error {p : Prop} [Decidable p] (h : Belongs base settings homes level type) :
    Belongs base settings homes level (if p then type else .error) := by
  split
  · exact h
  · exact (ground_error level).belongs homes

variable {types : List Ty}

/-- An existential is made of traits. -/
lemma Belongs.traits (h : Belongs base settings homes level (.existential types)) : ∀ type ∈ types, type.isTrait := by
  simpa only [Belongs, Ty.Over, EndAt] using h

lemma ground_existential (h : ∀ type ∈ types, type.isTrait) (level : Option DeclId) :
    Ground base settings level (.existential types) := by
  simpa only [Ground, Ty.Over, EndAt] using h

/-- The levels of variables when some more are made, all for one level. -/
def homesUpTo (homes : List (Option DeclId)) (level : Option DeclId) (next : Nat) : List (Option DeclId) :=
  homes ++ List.replicate (next - homes.length) level

lemma length_homesUpTo (level : Option DeclId) {next} (hle : homes.length ≤ next) :
    (homesUpTo homes level next).length = next := by
  rw [homesUpTo, length_append, length_replicate]
  omega

lemma homesUpTo_mono (homes : List (Option DeclId)) (level : Option DeclId) {few many}
    (hle : few ≤ many) : homesUpTo homes level few <+: homesUpTo homes level many := by
  refine (prefix_append_right_inj homes).2 ⟨List.replicate (many - homes.length - (few - homes.length)) level, ?_⟩
  rw [replicate_append_replicate]
  congr 1
  omega

lemma getElem?_homesUpTo (level : Option DeclId) {var next} (hle : homes.length ≤ var)
    (hlt : var < next) : (homesUpTo homes level next)[var]? = some level := by
  rw [homesUpTo, getElem?_append_right hle, getElem?_replicate, if_pos (by omega)]

end

/-! ### The invariant -/

/-- What the tables of a state hold belongs where it stands. The types of values that are no part of
another one have no free variables, unless they are exempt. -/
structure Housed (base : Program) (settings : Settings) (exempt : ExprId → Prop)
    (homes : List (Option DeclId)) (s : State) : Prop where
  descends : base.Descends s.program
  settings_eq : s.settings = settings
  next_eq : s.solver.next = homes.length
  lawful : Solver.Lawful s.solver.bindings
  bound : settings.freePolicy = .reject → ∀ binding ∈ s.solver.bindings, binding.1 < homes.length
  closed : ∀ level,
  Solver.Closed (EndAt base settings (fun id => homes[id]? = some level) level) s.solver.bindings
  declTypes : ∀ {id : Nat} {type : Ty}, s.declTypes[id]? = some type →
  Fitting base settings homes id type
  exprTypes : ∀ {id : Nat} {type : Ty}, s.exprTypes[id]? = some type →
    Belongs base settings homes (base.level id) type ∧ (settings.freePolicy = .reject →
      ¬base.tree.Part id → ¬exempt id → (s.solver.resolve type).hasVars = false)
  signatures : ∀ {id : Nat} {signature : Signature}, s.signatures[id]? = some signature →
    Ground base settings (some id) signature.toTy
  generics : ∀ {id : Nat} {generics : Generics}, s.generics[id]? = some (some generics) →
    Abides base id (base.whereClause id) generics
  agrees : ∀ {id : Nat} {type : Ty}, s.exprTypes[id]? = some type → base.Agrees id type

namespace Housed

variable {base : Program} {settings : Settings}
  {exempt : ExprId → Prop} {homes homes' : List (Option DeclId)} {level : Option DeclId} {s : State}
  (h : Housed base settings exempt homes s)

include h

/-! #### Variables -/

variable {type : Ty} {id : Nat}

lemma resolve (ht : Belongs base settings homes level type) :
    Belongs base settings homes level (s.solver.resolve type) :=
  Solver.over_resolveBy (traity_endAt _ _) (h.closed level) ht

lemma resolve_ground (ht : Ground base settings level type) : Ground base settings level (s.solver.resolve type) := by
  refine (h.resolve (ht.belongs homes)).ground fun hr => ?_
  rw [Solver.resolve, resolveBy_of_not_hasVars _ (ht.hasVars hr)]
  exact ht.hasVars hr

lemma withSolver {solver} (hp : homes <+: homes')
    (hrefines : s.solver.Refines solver) (hnext : solver.next = homes'.length)
    (hlawful : Solver.Lawful solver.bindings) (hbound : settings.freePolicy = .reject →
    ∀ binding ∈ solver.bindings, binding.1 < homes'.length) (hclosed : ∀ level, Solver.Closed
    (EndAt base settings (fun id => homes'[id]? = some level) level) solver.bindings) :
    Housed base settings exempt homes' { s with solver } :=
  { h with
    next_eq := hnext
    lawful := hlawful
    bound := hbound
    closed := hclosed
    declTypes := fun hd => ⟨(h.declTypes hd).suits.mono hp, (h.declTypes hd).written⟩
    exprTypes := fun {id type} he => by
      refine ⟨(h.exprTypes he).1.mono hp, fun hr hpart hexempt => ?_⟩
      -- what is resolved completely stays as it is
      have hv := (h.exprTypes he).2 hr hpart hexempt
      rw [← hrefines.resolve h.lawful type, Solver.resolve, resolveBy_of_not_hasVars _ hv]
      exact hv }

/-- New variables belong to the level they are made for. -/
lemma withNext {next} (hp : homes <+: homes') (hnext : next = homes'.length) :
    Housed base settings exempt homes' { s with solver := { s.solver with next } } := by
  have hle := hp.length_le
  refine h.withSolver hp ⟨by rw [h.next_eq, hnext]; exact hle, [], rfl⟩ hnext h.lawful
    (fun hr binding hb => (h.bound hr binding hb).trans_le hle) fun level binding hb hv => ?_
  refine Belongs.mono (h.closed level binding hb fun hr => ?_) hp
  obtain ⟨more, rfl⟩ := hp
  have hlevel : (homes ++ more)[binding.1]? = some level := hv hr
  rwa [getElem?_append_left (h.bound hr binding hb)] at hlevel

lemma withUnify {first second} (h1 : Belongs base settings homes level first)
    (h2 : Belongs base settings homes level second) : Housed base settings exempt homes
    { s with solver := (s.solver.unify first second).2 } := by
  have hu := Solver.unified_unify (traity_endAt _ _) h.lawful (h.closed level) h1 h2
  refine h.withSolver (List.prefix_refl _) hu.refines (hu.next_eq.trans h.next_eq) hu.lawful
    (fun hr binding hb => ?_) fun level' binding hb hv => ?_
  · rcases hu.bound binding hb with hold | ⟨hv, -⟩
    · exact h.bound hr binding hold
    · exact (List.getElem?_eq_some_iff.1 (hv hr)).1
  · rcases hu.bound binding hb with hold | ⟨hlevel, ht⟩
    · exact h.closed level' binding hold hv
    · -- a variable has one level only
      have hsame (hr : settings.freePolicy = .reject) : level = level' :=
        Option.some.inj ((hlevel hr).symm.trans (hv hr))
      exact imp ht (EndAt.imp (fun hr _ => hsame hr ▸ id) fun hr _ => hsame hr ▸ id)

/-! #### Tables -/

lemma withProgram {program} (hd : base.Descends program) : Housed base settings exempt homes { s with program } :=
  { h with descends := hd }

lemma setDecl (ht : Fitting base settings homes id type) :
    Housed base settings exempt homes { s with declTypes := s.declTypes.insert id type } :=
  { h with
    declTypes := fun hd => of_insert hd ht h.declTypes }

lemma setExpr (hb : Belongs base settings homes (base.level id) type)
    (hv : settings.freePolicy = .reject → ¬base.tree.Part id →
    ¬exempt id → (s.solver.resolve type).hasVars = false) (ha : base.Agrees id type) :
    Housed base settings exempt homes { s with exprTypes := s.exprTypes.insert id type } :=
  { h with
    exprTypes := fun he => of_insert he ⟨hb, hv⟩ h.exprTypes
    agrees := fun he => of_insert he ha h.agrees }

/-! #### Exemptions -/

lemma exempting {more} (hm : ∀ id, exempt id → more id) : Housed base settings more homes s :=
  { h with
    exprTypes := fun he => ⟨(h.exprTypes he).1, fun hr hp hx => (h.exprTypes he).2 hr hp fun hx' => hx (hm _ hx')⟩ }

omit h in
/-- A value needs no exemption once its type is known, nor while it is part of another one. -/
lemma settle (h : Housed base settings (fun other => exempt other ∨ other = id) homes s)
    (hv : ¬base.tree.Part id → ∀ type, s.exprTypes[id]? = some type →
    settings.freePolicy = .reject → (s.solver.resolve type).hasVars = false) :
    Housed base settings exempt homes s :=
  { h with
    exprTypes := fun {other type} he => by
      refine ⟨(h.exprTypes he).1, fun hr hp hx => ?_⟩
      by_cases heq : other = id
      · subst heq
        exact hv hp type he hr
      · exact (h.exprTypes he).2 hr hp (by simp [hx, heq]) }

end Housed

end Check

end TraitLang
