import TraitLang.Proofs.Known

/-! Generic parameters: what a where clause says about them, and what they stand for where a
function is named. -/
namespace TraitLang

open List

/-! ### Requirements -/

namespace Generics

/-- A requirement is taken down, for what its names mean in the scope of the function. -/
def Meets (program : Program) (generics : Generics) : Requirement → Prop
  | .equality name written _ => ∃ param type, generics.paramNamed? name = some param ∧
    program.meaning generics.scope written = some type ∧ generics.equality? param = some type
  | .conformance name traits _ => ∃ param, generics.paramNamed? name = some param ∧
    ∀ trait ∈ traits, ∃ decl, program.trait? trait.name generics.scope = some decl ∧
      .trait decl trait.name ∈ generics.bounds param

/-- A requirement is taken down if it can be met. -/
def require (program : Program) (generics : Generics) (requirement : Requirement) : Except String Generics :=
  match generics.paramNamed? requirement.param with
  | none => .error s!"`{requirement.param}` is not a generic parameter"
  | some param =>
    match requirement with
    | .equality _ written _ => generics.requireEqual param (program.reading generics.scope written)
    | .conformance _ traits _ => Check.addBounds program param generics traits

section

variable (program : Program) (origin : Generics) (requirements : List Requirement)

/-- A parameter is required to be a type, for what the names in this mean in the scope of the
function. -/
def Equates (param : DeclId) (type : Ty) : Prop :=
  ∃ name written span, .equality name written span ∈ requirements ∧
    origin.paramNamed? name = some param ∧ type = program.reading origin.scope written

/-- A parameter is required to conform to a trait. -/
def Bounds (param : DeclId) (type : Ty) : Prop :=
  ∃ name traits span, .conformance name traits span ∈ requirements ∧
    origin.paramNamed? name = some param ∧ ∃ trait ∈ traits, ∃ decl,
    program.trait? trait.name origin.scope = some decl ∧ type = .trait decl trait.name

/-- Requirements that can be met: all of them are about parameters, all bounds are traits, and no
parameter is required to be two types. -/
structure Consistent : Prop where
  named : ∀ requirement ∈ requirements, ∃ param, origin.paramNamed? requirement.param = some param
  traits : ∀ name traits span, .conformance name traits span ∈ requirements → ∀ trait ∈ traits,
    ∃ decl, program.trait? trait.name origin.scope = some decl
  unique : ∀ param type other, Equates program origin requirements param type →
  Equates program origin requirements param other → type = other

/-- Parameters with just what some requirements say. Every bound is kept once. -/
structure Gathers (generics : Generics) : Prop where
  scope_eq : generics.scope = origin.scope
  params_eq : generics.params = origin.params
  equality : ∀ {param type}, generics.equality? param = some type ↔
  Equates program origin requirements param type
  bounds : ∀ {param type}, type ∈ generics.bounds param ↔
  Bounds program origin requirements param type
  nodup : ∀ param, (generics.bounds param).Nodup

end

variable {program : Program} {generics origin : Generics} {param other : DeclId} {type : Ty}

lemma requireEqual_cases (generics : Generics) (param : DeclId) (type : Ty) :
    match generics.requireEqual param type with
    | .ok extended => ∃ equalities, extended = { generics with equalities } ∧ (∀ other : DeclId, equalities[other]? =
        if param = other then some type else generics.equality? other) ∧
        ∀ found, generics.equality? param = some found → found = type
    | .error _ => ∃ found, generics.equality? param = some found ∧ found ≠ type := by
  unfold requireEqual equality?
  cases hfound : generics.equalities[param]? with
  | none => exact ⟨_, rfl, fun _ => NodeMap.getElem?_insert _ _ _ _, nofun⟩
  | some existing => grind

lemma bounds_requireTrait {trait} : (generics.requireTrait param trait).bounds other =
    if param = other ∧ trait ∉ generics.bounds other then generics.bounds other ++ [trait]
      else generics.bounds other := by
  simp only [bounds, requireTrait, Std.TreeMap.getD_insert, Nat.compare_eq_eq]
  by_cases hp : param = other
  · grind
  · simp [hp]

lemma addBounds_cases (program : Program) (param : DeclId) : ∀ names generics,
    match Check.addBounds program param generics names with
    | .ok extended =>
      (∃ conformances, extended = { generics with conformances }) ∧
        (∀ name ∈ names, ∃ decl, program.trait? name.name generics.scope = some decl) ∧
        (∀ other type, type ∈ extended.bounds other ↔ type ∈ generics.bounds other ∨ param = other ∧
          ∃ name ∈ names, ∃ decl,
          program.trait? name.name generics.scope = some decl ∧ type = .trait decl name.name) ∧
        ((∀ other, (generics.bounds other).Nodup) → ∀ other, (extended.bounds other).Nodup)
    | .error _ => ∃ name ∈ names, program.trait? name.name generics.scope = none
  | [], generics => ⟨⟨_, rfl⟩, by simp, by simp, id⟩
  | name :: names, generics => by
    unfold Check.addBounds
    cases hf : program.trait? name.name generics.scope with
    | none => exact ⟨name, mem_cons_self, hf⟩
    | some decl =>
      have hrest := addBounds_cases program param names (generics.requireTrait param (.trait decl name.name))
      have hscope : (generics.requireTrait param (.trait decl name.name)).scope = generics.scope := rfl
      simp only [hscope] at hrest ⊢
      cases hr : Check.addBounds program param (generics.requireTrait param (.trait decl name.name)) names with
      | error reason => grind
      | ok extended =>
        rw [hr] at hrest
        obtain ⟨⟨_, hext⟩, hall, hbounds, hnodup⟩ := hrest
        refine ⟨⟨_, hext⟩, forall_mem_cons.2 ⟨⟨decl, hf⟩, hall⟩, fun other type => ?_, fun h =>
          hnodup fun other => ?_⟩
        · rw [hbounds, bounds_requireTrait]
          split <;> grind
        · rw [bounds_requireTrait]
          split
          next hnew => grind
          next => exact h other

section

variable {done more requirements : List Requirement}

lemma equates_append : Equates program origin (done ++ more) param type ↔
    Equates program origin done param type ∨ Equates program origin more param type := by
  simp only [Equates, mem_append, or_and_right, exists_or]

lemma bounds_append : Bounds program origin (done ++ more) param type ↔
    Bounds program origin done param type ∨ Bounds program origin more param type := by
  simp only [Bounds, mem_append, or_and_right, exists_or]

lemma Consistent.subset (h : Consistent program origin more) (hsub : done ⊆ more) :
    Consistent program origin done where
  named requirement hr := h.named requirement (hsub hr)
  traits name traits span hr := h.traits name traits span (hsub hr)
  unique := fun param type other ⟨name, written, span, hr, h1⟩ ⟨name', written', span', hr', h2⟩ =>
    h.unique param type other ⟨name, written, span, hsub hr, h1⟩ ⟨name', written', span', hsub hr', h2⟩

lemma Gathers.paramNamed?_eq (h : Gathers program origin done generics) (name : String) :
    generics.paramNamed? name = origin.paramNamed? name := by
  rw [paramNamed?, paramNamed?, h.params_eq]

/-- A requirement is refused only if it cannot be met beside those before it. -/
lemma Gathers.require (h : Gathers program origin done generics)
    (hc : Consistent program origin done) (requirement : Requirement) :
    match generics.require program requirement with
    | .ok extended => Gathers program origin (done ++ [requirement]) extended ∧
        Consistent program origin (done ++ [requirement])
    | .error _ => ¬Consistent program origin (done ++ [requirement]) := by
  unfold Generics.require
  rw [h.paramNamed?_eq, h.scope_eq]
  cases hp : origin.paramNamed? requirement.param with
  | none =>
    intro hc
    obtain ⟨_, hfound⟩ := hc.named requirement (by simp)
    cases hp.symm.trans hfound
  | some param =>
    have hall : ∀ other ∈ done ++ [requirement], ∃ param, origin.paramNamed? other.param = some param :=
      forall_mem_append.2 ⟨hc.named, forall_mem_singleton.2 ⟨param, hp⟩⟩
    cases requirement with
    | equality name written span =>
      have hequates {other type} : Equates program origin (done ++ [.equality name written span]) other type ↔
          generics.equality? other = some type ∨ param = other ∧ type = program.reading origin.scope written := by
        rw [equates_append, ← h.equality]
        simp [Equates, show origin.paramNamed? name = some param from hp]
      have hcases := requireEqual_cases generics param (program.reading origin.scope written)
      dsimp only
      cases hr : generics.requireEqual param (program.reading origin.scope written) with
      | error reason =>
        rw [hr] at hcases
        obtain ⟨found, hf, hne⟩ := hcases
        exact fun hc => hne (hc.unique param found _ (hequates.2 (.inl hf)) (hequates.2 (.inr ⟨rfl, rfl⟩)))
      | ok extended =>
        rw [hr] at hcases
        obtain ⟨equalities, rfl, hinsert, hsame⟩ := hcases
        refine ⟨⟨h.scope_eq, h.params_eq, fun {other type} => ?_, fun {other type} => ?_, h.nodup⟩, hall, ?_, ?_⟩
        · rw [hequates, equality?, hinsert]
          split <;> grind
        · rw [bounds_append, ← h.bounds]
          simp [Bounds, Generics.bounds]
        · simpa using hc.traits
        · grind
    | conformance name traits span =>
      have hcases := addBounds_cases program param traits generics
      dsimp only
      cases hr : Check.addBounds program param generics traits with
      | error reason =>
        rw [hr] at hcases
        obtain ⟨trait, ht, hnone⟩ := hcases
        rw [h.scope_eq] at hnone
        intro hc
        obtain ⟨_, hfound⟩ := hc.traits name traits span (by simp) trait ht
        cases hnone.symm.trans hfound
      | ok extended =>
        rw [hr] at hcases
        obtain ⟨⟨_, rfl⟩, hfound, hbounds, hnodup⟩ := hcases
        rw [h.scope_eq] at hfound
        have hequates {other type} : Equates program origin (done ++ [.conformance name traits span]) other type ↔
            Equates program origin done other type := by
          simp [Equates]
        refine ⟨⟨h.scope_eq, h.params_eq, fun {other type} => ?_, fun {other type} => ?_,
          hnodup h.nodup⟩, hall, ?_, ?_⟩
        · rw [hequates, ← h.equality]
          rfl
        · rw [hbounds, h.scope_eq, bounds_append, ← h.bounds]
          simp [Bounds, show origin.paramNamed? name = some param from hp]
        · intro name' traits' span' hm
          rcases mem_append.1 hm with hm | hm
          · exact hc.traits name' traits' span' hm
          · cases mem_singleton.1 hm
            exact hfound
        · intro other type type' ht ht'
          exact hc.unique other type type' (hequates.1 ht) (hequates.1 ht')

/-- A where clause is taken down as a whole, or it cannot be met. -/
lemma Gathers.requireAll (h : Gathers program origin done generics) (hc : Consistent program origin done) :
    match requirements.foldlM (Generics.require program) generics with
    | .ok extended => Gathers program origin (done ++ requirements) extended ∧
        Consistent program origin (done ++ requirements)
    | .error _ => ¬Consistent program origin (done ++ requirements) := by
  induction requirements generalizing done generics with
  | nil => exact ⟨by rwa [append_nil], by rwa [append_nil]⟩
  | cons requirement requirements ih =>
    have hfirst := h.require hc requirement
    rw [foldlM_cons]
    cases hr : generics.require program requirement with
    | error reason =>
      rw [hr] at hfirst
      exact fun hc => hfirst (hc.subset fun _ => by simp; tauto)
    | ok extended =>
      rw [hr] at hfirst
      have hrest := ih hfirst.1 hfirst.2
      rwa [append_assoc] at hrest

/-- The requirements on parameters that had none are gathered exactly if they are consistent, in any
order. -/
lemma requireAll_new (program : Program) (id : DeclId) (params : List (DeclId × String))
    (requirements : List Requirement) :
    match requirements.foldlM (require program) (new id id params) with
    | .ok extended => Gathers program (new id id params) requirements extended ∧
        Consistent program (new id id params) requirements
    | .error _ => ¬Consistent program (new id id params) requirements :=
  @Gathers.requireAll program _ _ [] _ ⟨rfl,
    rfl, by simp [Equates, new, equality?], by simp [Bounds, new, Generics.bounds],
    by simp [new, Generics.bounds]⟩ ⟨by simp, by simp, by simp [Equates]⟩

end

/-- Parameters of a function, with requirements of its where clause that were taken down. These are
exact as long as all is quiet, since else a type may be unknown. -/
structure Collects (program : Program) (plain : Ty → Prop) (quiet : Prop) (id : DeclId)
    (params : List DeclId) (requirements : List Requirement) (generics : Generics) : Prop where
  scope_eq : generics.scope = id
  params_eq : generics.params = params.map fun param => (param, program.declName param)
  plain : ∀ param type, generics.equality? param = some type → plain type
  traits : ∀ param, ∀ type ∈ generics.bounds param, ∃ decl name, type = .trait decl name ∧
    program.tree.Declares DeclKind.isTrait decl
  meets : quiet → ∀ requirement ∈ requirements, generics.Meets program requirement

lemma Collects.mono {plain plain'} {quiet quiet' : Prop} {id params requirements}
    (h : generics.Collects program plain quiet id params requirements)
    (hp : ∀ type, plain type → plain' type) (hq : quiet' → quiet) :
    generics.Collects program plain' quiet' id params requirements :=
  { h with plain := fun param type he => hp type (h.plain param type he), meets := fun hquiet =>
    h.meets (hq hquiet) }

/-! ### Choices -/

/-- A choice of types for the parameters: those that are required to be some type are that type. -/
def Admits (generics : Generics) (substitution : Substitution) : Prop :=
  ∀ param ∈ generics.params, ∃ type, substitution[param.1]? = some type ∧
    ∀ required, generics.equality? param.1 = some required → type = required

/-- What a parameter stands for: the type that it is required to be, or else itself inside of the
function and a variable from some range outside. -/
inductive Stands (generics : Generics) (inside : Bool) (few many : Nat) (param : DeclId × String) : Ty → Prop
  | required {type : Ty} : generics.equality? param.1 = some type → Stands generics inside few many param type
  | rigid : generics.equality? param.1 = none → inside = true →
    Stands generics inside few many param (.param param.1 param.2)
  | fresh {id : Nat} : generics.equality? param.1 = none → inside = false → few ≤ id → id < many →
    Stands generics inside few many param (.var id)

variable {inside : Bool}

lemma Stands.mono {few many more param} (h : generics.Stands inside few many param type)
    (hle : many ≤ more) : generics.Stands inside few more param type := by
  cases h with
  | required he => exact .required he
  | rigid he hin => exact .rigid he hin
  | fresh he hout hfew hmany => exact .fresh he hout hfew (hmany.trans_le hle)

/-- Types that were chosen for some parameters, with the solver that is left. -/
structure Chosen (generics : Generics) (inside : Bool) (solver : Solver)
    (params : List (DeclId × String)) (choice : Substitution × Solver) : Prop where
  exists_value : ∀ param ∈ params, ∃ type, choice.1[param.1]? = some type
  stands : ∀ {id : DeclId} {type : Ty}, choice.1[id]? = some type →
    ∃ param ∈ params, param.1 = id ∧ generics.Stands inside solver.next choice.2.next param type
  bindings_eq : choice.2.bindings = solver.bindings
  next_le : solver.next ≤ choice.2.next
  inside_eq : inside = true → choice.2 = solver

lemma Chosen.step {solver params choice} (h : generics.Chosen inside solver params choice)
    (param : DeclId × String) : generics.Chosen inside solver (params ++ [param])
      (choice.1.insert param.1 (generics.choose inside choice.2 param).1,
      (generics.choose inside choice.2 param).2) := by
  have hchoose :
      generics.Stands inside solver.next (generics.choose inside choice.2 param).2.next param
      (generics.choose inside choice.2 param).1 ∧
      (generics.choose inside choice.2 param).2.bindings = choice.2.bindings ∧
      choice.2.next ≤ (generics.choose inside choice.2 param).2.next ∧
      (inside = true → (generics.choose inside choice.2 param).2 = choice.2) := by
    unfold choose
    cases he : generics.equality? param.1 with
    | some required => exact ⟨.required he, rfl, le_rfl, fun _ => rfl⟩
    | none =>
      cases inside with
      | true => exact ⟨.rigid he rfl, rfl, le_rfl, fun _ => rfl⟩
      | false => exact ⟨.fresh he rfl h.next_le (Nat.lt_succ_self _), rfl, Nat.le_succ _, nofun⟩
  obtain ⟨hstands, hbindings, hle, hsame⟩ := hchoose
  refine ⟨forall_mem_append.2 ⟨fun other ho => ?_, ?_⟩, fun {id type} ht => ?_, hbindings.trans h.bindings_eq,
    h.next_le.trans hle, fun hin => (hsame hin).trans (h.inside_eq hin)⟩
  · rw [NodeMap.getElem?_insert]
    split
    next => exact ⟨_, rfl⟩
    next => exact h.exists_value other ho
  · simp
  · rw [NodeMap.getElem?_insert] at ht
    split at ht
    next heq =>
      cases ht
      exact ⟨param, by simp, heq, hstands⟩
    next =>
      obtain ⟨other, ho, heq, hother⟩ := h.stands ht
      exact ⟨other, mem_append_left _ ho, heq, hother.mono hle⟩

lemma chosen_chooseAll (generics : Generics) (inside : Bool) (solver : Solver) :
    generics.Chosen inside solver generics.params (generics.chooseAll inside solver) := by
  have hfold (params : List (DeclId × String)) : ∀ (done : List (DeclId × String)) (choice : Substitution × Solver),
      generics.Chosen inside solver done choice → generics.Chosen inside solver (done ++ params)
        (params.foldl (fun (acc : Substitution × Solver) param =>
          (acc.1.insert param.1 (generics.choose inside acc.2 param).1,
            (generics.choose inside acc.2 param).2)) choice) := by
    induction params with
    | nil => exact fun done choice h => by simpa using h
    | cons param params ih => exact fun done choice h => by simpa using ih _ _ (h.step param)
  exact hfold generics.params [] (∅, solver) ⟨nofun, fun h => by simp at h, rfl, le_rfl, fun _ => rfl⟩

lemma admits_chooseAll (generics : Generics) (inside : Bool) (solver : Solver) :
    generics.Admits (generics.chooseAll inside solver).1 := by
  intro param hp
  obtain ⟨type, ht⟩ := (generics.chosen_chooseAll inside solver).exists_value param hp
  obtain ⟨_, -, heq, hstands⟩ := (generics.chosen_chooseAll inside solver).stands ht
  refine ⟨type, ht, fun required hr => ?_⟩
  rw [← heq] at hr
  cases hstands with
  | required he => exact Option.some.inj (he.symm.trans hr)
  | rigid he | fresh he => cases he.symm.trans hr

/-- What parameters stand for: types that are required, parameters, and outside of the function
fresh variables. -/
lemma chooseAll_spec (generics : Generics) (inside : Bool) (solver : Solver) {P : Nat → Ty → Prop}
    (hmono : ∀ {few many type}, few ≤ many → P few type → P many type)
    (hequal : ∀ param type, generics.equality? param = some type → P solver.next type)
    (hparam : inside = true → ∀ param ∈ generics.params, P solver.next (.param param.1 param.2))
    (hvar : inside = false → ∀ id, solver.next ≤ id → P (id + 1) (.var id)) :
    (∀ (decl : DeclId) value, (generics.chooseAll inside solver).1[decl]? = some value →
      P (generics.chooseAll inside solver).2.next value) ∧
      (generics.chooseAll inside solver).2.bindings = solver.bindings ∧
      solver.next ≤ (generics.chooseAll inside solver).2.next ∧
      (inside = true → (generics.chooseAll inside solver).2 = solver) := by
  have h := generics.chosen_chooseAll inside solver
  refine ⟨fun decl value hv => ?_, h.bindings_eq, h.next_le, h.inside_eq⟩
  obtain ⟨_, hp, rfl, hstands⟩ := h.stands hv
  cases hstands with
  | required he => exact hmono h.next_le (hequal _ _ he)
  | rigid _ hin => exact hmono h.next_le (hparam hin _ hp)
  | fresh _ hout hfew hmany => exact hmono hmany (hvar hout _ hfew)

end Generics

/-! ### Instances -/

/-- What is known about variables tells about the types for the parameters. -/
lemma Solver.resolveBy_substitute (bindings : List (Nat × Ty)) (substitution : Substitution)
    {type : Ty} (h : type.hasVars = false) : resolveBy bindings (type.substitute substitution) =
      type.substitute (substitution.map fun _ => resolveBy bindings) := by
  induction type using Ty.byParts with
  | whole type ih =>
    cases type with
    | var id => cases h
    | param decl name =>
      cases hd : substitution[decl]? with
      | none => simpa [Ty.substitute, Ty.replace, hd] using resolveBy_leaf bindings rfl (by simp)
      | some value => simp [Ty.substitute, Ty.replace, hd]
    | _ =>
      rw [(Ty.substitute_cases _ _).resolve_right (by simp), (Ty.substitute_cases _ _).resolve_right (by simp),
        resolveBy_mapParts bindings fun _ => mt Ty.mapParts_eq_var.1 (by simp), Ty.mapParts_mapParts]
      exact Ty.mapParts_inj.2 fun part hp => ih part hp ((Ty.any_eq_false_iff.1 h).2 part hp)

end TraitLang
