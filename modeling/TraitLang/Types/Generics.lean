import TraitLang.Types.Solver

/-! The generic parameters of a function with the requirements of its where clause. -/
namespace TraitLang

structure Generics where
  decl : DeclId
  /-- The scope of the function. Inside it the parameters stand for themselves. -/
  scope : ScopeId
  params : List (DeclId × String)
  equalities : NodeMap Ty
  conformances : NodeMap (List Ty)

namespace Generics

def new (decl : DeclId) (scope : ScopeId) (params : List (DeclId × String)) : Generics :=
  ⟨decl, scope, params, ∅, ∅⟩

def paramNamed? (generics : Generics) (name : String) : Option DeclId :=
  (generics.params.find? fun param => param.2 = name).map Prod.fst

/-- Requires a parameter to be a type. Refuses, with a reason, if it was required to be another. -/
def requireEqual (generics : Generics) (param : DeclId) (type : Ty) : Except String Generics :=
  match generics.equalities[param]? with
  | none => .ok { generics with equalities := generics.equalities.insert param type }
  | some existing =>
    if existing = type then .ok generics
    else .error s!"conflicting requirements `{existing.describe}` and `{type.describe}`"

/-- Requires a parameter to conform to a trait. A bound is kept once. -/
def requireTrait (generics : Generics) (param : DeclId) (trait : Ty) : Generics :=
  let bounds := generics.conformances.getD param []
  let bounds := if bounds.contains trait then bounds else bounds ++ [trait]
  { generics with conformances := generics.conformances.insert param bounds }

def equality? (generics : Generics) (param : DeclId) : Option Ty := generics.equalities[param]?

def bounds (generics : Generics) (param : DeclId) : List Ty := generics.conformances.getD param []

/-- What a parameter stands for: the type it is required to be, or else itself inside the function
and a fresh variable outside. -/
def choose (generics : Generics) (inside : Bool) (solver : Solver) (param : DeclId × String) :
    Ty × Solver :=
  match generics.equality? param.1 with
  | some type => (type, solver)
  | none => if inside then (.param param.1 param.2, solver) else solver.fresh

/-- The substitution for all parameters, in order. -/
def chooseAll (generics : Generics) (inside : Bool) (solver : Solver) : Substitution × Solver :=
  generics.params.foldl
    (fun (substitution, solver) param =>
      let (type, solver) := generics.choose inside solver param
      (substitution.insert param.1 type, solver))
    (∅, solver)

/-- Replaces the parameters in a type by what they stand for at a use in some scope. -/
def instantiate (generics : Generics) (program : Program) (type : Ty) (useSite : ScopeId)
    (solver : Solver) : (Ty × Substitution) × Solver :=
  let (substitution, solver) :=
    generics.chooseAll (program.isWithin useSite generics.scope) solver
  ((type.substitute substitution, substitution), solver)

end Generics

end TraitLang
