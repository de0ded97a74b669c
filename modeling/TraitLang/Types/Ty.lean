import TraitLang.Scope.Program

/-! Types. Inference variables and the error type are types too: the first stand for what is not
known yet, the second marks a value whose checking failed. -/
namespace TraitLang

inductive Ty where
  | int
  | bool
  | string
  /-- The empty tuple is the unit type. -/
  | tuple (elements : List Ty)
  | function (params : List Ty) (output : Ty)
  | product (decl : DeclId) (name : String)
  | trait (decl : DeclId) (name : String)
  /-- A value of some type that conforms to all of the traits. -/
  | existential (traits : List Ty)
  /-- A generic parameter, seen from inside its function. -/
  | param (decl : DeclId) (name : String)
  | var (id : Nat)
  | error
deriving Repr, Inhabited

namespace Ty

/-! ### Equality -/

mutual

def same : Ty → Ty → Bool
  | .int, .int => true
  | .bool, .bool => true
  | .string, .string => true
  | .tuple xs, .tuple ys => sameAll xs ys
  | .function ps r, .function qs s => sameAll ps qs && same r s
  | .product d n, .product e m => d == e && n == m
  | .trait d n, .trait e m => d == e && n == m
  | .existential xs, .existential ys => sameAll xs ys
  | .param d n, .param e m => d == e && n == m
  | .var x, .var y => x == y
  | .error, .error => true
  | _, _ => false

def sameAll : List Ty → List Ty → Bool
  | [], [] => true
  | x :: xs, y :: ys => same x y && sameAll xs ys
  | _, _ => false

end

mutual

theorem same_iff : ∀ a b : Ty, same a b = true ↔ a = b
  | .int, b => by cases b <;> simp [same]
  | .bool, b => by cases b <;> simp [same]
  | .string, b => by cases b <;> simp [same]
  | .tuple xs, b => by cases b <;> simp [same, sameAll_iff xs]
  | .function ps r, b => by cases b <;> simp [same, sameAll_iff ps, same_iff r]
  | .product d n, b => by cases b <;> simp [same]
  | .trait d n, b => by cases b <;> simp [same]
  | .existential xs, b => by cases b <;> simp [same, sameAll_iff xs]
  | .param d n, b => by cases b <;> simp [same]
  | .var x, b => by cases b <;> simp [same]
  | .error, b => by cases b <;> simp [same]

theorem sameAll_iff : ∀ xs ys : List Ty, sameAll xs ys = true ↔ xs = ys
  | [], ys => by cases ys <;> simp [sameAll]
  | x :: xs, ys => by cases ys <;> simp [sameAll, same_iff x, sameAll_iff xs]

end

instance : DecidableEq Ty := fun a b => decidable_of_iff _ (same_iff a b)

/-! ### Parts of a type -/

def unit : Ty := .tuple []

def isUnit : Ty → Bool
  | .tuple [] => true
  | _ => false

mutual

/-- Whether a test holds of a type or of any type inside it. -/
def any (test : Ty → Bool) : Ty → Bool
  | .tuple elements => test (.tuple elements) || anyAll test elements
  | .function params output =>
    test (.function params output) || anyAll test params || any test output
  | .existential traits => test (.existential traits) || anyAll test traits
  | type => test type

def anyAll (test : Ty → Bool) : List Ty → Bool
  | [] => false
  | type :: types => any test type || anyAll test types

end

theorem anyAll_eq (test : Ty → Bool) : ∀ types, anyAll test types = types.any (any test)
  | [] => rfl
  | _ :: types => by rw [anyAll, anyAll_eq test types, List.any_cons]

def hasErrors (type : Ty) : Bool := type.any fun t => t matches .error

def hasParams (type : Ty) : Bool := type.any fun t => t matches .param _ _

def hasVars (type : Ty) : Bool := type.any fun t => t matches .var _

def mentions (type : Ty) (id : Nat) : Bool := type.any fun t => t = .var id

mutual

/-- Replaces the outermost types for which a replacement is given. -/
def replace (replacement : Ty → Option Ty) : Ty → Ty
  | .tuple elements =>
    (replacement (.tuple elements)).getD (.tuple (replaceAll replacement elements))
  | .function params output =>
    (replacement (.function params output)).getD
      (.function (replaceAll replacement params) (replace replacement output))
  | .existential traits =>
    (replacement (.existential traits)).getD (.existential (replaceAll replacement traits))
  | type => (replacement type).getD type

def replaceAll (replacement : Ty → Option Ty) : List Ty → List Ty
  | [] => []
  | type :: types => replace replacement type :: replaceAll replacement types

end

theorem replaceAll_eq (replacement : Ty → Option Ty) :
    ∀ types, replaceAll replacement types = types.map (replace replacement)
  | [] => rfl
  | _ :: types => by rw [replaceAll, replaceAll_eq replacement types, List.map_cons]

/-- Replaces generic parameters. -/
def substitute (substitution : NodeMap Ty) (type : Ty) : Ty :=
  type.replace fun
    | .param decl _ => substitution[decl]?
    | _ => none

/-- Replaces one inference variable. -/
def assign (type : Ty) (id : Nat) (value : Ty) : Ty :=
  type.replace fun t => if t = .var id then some value else none

mutual

/-- The declarations of the traits of an existential, in the order written. -/
def traitDecls : Ty → List DeclId
  | .trait decl _ => [decl]
  | .existential traits => traitDeclsAll traits
  | _ => []

def traitDeclsAll : List Ty → List DeclId
  | [] => []
  | type :: types => traitDecls type ++ traitDeclsAll types

end

theorem traitDeclsAll_eq : ∀ types, traitDeclsAll types = types.flatMap traitDecls
  | [] => rfl
  | _ :: types => by rw [traitDeclsAll, traitDeclsAll_eq types, List.flatMap_cons]

mutual

/-- The number of types that a type consists of. -/
def weight : Ty → Nat
  | .tuple elements => weightAll elements + 1
  | .function params output => weightAll params + weight output + 1
  | .existential traits => weightAll traits + 1
  | _ => 1

def weightAll : List Ty → Nat
  | [] => 0
  | type :: types => weight type + weightAll types

end

/-! ### Text -/

mutual

def describe : Ty → String
  | .int => "Int"
  | .bool => "Bool"
  | .string => "String"
  | .tuple elements => "(" ++ ", ".intercalate (describeAll elements) ++ ")"
  | .function params output =>
    "(" ++ ", ".intercalate (describeAll params) ++ ") -> " ++ describe output
  | .product _ name | .trait _ name | .param _ name => name
  | .existential traits => "any " ++ " & ".intercalate (describeAll traits)
  | .var id => s!"$T{id}"
  | .error => "<error>"

def describeAll : List Ty → List String
  | [] => []
  | type :: types => describe type :: describeAll types

end

end Ty

/-- The types that a function takes and the one that it gives. -/
structure Signature where
  params : List Ty
  output : Ty
deriving DecidableEq, Repr

def Signature.toTy (signature : Signature) : Ty :=
  .function signature.params signature.output

/-- Types for generic parameters. -/
abbrev Substitution := NodeMap Ty

end TraitLang
