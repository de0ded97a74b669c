import TraitLang.Source.Span

/-! Types as they are written in source. -/
namespace TraitLang

/-- A trait named in a list of traits or in a bound. -/
structure TraitName where
  name : String
  span : Span
deriving DecidableEq, Repr

/-- A name, a tuple of types (the empty one is the unit type), or `any` of some traits. -/
inductive TypeExpr where
  | name (name : String) (span : Span)
  | tuple (elements : List TypeExpr) (span : Span)
  | existential (traits : List TraitName) (span : Span)
deriving Repr

namespace TypeExpr

def span : TypeExpr → Span
  | .name _ span | .tuple _ span | .existential _ span => span

mutual

/-- The text of a type. -/
def describe : TypeExpr → String
  | .name text _ => text
  | .tuple elements _ => "(" ++ ", ".intercalate (describeAll elements) ++ ")"
  | .existential traits _ => "any " ++ " & ".intercalate (traits.map TraitName.name)

def describeAll : List TypeExpr → List String
  | [] => []
  | element :: elements => element.describe :: describeAll elements

end

end TypeExpr

end TraitLang
