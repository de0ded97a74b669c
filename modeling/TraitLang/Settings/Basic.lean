/-! What a user can choose. -/
namespace TraitLang

/-- What becomes of inference variables that are still free when an expression is checked. -/
inductive FreePolicy where
  /-- The expression is reported as ambiguous and gets the error type. -/
  | reject
  /-- They stay free for the surroundings to bind. -/
  | keep
deriving DecidableEq, Repr, Inhabited

namespace FreePolicy

def name : FreePolicy → String
  | reject => "bind_to_error_type"
  | keep => "keep_free"

def ofName? (text : String) : Option FreePolicy :=
  [reject, keep].find? fun policy => policy.name = text

end FreePolicy

structure Settings where
  /-- The name of the module that the files make up. -/
  moduleName : String := "main"
  freePolicy : FreePolicy := .reject
  /-- Report `return;` in functions whose output is not unit. -/
  diagnoseMissingReturns : Bool := false
deriving DecidableEq, Repr

instance : Inhabited Settings := ⟨{}⟩

end TraitLang
