import TraitLang.Settings.Basic
import TraitLang.Settings.Json

/-! Settings from JSON text. -/
namespace TraitLang.Settings

def text? : Json → Option String
  | .string value => value
  | _ => none

def bool? : Json → Option Bool
  | .bool value => some value
  | _ => none

/-- A policy by its name, which may also be written as the only field of an object. -/
def policy? : Json → Option FreePolicy
  | .string (some name) => FreePolicy.ofName? name
  | .object [(some name, .null)] => FreePolicy.ofName? name
  | _ => none

/-- The settings that a text gives; the others keep their defaults. -/
structure Given where
  moduleName : Option String := none
  freePolicy : Option FreePolicy := none
  diagnoseMissingReturns : Option Bool := none

def Given.complete (given : Given) : Settings where
  moduleName := given.moduleName.getD "main"
  freePolicy := given.freePolicy.getD .reject
  diagnoseMissingReturns := given.diagnoseMissingReturns.getD false

/-- Adds one named value. A setting may be given once; names that are not known are passed over. -/
def Given.add? (given : Given) : Option String × Json → Option Given
  | (none, _) => none
  | (some name, value) =>
    if name = "module_name" then
      if given.moduleName.isSome then none
      else (text? value).map fun text => { given with moduleName := some text }
    else if name = "free_var_binding_policy" then
      if given.freePolicy.isSome then none
      else (policy? value).map fun policy => { given with freePolicy := some policy }
    else if name = "diagnose_missing_return_values" then
      if given.diagnoseMissingReturns.isSome then none
      else (bool? value).map fun flag => { given with diagnoseMissingReturns := some flag }
    else some given

/-- Settings as an object, or as a list in the order of their declaration. -/
def ofJson? : Json → Option Settings
  | .object fields => do
    return (← fields.foldlM Given.add? {}).complete
  | .list [] => some {}
  | .list [name] => do
    return { moduleName := ← text? name }
  | .list [name, policy] => do
    return { moduleName := ← text? name, freePolicy := ← policy? policy }
  | .list [name, policy, flag] => do
    return {
      moduleName := ← text? name
      freePolicy := ← policy? policy
      diagnoseMissingReturns := ← bool? flag }
  | _ => none

/-- The settings that a JSON text gives. -/
def read? (text : String) : Option Settings := do
  ofJson? (← Json.parse? text)

end TraitLang.Settings
