/-! The arguments of the command. Options and files may stand in any order; each option and each
flag may be given once. -/
namespace TraitLang.Command

structure Options where
  files : List String := []
  moduleName : Option String := none
  settings : Option String := none
  dump : Bool := false
  keepFree : Bool := false
  diagnoseMissingReturns : Bool := false
deriving Repr

namespace Options

/-- What an argument is by its first characters. -/
inductive Argument where
  | file (name : String)
  /-- Everything after this is a file. -/
  | divider
  /-- A long option, perhaps with a value. -/
  | long (name : String) (value : Option String)
  /-- A short option, perhaps with a value. -/
  | short (name : Char) (value : Option String)
deriving DecidableEq, Repr

def Argument.ofText (argument : String) : Argument :=
  match argument.toList with
  | ['-', '-'] => .divider
  | '-' :: '-' :: rest =>
    let name := String.ofList (rest.takeWhile (· ≠ '='))
    match rest.dropWhile (· ≠ '=') with
    | [] => .long name none
    | _ :: value => .long name (some (String.ofList value))
  | ['-'] => .file argument
  | '-' :: name :: [] => .short name none
  | '-' :: name :: '=' :: value => .short name (some (String.ofList value))
  | '-' :: name :: value => .short name (some (String.ofList value))
  | _ => .file argument

def addFile? (options : Options) (name : String) : Option Options :=
  if name.isEmpty then none else some { options with files := options.files ++ [name] }

def setModule? (options : Options) (name : String) : Option Options :=
  if options.moduleName.isSome then none else some { options with moduleName := some name }

def setSettings? (options : Options) (path : String) : Option Options :=
  if options.settings.isSome || path.isEmpty then none
  else some { options with settings := some path }

def setFlag? (options : Options) (name : String) : Option Options :=
  if name = "dump-ast" then
    if options.dump then none else some { options with dump := true }
  else if name = "keep-free-type-vars" then
    if options.keepFree then none else some { options with keepFree := true }
  else if name = "diagnose-missing-returns" then
    if options.diagnoseMissingReturns then none
    else some { options with diagnoseMissingReturns := true }
  else none

/-- The option that takes a value under a name. -/
def valued? : Argument → Option (Options → String → Option Options)
  | .long name _ =>
    if name = "module" then some setModule?
    else if name = "config" then some setSettings?
    else none
  | .short name _ =>
    if name = 'm' then some setModule?
    else if name = 'c' then some setSettings?
    else none
  | _ => none

def Argument.value? : Argument → Option String
  | .long _ value | .short _ value => value
  | _ => none

/-- Takes in all arguments. An option without a value of its own takes the next argument, unless
that is an option itself. -/
def add? (options : Options) : List String → Option Options
  | [] => some options
  | argument :: arguments =>
    match Argument.ofText argument with
    | .file name => do add? (← options.addFile? name) arguments
    | .divider => arguments.foldlM addFile? options
    | parsed =>
      match valued? parsed, parsed.value?, arguments with
      | some set?, some value, arguments => do add? (← set? options value) arguments
      | some set?, none, value :: arguments =>
        match Argument.ofText value with
        | .file value => do add? (← set? options value) arguments
        | _ => none
      | some _, none, [] => none
      | none, none, arguments =>
        match parsed with
        | .long name _ => do add? (← options.setFlag? name) arguments
        | _ => none
      | none, some _, _ => none

/-- The options that arguments give, if they name at least one file. -/
def parse? (arguments : List String) : Option Options := do
  let options ← add? {} arguments
  if options.files.isEmpty then none else some options

end Options

end TraitLang.Command
