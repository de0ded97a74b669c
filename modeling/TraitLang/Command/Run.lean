import TraitLang.Command.Options
import TraitLang.Document.Report
import TraitLang.Scope.Visitor
import TraitLang.Settings.Read

/-! The command: reads files as one module, checks it, and says what it found. -/
namespace TraitLang.Command

/-- The exit code and what is written to the two outputs. -/
structure Outcome where
  code : Nat
  stdout : String := ""
  stderr : String := ""
deriving DecidableEq, Repr

/-- What is written when work ends early. -/
def showHalt : Halt → String
  | .defect defect => s!"internal compiler error: {defect.message}\n"
  | .missing id => s!"internal compiler error: no node {id}\n"
  | .exhausted => "internal compiler error: out of depth\n"

def showFailure (files : List SourceFile) : Failure → Outcome
  | .diagnostic diagnostic => { code := 1, stderr := diagnostic.shownIn files }
  | .fault fault => { code := 101, stderr := s!"{fault.message}\n" }
  | .missing id => { code := 2, stderr := showHalt (.missing id) }
  | .exhausted => { code := 2, stderr := showHalt .exhausted }

/-- The settings of a run: those of the file named, changed by options. -/
def settingsOf (options : Options) (read? : String → Option String) : Except String Settings := do
  let base ←
    match options.settings with
    | none => pure {}
    | some path =>
      match (read? path).bind Settings.read? with
      | some settings => pure settings
      | none => throw s!"Error: failed to load config {path}\n"
  return {
    moduleName := options.moduleName.getD base.moduleName
    freePolicy := if options.keepFree then .keep else base.freePolicy
    diagnoseMissingReturns := options.diagnoseMissingReturns || base.diagnoseMissingReturns }

def readFiles (read? : String → Option String) : List String → Except String (List SourceFile)
  | [] => .ok []
  | path :: paths =>
    match read? path with
    | none => .error s!"Error: failed to read {path}\n"
    | some text => do
      return ⟨path, text⟩ :: (← readFiles read? paths)

/-- Checks files that are at hand. -/
def checkFiles (settings : Settings) (dump : Bool) (files : List SourceFile) : Outcome :=
  match Tree.ofFiles files settings.moduleName with
  | .error failure => showFailure files failure
  | .ok tree =>
    match Program.ofTree tree with
    | .error halt => { code := 2, stderr := showHalt halt }
    | .ok program =>
      match Check.checkProgram (.new program settings) with
      | .error halt _ => { code := 2, stderr := showHalt halt }
      | .ok good state =>
        let findings := state.finish
        { code := if good then 0 else 1
          stdout := if dump then findings.toDocument.pretty ++ "\n" else ""
          stderr := String.join (findings.diagnostics.map (Diagnostic.shownIn files)) }

/-- Runs the command on its arguments, given what can be read under which name. -/
def run (read? : String → Option String) (arguments : List String) : Outcome :=
  match Options.parse? arguments with
  | none => { code := 2 }
  | some options =>
    match settingsOf options read? with
    | .error message => { code := 1, stderr := message }
    | .ok settings =>
      match readFiles read? options.files with
      | .error message => { code := 1, stderr := message }
      | .ok files => checkFiles settings options.dump files

end TraitLang.Command
