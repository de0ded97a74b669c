import TraitLang.Command.Run

/-! The command line. -/
open TraitLang in
/-- Reads every file that the arguments name, then runs the command. -/
def main (arguments : List String) : IO UInt32 := do
  let paths := (Command.Options.parse? arguments).elim [] fun options =>
    options.settings.toList ++ options.files
  let mut contents : List (String × String) := []
  for path in paths do
    try
      contents := (path, ← IO.FS.readFile path) :: contents
    catch _ => pure ()
  let outcome := Command.run (fun path => contents.lookup path) arguments
  IO.print outcome.stdout
  IO.eprint outcome.stderr
  return outcome.code.toUInt32
