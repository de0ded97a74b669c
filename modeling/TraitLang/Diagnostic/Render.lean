import TraitLang.Diagnostic.Problem
import TraitLang.Source.Excerpt
import TraitLang.Source.Span

/-! Diagnostics and the excerpt of the source that they point into. -/
namespace TraitLang

/-- A problem at a position of the source. -/
structure Diagnostic where
  problem : Problem
  position : Position
deriving DecidableEq, Repr

namespace Diagnostic

def message (d : Diagnostic) : String :=
  s!"{d.problem.message} at {d.position.file}:{d.position.offset}"

def heading (d : Diagnostic) : String :=
  match d.problem.tip with
  | none => s!"Error: {d.problem.name}\n"
  | some tip => s!"Error: {d.problem.name} ({tip})\n"

/-- A blank or tab, the characters an excerpt loses at its start. -/
def isIndent (c : Char) : Bool :=
  c = ' ' || c = '\t'

/-- The line number, the line without its indentation, and a dashed arrow to the column. The bar
stands two columns after the number. -/
def renderExcerpt (excerpt : Excerpt) : String :=
  let number := toString excerpt.line
  let margin := String.ofList (List.replicate (number.length + 1) ' ') ++ "|"
  let indent := excerpt.text.takeWhile isIndent
  let shown := Text.trimEnd (excerpt.text.dropWhile isIndent)
  let dashes := List.replicate (excerpt.column - indent.length) '-'
  s!"{margin}\n{number} | {String.ofList shown}\n{margin} {String.ofList dashes}^\n"

/-- The diagnostic as it is shown to a reader who has the text of its file. -/
def render (d : Diagnostic) (source : String) : String :=
  let place := s!"-> {d.position.file}\n"
  match Excerpt.locate source.toList d.position.offset with
  | none => d.heading ++ place
  | some excerpt => d.heading ++ place ++ renderExcerpt excerpt

end Diagnostic

end TraitLang
