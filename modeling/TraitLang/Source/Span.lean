/-! Places in source files. A span keeps two positions and may be built only from a start that is
not after its end; the ways to break that are the two faults. -/
namespace TraitLang

/-- A byte offset into a named source file. Offsets, like the numbers of nodes and of inference
variables, have no upper bound here: texts, trees and counters are taken to stay below `2 ^ 32`. -/
structure Position where
  offset : Nat
  file : String
deriving DecidableEq, Repr, Inhabited

/-- The place of a message that belongs to no file. -/
def Position.null : Position := ⟨0, "<null>"⟩

/-- A half-open range of positions. -/
structure Span where
  start : Position
  stop : Position
deriving DecidableEq, Repr, Inhabited

inductive SpanFault where
  | reversed
  | incompatible
deriving DecidableEq, Repr

def SpanFault.message : SpanFault → String
  | .reversed => "span start after its end"
  | .incompatible => "incompatible locations"

namespace Span

/-- The span between two positions. Only the offsets are compared. -/
def between (start stop : Position) : Except SpanFault Span :=
  if start.offset ≤ stop.offset then .ok ⟨start, stop⟩ else .error .reversed

/-- The span from the start of one span to the end of another one of the same file. -/
def cover (first second : Span) : Except SpanFault Span :=
  if first.start.file = second.start.file then between first.start second.stop
  else .error .incompatible

/-- Covers two spans, or keeps whichever is present. -/
def merge : Option Span → Option Span → Except SpanFault (Option Span)
  | some first, some second => some <$> cover first second
  | some first, none => .ok (some first)
  | none, second => .ok second

theorem between_eq_ok_iff {start stop : Position} {span : Span} :
    between start stop = .ok span ↔ start.offset ≤ stop.offset ∧ span = ⟨start, stop⟩ := by
  unfold between
  by_cases h : start.offset ≤ stop.offset
  · simp only [h, if_true, true_and, Except.ok.injEq]
    exact eq_comm
  · simp only [h, if_false, false_and, reduceCtorEq]

end Span

end TraitLang
