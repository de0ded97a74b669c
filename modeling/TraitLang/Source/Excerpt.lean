import TraitLang.Text.Blank

/-! The line of a text that holds a byte offset. A text is cut after each newline, so the pieces
join to the text again; the end of the text belongs to its last piece. -/
namespace TraitLang

/-- A line of a text with its number, counted from one, and a byte column in it. -/
structure Excerpt where
  line : Nat
  text : List Char
  column : Nat
deriving DecidableEq, Repr

namespace Excerpt

/-- The pieces of a text, each with the newline that ends it. -/
def pieces : List Char → List (List Char)
  | [] => []
  | c :: rest =>
    if c = '\n' then [c] :: pieces rest
    else
      match pieces rest with
      | [] => [[c]]
      | piece :: more => (c :: piece) :: more

theorem flatten_pieces (text : List Char) : (pieces text).flatten = text := by
  induction text with
  | nil => rfl
  | cons c rest ih =>
    unfold pieces
    split
    · simp [ih]
    · split
      · rename_i h
        simp [h] at ih
        simp [← ih]
      · rename_i piece more h
        simp [h] at ih
        simp [← ih]

/-- Searches the pieces that begin at line `line` and byte `start`. -/
def search (offset : Nat) : (line start : Nat) → List (List Char) → Option Excerpt
  | _, _, [] => none
  | line, start, piece :: more =>
    if offset < start + Text.byteLength piece then some ⟨line, piece, offset - start⟩
    else search offset (line + 1) (start + Text.byteLength piece) more

/-- The end of the last piece, before its newline. -/
def ending (parts : List (List Char)) : Option Excerpt :=
  parts.getLast?.map fun piece =>
    ⟨parts.length, piece, Text.byteLength (piece.filter (· ≠ '\n'))⟩

def locate (text : List Char) (offset : Nat) : Option Excerpt :=
  if Text.byteLength text < offset then none
  else
    let parts := pieces text
    (search offset 1 0 parts).or (ending parts)

end Excerpt

end TraitLang
