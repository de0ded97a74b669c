import TraitLang.Diagnostic.Render
import TraitLang.Token.Rule

/-! From a text to its tokens. -/
namespace TraitLang.Token

/-- The tokens of pieces that follow each other from a byte offset on, and the end of the text. -/
def ofPieces (file : String) : (offset : Nat) → List Piece → List Token
  | offset, [] => [endOfText ⟨offset, file⟩]
  | offset, piece :: pieces =>
    let next := offset + Text.byteLength piece.text
    match piece.token? with
    | none => ofPieces file next pieces
    | some (kind, value) =>
      ⟨kind, value, ⟨⟨offset, file⟩, ⟨next, file⟩⟩⟩ :: ofPieces file next pieces

/-- The tokens of a text. The first character that no rule takes is a problem. -/
def scan (file : String) (source : String) : Except Diagnostic (List Token) :=
  let (pieces, left) := Piece.cut source.toList
  match left with
  | [] => .ok (ofPieces file 0 pieces)
  | c :: _ =>
    let offset := Text.byteLength (pieces.flatMap Piece.text)
    .error ⟨.unrecognisedToken c.toString, ⟨offset, file⟩⟩

end TraitLang.Token
