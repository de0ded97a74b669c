import TraitLang.Grammar.Phrase

/-! The rules for types and lists of traits. -/
namespace TraitLang.Grammar

open Parse

def traitName : Parse TraitName := do
  let token ← expectFor .identifier "expected trait name"
  return ⟨token.value, token.span⟩

/-- `A & B & ...` -/
def composition : Parse (List TraitName) :=
  separated .ampersand traitName

/-- `: A, B, ...`, or nothing. -/
def traitList : Parse (List TraitName) := do
  if ← eat .colon then separated .comma traitName else return []

def typeExpr (read : Reader) : Parse TypeExpr := do
  let token ← current
  match token.kind with
  | .identifier =>
    let _ ← advance
    return .name token.value token.span
  | .openParen =>
    let _ ← advance
    let (elements, _) ← commaList .closeParen (read .typeExpr)
    let _ ← expect .closeParen
    return .tuple elements (← spanFrom token.span.start)
  | .anyWord =>
    let _ ← advance
    let traits ← composition
    return .existential traits (← spanFrom token.span.start)
  | _ => unexpected

end TraitLang.Grammar
