import TraitLang.Grammar.TypeExpr

/-! The rules for bindings and the conditions that may hold them. -/
namespace TraitLang.Grammar

open Parse

/-- A variable declaration for the identifier in hand. -/
def var : Parse DeclId := do
  let token ← expectFor .identifier "expected identifier during variable declaration"
  insertDecl (.var token.value) token.span

def bindingPattern (read : Reader) : Parse Pattern := do
  match ← kind with
  | .underscore =>
    let _ ← advance
    return .wildcard
  | .openParen =>
    let _ ← advance
    let (elements, _) ← commaList .closeParen (read .bindingPattern)
    let _ ← expect .closeParen
    return .tuple elements
  | _ => return .name (← var)

/-- `let` or `var`, a pattern, and perhaps a type and an initializer. -/
def binding (read : Reader) : Parse DeclId := do
  let start ← advance
  let introducer := if start.kind = .varWord then Introducer.variable else .constant
  let pattern ← read .bindingPattern
  let ascription ← if ← eat .colon then some <$> read .typeExpr else pure none
  let initializer ← if ← eat .assignment then some <$> read (.expr .default) else pure none
  insertDecl (.binding ⟨introducer, pattern, ascription, initializer⟩)
    (← spanFrom start.span.start)

def conditionItem (read : Reader) : Parse ConditionItem := do
  match ← kind with
  | .letWord | .varWord => return .decl (← binding read)
  | _ => return .expr (← read (.expr .default))

/-- The clauses of a condition. -/
def conditions (read : Reader) : Parse (List ConditionItem) :=
  separated .comma (conditionItem read)

end TraitLang.Grammar
