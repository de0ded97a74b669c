import TraitLang.Grammar.Binding

/-! The rules for expressions. An operand comes first; then every operator that binds more tightly
than the floor takes what was read so far as its left operand. -/
namespace TraitLang.Grammar

open Parse

/-- The largest integer literal, the largest signed number of 64 bits. -/
def maxInteger : Nat := 9223372036854775807

/-- The number that a run of decimal digits writes. -/
def decimal (digits : List Char) : Nat :=
  digits.foldl (fun value digit => value * 10 + (digit.toNat - '0'.toNat)) 0

/-- A literal or a name. -/
def primary : Parse ExprId := do
  let token ← current
  let kind : ExprKind ←
    match token.kind with
    | .number =>
      let value := decimal token.value.toList
      if value ≤ maxInteger then pure (.int value)
      else fail (.numberTooLarge token.value) token.span.start
    | .identifier => pure (.name token.value)
    | .string => pure (.str token.value)
    | .trueWord => pure (.bool true)
    | .falseWord => pure (.bool false)
    | _ => unexpected
  let _ ← advance
  insertExpr kind token.span

def unary (read : Reader) : Parse ExprId := do
  let token ← advance
  let operator := if token.kind = .not then UnaryOperator.not else .neg
  let operand ← read (.expr .unary)
  insertExpr (.unary operator operand) (← spanFrom token.span.start)

/-- `()`, `(e)` or `(e, f, ...)`. Parentheses around one expression leave no trace. -/
def grouping (read : Reader) : Parse ExprId := do
  let start ← advance
  let (elements, trailing) ← commaList .closeParen (read (.expr .default))
  let _ ← expect .closeParen
  match elements, trailing with
  | [element], false => return element
  | elements, _ => insertExpr (.tuple elements) (← spanFrom start.span.start)

/-- An expression in braces. -/
def braced (read : Reader) : Parse ExprId := do
  let _ ← expect .openCurly
  let expr ← read (.expr .default)
  let _ ← expect .closeCurly
  return expr

def conditional (read : Reader) : Parse ExprId := do
  let start ← advance
  let condition ← conditions read
  let success ← braced read
  let _ ← expectFor .elseWord "conditional expressions need an `else` branch"
  let failure ← if (← kind) = .ifWord then read .conditional else braced read
  insertExpr (.cond condition success failure) (← spanFrom start.span.start)

/-- A pattern of a match case. Parentheses around one pattern leave no trace. -/
def casePattern (read : Reader) : Parse Pattern := do
  match ← kind with
  | .letWord =>
    let _ ← advance
    return .name (← var)
  | .underscore =>
    let _ ← advance
    return .wildcard
  | .openParen =>
    let _ ← advance
    let (elements, _) ← commaList .closeParen (read .casePattern)
    let _ ← expect .closeParen
    match elements with
    | [element] => return element
    | elements => return .tuple elements
  | _ => return .expr (← read (.expr .default))

def matchCase (read : Reader) : Parse CaseId := do
  let start ← expectFor .caseWord "expected `case` in match body"
  let pattern ← read .casePattern
  let body ← braced read
  insertCase pattern body (← spanFrom start.span.start)

def selection (read : Reader) : Parse ExprId := do
  let start ← advance
  let subject ← read (.expr .default)
  let _ ← expect .openCurly
  let cases ← untilClosed .closeCurly (matchCase read)
  let _ ← expect .closeCurly
  insertExpr (.select subject cases) (← spanFrom start.span.start)

/-- What an expression begins with. -/
def operand (read : Reader) : Parse ExprId := do
  match ← kind with
  | .number | .identifier | .string | .trueWord | .falseWord => primary
  | .dash | .not => unary read
  | .openParen => grouping read
  | .ifWord => conditional read
  | .matchWord => selection read
  | _ => unexpected

/-! ### Continuing an expression -/

/-- The operator in hand with its right operand. -/
def binary (read : Reader) (left : ExprId) (power : Power) : Parse ExprId := do
  let token ← advance
  match BinaryOperator.ofToken? token.kind with
  | none => fail (.unexpectedToken token.value) token.span.start
  | some operator =>
    let right ← read (.expr power)
    let start ← exprStart left
    insertExpr (.binary operator left right) (← spanFrom start)

def assignment (read : Reader) (left : ExprId) (power : Power) : Parse ExprId := do
  let _ ← advance
  let value ← read (.expr power)
  let start ← exprStart left
  insertExpr (.assign left value) (← spanFrom start)

def call (read : Reader) (left : ExprId) : Parse ExprId := do
  let _ ← advance
  let (arguments, _) ← commaList .closeParen (read (.expr .default))
  let _ ← expect .closeParen
  let start ← exprStart left
  insertExpr (.call left arguments) (← spanFrom start)

def member (left : ExprId) : Parse ExprId := do
  let _ ← advance
  let name ← expectFor .identifier "expected member name after `.`"
  let start ← exprStart left
  insertExpr (.member left name.value) (← spanFrom start)

/-- Takes `left` as the left operand of the token in hand. -/
def extend (read : Reader) (left : ExprId) (power : Power) : Parse ExprId := do
  match ← kind with
  | .assignment => assignment read left power
  | .openParen => call read left
  | .dot => member left
  | _ => binary read left power

/-- Extends an expression while the token in hand binds more tightly than the floor. -/
def climbWithin (read : Reader) (floor : Power) : (bound : Nat) → ExprId → Parse ExprId
  | 0, _ => throw .exhausted
  | bound + 1, left => do
    let power := Power.ofToken (← kind)
    if power.rank ≤ floor.rank then return left
    let longer ← extend read left power
    climbWithin read floor bound longer

def expr (read : Reader) (floor : Power) : Parse ExprId := do
  let left ← operand read
  climbWithin read floor ((← get).remaining + 1) left

end TraitLang.Grammar
