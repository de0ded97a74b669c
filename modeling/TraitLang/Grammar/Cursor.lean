import TraitLang.Diagnostic.Render
import TraitLang.Token.Basic
import TraitLang.Tree.Basic

/-! Reading tokens one at a time while a tree grows. A reading that fails keeps the tokens it took
and the nodes it made. -/
namespace TraitLang

/-- Why a reading stopped. -/
inductive Failure where
  | diagnostic (diagnostic : Diagnostic)
  | fault (fault : SpanFault)
  /-- A number that names no expression. -/
  | missing (id : NodeId)
  /-- A bound on the depth or length of a reading was too small. -/
  | exhausted
deriving Repr

/-- The token in hand, the ones around it, and the nodes made so far. -/
structure Cursor where
  previous : Option Token
  current : Token
  ahead : List Token
  tree : Tree
deriving Repr

namespace Cursor

/-- A cursor at the first of some tokens, or at the end of an empty text. -/
def ofTokens (file : String) : List Token → Cursor
  | [] => ⟨none, Token.endOfText ⟨0, file⟩, [], .empty⟩
  | token :: tokens => ⟨none, token, tokens, .empty⟩

/-- Moves past the token in hand; the end of the text stays. -/
def advance (cursor : Cursor) : Cursor :=
  if cursor.current.kind = .eof then cursor
  else
    match cursor.ahead with
    | [] => cursor
    | next :: rest => { cursor with previous := some cursor.current, current := next, ahead := rest }

/-- The kind of the token some places ahead. -/
def peek (cursor : Cursor) (places : Nat) : TokenKind :=
  ((cursor.current :: cursor.ahead)[places]?.map Token.kind).getD .eof

/-- The number of tokens that are left. -/
def remaining (cursor : Cursor) : Nat := cursor.ahead.length + 1

/-- The end of the last token passed. -/
def previousEnd (cursor : Cursor) : Position :=
  match cursor.previous with
  | some token => token.span.stop
  | none => cursor.current.span.start

end Cursor

abbrev Parse := EStateM Failure Cursor

namespace Parse

def current : Parse Token := return (← get).current

def kind : Parse TokenKind := return (← get).current.kind

/-- Moves past the token in hand and answers it. -/
def advance : Parse Token :=
  modifyGet fun cursor => (cursor.current, cursor.advance)

def position : Parse Position := return (← get).current.span.start

def hasTokens : Parse Bool := return (← kind) ≠ .eof

/-! ### Failing -/

def fail {α : Type} (problem : Problem) (position : Position) : Parse α :=
  throw (.diagnostic ⟨problem, position⟩)

def unexpected {α : Type} : Parse α := do
  let token ← current
  fail (.unexpectedToken token.value) token.span.start

/-- Fails at the token in hand and says what was expected. -/
def unexpectedFor {α : Type} (message : String) : Parse α := do
  let token ← current
  fail (.unexpectedTokenDetailed token.value message) token.span.start

/-! ### Tokens of a kind -/

def expect (expected : TokenKind) : Parse Token := do
  if (← kind) = expected then advance else unexpected

def expectFor (expected : TokenKind) (message : String) : Parse Token := do
  if (← kind) = expected then advance else unexpectedFor message

/-- Passes a token of a kind, if it is in hand. -/
def eat (wanted : TokenKind) : Parse Bool := do
  if (← kind) = wanted then
    let _ ← advance
    return true
  else
    return false

/-! ### Spans and nodes -/

/-- The span from a position to the end of the last token passed. -/
def spanFrom (start : Position) : Parse Span := do
  match Span.between start (← get).previousEnd with
  | .ok span => return span
  | .error fault => throw (.fault fault)

def insert (node : Node) : Parse NodeId :=
  modifyGet fun cursor =>
    let (id, tree) := cursor.tree.push node
    (id, { cursor with tree })

def insertDecl (kind : DeclKind) (span : Span) : Parse DeclId :=
  insert (.decl ⟨kind, span⟩)

def insertStmt (kind : StmtKind) (span : Span) : Parse StmtId :=
  insert (.stmt ⟨kind, span⟩)

def insertExpr (kind : ExprKind) (span : Span) : Parse ExprId :=
  insert (.expr ⟨kind, span⟩)

def insertCase (pattern : Pattern) (body : ExprId) (span : Span) : Parse CaseId :=
  insert (.case ⟨pattern, body, span⟩)

/-- Where an expression of the growing tree starts. -/
def exprStart (id : ExprId) : Parse Position := do
  match (← get).tree.expr? id with
  | some expr => return expr.span.start
  | none => throw (.missing id)

/-! ### Lists -/

variable {α : Type}

/-- Items separated by commas until a closing token is in hand. The answer says whether a comma came
last. -/
def commaListWithin (close : TokenKind) (item : Parse α) :
    (bound : Nat) → (trailing : Bool) → Parse (List α × Bool)
  | 0, _ => throw .exhausted
  | bound + 1, trailing => do
    if (← kind) = close then return ([], trailing)
    let first ← item
    if ← eat .comma then
      let (rest, trailing) ← commaListWithin close item bound true
      return (first :: rest, trailing)
    else
      return ([first], false)

def commaList (close : TokenKind) (item : Parse α) : Parse (List α × Bool) := do
  commaListWithin close item ((← get).remaining + 1) false

/-- One or more items with a separator between them. -/
def separatedWithin (separator : TokenKind) (item : Parse α) : (bound : Nat) → Parse (List α)
  | 0 => throw .exhausted
  | bound + 1 => do
    let first ← item
    if ← eat separator then
      return first :: (← separatedWithin separator item bound)
    else
      return [first]

def separated (separator : TokenKind) (item : Parse α) : Parse (List α) := do
  separatedWithin separator item ((← get).remaining + 1)

/-- Items until a closing token is in hand. -/
def untilWithin (close : TokenKind) (item : Parse α) : (bound : Nat) → Parse (List α)
  | 0 => throw .exhausted
  | bound + 1 => do
    if (← kind) = close then return []
    let first ← item
    return first :: (← untilWithin close item bound)

def untilClosed (close : TokenKind) (item : Parse α) : Parse (List α) := do
  untilWithin close item ((← get).remaining + 1)

end Parse

end TraitLang
