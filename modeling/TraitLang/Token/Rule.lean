import TraitLang.Text.Blank
import TraitLang.Token.Basic

/-! The lexical rules. Each rule takes a piece off the front of a text, or refuses; the rules are
tried in order, and longer symbols stand before their beginnings. -/
namespace TraitLang

inductive LexRule where
  | word
  | number
  | blank
  | quoted
  | comment
  | symbol (kind : TokenKind) (text : List Char)
deriving DecidableEq, Repr

namespace LexRule

def isWordStart (c : Char) : Bool :=
  c.isAlpha || c = '_'

def isWordPart (c : Char) : Bool :=
  c.isAlphanum || c = '_'

/-- A maximal run of characters of a class, if there is at least one. -/
def takeRun (p : Char → Bool) (text : List Char) : Option (List Char × List Char) :=
  match text with
  | [] => none
  | c :: _ => if p c then some (text.takeWhile p, text.dropWhile p) else none

/-- The rest of a string literal up to its closing quote. A backslash takes the next character with
it, which may not be a newline. -/
def takeQuoted : List Char → Option (List Char × List Char)
  | [] => none
  | c :: rest =>
    if c = '"' then some ([c], rest)
    else if c = '\\' then
      match rest with
      | [] => none
      | e :: more =>
        if e = '\n' then none
        else (takeQuoted more).map fun (inside, after) => (c :: e :: inside, after)
    else (takeQuoted rest).map fun (inside, after) => (c :: inside, after)

/-- Takes a given text off the front of another one. -/
def takeText : (expected text : List Char) → Option (List Char)
  | [], text => some text
  | _ :: _, [] => none
  | e :: expected, c :: text => if e = c then takeText expected text else none

/-- The piece that a rule takes off the front of a text, and what follows it. -/
def take? (rule : LexRule) (text : List Char) : Option (List Char × List Char) :=
  match rule with
  | word =>
    match text with
    | [] => none
    | c :: rest =>
      if isWordStart c then some (c :: rest.takeWhile isWordPart, rest.dropWhile isWordPart)
      else none
  | number => takeRun Char.isDigit text
  | blank => takeRun Text.isBlank text
  | quoted =>
    match text with
    | [] => none
    | c :: rest =>
      if c = '"' then (takeQuoted rest).map fun (inside, after) => (c :: inside, after) else none
  | comment =>
    (takeText ['/', '/'] text).map fun rest =>
      ('/' :: '/' :: rest.takeWhile (· ≠ '\n'), rest.dropWhile (· ≠ '\n'))
  | symbol _ expected => (takeText expected text).map fun rest => (expected, rest)

def symbols : List LexRule :=
  [symbol .openCurly ['\x7b'], symbol .closeCurly ['\x7d'], symbol .openParen ['('],
   symbol .closeParen [')'], symbol .equals ['=', '='], symbol .notEquals ['!', '='],
   symbol .not ['!'], symbol .assignment ['='], symbol .lessEquals ['<', '='], symbol .less ['<'],
   symbol .greaterEquals ['>', '='], symbol .greater ['>'], symbol .or ['|', '|'],
   symbol .and ['&', '&'], symbol .ampersand ['&'], symbol .dot ['.'], symbol .semicolon [';'],
   symbol .colon [':'], symbol .comma [','], symbol .arrow ['-', '>'], symbol .plus ['+'],
   symbol .dash ['-'], symbol .slash ['/'], symbol .star ['*'], symbol .percent ['%']]

/-- All rules in the order in which they are tried. -/
def rules : List LexRule :=
  [word, number, blank, quoted, comment] ++ symbols

end LexRule

/-- A piece of text with the rule that took it. -/
structure Piece where
  rule : LexRule
  text : List Char
deriving DecidableEq, Repr

namespace Piece

/-- The character that a backslash and `c` stand for, if they stand for one. -/
def escaped? (c : Char) : Option Char :=
  [('n', '\n'), ('t', '\t'), ('r', '\r'), ('0', '\x00'), ('\\', '\\'), ('"', '"')].lookup c

/-- Replaces escapes by what they stand for. Before any other character the backslash stays. -/
def unescape : List Char → List Char
  | [] => []
  | c :: rest =>
    if c = '\\' then
      match rest with
      | [] => [c]
      | e :: more =>
        match escaped? e with
        | some meaning => meaning :: unescape more
        | none => c :: e :: unescape more
    else c :: unescape rest

/-- The meaning of a piece; white space and comments have none. -/
def token? (piece : Piece) : Option (TokenKind × String) :=
  match piece.rule with
  | .word =>
    let word := String.ofList piece.text
    some (TokenKind.ofWord word, word)
  | .number => some (.number, String.ofList piece.text)
  | .blank | .comment => none
  | .quoted => some (.string, String.ofList (unescape (piece.text.drop 1).dropLast))
  | .symbol kind text => some (kind, String.ofList text)

/-- The first piece of a text, by the first rule that takes one. -/
def first? (text : List Char) : Option (Piece × List Char) :=
  LexRule.rules.findSome? fun rule =>
    (rule.take? text).map fun (taken, rest) => (⟨rule, taken⟩, rest)

/-- At most `bound` pieces from the front of a text, and what is left of it. -/
def cutWithin : (bound : Nat) → List Char → List Piece × List Char
  | 0, text => ([], text)
  | bound + 1, text =>
    match first? text with
    | none => ([], text)
    | some (piece, rest) =>
      let (pieces, left) := cutWithin bound rest
      (piece :: pieces, left)

/-- Cuts a text into pieces as far as the rules reach. -/
def cut (text : List Char) : List Piece × List Char :=
  cutWithin text.length text

end Piece

end TraitLang
