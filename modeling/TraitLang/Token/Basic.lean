import TraitLang.Source.Span

/-! Tokens: what a piece of source text means to the grammar, and where it stands. -/
namespace TraitLang

inductive TokenKind where
  | eof
  | number
  | string
  | identifier
  | openCurly
  | closeCurly
  | openParen
  | closeParen
  | assignment
  | equals
  | not
  | notEquals
  | less
  | lessEquals
  | greater
  | greaterEquals
  | or
  | and
  | ampersand
  | dot
  | semicolon
  | colon
  | comma
  | arrow
  | plus
  | dash
  | slash
  | star
  | percent
  | letWord
  | varWord
  | funWord
  | returnWord
  | ifWord
  | elseWord
  | whileWord
  | doWord
  | matchWord
  | caseWord
  | traitWord
  | typeWord
  | whereWord
  | anyWord
  | trueWord
  | falseWord
  | underscore
deriving DecidableEq, Repr, Inhabited

namespace TokenKind

def all : List TokenKind :=
  [eof, number, string, identifier, openCurly, closeCurly, openParen, closeParen,
   assignment, equals, not, notEquals, less, lessEquals, greater, greaterEquals, or, and, ampersand,
   dot, semicolon, colon, comma, arrow, plus, dash, slash, star, percent, letWord, varWord, funWord,
   returnWord, ifWord, elseWord, whileWord, doWord, matchWord, caseWord, traitWord, typeWord,
   whereWord, anyWord, trueWord, falseWord, underscore]

def name : TokenKind → String
  | eof => "EOF"
  | number => "Number"
  | string => "String"
  | identifier => "Identifier"
  | openCurly => "OpenCurly"
  | closeCurly => "CloseCurly"
  | openParen => "OpenParen"
  | closeParen => "CloseParen"
  | assignment => "Assignment"
  | equals => "Equals"
  | not => "Not"
  | notEquals => "NotEquals"
  | less => "Less"
  | lessEquals => "LessEquals"
  | greater => "Greater"
  | greaterEquals => "GreaterEquals"
  | or => "Or"
  | and => "And"
  | ampersand => "Ampersand"
  | dot => "Dot"
  | semicolon => "Semicolon"
  | colon => "Colon"
  | comma => "Comma"
  | arrow => "Arrow"
  | plus => "Plus"
  | dash => "Dash"
  | slash => "Slash"
  | star => "Star"
  | percent => "Percent"
  | letWord => "Let"
  | varWord => "Var"
  | funWord => "Fun"
  | returnWord => "Return"
  | ifWord => "If"
  | elseWord => "Else"
  | whileWord => "While"
  | doWord => "Do"
  | matchWord => "Match"
  | caseWord => "Case"
  | traitWord => "Trait"
  | typeWord => "Type"
  | whereWord => "Where"
  | anyWord => "Any"
  | trueWord => "True"
  | falseWord => "False"
  | underscore => "Underscore"

def ofName? (text : String) : Option TokenKind :=
  all.find? fun kind => kind.name = text

theorem mem_all (kind : TokenKind) : kind ∈ all := by
  cases kind <;> decide

/-- The words that the grammar keeps for itself. -/
def reserved : List (String × TokenKind) :=
  [("let", letWord), ("var", varWord), ("fun", funWord), ("return", returnWord), ("if", ifWord),
   ("else", elseWord), ("while", whileWord), ("do", doWord), ("match", matchWord),
   ("case", caseWord), ("trait", traitWord), ("type", typeWord), ("where", whereWord),
   ("any", anyWord), ("true", trueWord), ("false", falseWord), ("_", underscore)]

def ofWord (word : String) : TokenKind :=
  (reserved.lookup word).getD identifier

end TokenKind

structure Token where
  kind : TokenKind
  value : String
  span : Span
deriving DecidableEq, Repr, Inhabited

namespace Token

/-- Tokens that stand for more than their kind show their text too. -/
def describe (token : Token) : String :=
  match token.kind with
  | .string | .identifier | .number => s!"{token.kind.name} ({token.value})"
  | kind => kind.name

def isOneOf (token : Token) (kinds : List TokenKind) : Bool :=
  kinds.contains token.kind

/-- The end of a text of the given size. -/
def endOfText (position : Position) : Token :=
  ⟨.eof, "EOF", ⟨position, position⟩⟩

end Token

end TraitLang
