import TraitLang.Token.Basic

/-! How tightly operators bind. -/
namespace TraitLang

inductive Power where
  | default
  | assignment
  | logical
  | relational
  | additive
  | multiplicative
  | unary
  | call
  | member
  | primary
deriving DecidableEq, Repr

namespace Power

def all : List Power :=
  [default, assignment, logical, relational, additive, multiplicative, unary, call, member, primary]

def name : Power → String
  | default => "Default"
  | assignment => "Assignment"
  | logical => "Logical"
  | relational => "Relational"
  | additive => "Additive"
  | multiplicative => "Multiplicative"
  | unary => "Unary"
  | call => "Call"
  | member => "Member"
  | primary => "Primary"

def ofName? (text : String) : Option Power :=
  all.find? fun power => power.name = text

/-- The place in the order, loosest first. -/
def rank : Power → Nat
  | default => 0
  | assignment => 1
  | logical => 2
  | relational => 3
  | additive => 4
  | multiplicative => 5
  | unary => 6
  | call => 7
  | member => 8
  | primary => 9

theorem mem_all (power : Power) : power ∈ all := by
  cases power <;> decide

theorem rank_injective {first second : Power} (h : first.rank = second.rank) : first = second := by
  cases first <;> cases second <;> simp_all [rank]

/-- The power with which a token continues the expression before it. Tokens that cannot continue one
have the loosest power. -/
def ofToken : TokenKind → Power
  | .assignment => assignment
  | .and | .or => logical
  | .less | .lessEquals | .greater | .greaterEquals | .equals | .notEquals => relational
  | .plus | .dash => additive
  | .star | .slash | .percent => multiplicative
  | .openParen => call
  | .dot => member
  | _ => default

end Power

end TraitLang
