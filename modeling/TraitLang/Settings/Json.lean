/-! Strict JSON text, as far as settings need it: numbers are only recognised, a string may write
half of a surrogate pair and then has no characters, and an object keeps its fields as they
stand. -/
namespace TraitLang

inductive Json where
  | null
  | bool (value : Bool)
  | number
  | string (value : Option String)
  | list (items : List Json)
  | object (fields : List (Option String × Json))
deriving Repr, Inhabited

namespace Json

def isSpace (c : Char) : Bool :=
  c = ' ' || c = '\n' || c = '\t' || c = '\r'

def skip (text : List Char) : List Char := text.dropWhile isSpace

/-- Takes a given text off the front of another one. -/
def word? (expected text : List Char) : Option (List Char) :=
  if expected.isPrefixOf text then some (text.drop expected.length) else none

/-! ### Numbers -/

/-- One or more digits. -/
def digits? (text : List Char) : Option (List Char) :=
  match text with
  | [] => none
  | c :: _ => if c.isDigit then some (text.dropWhile Char.isDigit) else none

/-- Zero, or digits that do not begin with zero. -/
def integer? : List Char → Option (List Char)
  | '0' :: rest => some rest
  | text => digits? text

def fraction? : List Char → Option (List Char)
  | '.' :: rest => digits? rest
  | text => some text

def exponent? : List Char → Option (List Char)
  | c :: rest =>
    if c = 'e' || c = 'E' then
      match rest with
      | [] => none
      | sign :: digits => if sign = '+' || sign = '-' then digits? digits else digits? rest
    else some (c :: rest)
  | [] => some []

/-- What follows a number. -/
def number? (text : List Char) : Option (List Char) := do
  let unsigned := if text.head? = some '-' then text.drop 1 else text
  exponent? (← fraction? (← integer? unsigned))

/-! ### Strings -/

/-- A piece of a string: a character, or a 16-bit code that an escape writes. -/
inductive Unit16 where
  | char (c : Char)
  | code (n : Nat)

def hexValue? (c : Char) : Option Nat :=
  if c.isDigit then some (c.toNat - '0'.toNat)
  else if 'a' ≤ c && c ≤ 'f' then some (c.toNat - 'a'.toNat + 10)
  else if 'A' ≤ c && c ≤ 'F' then some (c.toNat - 'A'.toNat + 10)
  else none

def hexCode? (a b c d : Char) : Option Nat := do
  return (((← hexValue? a) * 16 + (← hexValue? b)) * 16 + (← hexValue? c)) * 16 + (← hexValue? d)

def escape? (c : Char) : Option Char :=
  [('"', '"'), ('\\', '\\'), ('/', '/'), ('b', '\x08'), ('f', '\x0c'), ('n', '\n'), ('r', '\r'),
   ('t', '\t')].lookup c

/-- The pieces of a string up to its closing quote, and what follows it. -/
def string? : List Char → Option (List Unit16 × List Char)
  | [] => none
  | '"' :: rest => some ([], rest)
  | '\\' :: 'u' :: a :: b :: c :: d :: rest => do
    let code ← hexCode? a b c d
    let (units, after) ← string? rest
    return (.code code :: units, after)
  | '\\' :: e :: rest => do
    let meaning ← escape? e
    let (units, after) ← string? rest
    return (.char meaning :: units, after)
  | c :: rest =>
    if c.toNat < 0x20 || c = '\\' then none
    else do
      let (units, after) ← string? rest
      return (.char c :: units, after)

/-- The characters of a string, if every half of a surrogate pair has its other half. -/
def characters? : List Unit16 → Option (List Char)
  | [] => some []
  | .char c :: units => (c :: ·) <$> characters? units
  | .code n :: units =>
    if 0xDC00 ≤ n && n ≤ 0xDFFF then none
    else if 0xD800 ≤ n && n ≤ 0xDBFF then
      match units with
      | .code m :: units =>
        if 0xDC00 ≤ m && m ≤ 0xDFFF then
          (Char.ofNat (0x10000 + (n - 0xD800) * 0x400 + (m - 0xDC00)) :: ·) <$> characters? units
        else none
      | _ => none
    else (Char.ofNat n :: ·) <$> characters? units

def decoded (units : List Unit16) : Option String :=
  (characters? units).map String.ofList

/-! ### Values -/

mutual

/-- A value at the front of a text, and what follows it. -/
def value? : (depth : Nat) → List Char → Option (Json × List Char)
  | 0, _ => none
  | depth + 1, text =>
    match skip text with
    | '"' :: rest => do
      let (units, after) ← string? rest
      return (.string (decoded units), after)
    | '[' :: rest =>
      match skip rest with
      | ']' :: after => some (.list [], after)
      | rest => do
        let (items, after) ← items? depth rest
        return (.list items, after)
    | '\x7b' :: rest =>
      match skip rest with
      | '\x7d' :: after => some (.object [], after)
      | rest => do
        let (fields, after) ← fields? depth rest
        return (.object fields, after)
    | text =>
      if let some after := word? ['n', 'u', 'l', 'l'] text then some (.null, after)
      else if let some after := word? ['t', 'r', 'u', 'e'] text then some (.bool true, after)
      else if let some after := word? ['f', 'a', 'l', 's', 'e'] text then some (.bool false, after)
      else (number? text).map (.number, ·)

/-- One or more values up to a closing bracket. -/
def items? : (depth : Nat) → List Char → Option (List Json × List Char)
  | 0, _ => none
  | depth + 1, text => do
    let (item, rest) ← value? depth text
    match skip rest with
    | ']' :: after => return ([item], after)
    | ',' :: rest =>
      let (items, after) ← items? depth rest
      return (item :: items, after)
    | _ => none

/-- One or more named values up to a closing brace. -/
def fields? : (depth : Nat) → List Char → Option (List (Option String × Json) × List Char)
  | 0, _ => none
  | depth + 1, text =>
    match skip text with
    | '"' :: rest => do
      let (units, rest) ← string? rest
      match skip rest with
      | ':' :: rest =>
        let (value, rest) ← value? depth rest
        let field := (decoded units, value)
        match skip rest with
        | '\x7d' :: after => return ([field], after)
        | ',' :: rest =>
          let (fields, after) ← fields? depth rest
          return (field :: fields, after)
        | _ => none
      | _ => none
    | _ => none

end

/-- The value that a text holds, with white space around it. Every step inwards or onwards takes at
least one character. -/
def parse? (text : String) : Option Json := do
  let characters := text.toList
  let (value, rest) ← value? (2 * characters.length + 2) characters
  if (skip rest).isEmpty then some value else none

end Json

end TraitLang
