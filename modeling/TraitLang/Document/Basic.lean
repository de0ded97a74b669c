/-! Structured values for output, and their text as indented JSON. -/
namespace TraitLang

inductive Document where
  | null
  | bool (value : Bool)
  | int (value : Int)
  | text (value : String)
  | list (items : List Document)
  | record (fields : List (String × Document))
deriving Repr, Inhabited

namespace Document

def nat (value : Nat) : Document := .int value

def ofOption {α : Type} (toDocument : α → Document) : Option α → Document
  | none => .null
  | some value => toDocument value

def ofList {α : Type} (toDocument : α → Document) (items : List α) : Document :=
  .list (items.map toDocument)

/-- A record with one field, the form of a value that is one of several variants. -/
def variant (name : String) (content : Document) : Document :=
  .record [(name, content)]

/-! ### JSON text -/

def hexDigit (n : Nat) : Char :=
  (Nat.toDigits 16 n).headD '0'

def escapedChar (c : Char) : String :=
  match c with
  | '"' => "\\\""
  | '\\' => "\\\\"
  | '\n' => "\\n"
  | '\r' => "\\r"
  | '\t' => "\\t"
  | c =>
    if c.toNat = 0x08 then "\\b"
    else if c.toNat = 0x0C then "\\f"
    else if c.toNat < 0x20 then
      "\\u00" ++ String.ofList [hexDigit (c.toNat / 16), hexDigit (c.toNat % 16)]
    else c.toString

def escaped (text : String) : String :=
  "\"" ++ String.join (text.toList.map escapedChar) ++ "\""

def indentation (depth : Nat) : String :=
  String.ofList (List.replicate (2 * depth) ' ')

/-- Lines between an opening and a closing bracket, indented one step further. -/
def enclosed (depth : Nat) (opening closing : String) (lines : List String) : String :=
  match lines with
  | [] => opening ++ closing
  | lines =>
    opening ++ "\n" ++ ",\n".intercalate (lines.map (indentation (depth + 1) ++ ·)) ++ "\n" ++
      indentation depth ++ closing

mutual

def prettyAt (depth : Nat) : Document → String
  | .null => "null"
  | .bool value => if value then "true" else "false"
  | .int value => toString value
  | .text value => escaped value
  | .list items => enclosed depth "[" "]" (prettyItems (depth + 1) items)
  | .record fields => enclosed depth "\x7b" "\x7d" (prettyFields (depth + 1) fields)

def prettyItems (depth : Nat) : List Document → List String
  | [] => []
  | item :: items => prettyAt depth item :: prettyItems depth items

def prettyFields (depth : Nat) : List (String × Document) → List String
  | [] => []
  | (name, value) :: fields =>
    (escaped name ++ ": " ++ prettyAt depth value) :: prettyFields depth fields

end

/-- JSON with two spaces of indentation and each item on a line of its own. -/
def pretty (document : Document) : String :=
  prettyAt 0 document

mutual

/-- JSON on one line. -/
def compact : Document → String
  | .null => "null"
  | .bool value => if value then "true" else "false"
  | .int value => toString value
  | .text value => escaped value
  | .list items => "[" ++ ",".intercalate (compactItems items) ++ "]"
  | .record fields => "\x7b" ++ ",".intercalate (compactFields fields) ++ "\x7d"

def compactItems : List Document → List String
  | [] => []
  | item :: items => compact item :: compactItems items

def compactFields : List (String × Document) → List String
  | [] => []
  | (name, value) :: fields => (escaped name ++ ":" ++ compact value) :: compactFields fields

end

end Document

end TraitLang
