import TraitLang.Text.Visible

/-! Text in double quotes, as messages show it: a reader sees where it begins and ends and can tell
every character apart. -/
namespace TraitLang.Text

/-- A code point in lower-case hexadecimal without leading zeros, between braces. -/
def codePoint (c : Char) : String :=
  "\\u\x7b" ++ String.ofList (Nat.toDigits 16 c.toNat) ++ "\x7d"

def quotedChar (c : Char) : String :=
  match c with
  | '\x00' => "\\0"
  | '\t' => "\\t"
  | '\r' => "\\r"
  | '\n' => "\\n"
  | '\\' => "\\\\"
  | '"' => "\\\""
  | c => if isVisible c then c.toString else codePoint c

def quoted (text : String) : String :=
  "\"" ++ String.join (text.toList.map quotedChar) ++ "\""

end TraitLang.Text
