import TraitLang.Grammar.Stmt
import TraitLang.Token.Scan

/-! The rules tied together, and whole modules. -/
namespace TraitLang

namespace Phrase

/-- The rule of each phrase. -/
def rule (read : Reader) : Reader
  | _, .expr floor => Grammar.expr read floor
  | _, .conditional => Grammar.conditional read
  | _, .typeExpr => Grammar.typeExpr read
  | _, .bindingPattern => Grammar.bindingPattern read
  | _, .casePattern => Grammar.casePattern read
  | _, .block => Grammar.block read
  | _, .branch => Grammar.branch read

/-- Reads phrases that contain each other to a depth. -/
def readWithin : (depth : Nat) → Reader
  | 0 => fun _ _ => throw .exhausted
  | depth + 1 => rule (readWithin depth)

/-- Reads a phrase. Of two phrases inside each other that start at the same token, the inner one is
the expression of a match case, so twice the number of tokens bounds the depth. -/
def read : Reader := fun _ phrase cursor =>
  readWithin (2 * cursor.remaining + 2) phrase cursor

end Phrase

namespace Grammar

/-- The declarations up to the end of the text. -/
def items : Parse (List DeclId) :=
  Parse.untilClosed .eof (item Phrase.read)

/-- A module of the given name and span around all declarations. -/
def module (name : String) (span : Span) : Parse DeclId := do
  let members ← items
  Parse.insertDecl (.module name members) span

end Grammar

/-- A named source text. -/
structure SourceFile where
  name : String
  text : String
deriving Repr

namespace Tree

/-- The tokens of several files in a row. Only the end of the last file is kept. -/
def tokensOf : List SourceFile → Except Diagnostic (List Token)
  | [] => .ok []
  | [file] => Token.scan file.name file.text
  | file :: files => do
    let tokens ← Token.scan file.name file.text
    return tokens.dropLast ++ (← tokensOf files)

/-- The place of the module that some files make up: all of the first file. -/
def moduleSpan : List SourceFile → Span
  | [] => ⟨⟨0, "<empty>"⟩, ⟨0, "<empty>"⟩⟩
  | file :: _ => ⟨⟨0, file.name⟩, ⟨file.text.utf8ByteSize, file.name⟩⟩

/-- The tree of the module that some files make up. -/
def ofFiles (files : List SourceFile) (name : String) : Except Failure Tree :=
  match tokensOf files with
  | .error diagnostic => .error (.diagnostic diagnostic)
  | .ok tokens =>
    let span := moduleSpan files
    match Grammar.module name span (Cursor.ofTokens span.start.file tokens) with
    | .ok id cursor => .ok (cursor.tree.addModule id)
    | .error failure _ => .error failure

/-- The tree of one file, as module `main`. -/
def ofSource (text file : String) : Except Failure Tree :=
  ofFiles [⟨file, text⟩] "main"

end Tree

end TraitLang
