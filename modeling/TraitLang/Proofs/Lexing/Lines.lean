import TraitLang.Proofs.Lexing.Spelling
import TraitLang.Proofs.Parsing.Moving

/-! Texts one below the other. Only white space goes on over a line break, and nothing before a line
break is taken in another way because of what comes after it. So a text, a line break and another
text have the tokens of both. -/
namespace TraitLang

open Relabeling List

/-- Only white space goes on over a line break. -/
lemma LexRule.stopsAt_newline {rule : LexRule} {c} (hc : Text.isBlank c = false)
    (h : rule.begins c) : rule.StopsAt '\n' := by
  cases rule with
  | word | number | comment => rfl
  | blank => exact absurd h (Bool.eq_false_iff.1 hc)
  | quoted | symbol => trivial

/-- Places that a number of bytes comes before. -/
def Relabeling.behind (count : Nat) : Relabeling :=
  .move (fun place => ⟨count + place.offset, place.file⟩) fun place => ⟨count + place.offset, place.file⟩

namespace Token

open Piece

variable {file : String} {text rest : List Char} {piece : Piece}

/-- The tokens of a text that starts at an offset. -/
def scanFrom (file : String) (offset : Nat) (text : List Char) : Except Diagnostic (List Token) :=
  match cut text with
  | (pieces, []) => .ok (ofPieces file offset pieces)
  | (pieces, c :: _) =>
    .error ⟨.unrecognisedToken c.toString, ⟨offset + Text.byteLength (pieces.flatMap Piece.text), file⟩⟩

lemma scan_eq (file source : String) : scan file source = scanFrom file 0 source.toList := by
  unfold scan scanFrom
  rcases cut source.toList with ⟨_, _ | ⟨_, _⟩⟩
  · rfl
  · simp

/-- The token of a piece at an offset, if it has one. -/
def ofPiece (file : String) (offset : Nat) (piece : Piece) : List Token :=
  (piece.token?.map fun meaning =>
    ⟨meaning.1, meaning.2, ⟨⟨offset, file⟩, ⟨offset + Text.byteLength piece.text, file⟩⟩⟩).toList

lemma ofPieces_cons (offset : Nat) (pieces : List Piece) : ofPieces file offset (piece :: pieces) =
    ofPiece file offset piece ++ ofPieces file (offset + Text.byteLength piece.text) pieces := by
  rw [ofPieces, ofPiece]
  cases piece.token? <;> rfl

lemma scanFrom_of_first? (h : first? text = some (piece, rest)) (offset : Nat) :
    scanFrom file offset text = (scanFrom file (offset + Text.byteLength piece.text) rest).map
    (ofPiece file offset piece ++ ·) := by
  unfold scanFrom
  rw [cut_of_first? h]
  rcases cut rest with ⟨pieces, _ | ⟨_, _⟩⟩
  · exact congrArg Except.ok (ofPieces_cons offset pieces)
  · simp [Except.map, Nat.add_assoc]

lemma scanFrom_blanks (blanks : List Char) (hb : ∀ c ∈ blanks, Text.isBlank c)
    (offset : Nat) (text : List Char) : scanFrom file offset (blanks ++ text) = scanFrom file
    (offset + Text.byteLength blanks) text := by
  -- all white space at the front of a text is one piece
  have hrun (offset : Nat) (text : List Char) : scanFrom file offset text = scanFrom file
      (offset + Text.byteLength (text.takeWhile Text.isBlank)) (text.dropWhile Text.isBlank) := by
    cases text with
    | nil => rfl
    | cons c text =>
      cases hc : Text.isBlank c with
      | false => simp [hc]
      | true =>
        rw [scanFrom_of_first? (first?_blank hc text)]
        exact congrFun Except.map_id _
  rw [hrun, hrun _ text, takeWhile_append_of_pos hb, dropWhile_append_of_pos hb,
    Text.byteLength_append, Nat.add_assoc]

/-- The last token is the end of the text. -/
lemma scanFrom_ne_nil {offset tokens} (h : scanFrom file offset text = .ok tokens) : tokens ≠ [] := by
  unfold scanFrom at h
  split at h
  next pieces _ =>
    cases h
    intro hnil
    have hlexemes := map_lexeme_ofPieces file pieces offset
    rw [hnil] at hlexemes
    simp at hlexemes
  next => cases h

/-- A line break leaves what stands before it and what stands behind it as they are. -/
lemma scanFrom_line (bound : Nat) : ∀ {text offset tokens}, text.length < bound →
    scanFrom file offset text = .ok tokens → ∀ more, scanFrom file offset (text ++ '\n' :: more) =
      (scanFrom file (offset + Text.byteLength text + 1) more).map (tokens.dropLast ++ ·) := by
  induction bound with
  | zero => exact fun hl => absurd hl (Nat.not_lt_zero _)
  | succ bound ih =>
    intro text offset tokens hl h more
    cases text with
    | nil =>
      cases h
      refine (scanFrom_blanks ['\n'] (all_eq_true.1 rfl) offset more).trans ?_
      exact (congrFun Except.map_id _).symm
    | cons c text =>
      cases hc : Text.isBlank c with
      | true =>
        -- the white space at the front is passed first
        have hblanks : ∀ d ∈ (c :: text).takeWhile Text.isBlank, Text.isBlank d := fun d hd => mem_takeWhile_imp hd
        have hshorter : ((c :: text).dropWhile Text.isBlank).length < bound := by
          have := length_dropWhile_le Text.isBlank text
          simp only [dropWhile_cons, hc, if_true, length_cons] at hl ⊢
          omega
        rw [← takeWhile_append_dropWhile (p := Text.isBlank) (l := c :: text)] at h ⊢
        rw [scanFrom_blanks _ hblanks] at h
        rw [append_assoc, scanFrom_blanks _ hblanks, ih hshorter h, Text.byteLength_append, ← Nat.add_assoc]
      | false =>
        cases hfirst : first? (c :: text) with
        | none => simp [scanFrom, cut, cutWithin, hfirst] at h
        | some found =>
          obtain ⟨piece, rest⟩ := found
          obtain ⟨happend, htaken⟩ := first?_append hfirst
          have hbegins := LexRule.begins_of_describes htaken.rule_mem (longest_first? hfirst).describes ⟨rest, happend⟩
          have hlt := length_lt_of_first? hfirst
          rw [scanFrom_of_first? hfirst] at h
          cases hlater : scanFrom file (offset + Text.byteLength piece.text) rest with
          | error diagnostic =>
            rw [hlater] at h
            cases h
          | ok later =>
            rw [hlater] at h
            cases h
            rw [scanFrom_of_first? (first?_stop hfirst (by decide) (LexRule.stopsAt_newline
              hc hbegins)), ih (by omega) hlater, ← happend, Text.byteLength_append,
              ← Nat.add_assoc, dropLast_append_of_ne_nil (scanFrom_ne_nil hlater)]
            cases scanFrom file _ more <;> simp [Except.map]

lemma ofPieces_behind (file : String) (count : Nat) (pieces : List Piece) : ∀ offset : Nat,
    ofPieces file (count + offset) pieces = (ofPieces file offset pieces).map (Relabeling.behind count).token := by
  induction pieces with
  | nil => exact fun _ => rfl
  | cons piece pieces ih =>
    intro offset
    rw [ofPieces_cons, ofPieces_cons, map_append, ← ih, ← Nat.add_assoc]
    unfold ofPiece
    cases piece.token? with
    | none => rfl
    | some meaning => simp [Relabeling.token, Relabeling.span, Relabeling.behind, Relabeling.move, Nat.add_assoc]

lemma scanFrom_behind (file : String) (count : Nat) (text : List Char) : scanFrom file count text =
    ((scanFrom file 0 text).map (List.map (behind count).token)).mapError (behind count).diagnostic := by
  unfold scanFrom
  rcases cut text with ⟨pieces, _ | ⟨_, _⟩⟩
  · exact congrArg Except.ok (ofPieces_behind file count pieces 0)
  · simp [Except.map, Except.mapError, diagnostic, behind, move]

/-- The tokens of a text, a line break and another text are those of the first text up to its end
and those of the second one behind them. Where the second text has no tokens, both together fail at
the same character. -/
theorem scan_line {first : String} {tokens : List Token} (h : scan file first = .ok tokens)
    (second : String) : scan file (first ++ "\n" ++ second) = ((scan file second).map fun later =>
      tokens.dropLast ++ later.map (behind (first.utf8ByteSize + 1)).token).mapError
        (behind (first.utf8ByteSize + 1)).diagnostic := by
  rw [scan_eq] at h
  have hline := scanFrom_line _ (Nat.lt_succ_self _) h second.toList
  have htext : (first ++ "\n" ++ second).toList = first.toList ++ '\n' :: second.toList := by simp
  rw [scan_eq, scan_eq, htext, hline, Nat.zero_add, ← Text.utf8ByteSize_eq, scanFrom_behind]
  cases scanFrom file 0 second.toList <;> rfl

/-- A quote in a comment begins no string in the next line. -/
theorem scan_line_comment : ∃ tokens, scan "a" "x //\"" = .ok tokens ∧ tokens.length = 2 ∧
    scan "a" ("x //\"" ++ "\n" ++ " y") = .ok (tokens.dropLast ++
      [⟨.identifier, "y", ⟨⟨7, "a"⟩, ⟨8, "a"⟩⟩⟩, endOfText ⟨8, "a"⟩]) ∧
    scan "a" ("x //\"" ++ "\n" ++ " \"") = .error ⟨.unrecognisedToken "\"", ⟨7, "a"⟩⟩ := by
  have hscan : scan "a" "x //\"" = .ok [⟨.identifier, "x", ⟨⟨0, "a"⟩, ⟨1, "a"⟩⟩⟩, endOfText ⟨5, "a"⟩] := by rfl
  exact ⟨_, hscan, rfl, (scan_line hscan " y").trans rfl, (scan_line hscan " \"").trans rfl⟩

end Token

end TraitLang
