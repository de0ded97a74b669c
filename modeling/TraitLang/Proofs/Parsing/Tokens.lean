import Mathlib.Tactic.Common
import TraitLang.Token.Scan

/-! The tokens of one text. Pieces take the text up from its start, so that the spans of tokens are
in the text and follow each other, and no span but that of the end is empty. -/
namespace TraitLang

open List TokenKind Option

/-- What is seen to succeed has an answer. -/
lemma exists_eq_ok {ε α : Type} {x : Except ε α} (h : x.isOk) : ∃ a, x = .ok a := by
  cases x with
  | ok a => exact ⟨a, rfl⟩
  | error => cases h

/-! ### Pieces of a text -/

lemma Text.utf8ByteSize_eq (text : String) : text.utf8ByteSize = byteLength text.toList := by
  have hlist (chars : List Char) : (String.ofList chars).utf8ByteSize = byteLength chars := by
    induction chars with
    | nil => rfl
    | cons c chars ih => simp_all
  simpa using hlist text.toList

lemma Text.byteLength_pos {text} (h : text ≠ []) : 0 < byteLength text := by
  obtain ⟨c, _, rfl⟩ := exists_cons_of_ne_nil h
  have := c.utf8Size_pos
  rw [byteLength_cons]
  omega

namespace LexRule

variable {text taken rest : List Char}

lemma takeRun_append {p} (h : takeRun p text = some (taken, rest)) : taken ++ rest = text ∧ taken ≠ [] := by
  unfold takeRun at h
  split at h
  · cases h
  next _ _ =>
    split at h
    next hc =>
      cases h
      exact ⟨takeWhile_append_dropWhile, by simp [hc]⟩
    · cases h

lemma takeQuoted_append (h : takeQuoted text = some (taken, rest)) : taken ++ rest = text := by
  fun_induction takeQuoted text generalizing taken rest with
  | case1 => cases h
  | case2 =>
    cases h
    rfl
  | case3 => cases h
  | case4 => cases h
  | case5 _ _ _ _ ih | case6 _ _ _ _ ih =>
    obtain ⟨⟨_, _⟩, hrest, hpair⟩ := map_eq_some_iff.1 h
    cases hpair
    simp [ih hrest]

variable {expected : List Char}

lemma takeText_append (h : takeText expected text = some rest) : expected ++ rest = text := by
  fun_induction takeText expected text with
  | case1 =>
    cases h
    rfl
  | case2 => cases h
  | case3 _ _ _ ih => rw [cons_append, ih h]
  | case4 => cases h

lemma symbol_ne_nil {kind} (h : symbol kind expected ∈ rules) : expected ≠ [] := by
  rintro rfl
  simp [rules, symbols] at h

/-- What a rule takes is the front of the text. -/
lemma take?_append {rule} (h : rule.take? text = some (taken, rest)) :
    taken ++ rest = text ∧ (rule ∈ rules → taken ≠ []) := by
  unfold take? at h
  split at h
  · split at h
    · cases h
    · split at h
      · cases h
        simp
      · cases h
  · exact ⟨(takeRun_append h).1, fun _ => (takeRun_append h).2⟩
  · exact ⟨(takeRun_append h).1, fun _ => (takeRun_append h).2⟩
  · grind [map_eq_some_iff, takeQuoted_append]
  · obtain ⟨after, hrest, hpair⟩ := map_eq_some_iff.1 h
    cases hpair
    simp [← takeText_append hrest]
  · grind [map_eq_some_iff, takeText_append, symbol_ne_nil]

end LexRule

namespace Piece

/-- A piece that a rule took off some text. -/
structure Taken (piece : Piece) : Prop where
  rule_mem : piece.rule ∈ LexRule.rules
  ne_nil : piece.text ≠ []

variable {piece : Piece}

lemma first?_append {text rest} (h : first? text = some (piece, rest)) : piece.text ++ rest = text ∧ piece.Taken := by
  obtain ⟨_, hr, htake⟩ := exists_of_findSome?_eq_some h
  obtain ⟨⟨_, _⟩, htaken, hpair⟩ := map_eq_some_iff.1 htake
  cases hpair
  obtain ⟨happend, hne⟩ := LexRule.take?_append htaken
  exact ⟨happend, hr, hne hr⟩

lemma cutWithin_append (bound : Nat) :
      ∀ text, (cutWithin bound text).1.flatMap Piece.text ++ (cutWithin bound text).2 = text ∧
      ∀ piece ∈ (cutWithin bound text).1, piece.Taken := by
  induction bound with
  | zero => simp [cutWithin]
  | succ bound ih =>
    intro text
    unfold cutWithin
    split
    · simp
    next _ rest hfirst =>
      obtain ⟨happend, htaken⟩ := first?_append hfirst
      obtain ⟨ih1, ih2⟩ := ih rest
      refine ⟨?_, forall_mem_cons.2 ⟨htaken, ih2⟩⟩
      rw [flatMap_cons, append_assoc, ih1, happend]

/-- No word stands for the end of a text. -/
lemma ofWord_ne_eof (word : String) : ofWord word ≠ .eof := by
  unfold ofWord
  cases hl : reserved.lookup word with
  | none => simp
  | some kind =>
    obtain ⟨_, _, heq, -⟩ := lookup_eq_some_iff.1 hl
    have hmem : (word, kind) ∈ reserved := by simp [heq]
    rintro rfl
    simp [reserved] at hmem

lemma Taken.kind_ne_eof (h : piece.Taken) {kind value} (ht : piece.token? = some (kind, value)) : kind ≠ .eof := by
  obtain ⟨rule, _⟩ := piece
  cases rule with
  | word =>
    cases ht
    exact ofWord_ne_eof _
  | number | quoted =>
    cases ht
    simp
  | blank | comment => cases ht
  | symbol kind expected =>
    have hmem := h.rule_mem
    cases ht
    rintro rfl
    simp [LexRule.rules, LexRule.symbols] at hmem

end Piece

/-! ### Tokens in their file -/

namespace Span

/-- A span that is not empty and ends in a file at or before an offset. -/
structure Inside (file : String) (bound : Nat) (span : Span) : Prop where
  start_file : span.start.file = file
  stop_file : span.stop.file = file
  lt : span.start.offset < span.stop.offset
  le : span.stop.offset ≤ bound

lemma Inside.mono {file bound larger} {span : Span} (h : span.Inside file bound)
    (hle : bound ≤ larger) : span.Inside file larger :=
  { h with le := Nat.le_trans h.le hle }

end Span

namespace Token

/-- Tokens follow each other in a text of a given size from an offset on, up to the end of the
text. -/
def Fill (file : String) (size : Nat) : (low : Nat) → List Token → Prop
  | _, [] => False
  | low, token :: tokens => low ≤ token.span.start.offset ∧
    if token.kind = .eof then
      token.span.start.file = file ∧ token.span.start.offset ≤ size ∧ token.span.stop = token.span.start ∧ tokens = []
    else token.span.Inside file size ∧ Fill file size token.span.stop.offset tokens

lemma fill_ofPieces (file : String) {pieces} (h : ∀ piece ∈ pieces, piece.Taken) :
    ∀ {low offset size}, low ≤ offset → offset + Text.byteLength (pieces.flatMap Piece.text) ≤
    size → Fill file size low (ofPieces file offset pieces) := by
  induction pieces with
  | nil =>
    intro low offset size hle hsize
    exact ⟨hle, by simpa [endOfText] using hsize⟩
  | cons piece pieces ih =>
    intro low offset size hle hsize
    obtain ⟨htaken, hrest⟩ := forall_mem_cons.1 h
    rw [flatMap_cons, Text.byteLength_append, ← Nat.add_assoc] at hsize
    unfold ofPieces
    split
    · exact ih hrest (Nat.le_add_right_of_le hle) hsize
    next _ _ ht =>
      have hpos := Text.byteLength_pos htaken.ne_nil
      refine ⟨hle, ?_⟩
      rw [if_neg (htaken.kind_ne_eof ht)]
      exact ⟨⟨rfl, rfl, by simpa using hpos, Nat.le_of_add_right_le hsize⟩, ih hrest (Nat.le_refl _) hsize⟩

variable {tokens : List Token}

lemma Fill.span_le {file size} : ∀ {low}, Fill file size low tokens → ∀ token ∈ tokens,
    token.span.start.offset ≤ token.span.stop.offset ∧ token.span.stop.offset ≤ size := by
  induction tokens with
  | nil => exact fun h => h.elim
  | cons token tokens ih =>
    rintro low ⟨-, hfill⟩
    split at hfill
    · grind
    · exact forall_mem_cons.2 ⟨⟨Nat.le_of_lt hfill.1.lt, hfill.1.le⟩, ih hfill.2⟩

lemma fill_cut (file text : String) : Fill file text.utf8ByteSize 0 (ofPieces file 0 (Piece.cut text.toList).1) := by
  obtain ⟨happend, htaken⟩ := Piece.cutWithin_append text.toList.length text.toList
  refine fill_ofPieces file htaken (Nat.le_refl _) ?_
  rw [Text.utf8ByteSize_eq, ← happend, Text.byteLength_append, Nat.zero_add, happend]
  exact Nat.le_add_right _ _

lemma fill_scan {file text} (h : scan file text = .ok tokens) : Fill file text.utf8ByteSize 0 tokens := by
  unfold scan at h
  dsimp only at h
  split at h
  · cases h
    exact fill_cut file text
  · cases h

end Token

end TraitLang
