import TraitLang.Proofs.Lexing.Lossless

/-! Texts that are spelled word by word. A word of the grammar has a text of its own, in which the
characters that a string literal cannot show are escaped. A space after it ends the word, so that
words with spaces between them are read back one by one. -/
namespace TraitLang

open List Piece

/-! ### Escapes -/

namespace Piece

/-- The character that a backslash goes before to stand for `c`, where a string literal cannot show
`c` as it is. -/
def escapeOf? (c : Char) : Option Char :=
  [('\n', 'n'), ('\t', 't'), ('\r', 'r'), ('\x00', '0'), ('\\', '\\'), ('"', '"')].lookup c

def escape : List Char → List Char
  | [] => []
  | c :: rest =>
    match escapeOf? c with
    | some e => '\\' :: e :: escape rest
    | none => c :: escape rest

lemma escaped?_of_escapeOf? {c e} (h : escapeOf? c = some e) : escaped? e = some c ∧ e ≠ '\n' := by
  obtain ⟨_, _, heq, -⟩ := lookup_eq_some_iff.1 h
  have hmem : (c, e) ∈ [('\n', 'n'), ('\t', 't'), ('\r', 'r'), ('\x00', '0'), ('\\', '\\'), ('"', '"')] := by simp [heq]
  simp only [mem_cons, Prod.mk.injEq, not_mem_nil, or_false] at hmem
  rcases hmem with ⟨rfl, rfl⟩ | ⟨rfl, rfl⟩ | ⟨rfl, rfl⟩ | ⟨rfl, rfl⟩ | ⟨rfl, rfl⟩ | ⟨rfl, rfl⟩ <;> decide

lemma ne_of_escapeOf? {c} (h : escapeOf? c = none) : c ≠ '"' ∧ c ≠ '\\' := by
  constructor
  · rintro rfl
    cases h
  · rintro rfl
    cases h

lemma unescape_escape (text : List Char) : unescape (escape text) = text := by
  induction text with
  | nil => rfl
  | cons c rest ih =>
    unfold escape
    cases he : escapeOf? c with
    | none =>
      unfold unescape
      simp [(ne_of_escapeOf? he).2, ih]
    | some e => simp [unescape, (escaped?_of_escapeOf? he).1, ih]

lemma quoted_escape (text : List Char) : LexRule.Quoted (escape text ++ ['"']) := by
  induction text with
  | nil => exact .close
  | cons c rest ih =>
    unfold escape
    cases he : escapeOf? c with
    | none => exact .plain (ne_of_escapeOf? he).1 (ne_of_escapeOf? he).2 ih
    | some e => exact .escape (escaped?_of_escapeOf? he).2 ih

end Piece

/-! ### Words and spaces -/

/-- What a token stands for, wherever it stands. -/
abbrev Lexeme := TokenKind × String

def Token.lexeme (token : Token) : Lexeme := (token.kind, token.value)

namespace Lexeme

/-- The text of a lexeme. String literals are quoted and escaped. -/
def text : Lexeme → List Char
  | (.string, value) => '"' :: (Piece.escape value.toList ++ ['"'])
  | (_, value) => value.toList

/-- The text of a lexeme stands for the lexeme. -/
def Legible (lexeme : Lexeme) : Prop :=
  ∃ rule ∈ LexRule.rules, rule.Describes lexeme.text ∧ token? ⟨rule, lexeme.text⟩ = some lexeme

/-- Lexemes with a space between any two of them. -/
def spaced : List Lexeme → List Char
  | [] => []
  | [lexeme] => lexeme.text
  | lexeme :: more => lexeme.text ++ ' ' :: spaced more

lemma legible_string (value : String) : Legible (.string, value) := by
  refine ⟨.quoted, by decide, ⟨_, rfl, quoted_escape _⟩, ?_⟩
  simp [token?, text, unescape_escape, String.ofList_toList]

variable {kind : TokenKind}

lemma legible_word {word} (hw : LexRule.word.Describes word.toList)
    (hk : TokenKind.ofWord word = kind) (hs : kind ≠ .string) : Legible (kind, word) := by
  have htext : text (kind, word) = word.toList := by
    cases kind with
    | string => exact absurd rfl hs
    | _ => rfl
  refine ⟨.word, by decide, htext.symm ▸ hw, ?_⟩
  simp [token?, htext, String.ofList_toList, hk]

lemma legible_number {digits} (hne : digits.toList ≠ []) (hd : ∀ c ∈ digits.toList, c.isDigit) :
    Legible (.number, digits) := by
  refine ⟨.number, by decide, ⟨hne, hd⟩, ?_⟩
  simp [token?, text, String.ofList_toList]

lemma legible_symbol {symbol} (h : .symbol kind symbol.toList ∈ LexRule.symbols) : Legible (kind, symbol) := by
  have htext : text (kind, symbol) = symbol.toList := by
    cases kind with
    | string => simp [LexRule.symbols] at h
    | _ => rfl
  refine ⟨.symbol kind symbol.toList, mem_append_right _ h, htext, ?_⟩
  simp [token?, String.ofList_toList]

end Lexeme

/-! ### Separators -/

namespace LexRule

/-- Nothing that a rule takes goes on over a character. -/
def StopsAt (rule : LexRule) (c : Char) : Prop :=
  match rule with
  | word => isWordPart c = false
  | number => c.isDigit = false
  | blank => Text.isBlank c = false
  | comment => c = '\n'
  | quoted | symbol .. => True

variable {text more taken rest expected : List Char} {rule : LexRule} {c : Char} {p : Char → Bool}

lemma takeWhile_stop (hp : p c = false) (text more : List Char) :
    (text ++ c :: more).takeWhile p = text.takeWhile p ∧
      (text ++ c :: more).dropWhile p = text.dropWhile p ++ c :: more := by
  induction text with
  | nil => simp [hp]
  | cons d text ih => cases hd : p d <;> simp [hd, ih]

lemma takeRun_stop (hp : p c = false) (h : takeRun p text = some (taken, rest)) :
    takeRun p (text ++ c :: more) = some (taken, rest ++ c :: more) := by
  obtain ⟨hne, hall⟩ := takeRun_all h
  have hfront : taken <+: text := ⟨rest, (takeRun_append h).1⟩
  obtain ⟨htake, hdrop⟩ := takeWhile_stop hp text more
  rw [takeRun_eq hne hall (hfront.trans (prefix_append _ _)), htake, hdrop]
  rw [takeRun_eq hne hall hfront] at h
  cases h
  rfl

lemma takeText_stop (he : c ∉ expected) (h : takeText expected text = none) :
    takeText expected (text ++ c :: more) = none := by
  fun_induction takeText expected text with
  | case1 => cases h
  | case2 => exact if_neg fun heq => he (by simp [heq])
  | case3 _ _ _ ih => simpa [takeText] using ih (fun hm => he (mem_cons_of_mem _ hm)) h
  | case4 _ _ _ _ hne => exact if_neg hne

/-- A rule takes the same where a character that it stops at comes later. -/
lemma take?_stop (hs : rule.StopsAt c) (h : rule.take? text = some (taken, rest)) :
    rule.take? (text ++ c :: more) = some (taken, rest ++ c :: more) := by
  have happend := (take?_append h).1
  have hd := describes_take? h
  cases rule with
  | word =>
    cases text with
    | nil => cases h
    | cons first text =>
      simp only [take?, Option.ite_none_right_eq_some] at h
      obtain ⟨hfirst, ⟨⟩⟩ := h
      obtain ⟨htake, hdrop⟩ := takeWhile_stop hs text more
      simp [take?, hfirst, htake, hdrop]
  | number | blank => exact takeRun_stop hs h
  | quoted =>
    obtain ⟨_, rfl, hinside⟩ := hd
    simp [← happend, take?, hinside.takeQuoted_append]
  | comment =>
    obtain ⟨after, hafter, heq⟩ := Option.map_eq_some_iff.1 h
    cases heq
    obtain ⟨htake, hdrop⟩ := takeWhile_stop (p := (· ≠ '\n')) (decide_eq_false (not_not.2 hs)) after more
    rw [← takeText_append hafter, append_assoc]
    simp only [take?, takeText_prefix, Option.map_some, htake, hdrop]
  | symbol kind expected =>
    cases hd
    simp [← happend, take?, takeText_prefix]

/-- No text spelled out has white space in it. -/
lemma notMem_opening (h : rule ∈ rules) (hc : c ∈ [' ', '\n']) : c ∉ rule.opening := by
  have hopenings : (rules.all fun rule => rule.opening.all (!elem · [' ', '\n'])) = true := rfl
  intro hm
  grind

lemma take?_stop_eq_none
    (hr : rule ∈ rules) (hc : c ∈ [' ', '\n']) (hne : text ≠ []) (hq : rule = quoted → text.head? ≠
    some '"') (h : rule.take? text = none) : rule.take? (text ++ c :: more) = none := by
  have hopening := notMem_opening hr hc
  obtain ⟨_, _, rfl⟩ := exists_cons_of_ne_nil hne
  cases rule with
  | word | number | blank => simpa [take?, takeRun] using h
  | quoted => exact if_neg fun hquote => hq rfl (congrArg some hquote)
  | comment | symbol => exact Option.map_eq_none_iff.2 (takeText_stop hopening (Option.map_eq_none_iff.1 h))

end LexRule

namespace Piece

open LexRule

variable {text more rest : List Char} {piece : Piece} {rule : LexRule} {c : Char}

/-- The first piece of a text is the same where a space or a line break comes later that it does not
go on over. -/
lemma first?_stop (h : first? text = some (piece, rest)) (hc : c ∈ [' ', '\n']) (hs : piece.rule.StopsAt c) :
    first? (text ++ c :: more) = some (piece, rest ++ c :: more) := by
  obtain ⟨before, rule, after, hrules, htake, hnone⟩ := findSome?_eq_some_iff.1 h
  obtain ⟨⟨_, _⟩, htaken, hpair⟩ := Option.map_eq_some_iff.1 htake
  cases hpair
  have hrule : rule ∈ rules := by simp [hrules]
  obtain ⟨happend, hne⟩ := take?_append htaken
  refine findSome?_eq_some_iff.2 ⟨before, rule, after, hrules, ?_, fun other ho => Option.map_eq_none_iff.2 ?_⟩
  · rw [take?_stop hs htaken]
    rfl
  · have hother := Option.map_eq_none_iff.1 (hnone other ho)
    refine take?_stop_eq_none (by simp [hrules, ho]) hc (fun hnil => ?_) (fun hquoted hhead => ?_) hother
    · simp_all
    · -- no other rule can take what begins with a quote
      obtain ⟨_, rfl⟩ := head?_eq_some_iff.1 hhead
      have hbegins := begins_of_describes hrule (describes_take? htaken) ⟨_, happend⟩
      have honly : ∀ rule ∈ rules, rule.begins '"' → rule = quoted := by decide
      grind

/-- A text that a rule describes is one piece, because an earlier rule would take more than the
text. -/
lemma first?_of_describes (hr : rule ∈ rules) (hd : rule.Describes text) : first? text = some (⟨rule, text⟩, []) := by
  obtain ⟨before, after, hrules⟩ := append_of_mem hr
  have hpairwise := pairwise_rules text
  rw [hrules, pairwise_append] at hpairwise
  obtain ⟨taken, rest, htake, hle⟩ := exists_take? hd prefix_rfl
  have happend := (take?_append htake).1
  obtain rfl : rest = [] := by
    have := congrArg length happend
    rw [length_append] at this
    exact length_eq_zero_iff.1 (by omega)
  obtain rfl : taken = text := by rw [← happend, append_nil]
  refine findSome?_eq_some_iff.2 ⟨before, rule, after, hrules, by rw [htake]; rfl, fun other ho => ?_⟩
  refine Option.map_eq_none_iff.2 (Option.eq_none_iff_forall_ne_some.2 fun found ht => ?_)
  have hfront : found.1 <+: taken := ⟨found.2, (take?_append ht).1⟩
  have hlt := hpairwise.2.2 other ho rule mem_cons_self _ _ (describes_take? ht) hfront hd prefix_rfl
  exact absurd hfront.length_le (Nat.not_le.2 hlt)

/-- White space at the front of a text is taken as one piece. -/
lemma first?_blank (hc : Text.isBlank c) (text : List Char) : first? (c :: text) =
    some (⟨.blank, (c :: text).takeWhile Text.isBlank⟩, (c :: text).dropWhile Text.isBlank) := by
  have hclasses := pairwise_classed c
  simp only [classed, pairwise_cons, mem_cons, not_mem_nil, or_false, forall_eq_or_imp, begins, hc,
    and_true, Bool.not_eq_true] at hclasses
  refine findSome?_eq_some_iff.2 ⟨[word, number], blank, quoted :: spelled, rfl, ?_, ?_⟩
  · simp [take?, takeRun, hc]
  · simp [take?, takeRun, hclasses]

/-- A space is skipped alone, where no other one follows it. -/
lemma first?_space (hc : Text.isBlank c = false) (rest : List Char) :
    first? (' ' :: c :: rest) = some (⟨.blank, [' ']⟩, c :: rest) := by
  have hspace : Text.isBlank ' ' = true := by decide
  simpa [hspace, hc] using first?_blank hspace (c :: rest)

lemma isBlank_eq_false (hr : rule ∈ rules) (hne : rule ≠ blank) (hd : rule.Describes (c :: text)) :
    Text.isBlank c = false := by
  refine Bool.eq_false_iff.2 fun hc => hne ?_
  have hfirst := first?_blank hc text
  rw [first?_of_describes hr hd] at hfirst
  exact congrArg (fun found => found.1.rule) (Option.some.inj hfirst)

lemma cutWithin_nil (bound : Nat) : cutWithin bound [] = ([], []) := by
  cases bound <;> rfl

lemma length_lt_of_first? (h : first? text = some (piece, rest)) : rest.length < text.length := by
  obtain ⟨rfl, htaken⟩ := first?_append h
  have := length_pos_iff.2 htaken.ne_nil
  rw [length_append]
  omega

lemma cutWithin_of_le (few : Nat) : ∀ {text many}, text.length ≤ few → few ≤ many →
    cutWithin many text = cutWithin few text := by
  induction few with
  | zero =>
    intro text many hl _
    obtain rfl := length_eq_zero_iff.1 (Nat.le_zero.1 hl)
    rw [cutWithin_nil, cutWithin_nil]
  | succ few ih =>
    intro text many hl hm
    obtain ⟨_, rfl⟩ := Nat.exists_eq_add_one.2 (Nat.zero_lt_of_lt hm)
    unfold cutWithin
    cases hfirst : first? text with
    | none => rfl
    | some found =>
      have hlt := length_lt_of_first? hfirst
      dsimp only
      rw [ih (by omega) (Nat.le_of_succ_le_succ hm)]

lemma cut_of_first? (h : first? text = some (piece, rest)) : cut text = (piece :: (cut rest).1, (cut rest).2) := by
  have hlt := length_lt_of_first? h
  obtain ⟨_, hbound⟩ : ∃ n, text.length = n + 1 := Nat.exists_eq_add_one.2 (by omega)
  unfold cut
  rw [hbound, cutWithin, h]
  dsimp only
  rw [cutWithin_of_le rest.length le_rfl (by omega)]

end Piece

namespace Lexeme

open LexRule Piece

variable {lexeme : Lexeme}

lemma Legible.ne {rule} (h : token? ⟨rule, lexeme.text⟩ = some lexeme) : rule ≠ blank ∧ rule ≠ comment := by
  constructor
  · rintro rfl
    cases h
  · rintro rfl
    cases h

lemma Legible.first? {lexeme : Lexeme} (h : lexeme.Legible) :
    ∃ piece, first? lexeme.text = some (piece, []) ∧ piece.rule.StopsAt ' ' ∧ piece.token? = some lexeme := by
  obtain ⟨rule, hr, hd, htoken⟩ := h
  obtain ⟨hblank, hcomment⟩ := Legible.ne htoken
  refine ⟨_, first?_of_describes hr hd, ?_, htoken⟩
  cases rule with
  | blank => exact absurd rfl hblank
  | comment => exact absurd rfl hcomment
  | word | number => rfl
  | quoted | symbol => trivial

/-- The text of a lexeme does not begin with white space. -/
lemma Legible.exists_cons (h : lexeme.Legible) : ∃ c rest, lexeme.text = c :: rest ∧ Text.isBlank c = false := by
  obtain ⟨_, hr, hd, htoken⟩ := h
  obtain ⟨c, rest, htext⟩ := exists_cons_of_ne_nil (describes_ne_nil hr hd)
  rw [htext] at hd
  exact ⟨c, rest, htext, isBlank_eq_false hr (Legible.ne htoken).1 hd⟩

lemma spaced_cons_eq (lexeme next : Lexeme) (more : List Lexeme) :
    spaced (lexeme :: next :: more) = lexeme.text ++ ' ' :: spaced (next :: more) := rfl

lemma spaced_eq_append (lexeme : Lexeme) (more : List Lexeme) :
    ∃ rest, spaced (lexeme :: more) = lexeme.text ++ rest := by
  cases more with
  | nil => exact ⟨[], (append_nil _).symm⟩
  | cons next => exact ⟨_, rfl⟩

/-- Lexemes with spaces between them are cut apart again. -/
lemma cut_spaced (lexemes : List Lexeme) : (∀ lexeme ∈ lexemes, lexeme.Legible) →
    ∃ pieces, cut (spaced lexemes) = (pieces, []) ∧ pieces.filterMap token? = lexemes := by
  induction lexemes with
  | nil => exact fun _ => ⟨[], rfl, rfl⟩
  | cons lexeme more ih =>
    intro hl
    obtain ⟨hlexeme, hmore⟩ := forall_mem_cons.1 hl
    cases more with
    | nil =>
      obtain ⟨piece, hfirst, -, htoken⟩ := hlexeme.first?
      exact ⟨[piece], cut_of_first? hfirst, by simp [htoken]⟩
    | cons next more =>
      obtain ⟨piece, hfirst, hstops, htoken⟩ := hlexeme.first?
      obtain ⟨_, tail, hc, hblank⟩ := (hmore next mem_cons_self).exists_cons
      obtain ⟨rest, hrest⟩ := spaced_eq_append next more
      obtain ⟨pieces, hcut, hpieces⟩ := ih hmore
      have hspace : first? (' ' :: spaced (next :: more)) = some (⟨.blank, [' ']⟩,
          spaced (next :: more)) := by grind [first?_space]
      refine ⟨piece :: ⟨.blank, [' ']⟩ :: pieces, ?_, ?_⟩
      · rw [spaced_cons_eq, cut_of_first? (first?_stop hfirst (by decide) hstops), nil_append,
          cut_of_first? hspace, hcut]
      · rw [filterMap_cons_some htoken, filterMap_cons_none rfl, hpieces]

end Lexeme

/-- Tokens none of which ends before an earlier one starts. -/
structure Token.Forward (tokens : List Token) : Prop where
  start_le : ∀ token ∈ tokens, token.span.start.offset ≤ token.span.stop.offset
  pairwise : tokens.Pairwise fun first second => first.span.start.offset ≤ second.span.stop.offset

namespace Token

lemma map_lexeme_ofPieces (file : String) (pieces : List Piece) : ∀ offset : Nat,
    (ofPieces file offset pieces).map lexeme = pieces.filterMap token? ++ [(.eof, "EOF")] := by
  induction pieces with
  | nil => exact fun _ => rfl
  | cons piece pieces ih =>
    grind [ofPieces, lexeme]

/-- A text cut up to its end is read as tokens for the lexemes of the pieces. -/
lemma scan_of_cut {text pieces} (hcut : cut text.toList = (pieces, [])) (file : String) :
    ∃ body, scan file text = .ok (body ++ [endOfText ⟨text.utf8ByteSize, file⟩]) ∧
      body.map lexeme = pieces.filterMap token? ∧ Forward body := by
  have hscan : scan file text = .ok (ofPieces file 0 pieces) := by
    unfold scan
    rw [hcut]
  obtain ⟨_, htokens, htext, hdescribes, -⟩ := exists_pieces hscan
  obtain ⟨body, hbody, hinside, hpairwise, -⟩ := exists_body (htokens ▸ hscan) htext hdescribes
  have hlt : ∀ token ∈ body, token.span.start.offset < token.span.stop.offset := fun token ht => (hinside token ht).2.lt
  have hmap := map_lexeme_ofPieces file pieces 0
  rw [htokens, hbody, map_append] at hmap
  refine ⟨body, hscan.trans (by rw [htokens, hbody]), (append_inj' hmap rfl).1, fun token ht => (hlt token ht).le, ?_⟩
  refine hpairwise.imp_of_mem fun {first second} hf hs hle => ?_
  have := hlt first hf
  have := hlt second hs
  omega

/-- A text between quotes, in which escapes stand for what a string literal cannot show, is one
string literal and stands for the text. -/
theorem scan_escaped (file value : String) : scan file (String.ofList (Lexeme.text (.string, value))) =
    .ok [⟨.string, value, ⟨⟨0, file⟩, ⟨Text.byteLength (Lexeme.text (.string, value)), file⟩⟩⟩,
      endOfText ⟨Text.byteLength (Lexeme.text (.string, value)), file⟩] := by
  obtain ⟨piece, hfirst, -, htoken⟩ := (Lexeme.legible_string value).first?
  have htext := (first?_append hfirst).1
  rw [append_nil] at htext
  rw [scan, String.toList_ofList, cut_of_first? hfirst, ← htext]
  simp only [cut, length_nil, cutWithin, ofPieces, htoken, Nat.zero_add]

end Token

end TraitLang
