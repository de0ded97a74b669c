import Mathlib.Data.List.DropRight
import TraitLang.Diagnostic.Render

/-! The lines of a text, and the arrow below one. The line of an offset is found by adding up bytes,
and so is the column that the arrow points at: it stands below the right character if no character
before that takes more than one byte. -/
namespace TraitLang

open List Text

namespace Excerpt

/-- A text cut after each newline. -/
inductive Cut : List Char → List (List Char) → Prop
  | nil : Cut [] []
  | last {line : List Char} : line ≠ [] → '\n' ∉ line → Cut line [line]
  | cons {line rest : List Char} {lines : List (List Char)} : '\n' ∉ line → Cut rest lines →
    Cut (line ++ '\n' :: rest) ((line ++ ['\n']) :: lines)

lemma cut_pieces (text : List Char) : Cut text (pieces text) := by
  induction text with
  | nil => exact .nil
  | cons c rest ih =>
    unfold pieces
    split
    next hc => exact hc ▸ @Cut.cons [] _ _ not_mem_nil ih
    next hc =>
      have hfront {line} (h : '\n' ∉ line) : '\n' ∉ c :: line := by simp [Ne.symm hc, h]
      generalize pieces rest = parts at ih
      cases ih with
      | nil => exact .last (cons_ne_nil _ _) (hfront not_mem_nil)
      | last _ hline => exact .last (cons_ne_nil _ _) (hfront hline)
      | cons hline h => exact .cons (hfront hline) h

lemma Cut.pieces_eq {text lines} (h : Cut text lines) : pieces text = lines := by
  induction h with
  | nil => rfl
  | @last line hne hline =>
    induction line with
    | nil => exact absurd rfl hne
    | cons c line ih =>
      obtain ⟨hc, hrest⟩ := not_or.1 (mem_cons.not.1 hline)
      rw [pieces, if_neg (Ne.symm hc)]
      rcases line with _ | ⟨d, line⟩
      · rfl
      · rw [ih (cons_ne_nil _ _) hrest]
  | @cons line rest lines hline _ ih =>
    induction line with
    | nil => simp [pieces, ih]
    | cons c line ih' =>
      obtain ⟨hc, hrest⟩ := not_or.1 (mem_cons.not.1 hline)
      rw [cons_append, pieces, if_neg (Ne.symm hc), ih' hrest]
      rfl

lemma Cut.exists_front {text lines} (h : Cut text lines) {line} (hl : line ∈ lines) :
    ∃ front, '\n' ∉ front ∧ (line = front ++ ['\n'] ∨ line = front ∧ front ≠ []) := by
  induction h with
  | nil => cases hl
  | last hne hline => exact ⟨_, hline, .inr ⟨mem_singleton.1 hl, hne⟩⟩
  | cons hline _ ih => grind

/-- A search ends in the piece that an offset is in, or runs past all pieces. -/
lemma search_spec {offset} (parts : List (List Char)) : ∀ {line start}, start ≤ offset →
    match search offset line start parts with
    | none => start + byteLength parts.flatten ≤ offset
    | some found => ∃ before after, parts = before ++ found.text :: after ∧ found.line = line + before.length ∧
      start + byteLength before.flatten + found.column = offset ∧ found.column < byteLength found.text := by
  induction parts with
  | nil => exact fun h => by simpa [search] using h
  | cons piece more ih =>
    intro line start hstart
    unfold search
    by_cases hin : offset < start + byteLength piece
    · rw [if_pos hin]
      refine ⟨[], more, rfl, rfl, ?_, ?_⟩
      · simp_all
      · dsimp only
        omega
    · rw [if_neg hin]
      have hrest := @ih (line + 1) (start + byteLength piece) (by omega)
      split at hrest
      · simp only [flatten_cons, byteLength_append]
        omega
      · obtain ⟨before, after, rfl, hline, hcolumn, hin⟩ := hrest
        refine ⟨piece :: before, after, rfl, ?_, ?_, hin⟩
        · rw [hline, length_cons]
          omega
        · simp only [flatten_cons, byteLength_append]
          omega

lemma search_append {column} {piece} (h : column < byteLength piece) (after : List (List Char)) :
    ∀ (before : List (List Char)) (line start : Nat),
      search (start + byteLength before.flatten + column) line start (before ++ piece :: after) =
        some ⟨line + before.length, piece, column⟩ := by
  intro before
  induction before with
  | nil =>
    intro line start
    rw [nil_append, search, flatten_nil, byteLength_nil, if_pos (by omega)]
    simp
  | cons first before ih =>
    intro line start
    have hrest := ih (line + 1) (start + byteLength first)
    rw [cons_append, search, flatten_cons, byteLength_append, if_neg (by omega), ← Nat.add_assoc, hrest, length_cons]
    simp [Nat.add_assoc, Nat.add_comm 1]

lemma Cut.locate_eq {text before line after} (h : Cut text (before ++ line :: after)) {column}
    (hc : column < byteLength line) :
    locate text (byteLength before.flatten + column) = some ⟨before.length + 1, line, column⟩ := by
  have hfind := search_append hc after before 1 0
  have htext := congrArg byteLength (flatten_pieces text)
  rw [h.pieces_eq, flatten_append, flatten_cons, byteLength_append, byteLength_append] at htext
  rw [locate, if_neg (by omega), h.pieces_eq]
  rw [Nat.zero_add, Nat.add_comm 1] at hfind
  simp only [hfind, Option.some_or]

/-- The end of a text is in its last line, before the newline. -/
lemma ending_pieces {text} {found} (h : ending (pieces text) = some found) :
    ∃ before, pieces text = before ++ [found.text] ∧ found.line = before.length + 1 ∧
      byteLength before.flatten + found.column =
        if text.getLast? = some '\n' then byteLength text - 1 else byteLength text := by
  obtain ⟨line, hlast, rfl⟩ := Option.map_eq_some_iff.1 h
  obtain ⟨before, hparts⟩ := getLast?_eq_some_iff.1 hlast
  have hflat := flatten_pieces text
  obtain ⟨front, hfront, hline⟩ := (cut_pieces text).exists_front (hparts ▸ mem_append_right _ mem_cons_self)
  have hfilter : front.filter (fun c => !decide (c = '\n')) = front := filter_eq_self.2 fun c hc => by
    simpa using ne_of_mem_of_not_mem hc hfront
  rw [hparts, flatten_append, flatten_singleton] at hflat
  refine ⟨before, hparts, by simp [hparts], ?_⟩
  subst hflat
  rcases hline with rfl | ⟨rfl, hne⟩
  · have hone : '\n'.utf8Size = 1 := rfl
    simp [hfilter, hone, ← Nat.add_assoc]
  · have hend : line.getLast? ≠ some '\n' := fun hend => hfront (mem_of_getLast? hend)
    simp [hfilter, getLast?_append, hne, hend]

/-- Locating an offset inverts the cut of a text into its lines. -/
theorem locate_inverts (text : List Char) (offset : Nat) :
    (locate text offset = none ↔ text = [] ∨ byteLength text < offset) ∧
      ∀ found, locate text offset = some found →
        ∃ before after, Cut text (before ++ found.text :: after) ∧ found.line = before.length + 1 ∧
          byteLength before.flatten + found.column =
            if offset = byteLength text ∧ text.getLast? = some '\n' then offset - 1 else offset := by
  have hcut := cut_pieces text
  have hflat := flatten_pieces text
  have hsearch := @search_spec offset (pieces text) 1 0 (Nat.zero_le _)
  unfold locate
  by_cases hlong : byteLength text < offset
  · simp [hlong]
  rw [if_neg hlong]
  dsimp only
  cases hs : search offset 1 0 (pieces text) with
  | some first =>
    rw [hs] at hsearch
    obtain ⟨before, after, hparts, hline, hcolumn, hin⟩ := hsearch
    have htext := congrArg byteLength hflat
    rw [hparts, flatten_append, flatten_cons, byteLength_append, byteLength_append] at htext
    have hne : text ≠ [] := by
      rintro rfl
      simp at htext
      omega
    refine ⟨by simp [hne, hlong], fun found h => ?_⟩
    obtain rfl := Option.some.inj h
    refine ⟨before, after, hparts ▸ hcut, by rw [hline, Nat.add_comm], ?_⟩
    rw [if_neg (by omega)]
    omega
  | none =>
    rw [hs, hflat] at hsearch
    dsimp only at hsearch
    obtain rfl : offset = byteLength text := by omega
    rw [Option.none_or]
    refine ⟨?_, fun found h => ?_⟩
    · have hnil : pieces text = [] ↔ text = [] := ⟨fun h => by rw [← hflat, h, flatten_nil], fun h => h ▸ rfl⟩
      simp [ending, hnil]
    · grind [ending_pieces]

end Excerpt

namespace Text

lemma length_le_byteLength (text : List Char) : text.length ≤ byteLength text := by
  induction text with
  | nil => exact Nat.le_refl _
  | cons c text ih =>
    have := c.utf8Size_pos
    rw [length_cons, byteLength_cons]
    omega

lemma byteLength_eq_length_iff {text} : byteLength text = text.length ↔ ∀ c ∈ text, c.utf8Size = 1 := by
  induction text with
  | nil => simp
  | cons c text ih =>
    have := c.utf8Size_pos
    have := length_le_byteLength text
    rw [forall_mem_cons, ← ih, byteLength_cons, length_cons]
    omega

lemma trimEnd_eq (text : List Char) : trimEnd text = text.rdropWhile isBlank := rfl

/-- White space is lost behind the last visible character only. -/
lemma exists_trimEnd_append {c} {rest} (h : ∃ x ∈ c :: rest, isBlank x = false)
    (front : List Char) : ∃ tail, trimEnd (front ++ c :: rest) = front ++ c :: tail := by
  obtain ⟨x, hx, hvisible⟩ := h
  have hne : trimEnd (c :: rest) ≠ [] := fun hnil => by
    have := rdropWhile_eq_nil_iff.1 hnil x hx
    simp [hvisible] at this
  have happend : trimEnd (front ++ c :: rest) = front ++ trimEnd (c :: rest) := by
    rw [trimEnd, reverse_append, dropWhile_append, if_neg (by simpa [trimEnd] using hne),
      reverse_append, reverse_reverse, trimEnd]
  rcases prefix_cons_iff.1 ( rdropWhile_prefix isBlank (c :: rest)) with hnil | ⟨tail, htail, -⟩
  · exact absurd hnil hne
  · exact ⟨tail, happend.trans (congrArg _ htail)⟩

end Text

namespace Diagnostic

lemma byteLength_indent {indent} (h : ∀ x ∈ indent, isIndent x) : byteLength indent = indent.length :=
  byteLength_eq_length_iff.2 fun x hx => by
    have := h x hx
    simp only [isIndent, Bool.or_eq_true, decide_eq_true_eq] at this
    rcases this with rfl | rfl <;> rfl

/-- What stands before a line: its number and a bar. -/
def gutter (number : Nat) : List Char :=
  (toString number).toList ++ [' ', '|', ' ']

lemma newline_notMem_gutter (number : Nat) : '\n' ∉ gutter number := by
  have hdigit : '\n' ∉ Nat.toDigits 10 number := fun h => by
    have := Nat.isDigit_of_mem_toDigits (by decide) (by decide) h
    simp at this
  simp [gutter, hdigit]

/-- No newline is left in the visible text of a line. -/
lemma newline_notMem_trimEnd {indent shown body} (hbody : '\n' ∉ body)
    (h : indent ++ shown = body ++ ['\n'] ∨ indent ++ shown = body) : '\n' ∉ trimEnd shown := by
  rcases h with h | rfl
  · rcases eq_nil_or_concat shown with rfl | ⟨front, c, rfl⟩
    · exact not_mem_nil
    · rw [concat_eq_append, ← append_assoc] at h
      obtain ⟨rfl, hc⟩ := append_inj' h rfl
      obtain rfl := singleton_inj.1 hc
      rw [concat_eq_append, trimEnd_eq, rdropWhile_concat_pos _ _ _ (by decide)]
      exact fun hm => hbody (mem_append_right _ (( rdropWhile_prefix _ _).subset hm))
  · exact fun hm => hbody (mem_append_right _ (( rdropWhile_prefix _ _).subset hm))

/-- What stands before the arrow: as many characters as before the line above it. -/
def margin (number : Nat) : List Char :=
  replicate ((toString number).length + 1) ' ' ++ ['|', ' ']

lemma length_margin (number : Nat) : (margin number).length = (gutter number).length := by
  simp only [margin, gutter, length_append, length_replicate, String.length_toList]
  rfl

section

variable {source : String} {above below : List (List Char)}
  {indent front rest : List Char} {c : Char}

lemma exists_render (d : Diagnostic) {number column} (hindent : ∀ x ∈ indent, isIndent x)
    (hrest : ∀ x ∈ rest.head?, isIndent x = false)
    (h : Excerpt.locate source.toList d.position.offset = some ⟨number, indent ++ rest, column⟩) :
    ∃ top, (d.render source).toList = top ++ '\n' :: (gutter number ++ trimEnd rest) ++
      '\n' :: (margin number ++ replicate (column - indent.length) '-' ++ ['^', '\n']) := by
  have hsplit : (indent ++ rest).takeWhile isIndent = indent ∧ (indent ++ rest).dropWhile isIndent = rest := by
    rw [takeWhile_append_of_pos hindent, dropWhile_append_of_pos hindent]
    cases rest with
    | nil => simp
    | cons x rest => simp [hrest x rfl]
  have hexcerpt : (renderExcerpt ⟨number, indent ++ rest,
      column⟩).toList = (margin number).dropLast ++ '\n' :: (gutter number ++ trimEnd rest) ++
      '\n' :: (margin number ++ replicate (column - indent.length) '-' ++ ['^', '\n']) := by
    delta renderExcerpt
    simp only [hsplit, margin, gutter, String.toList_append, String.toList_ofList, toString]
    simp
  rw [render, h]
  dsimp only
  rw [String.toList_append, hexcerpt, ← append_assoc, ← append_assoc]
  exact ⟨_, rfl⟩

/-- The arrow below the excerpt has a dash for each byte before the character that it is meant for,
so it ends below it exactly if all of them are characters of one byte, and right of it otherwise. -/
theorem caret_column (d : Diagnostic)
    (hcut : Excerpt.Cut source.toList (above ++ (indent ++ (front ++ c :: rest)) :: below))
    (hoffset : d.position.offset = byteLength (above.flatten ++ (indent ++ front)))
    (hindent : ∀ x ∈ indent, isIndent x) (hfront : ∀ x ∈ (front ++ [c]).head?, isIndent x = false)
    (hvisible : ∃ x ∈ c :: rest, isBlank x = false) : ∃ top tail arrow : List Char,
      let lead := gutter (above.length + 1) ++ front
      (d.render source).toList = top ++ '\n' :: (lead ++ c :: tail) ++ '\n' :: (arrow ++ ['^',
      '\n']) ∧ '\n' ∉ lead ++ c :: tail ∧ '\n' ∉ arrow ∧ '^' ∉ arrow ∧
        arrow.length = lead.length + (byteLength front - front.length) ∧
        (arrow.length = lead.length ↔ ∀ x ∈ front, x.utf8Size = 1) := by
  have hcolumn : byteLength (indent ++ front) < byteLength (indent ++ (front ++ c :: rest)) := by
    have := c.utf8Size_pos
    simp only [byteLength_append, byteLength_cons]
    omega
  have hplace := hcut.locate_eq hcolumn
  rw [← byteLength_append, ← hoffset] at hplace
  have hshown : ∀ x ∈ (front ++ c :: rest).head?, isIndent x = false := by grind
  obtain ⟨tail, htail⟩ := exists_trimEnd_append hvisible front
  obtain ⟨body, hbody, hline⟩ := hcut.exists_front (mem_append_right _ mem_cons_self)
  have hnewline := newline_notMem_trimEnd hbody (hline.imp_right And.left)
  have hwidth := length_le_byteLength front
  obtain ⟨top, htop⟩ := d.exists_render hindent hshown hplace
  rw [htail, byteLength_append, byteLength_indent hindent, Nat.add_sub_cancel_left, ← append_assoc] at htop
  refine ⟨top, tail, margin (above.length + 1) ++ replicate (byteLength front) '-', htop, ?_, ?_, ?_, ?_, ?_⟩
  · rw [append_assoc, ← htail]
    exact not_mem_append (newline_notMem_gutter _) hnewline
  · simp [margin]
  · simp [margin]
  · rw [length_append, length_replicate, length_append, length_margin]
    omega
  · rw [← byteLength_eq_length_iff, length_append, length_replicate, length_append, length_margin]
    omega

end

theorem caret_column_wide :
    let d : Diagnostic := ⟨.unrecognisedToken "é", ⟨8, "a"⟩⟩
    ∃ top tail arrow, (d.render "x\n\t\"é\" é").toList =
    top ++ '\n' :: (gutter 2 ++ "\"é\" ".toList ++ 'é' :: tail) ++ '\n' :: (arrow ++ ['^', '\n']) ∧
      arrow.length = (gutter 2 ++ "\"é\" ".toList).length + 1 := by
  intro d
  have hcut : Excerpt.Cut "x\n\t\"é\" é".toList
      ([['x', '\n']] ++ (['\t'] ++ ("\"é\" ".toList ++ 'é' :: [])) :: []) :=
    Excerpt.cut_pieces _
  obtain ⟨top, tail, arrow, htext, -, -, -, hwidth, -⟩ :=
    caret_column d hcut (by decide) (all_eq_true.1 rfl) (by rintro _ ⟨⟩; rfl) ⟨'é', by decide, by decide⟩
  exact ⟨top, tail, arrow, htext, hwidth⟩

/-- The arrow ends one character right of the second `é`. -/
theorem caret_beside :
    (⟨.unrecognisedToken "é", ⟨5, "a"⟩⟩ : Diagnostic).render "\"é\" é" =
        "Error: UnrecognisedToken\n-> a\n  |\n1 | \"é\" é\n  | -----^\n" ∧
      "  | -----".length = "1 | \"é\" ".length + 1 := by
  decide +kernel

end Diagnostic

end TraitLang
