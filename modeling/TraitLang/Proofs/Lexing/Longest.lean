import Mathlib.Data.List.TakeWhile
import TraitLang.Proofs.Parsing.Tokens

/-! The longest piece. Each lexical rule describes a set of texts, and takes off the front of a text
the longest of them that stands there. Rules that can begin with the same character are tried in
such an order that the first one to take something takes the most, so that no rule can make a piece
longer. -/
namespace TraitLang

open List LexRule

namespace LexRule

/-! ### What rules describe -/

/-- The rest of a string literal after its opening quote. -/
inductive Quoted : List Char → Prop
  | close : Quoted ['"']
  | plain {c : Char} {rest : List Char} : c ≠ '"' → c ≠ '\\' → Quoted rest → Quoted (c :: rest)
  | escape {c : Char} {rest : List Char} : c ≠ '\n' → Quoted rest → Quoted ('\\' :: c :: rest)

/-- The texts that a rule is for. -/
def Describes : LexRule → List Char → Prop
  | word, text => ∃ c rest, text = c :: rest ∧ isWordStart c ∧ ∀ d ∈ rest, isWordPart d
  | number, text => text ≠ [] ∧ ∀ c ∈ text, c.isDigit
  | blank, text => text ≠ [] ∧ ∀ c ∈ text, Text.isBlank c
  | quoted, text => ∃ rest, text = '"' :: rest ∧ Quoted rest
  | comment, text => ∃ rest, text = '/' :: '/' :: rest ∧ ∀ c ∈ rest, c ≠ '\n'
  | symbol _ expected, text => text = expected

variable {text taken rest other : List Char} {p : Char → Bool} {rule : LexRule} {c : Char}

lemma length_le_takeWhile (hp : ∀ c ∈ other, p c) (h : other <+: text) : other.length ≤ (text.takeWhile p).length := by
  obtain ⟨_, rfl⟩ := h
  rw [List.takeWhile_append_of_pos hp, List.length_append]
  exact Nat.le_add_right _ _

lemma takeRun_eq (hne : other ≠ []) (hp : ∀ c ∈ other, p c) (h : other <+: text) :
    takeRun p text = some (text.takeWhile p, text.dropWhile p) := by
  obtain ⟨_, rfl⟩ := h
  obtain ⟨c, _, rfl⟩ := List.exists_cons_of_ne_nil hne
  exact if_pos (hp c List.mem_cons_self)

lemma takeRun_all (h : takeRun p text = some (taken, rest)) : taken ≠ [] ∧ ∀ c ∈ taken, p c := by
  refine ⟨(takeRun_append h).2, ?_⟩
  unfold takeRun at h
  split at h
  · cases h
  · split at h
    · cases h
      exact fun c hc => (List.mem_takeWhile_imp hc)
    · cases h

lemma quoted_takeQuoted (h : takeQuoted text = some (taken, rest)) : Quoted taken := by
  fun_induction takeQuoted text generalizing taken rest with
  | case1 | case3 | case4 => cases h
  | case2 =>
    cases h
    exact .close
  | case5 _ _ hescape _ ih =>
    obtain ⟨⟨inside, after⟩, hrest, hpair⟩ := Option.map_eq_some_iff.1 h
    cases hpair
    exact .escape hescape (ih hrest)
  | case6 _ _ hquote hbackslash ih =>
    obtain ⟨⟨_, _⟩, hrest, hpair⟩ := Option.map_eq_some_iff.1 h
    cases hpair
    exact .plain hquote hbackslash (ih hrest)

/-- A string literal ends at its first quote that is not escaped, so there is one way to take it. -/
lemma Quoted.takeQuoted_append (h : Quoted taken) (rest : List Char) :
    takeQuoted (taken ++ rest) = some (taken, rest) := by
  induction h with
  | close =>
    unfold takeQuoted
    simp
  | plain hquote hbackslash _ ih =>
    unfold takeQuoted
    simp [hquote, hbackslash, ih]
  | escape hescape _ ih =>
    unfold takeQuoted
    simp [hescape, ih]

lemma takeText_prefix (expected rest : List Char) : takeText expected (expected ++ rest) = some rest := by
  induction expected with
  | nil => rfl
  | cons c expected ih => simp [takeText, ih]

/-- What a rule takes it describes. -/
lemma describes_take? (h : rule.take? text = some (taken, rest)) : rule.Describes taken := by
  cases rule with
  | word =>
    cases text with
    | nil => cases h
    | cons c text =>
      simp only [take?, Option.ite_none_right_eq_some, Option.some.injEq, Prod.mk.injEq] at h
      obtain ⟨hc, rfl, -⟩ := h
      exact ⟨c, _, rfl, hc, fun d hd => List.mem_takeWhile_imp hd⟩
  | number | blank => exact takeRun_all h
  | quoted =>
    cases text with
    | nil => cases h
    | cons c text =>
      simp only [take?, Option.ite_none_right_eq_some, Option.map_eq_some_iff] at h
      obtain ⟨rfl, ⟨inside, after⟩, hrest, hpair⟩ := h
      cases hpair
      exact ⟨inside, rfl, quoted_takeQuoted hrest⟩
  | comment =>
    simp only [take?, Option.map_eq_some_iff, Prod.mk.injEq] at h
    obtain ⟨after, -, rfl, -⟩ := h
    exact ⟨_, rfl, fun c hc => by simpa using List.mem_takeWhile_imp hc⟩
  | symbol kind expected =>
    simp only [take?, Option.map_eq_some_iff, Prod.mk.injEq] at h
    obtain ⟨_, -, rfl, -⟩ := h
    rfl

/-- Where a text that a rule describes stands, the rule takes at least that text. -/
lemma exists_take? (hd : rule.Describes other) (h : other <+: text) :
    ∃ taken rest, rule.take? text = some (taken, rest) ∧ other.length ≤ taken.length := by
  cases rule with
  | word =>
    obtain ⟨_, tail, rfl, hc, htail⟩ := hd
    obtain ⟨more, rfl⟩ := h
    refine ⟨_, _, if_pos hc, ?_⟩
    exact Nat.succ_le_succ (length_le_takeWhile htail (List.prefix_append tail more))
  | number | blank => exact ⟨_, _, takeRun_eq hd.1 hd.2 h, length_le_takeWhile hd.2 h⟩
  | quoted =>
    obtain ⟨inside, rfl, hinside⟩ := hd
    obtain ⟨more, rfl⟩ := h
    exact ⟨'"' :: inside, more, by simp [take?, hinside.takeQuoted_append], le_rfl⟩
  | comment =>
    obtain ⟨tail, rfl, htail⟩ := hd
    obtain ⟨more, rfl⟩ := h
    refine ⟨_, _, rfl, ?_⟩
    exact Nat.add_le_add_right (length_le_takeWhile (by simpa using htail) (prefix_append tail more)) 2
  | symbol kind expected =>
    cases hd
    obtain ⟨more, rfl⟩ := h
    exact ⟨_, more, by simp [take?, takeText_prefix], le_rfl⟩

lemma length_le_of_take? (ht : rule.take? text = some (taken, rest)) (hd : rule.Describes other)
    (h : other <+: text) : other.length ≤ taken.length := by
  obtain ⟨_, _, htake, hle⟩ := exists_take? hd h
  cases ht.symm.trans htake
  exact hle

/-! ### The order of the rules -/

/-- Whether a text that a rule describes can begin with a character. -/
def begins (c : Char) : LexRule → Bool
  | word => isWordStart c
  | number => c.isDigit
  | blank => Text.isBlank c
  | quoted => c = '"'
  | comment => c = '/'
  | symbol _ expected => expected.head? = some c

lemma Describes.begins (h : rule.Describes (c :: text)) : rule.begins c := by
  cases rule with
  | word =>
    obtain ⟨_, _, heq, hc, -⟩ := h
    cases heq
    exact hc
  | number | blank => exact h.2 c List.mem_cons_self
  | quoted | comment =>
    obtain ⟨_, heq, -⟩ := h
    cases heq
    rfl
  | symbol kind expected =>
    cases h
    simp [LexRule.begins]

/-- The rules whose texts begin with a character of a class. -/
def classed : List LexRule := [word, number, blank, quoted]

/-- The rules whose texts begin with a text that is spelled out. -/
def spelled : List LexRule := comment :: symbols

def opening : LexRule → List Char
  | comment => ['/', '/']
  | symbol _ expected => expected
  | word | number | blank | quoted => []

lemma toNat_of_isWordStart {c} (h : isWordStart c) :
    65 ≤ c.toNat ∧ c.toNat ≤ 90 ∨ 97 ≤ c.toNat ∧ c.toNat ≤ 122 ∨ c.toNat = 95 := by
  have h : (decide (c.val ≥ 65 ∧ c.val ≤ 90) || (c.val ≥ 97 && c.val ≤ 122) || c = '_') = true := h
  simp only [Bool.or_eq_true, Bool.and_eq_true, decide_eq_true_eq, ge_iff_le, UInt32.le_iff_toNat_le] at h
  rcases h with (⟨h1, h2⟩ | ⟨h1, h2⟩) | rfl
  · exact .inl ⟨h1, h2⟩
  · exact .inr (.inl ⟨h1, h2⟩)
  · exact .inr (.inr rfl)

lemma toNat_of_isDigit {c : Char} (h : c.isDigit) : 48 ≤ c.toNat ∧ c.toNat ≤ 57 := by
  simp only [Char.isDigit, Bool.and_eq_true, decide_eq_true_eq, ge_iff_le, UInt32.le_iff_toNat_le] at h
  exact h

lemma toNat_of_isBlank {c} (h : Text.isBlank c) : c.toNat ≤ 32 ∨ 133 ≤ c.toNat := by
  simp [Text.isBlank, Text.inRanges, Text.blankRanges] at h
  omega

/-- The classes do not meet. -/
lemma pairwise_classed (c : Char) : classed.Pairwise fun first second => ¬(first.begins c ∧ second.begins c) := by
  have hword := @toNat_of_isWordStart c
  have hdigit := @toNat_of_isDigit c
  have hblank := @toNat_of_isBlank c
  have hquote : decide (c = '"') = true → c.toNat = 34 := by simp +contextual
  simp only [classed, pairwise_cons, mem_cons, not_mem_nil, or_false, forall_eq_or_imp, forall_eq,
    begins, not_and]
  refine ⟨⟨fun h h' => ?_, fun h h' => ?_, fun h h' => ?_⟩, ⟨fun h h' => ?_, fun h h' => ?_⟩, fun h h' => ?_, by simp⟩
  · have := hword h; have := hdigit h'; omega
  · have := hword h; have := hblank h'; omega
  · have := hword h; have := hquote h'; omega
  · have := hdigit h; have := hblank h'; omega
  · have := hdigit h; have := hquote h'; omega
  · have := hblank h; have := hquote h'; omega

/-- No class has a character that a text spelled out begins with. -/
lemma not_begins_classed (h : rule ∈ spelled) (hc : rule.begins c) : ∀ other ∈ classed, other.begins c = false := by
  simp only [spelled, symbols, mem_cons, not_mem_nil, or_false] at h
  rcases h with rfl | rfl | rfl | rfl | rfl | rfl | rfl | rfl | rfl | rfl | rfl | rfl | rfl | rfl |
    rfl | rfl | rfl | rfl |
    rfl | rfl | rfl | rfl | rfl | rfl | rfl | rfl
  all_goals
    simp only [begins, head?_cons, Option.some.injEq, decide_eq_true_eq] at hc
    subst hc
    decide

/-- Of the texts spelled out the longer ones come before their beginnings, and the only open one
comes first. -/
lemma pairwise_spelled : spelled.Pairwise fun first second => ¬first.opening <+: second.opening ∧ second ≠ comment := by
  decide

lemma opening_of_describes (h : rule ∈ spelled) (hd : rule.Describes other) : rule.opening <+: other := by
  cases rule with
  | comment =>
    obtain ⟨rest, rfl, -⟩ := hd
    exact prefix_append _ rest
  | symbol kind expected =>
    cases hd
    exact prefix_rfl
  | _ => simp [spelled, symbols] at h

lemma eq_opening_of_describes (h : rule ∈ spelled) (hne : rule ≠ comment)
    (hd : rule.Describes other) : other = rule.opening := by
  cases rule with
  | comment => exact absurd rfl hne
  | symbol kind expected => exact hd
  | _ => simp [spelled, symbols] at h

lemma describes_ne_nil (h : rule ∈ rules) (hd : rule.Describes other) : other ≠ [] := by
  obtain ⟨_, _, htake, -⟩ := exists_take? hd (prefix_append other [])
  rintro rfl
  obtain ⟨happend, hne⟩ := take?_append htake
  exact hne h (append_eq_nil_iff.1 happend).1

lemma begins_of_describes (h : rule ∈ rules) (hd : rule.Describes other)
    (ho : other <+: c :: text) : rule.begins c := by
  obtain ⟨_, _, rfl⟩ := exists_cons_of_ne_nil (describes_ne_nil h hd)
  obtain ⟨rfl, -⟩ := cons_prefix_cons.1 ho
  exact hd.begins

lemma rules_eq : rules = classed ++ spelled := rfl

/-- What a later rule describes at the front of a text is shorter than what an earlier one does. -/
lemma pairwise_rules (text : List Char) : rules.Pairwise fun first second => ∀ taken other, first.Describes taken →
    taken <+: text → second.Describes other → other <+: text → other.length < taken.length := by
  cases text with
  | nil =>
    refine pairwise_of_forall_mem_list fun _ _ _ hs taken other _ _ hd ho => ?_
    exact absurd (prefix_nil.1 ho) (describes_ne_nil hs hd)
  | cons c text =>
    have hclassed {rule} (h : rule ∈ classed) : rule ∈ rules := mem_append_left spelled h
    have hspelled {rule} (h : rule ∈ spelled) : rule ∈ rules := mem_append_right classed h
    rw [rules_eq, pairwise_append]
    refine ⟨?_, ?_, fun first hf second hs taken other ht htaken ho hother => ?_⟩
    · refine (pairwise_classed c).imp_of_mem fun hf hs hmeet taken other ht htaken ho hother => ?_
      exact absurd ⟨begins_of_describes (hclassed hf) ht htaken, begins_of_describes (hclassed hs) ho hother⟩ hmeet
    · refine pairwise_spelled.imp_of_mem fun {first second} hf hs hno taken other ht htaken ho hother => ?_
      obtain ⟨hno, hne⟩ := hno
      obtain rfl := eq_opening_of_describes hs hne ho
      have hopening := opening_of_describes hf ht
      -- if the later text were not shorter, then the earlier one would be its beginning
      by_contra hlt
      exact hno (prefix_of_prefix_length_le (hopening.trans htaken) hother (hopening.length_le.trans (by omega)))
    · have hbegins := begins_of_describes (hspelled hs) ho hother
      have hnot := not_begins_classed hs hbegins first hf
      rw [begins_of_describes (hclassed hf) ht htaken] at hnot
      cases hnot

end LexRule

/-! ### Pieces -/

namespace Piece

/-- A piece by one of the rules that stands at the front of a text, where no rule describes a longer
text. -/
structure Longest (piece : Piece) (text : List Char) : Prop where
  rule_mem : piece.rule ∈ rules
  describes : piece.rule.Describes piece.text
  front : piece.text <+: text
  longest : ∀ rule ∈ rules, ∀ other, rule.Describes other → other <+: text →
  other.length ≤ piece.text.length

lemma longest_first? {text rest piece} (h : first? text = some (piece, rest)) : piece.Longest text := by
  obtain ⟨_, _, _, hrules, htake, hnone⟩ := findSome?_eq_some_iff.1 h
  obtain ⟨⟨taken, rest⟩, htaken, hpair⟩ := Option.map_eq_some_iff.1 htake
  cases hpair
  have hdescribes := describes_take? htaken
  have hfront : taken <+: text := ⟨rest, (take?_append htaken).1⟩
  refine ⟨by simp [hrules], hdescribes, hfront, fun other ho found hd hfound => ?_⟩
  rw [hrules, mem_append, mem_cons] at ho
  rcases ho with ho | rfl | ho
  · obtain ⟨_, _, hsome, -⟩ := exists_take? hd hfound
    simpa [hsome] using hnone other ho
  · exact length_le_of_take? htaken hd hfound
  · have hpairwise := pairwise_rules text
    rw [hrules, pairwise_append] at hpairwise
    exact ((pairwise_cons.1 hpairwise.2.1).1 other ho taken found hdescribes hfront hd hfound).le

/-- The pieces of a text are each the longest where they stand. -/
lemma longest_cutWithin (bound : Nat) :
      ∀ {text before after piece}, (cutWithin bound text).1 = before ++ piece :: after →
      piece.Longest ((piece :: after).flatMap Piece.text ++ (cutWithin bound text).2) := by
  induction bound with
  | zero =>
    intro text before after piece h
    simp [cutWithin] at h
  | succ bound ih =>
    intro text before after piece h
    have happend := cutWithin_append (bound + 1) text
    rw [cutWithin] at h happend ⊢
    rcases hfirst : first? text with _ | ⟨_, _⟩
    · simp [hfirst] at h
    · simp only [hfirst] at h happend ⊢
      cases before with
      | nil =>
        obtain ⟨rfl, rfl⟩ := List.cons.inj h
        rw [happend.1]
        exact longest_first? hfirst
      | cons _ before => exact ih (List.cons.inj h).2

end Piece

end TraitLang
