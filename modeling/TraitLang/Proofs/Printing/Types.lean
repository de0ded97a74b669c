import TraitLang.Proofs.Parsing.Moving
import TraitLang.Proofs.Printing.RoundTrip

/-! Reading a printed type gives the type back. Nothing stands around a name in the text of a type
but parentheses, commas and spaces, none of which is a part of a word. So the text is cut at these,
and the words between them are the names. -/
namespace TraitLang

open Lexeme Parse List Token Cursor Text

/-! ### Texts cut piece by piece -/

namespace Piece

open LexRule

/-- A text before another one is cut into pieces for some lexemes, whatever becomes of the other
one. -/
def Spells (text more : List Char) (ls : List Lexeme) : Prop :=
  ∃ pieces : List Piece, cut (text ++ more) = (pieces ++ (cut more).1, (cut more).2) ∧ pieces.filterMap token? = ls

/-- The end of a text, or what is no part of a word. -/
def EndsWord (more : List Char) : Prop := ∀ c ∈ more.head?, isWordPart c = false

/-- A text that begins with no blank and is cut into pieces for some lexemes wherever no word goes
on behind it. -/
structure Spelled (text : List Char) (ls : List Lexeme) : Prop where
  exists_cons : ∃ c rest, text = c :: rest ∧ isBlank c = false
  spells : ∀ more, EndsWord more → Spells text more ls

variable {first second text more word : List Char} {ls rs : List Lexeme}

lemma Spells.append (h1 : Spells first (second ++ more) ls) (h2 : Spells second more rs) :
    Spells (first ++ second) more (ls ++ rs) := by
  obtain ⟨xs, hxs, rfl⟩ := h1
  obtain ⟨ys, hys, rfl⟩ := h2
  refine ⟨xs ++ ys, ?_, filterMap_append⟩
  rw [append_assoc, hxs, hys, append_assoc]

lemma spells_of_first? {piece} (h : first? (text ++ more) = some (piece, more)) :
    Spells text more piece.token?.toList := by
  refine ⟨[piece], cut_of_first? h, ?_⟩
  cases ht : piece.token? with
  | none => rw [filterMap_cons_none ht]; rfl
  | some lexeme => rw [filterMap_cons_some ht]; rfl

lemma spells_word (hw : LexRule.word.Describes word) (hm : EndsWord more) :
    Spells word more [(TokenKind.ofWord (String.ofList word), String.ofList word)] := by
  obtain ⟨c, tail, rfl, hc, htail⟩ := hw
  have htake : (tail ++ more).takeWhile isWordPart = tail ∧ (tail ++ more).dropWhile isWordPart = more := by
    rw [takeWhile_append_of_pos htail, dropWhile_append_of_pos htail]
    cases more with
    | nil => simp
    | cons d more => simp [hm d rfl]
  refine @spells_of_first? _ _ ⟨.word, c :: tail⟩ ?_
  simp [first?, rules, take?, hc, htake]

lemma spells_open (more : List Char) : Spells ['('] more [(.openParen, "(")] := @spells_of_first? ['('] more _ rfl

lemma spells_close (more : List Char) : Spells [')'] more [(.closeParen, ")")] := @spells_of_first? [')'] more _ rfl

lemma spells_space {c} (hc : isBlank c = false) (rest : List Char) : Spells [' '] (c :: rest) [] :=
  @spells_of_first? _ _ ⟨.blank, [' ']⟩ (first?_space hc rest)

lemma spells_comma {c} (hc : isBlank c = false) (rest : List Char) : Spells [',', ' '] (c :: rest) [comma] :=
  @Spells.append [','] [' '] (c :: rest) _ _ (spells_of_first? rfl) (spells_space hc rest)

lemma spells_ampersand {c} (hc : isBlank c = false) (rest : List Char) :
    Spells [' ', '&', ' '] (c :: rest) [(.ampersand, "&")] := by
  have hsymbol := @Spells.append ['&'] [' '] (c :: rest) _ _ (spells_of_first? rfl) (spells_space hc rest)
  exact @Spells.append [' '] ['&', ' '] (c :: rest) _ _ (spells_space (by decide) _) hsymbol

lemma Spelled.exists_cons_intercalate (h : Spelled text ls) (separator : List Char) (texts : List (List Char)) :
    ∃ c rest, separator.intercalate (text :: texts) = c :: rest ∧ isBlank c = false := by
  obtain ⟨c, rest, rfl, hblank⟩ := h.exists_cons
  cases texts with
  | nil => exact ⟨c, rest, intercalate_singleton, hblank⟩
  | cons => exact ⟨c, _, intercalate_cons_cons, hblank⟩

lemma spells_intercalate {separator lexeme texts rs}
    (hs : ∀ {c}, isBlank c = false → ∀ rest, Spells separator (c :: rest) [lexeme]) (hends : ∀ rest,
    EndsWord (separator ++ rest)) (hm : EndsWord more) (h : Forall₂ Spelled texts rs) :
    Spells (separator.intercalate texts) more ([lexeme].intercalate rs) := by
  induction h with
  | nil => exact ⟨[], rfl, rfl⟩
  | @cons _ _ texts _ htext htexts ih =>
    cases htexts with
    | nil =>
      rw [intercalate_singleton, intercalate_singleton]
      exact htext.spells more hm
    | @cons _ _ texts _ hnext =>
      rw [intercalate_cons_cons, intercalate_cons_cons]
      obtain ⟨_, rest, hc, hblank⟩ := hnext.exists_cons_intercalate separator texts
      refine Spells.append (Spells.append (htext.spells _ (hends _)) ?_) ih
      rw [hc]
      exact hs hblank (rest ++ more)

end Piece

lemma Identifier.spelled (name : Identifier) : Piece.Spelled name.text.toList [(.identifier, name.text)] where
  exists_cons := by
    obtain ⟨c, tail, htext, -⟩ := name.isWord
    have hword := name.isWord
    rw [htext] at hword
    exact ⟨c, tail, htext, Piece.isBlank_eq_false (by decide) (by decide) hword⟩
  spells more hm := by
    have hspells := Piece.spells_word name.isWord hm
    rwa [String.ofList_toList, name.ofWord_text] at hspells

/-! ### Texts of types -/

namespace TypeExpr

/-- A text that can be given to things. -/
def IsName (text : String) : Prop := ∃ name : Identifier, name.text = text

mutual

/-- All names are identifiers, and there is a trait wherever traits are listed. -/
def Legible : TypeExpr → Prop
  | .name text _ => IsName text
  | .tuple elements _ => LegibleAll elements
  | .existential traits _ => traits ≠ [] ∧ ∀ trait ∈ traits, IsName trait.name

def LegibleAll : List TypeExpr → Prop
  | [] => True
  | element :: elements => element.Legible ∧ LegibleAll elements

end

mutual

def lexemes : TypeExpr → List Lexeme
  | .name text _ => [(.identifier, text)]
  | .tuple elements _ => parens (commas (lexemesAll elements))
  | .existential traits _ => (.anyWord, "any") :: [(.ampersand, "&")].intercalate (traits.map
      fun trait => [(.identifier, trait.name)])

def lexemesAll : List TypeExpr → List (List Lexeme)
  | [] => []
  | element :: elements => element.lexemes :: lexemesAll elements

end

open Piece

lemma spelled_traits {traits : List TraitName} (h : ∀ trait ∈ traits, IsName trait.name) :
    Forall₂ Spelled ((traits.map TraitName.name).map String.toList) (traits.map fun trait =>
    [(.identifier, trait.name)]) := by
  rw [map_map, forall₂_map_left_iff, forall₂_map_right_iff, forall₂_same]
  intro trait ht
  obtain ⟨name, hname⟩ := h trait ht
  have hspelled := name.spelled
  rwa [hname] at hspelled

mutual

/-- The text of a type is cut into its lexemes. -/
lemma spelled_describe (type : TypeExpr) (h : type.Legible) : Spelled type.describe.toList type.lexemes := by
  cases type with
  | name text span =>
    obtain ⟨name, rfl⟩ := h
    exact name.spelled
  | tuple elements span =>
    have htext : (tuple elements span).describe.toList =
        ['('] ++ ([',', ' '].intercalate ((describeAll elements).map String.toList) ++ [')']) := by
      simp [describe, String.toList_intercalate]
    rw [htext]
    refine ⟨⟨'(', _, rfl, by decide⟩, fun more hm => ?_⟩
    have hclose : EndsWord ([')'] ++ more) := by
      rintro c ⟨⟩
      decide
    have hinside := spells_intercalate spells_comma (fun rest c hc => by cases hc; decide) hclose
        (spelled_describeAll elements h)
    rw [lexemes, Grammar.commas_eq]
    exact (spells_open _).append (hinside.append (spells_close more))
  | existential traits span =>
    have htext : (existential traits span).describe.toList = ['a', 'n', 'y'] ++ ([' '] ++ [' ', '&',
        ' '].intercalate ((traits.map TraitName.name).map String.toList)) := by
      simp [describe, String.toList_intercalate]
    rw [htext]
    refine ⟨⟨'a', _, rfl, by decide⟩, fun more hm => ?_⟩
    obtain ⟨hne, hnamed⟩ := h
    obtain ⟨trait, traits, rfl⟩ := exists_cons_of_ne_nil hne
    have hall := spelled_traits hnamed
    have hnames := spells_intercalate spells_ampersand (fun rest c hc => by cases hc; decide) hm hall
    obtain ⟨c, _, hc, hblank⟩ := (forall₂_cons.1 hall).1.exists_cons_intercalate [' ', '&', ' ']
      ((traits.map TraitName.name).map String.toList)
    have hspace : Spells [' '] ([' ', '&', ' '].intercalate (((trait :: traits).map
        TraitName.name).map String.toList) ++ more) [] := by grind [spells_space]
    have hany : LexRule.word.Describes ['a', 'n', 'y'] := ⟨'a', ['n', 'y'], rfl, by decide, all_eq_true.1 rfl⟩
    exact (spells_word hany (fun c hc => by cases hc; decide)).append (hspace.append hnames)

lemma spelled_describeAll (elements : List TypeExpr) (h : LegibleAll elements) :
    Forall₂ Spelled ((describeAll elements).map String.toList) (lexemesAll elements) := by
  cases elements with
  | nil => exact .nil
  | cons element elements => exact .cons (spelled_describe element h.1) (spelled_describeAll elements h.2)

end

/-! ### Reading -/

open Grammar Relabeling

def Written (type : TypeExpr) (ls : List Lexeme) : Prop := type.Legible ∧ type.lexemes = ls

lemma written_all : ∀ {elements}, LegibleAll elements → Forall₂ Written elements (lexemesAll elements)
  | [], _ => .nil
  | _ :: _, h => .cons ⟨h.1, rfl⟩ (written_all h.2)

lemma written_traits (traits : List TraitName) : Forall₂ (fun trait ls => ls = [(.identifier, trait.name)]) traits
    (traits.map fun trait => [((.identifier, trait.name) : Lexeme)]) :=
  forall₂_map_right_iff.2 (forall₂_same.2 fun _ _ => rfl)

lemma map_eq_map {α β : Type} {f : α → β} {xs ys} (h : Forall₂ (fun x y => f y = f x) xs ys) : ys.map f = xs.map f := by
  induction h with
  | nil => rfl
  | cons hxy _ ih => rw [map_cons, map_cons, hxy, ih]

variable {limit : Nat} {read : Reader} {c : Cursor} {tokens rest : List Token} {next : Token}

lemma makes_traitName : Makes traitName limit (fun _ => True)
    (fun (trait : TraitName) ls => ls = [(.identifier, trait.name)]) fun _ _ trait found =>
    nowhere.traitName found = nowhere.traitName trait where
  run := by
    rintro trait _ c tokens rest next rfl h -
    obtain ⟨_, rfl, htoken⟩ := map_eq_singleton_iff.1 h.text
    refine ensures_expectFor_bind h.tokens_eq (by simp) (congrArg Prod.fst htoken) (by simp) fun c1 h1 => ?_
    exact ensures_pure.2 ⟨h1, congrArg (TraitName.mk · _) (congrArg Prod.snd htoken)⟩
  mono _ _ _ _ _ _ h _ _ := h
  start := by
    rintro trait _ rfl
    exact ⟨_, _, rfl, by simp⟩

abbrev Reads (item : Parse TypeExpr) (limit : Nat) : Prop :=
  Makes item limit (· ≠ .ampersand) Written fun _ _ type found => nowhere.type found = nowhere.type type

lemma Written.exists_cons {type : TypeExpr} {ls} (h : type.Written ls) :
    ∃ first more, ls = first :: more ∧ first.1 ≠ .closeParen := by
  obtain ⟨-, rfl⟩ := h
  cases type with
  | name | tuple | existential => exact ⟨_, _, rfl, by simp⟩

lemma reads_rule (hread : Reads (read .typeExpr) limit) : Reads (Phrase.rule read .typeExpr) (limit + 1) where
  run := by
    rintro type _ c tokens rest next ⟨hlegible, rfl⟩ h hn
    show Ensures (typeExpr read) c _
    refine ensures_current_bind.2 ?_
    obtain ⟨first, _, hfirst, -⟩ := Written.exists_cons ⟨hlegible, rfl⟩
    obtain ⟨token, xs, rfl, htoken⟩ := (hfirst ▸ h).exists_cons
    rw [current_eq h.tokens_eq]
    have hk : token.kind = first.1 := congrArg Prod.fst htoken
    cases type with
    | name text span =>
      obtain ⟨rfl, rfl⟩ := cons.inj hfirst
      obtain rfl := map_eq_nil_iff.1 (cons.inj h.text).2
      rw [hk]
      refine ensures_advance_bind h.tokens_eq (by simp) (by simp [hk]) fun c1 h1 => ?_
      exact ensures_pure.2 ⟨h1, congrArg (TypeExpr.name · _) (congrArg Prod.snd htoken)⟩
    | tuple elements span =>
      obtain ⟨rfl, -⟩ := cons.inj hfirst
      have hlist : Ahead (limit + 1) (parens (commas (lexemesAll elements) ++ if false then [comma]
          else [])) c (token :: xs) next rest := by
        rw [if_neg Bool.false_ne_true, append_nil]
        exact h
      rw [hk]
      refine ensures_list_bind hread (written_all hlegible) (by decide) (by decide) (fun _ => rfl) hlist ?_
      intro _ found c1 _ h1 hfound
      refine (ensures_spanFrom h1 h.forward mem_cons_self).bind ?_
      rintro span' _ ⟨rfl, -⟩
      refine ensures_pure.2 ⟨h1, congrArg (TypeExpr.tuple · _) ?_⟩
      rw [types_eq, types_eq, map_eq_map hfound]
    | existential traits span =>
      obtain ⟨rfl, -⟩ := cons.inj hfirst
      rw [hk]
      refine ensures_advance_bind h.tokens_eq (by simp) (by simp [hk]) fun c1 h1 => ?_
      have hxs : Ahead limit ([(.ampersand, "&")].intercalate _) c1 xs next rest := h.tail h1
      refine (ensures_get_bind.2 (ensures_separatedWithin makes_traitName (written_traits traits)
        trivial trivial (by decide) hn hlegible.1 hxs (length_lt hxs.tokens_eq))).bind ?_
      rintro found c2 ⟨h2, hfound⟩
      refine (ensures_spanFrom (h1.trans h2) h.forward mem_cons_self).bind ?_
      rintro span' _ ⟨rfl, -⟩
      exact ensures_pure.2 ⟨h1.trans h2, congrArg (TypeExpr.existential · _) (map_eq_map hfound)⟩
  mono _ _ _ _ _ _ h _ _ := h
  start _ _ h := h.exists_cons

lemma reads_readWithin (depth : Nat) : Reads (Phrase.readWithin depth .typeExpr) depth := by
  induction depth with
  | zero =>
    refine ⟨fun type ls c tokens rest next hw h => ?_, fun _ _ _ _ _ _ h _ _ => h, fun _ _ h => h.exists_cons⟩
    obtain ⟨_, _, rfl, -⟩ := hw.exists_cons
    obtain ⟨_, _, rfl, -⟩ := h.exists_cons
    exact absurd h.length_le (by simp)
  | succ depth ih => exact reads_rule ih

/-- A printed type is read as itself, up to places, and nothing of its text is left. -/
theorem read_describe {type : TypeExpr}
    (h : type.Legible) (file : String) : ∃ tokens, scan file type.describe = .ok tokens ∧
    ∃ found c', Phrase.read .typeExpr (ofTokens file tokens) = .ok found c' ∧ c'.tokens = [endOfText
      ⟨type.describe.utf8ByteSize, file⟩] ∧ nowhere.type found = nowhere.type type := by
  obtain ⟨pieces, hcut, hpieces⟩ := (spelled_describe type h).spells [] (by simp [EndsWord])
  rw [append_nil] at hcut
  have hcut' : cut type.describe.toList = (pieces, []) := hcut.trans (by rw [cut, length_nil, cutWithin, append_nil])
  obtain ⟨body, hscan, hlexemes, hforward⟩ := scan_of_cut hcut' file
  have htokens : (ofTokens file (body ++ [endOfText ⟨type.describe.utf8ByteSize, file⟩])).tokens =
      body ++ endOfText ⟨type.describe.utf8ByteSize, file⟩ :: [] := by
    cases body <;> rfl
  have hlength : body.length ≤ 2 * (ofTokens file
      (body ++ [endOfText ⟨type.describe.utf8ByteSize, file⟩])).remaining + 2 := by
    have := length_lt htokens
    omega
  obtain ⟨found, c', hrun, hpasses, hfound⟩ := (reads_readWithin _).run ⟨h, rfl⟩
    ⟨hlexemes.trans hpieces, hforward, hlength, htokens⟩ (by simp [endOfText])
  exact ⟨_, hscan, found, c', hrun, hpasses.tokens_eq_of htokens, hfound⟩

/-- A tuple of the unit type, a type in parentheses and a type of two traits. -/
def nested : TypeExpr :=
  .tuple [.tuple [] ⟨⟨0, ""⟩, ⟨0, ""⟩⟩, .tuple [.name "int" ⟨⟨0, ""⟩, ⟨0, ""⟩⟩] ⟨⟨0, ""⟩, ⟨0, ""⟩⟩,
    .existential [⟨"Show", ⟨⟨0, ""⟩, ⟨0, ""⟩⟩⟩, ⟨"Eq", ⟨⟨0, ""⟩, ⟨0, ""⟩⟩⟩] ⟨⟨0, ""⟩, ⟨0, ""⟩⟩] ⟨⟨0, ""⟩, ⟨0, ""⟩⟩

theorem read_describe_nested : ∃ tokens, scan "a" "((), (int), any Show & Eq)" = .ok tokens ∧
    ∃ found c', Phrase.read .typeExpr (ofTokens "a" tokens) = .ok found c' ∧
    c'.tokens = [endOfText ⟨26, "a"⟩] ∧ nowhere.type found = nested := by
  have hint : IsName "int" := ⟨⟨"int", ⟨_, _, rfl, by decide, all_eq_true.1 rfl⟩, by simp [TokenKind.reserved]⟩, rfl⟩
  have hshow : IsName "Show" := ⟨⟨"Show", ⟨_, _, rfl, by decide, all_eq_true.1 rfl⟩, by simp [TokenKind.reserved]⟩, rfl⟩
  have heq : IsName "Eq" := ⟨⟨"Eq", ⟨_, _, rfl, by decide, all_eq_true.1 rfl⟩, by simp [TokenKind.reserved]⟩, rfl⟩
  have hlegible : nested.Legible := ⟨trivial, ⟨hint, trivial⟩, ⟨by simp, by simp [hshow, heq]⟩, trivial⟩
  exact read_describe hlegible "a"

end TypeExpr

end TraitLang
