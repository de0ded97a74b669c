import Mathlib.Data.List.Forall2
import TraitLang.Proofs.Lexing.Longest

/-! From the tokens of a text back to the text. The pieces of a text follow each other without gaps,
and all of them but white space and comments are tokens, so a text is what its tokens span and what
was skipped between them. -/
namespace TraitLang

open Piece List Text

/-- A span of a text, with what stands there. It begins and ends between two characters. -/
def Span.Covers (source : List Char) (span : Span) (text : List Char) : Prop :=
  ∃ before after, source = before ++ text ++ after ∧ span.start.offset = byteLength before ∧
    span.stop.offset = byteLength (before ++ text)

namespace Piece

def isSkipped (piece : Piece) : Bool := piece.rule = .blank || piece.rule = .comment

/-- Pieces that follow each other from an offset on, each with its place. -/
def places (file : String) : (offset : Nat) → List Piece → List (Span × Piece)
  | _, [] => []
  | offset, piece :: pieces =>
    let next := offset + byteLength piece.text
    (⟨⟨offset, file⟩, ⟨next, file⟩⟩, piece) :: places file next pieces

lemma covers_of_mem_places {file pieces place} :
    ∀ {offset} before, offset = byteLength before → place ∈ places file offset pieces →
      place.1.Covers (before ++ pieces.flatMap text) place.2.text := by
  induction pieces with
  | nil =>
    intro offset before _ h
    cases h
  | cons piece pieces ih =>
    intro offset before hoffset h
    rw [flatMap_cons]
    rcases mem_cons.1 h with rfl | h
    · exact ⟨before, _, (append_assoc ..).symm, hoffset, by simp [hoffset]⟩
    · rw [← append_assoc]
      exact ih (before ++ piece.text) (by simp [hoffset]) h

lemma token?_isSome (piece : Piece) : piece.token?.isSome = !piece.isSkipped := by
  obtain ⟨rule, _⟩ := piece
  cases rule <;> rfl

end Piece

namespace Token

/-- A token for a piece of a text. String literals stand for something else than their own text. -/
structure Spells (token : Token) (place : Span × Piece) : Prop where
  span_eq : token.span = place.1
  token?_eq : place.2.token? = some (token.kind, token.value)
  value_eq : token.kind ≠ .string → token.value.toList = place.2.text

lemma spells_of_token? {piece} (hd : piece.rule.Describes piece.text) {kind value}
    (h : piece.token? = some (kind, value)) (span : Span) : Spells ⟨kind, value, span⟩ (span, piece) := by
  refine ⟨rfl, h, fun hk => ?_⟩
  obtain ⟨rule, _⟩ := piece
  cases rule with
  | word | number =>
    cases h
    exact String.toList_ofList
  | blank | comment => cases h
  | quoted =>
    cases h
    exact absurd rfl hk
  | symbol kind expected =>
    cases h
    exact String.toList_ofList.trans hd.symm

variable {pieces : List Piece} {file source : String}

/-- The tokens of some pieces are those of the pieces that are not skipped, up to the end of the
text. -/
lemma exists_ofPieces (file : String) : (∀ piece ∈ pieces, piece.rule.Describes piece.text) →
      ∀ offset : Nat, ∃ body, ofPieces file offset pieces = body ++ [endOfText
      ⟨offset + byteLength (pieces.flatMap text), file⟩] ∧ Forall₂ Spells body
        ((places file offset pieces).filter fun place => !place.2.isSkipped) := by
  induction pieces with
  | nil => exact fun _ offset => ⟨[], rfl, .nil⟩
  | cons piece pieces ih =>
    intro hd offset
    obtain ⟨hpiece, hpieces⟩ := forall_mem_cons.1 hd
    obtain ⟨body, htokens, hspells⟩ := ih hpieces (offset + byteLength piece.text)
    have hsome := piece.token?_isSome
    rw [Nat.add_assoc, ← byteLength_append, ← flatMap_cons] at htokens
    unfold ofPieces places
    dsimp only
    rcases htoken : piece.token? with _ | ⟨kind, value⟩
    · grind
    · rw [htoken, Option.isSome_some] at hsome
      rw [filter_cons_of_pos (by simp [← hsome])]
      refine ⟨⟨kind, value, ⟨⟨offset, file⟩, ⟨offset + byteLength piece.text, file⟩⟩⟩ :: body, ?_,
        .cons (spells_of_token? hpiece htoken _) hspells⟩
      rw [htokens, cons_append]

lemma exists_place_of_mem {body : List Token} {places token} (h : Forall₂ Spells body places)
    (ht : token ∈ body) : ∃ place ∈ places, token.Spells place := by
  induction h with
  | nil => cases ht
  | cons hspells _ ih => grind

/-- The tokens before the end of a text are not empty and follow each other. -/
lemma Fill.ordered {size last body} : ∀ {low}, Fill file size low (body ++ [last]) →
      (∀ token ∈ body, token.kind ≠ .eof ∧ low ≤ token.span.start.offset ∧ token.span.Inside file size) ∧
        body.Pairwise fun first second => first.span.stop.offset ≤ second.span.start.offset := by
  induction body with
  | nil => exact fun _ => ⟨by simp, .nil⟩
  | cons token body ih =>
    rintro low ⟨hlow, hfill⟩
    split at hfill
    next => simp at hfill
    next hk =>
      obtain ⟨hinside, hfill⟩ := hfill
      obtain ⟨hbody, hpairwise⟩ := ih hfill
      refine ⟨forall_mem_cons.2 ⟨⟨hk, hlow, hinside⟩, fun other ho => ?_⟩,
        pairwise_cons.2 ⟨fun other ho => (hbody other ho).2.1, hpairwise⟩⟩
      obtain ⟨hother, hle, hin⟩ := hbody other ho
      exact ⟨hother, hlow.trans (hinside.lt.le.trans hle), hin⟩

/-- The pieces that the tokens of a text are made of. -/
lemma exists_pieces {tokens} (h : scan file source = .ok tokens) :
    ∃ pieces, tokens = ofPieces file 0 pieces ∧ pieces.flatMap text = source.toList ∧
      (∀ piece ∈ pieces, piece.rule.Describes piece.text) ∧ ∀ before piece after,
      pieces = before ++ piece :: after → piece.Longest ((piece :: after).flatMap text) := by
  unfold scan at h
  dsimp only at h
  split at h
  next hleft =>
    obtain rfl := Except.ok.inj h
    have happend := (cutWithin_append source.toList.length source.toList).1
    have hlongest := @longest_cutWithin source.toList.length source.toList
    change (cutWithin source.toList.length source.toList).2 = [] at hleft
    rw [hleft, append_nil] at happend
    simp only [hleft, append_nil] at hlongest
    refine ⟨_, rfl, happend, fun piece hp => ?_, fun _ _ _ => hlongest⟩
    obtain ⟨_, _, heq⟩ := append_of_mem hp
    exact (hlongest heq).describes
  next => cases h

/-- The tokens of a text before its end are those of the pieces that are not skipped. -/
lemma exists_body (h : scan file source = .ok (ofPieces file 0 pieces)) (hp : pieces.flatMap text = source.toList)
    (hd : ∀ piece ∈ pieces, piece.rule.Describes piece.text) :
    ∃ body, ofPieces file 0 pieces = body ++ [endOfText ⟨source.utf8ByteSize, file⟩] ∧
      (∀ token ∈ body, token.kind ≠ .eof ∧ token.span.Inside file source.utf8ByteSize) ∧
      (body.Pairwise fun first second => first.span.stop.offset ≤ second.span.start.offset) ∧
      Forall₂ Spells body ((places file 0 pieces).filter fun place => !place.2.isSkipped) := by
  have hfill := fill_scan h
  obtain ⟨body, htokens, hspells⟩ := exists_ofPieces file hd 0
  rw [Nat.zero_add, hp, ← utf8ByteSize_eq] at htokens
  rw [htokens] at hfill
  obtain ⟨hbody, hpairwise⟩ := hfill.ordered
  exact ⟨body, htokens, fun token ht => ⟨(hbody token ht).1, (hbody token ht).2.2⟩, hpairwise, hspells⟩

lemma covers_of_spells {body token} (hp : pieces.flatMap text = source.toList)
    (h : Forall₂ Spells body ((places file 0 pieces).filter fun place => !place.2.isSkipped))
    (ht : token ∈ body) : ∃ text, token.span.Covers source.toList text ∧
    (token.kind ≠ .string → token.value.toList = text) := by
  obtain ⟨place, hplace, hspells⟩ := exists_place_of_mem h ht
  have hcovers := covers_of_mem_places [] rfl (mem_filter.1 hplace).1
  rw [nil_append, hp, ← hspells.span_eq] at hcovers
  exact ⟨_, hcovers, hspells.value_eq⟩

/-- Nothing of a text is lost in its tokens. Their spans are not empty, follow each other and cover
their texts. The text is cut into pieces by the rules, each as long as any rule can make it. White
space and comments are skipped, and each of the other pieces makes the token that has its place,
with the kind and the value that its rule gives it. -/
theorem lossless_scan {file source : String} {tokens : List Token}
    (h : scan file source = .ok tokens) : ∃ body, tokens = body ++ [endOfText ⟨source.utf8ByteSize,
    file⟩] ∧ (∀ token ∈ body, token.kind ≠ .eof ∧ token.span.Inside file source.utf8ByteSize) ∧
      (body.Pairwise fun first second => first.span.stop.offset ≤ second.span.start.offset) ∧
      (∀ token ∈ body, ∃ text,
      token.span.Covers source.toList text ∧ (token.kind ≠ .string → token.value.toList = text)) ∧
      ∃ pieces : List Piece, pieces.flatMap text = source.toList ∧ Forall₂ (fun token place =>
        token.span = place.1 ∧ place.2.token? = some (token.kind, token.value)) body
          ((places file 0 pieces).filter fun place => !place.2.isSkipped) ∧ ∀ before piece after,
        pieces = before ++ piece :: after → piece.Longest ((piece :: after).flatMap text) := by
  obtain ⟨pieces, rfl, hpieces, hdescribes, hlongest⟩ := exists_pieces h
  obtain ⟨body, htokens, hbody, hpairwise, hspells⟩ := exists_body h hpieces hdescribes
  exact ⟨body, htokens, hbody, hpairwise, fun token ht => covers_of_spells hpieces hspells ht, pieces, hpieces,
    hspells.imp fun token place hspell => ⟨hspell.span_eq, hspell.token?_eq⟩, hlongest⟩

/-- Symbols that begin each other, a comment, and characters of several bytes. -/
def mixed : String := "a->-b//é\n=== \"ü\\n\" /=!"

theorem lossless_scan_mixed :
      ∃ tokens, scan "a" mixed = .ok tokens ∧ ∃ body, tokens = body ++ [endOfText ⟨24, "a"⟩] ∧
      (body.Pairwise fun first second => first.span.stop.offset ≤ second.span.start.offset) ∧
      ∃ pieces : List Piece, pieces.flatMap text = mixed.toList ∧ Forall₂ (fun token place =>
        token.span = place.1 ∧ place.2.token? = some (token.kind, token.value)) body
          ((places "a" 0 pieces).filter fun place => !place.2.isSkipped) := by
  have hscan : (scan "a" mixed).isOk := by decide +kernel
  obtain ⟨tokens, h⟩ := exists_eq_ok hscan
  obtain ⟨body, htokens, -, hpairwise, -, pieces, hpieces, hspells, -⟩ := lossless_scan h
  have hsize : mixed.utf8ByteSize = 24 := by decide +kernel
  exact ⟨tokens, h, body, htokens, hpairwise, pieces, hpieces, hspells⟩

end Token

end TraitLang
