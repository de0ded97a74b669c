import TraitLang.Grammar.Expr
import TraitLang.Proofs.Lexing.Spelling
import TraitLang.Proofs.Shape

/-! Expressions apart from any text, and their texts. The operands of an operator, a call and a
member access stand in parentheses, so that no power decides what belongs together. -/
namespace TraitLang

open List

/-- A name that can be given to things: a word that the grammar does not keep for itself. -/
structure Identifier where
  text : String
  isWord : LexRule.word.Describes text.toList
  free : ∀ kind, (text, kind) ∉ TokenKind.reserved

lemma Identifier.ofWord_text (name : Identifier) : TokenKind.ofWord name.text = .identifier := by
  unfold TokenKind.ofWord
  cases hl : TokenKind.reserved.lookup name.text with
  | none => rfl
  | some kind =>
    obtain ⟨_, _, heq, -⟩ := lookup_eq_some_iff.1 hl
    exact absurd (by simp [heq]) (name.free kind)

/-- An expression as such, without numbers and places of nodes. -/
inductive Term where
  | int (value : Fin (Grammar.maxInteger + 1))
  | str (value : String)
  | bool (value : Bool)
  | name (name : Identifier)
  | call (callee : Term) (arguments : List Term)
  | binary (operator : BinaryOperator) (left right : Term)
  | unary (operator : UnaryOperator) (operand : Term)
  | assign (assignee value : Term)
  | tuple (elements : List Term)
  | member (base : Term) (name : Identifier)
  /-- A condition has one clause at least. -/
  | cond (clause : Term) (clauses : List Term) (success failure : Term)

/-! ### Terms in a tree -/

namespace Tree

mutual

/-- The expression of a tree with a given number is a term. -/
def Denotes (tree : Tree) : Term → ExprId → Prop
  | .int value, id => ∃ span, tree.expr? id = some ⟨.int value.val, span⟩
  | .str value, id => ∃ span, tree.expr? id = some ⟨.str value, span⟩
  | .bool value, id => ∃ span, tree.expr? id = some ⟨.bool value, span⟩
  | .name name, id => ∃ span, tree.expr? id = some ⟨.name name.text, span⟩
  | .call callee arguments, id => ∃ f xs span, tree.expr? id = some ⟨.call f xs, span⟩ ∧
      tree.Denotes callee f ∧ tree.DenotesAll arguments xs
  | .binary operator left right, id => ∃ l r span,
      tree.expr? id = some ⟨.binary operator l r, span⟩ ∧ tree.Denotes left l ∧ tree.Denotes right r
  | .unary operator operand, id => ∃ x span, tree.expr? id = some ⟨.unary operator x, span⟩ ∧ tree.Denotes operand x
  | .assign assignee value, id => ∃ x y span, tree.expr? id = some ⟨.assign x y, span⟩ ∧
      tree.Denotes assignee x ∧ tree.Denotes value y
  | .tuple elements, id => ∃ xs span, tree.expr? id = some ⟨.tuple xs, span⟩ ∧ tree.DenotesAll elements xs
  | .member base name, id => ∃ x span, tree.expr? id = some ⟨.member x name.text, span⟩ ∧ tree.Denotes base x
  | .cond clause clauses success failure, id => ∃ x xs y z span,
      tree.expr? id = some ⟨.cond ((x :: xs).map .expr) y z, span⟩ ∧ tree.Denotes clause x ∧
      tree.DenotesAll clauses xs ∧ tree.Denotes success y ∧ tree.Denotes failure z

def DenotesAll (tree : Tree) : List Term → List ExprId → Prop
  | [], ids => ids = []
  | term :: terms, ids => ∃ x xs, ids = x :: xs ∧ tree.Denotes term x ∧ tree.DenotesAll terms xs

end

variable {small large : Tree}

mutual

/-- A term stays where it is when a tree grows. -/
lemma Denotes.mono {term id} (h : small.Denotes term id) (he : small.Extends large) : large.Denotes term id := by
  cases term with
  | int | str | bool | name =>
    obtain ⟨span, hx⟩ := h
    exact ⟨span, he.expr?_of_some hx⟩
  | call callee arguments =>
    obtain ⟨f, xs, span, hx, hf, hxs⟩ := h
    exact ⟨f, xs, span, he.expr?_of_some hx, hf.mono he, hxs.mono he⟩
  | binary operator left right =>
    obtain ⟨l, r, span, hx, hl, hr⟩ := h
    exact ⟨l, r, span, he.expr?_of_some hx, hl.mono he, hr.mono he⟩
  | unary operator operand =>
    obtain ⟨x, span, hx, ho⟩ := h
    exact ⟨x, span, he.expr?_of_some hx, ho.mono he⟩
  | assign assignee value =>
    obtain ⟨x, y, span, hx, ha, hv⟩ := h
    exact ⟨x, y, span, he.expr?_of_some hx, ha.mono he, hv.mono he⟩
  | tuple elements =>
    obtain ⟨xs, span, hx, hxs⟩ := h
    exact ⟨xs, span, he.expr?_of_some hx, hxs.mono he⟩
  | member base name =>
    obtain ⟨x, span, hx, hb⟩ := h
    exact ⟨x, span, he.expr?_of_some hx, hb.mono he⟩
  | cond clause clauses success failure =>
    obtain ⟨x, xs, y, z, span, hx, hc, hcs, hs, hf⟩ := h
    exact ⟨x, xs, y, z, span, he.expr?_of_some hx, hc.mono he, hcs.mono he, hs.mono he, hf.mono he⟩

lemma DenotesAll.mono {terms ids} (h : small.DenotesAll terms ids) (he : small.Extends large) :
    large.DenotesAll terms ids := by
  cases terms with
  | nil => exact h
  | cons term terms =>
    obtain ⟨x, xs, rfl, hx, hxs⟩ := h
    exact ⟨x, xs, rfl, hx.mono he, hxs.mono he⟩

end

end Tree

/-! ### Texts of terms -/

def BinaryOperator.kind : BinaryOperator → TokenKind
  | add => .plus
  | sub => .dash
  | mul => .star
  | div => .slash
  | rem => .percent
  | eq => .equals
  | ne => .notEquals
  | lt => .less
  | le => .lessEquals
  | gt => .greater
  | ge => .greaterEquals
  | and => .and
  | or => .or

def BinaryOperator.lexeme (operator : BinaryOperator) : Lexeme := (operator.kind, operator.symbol)

def UnaryOperator.lexeme : UnaryOperator → Lexeme
  | neg => (.dash, "-")
  | not => (.not, "!")

namespace Lexeme

def comma : Lexeme := (.comma, ",")

def enclosed (first last : Lexeme) (lexemes : List Lexeme) : List Lexeme :=
  first :: (lexemes ++ [last])

def parens : List Lexeme → List Lexeme := enclosed (.openParen, "(") (.closeParen, ")")

def braces : List Lexeme → List Lexeme := enclosed (.openCurly, "\x7b") (.closeCurly, "\x7d")

/-- Some lexemes after others, with commas between them. -/
def commas : List (List Lexeme) → List Lexeme
  | [] => []
  | [lexemes] => lexemes
  | lexemes :: more => lexemes ++ comma :: commas more

end Lexeme

namespace Term

open Lexeme

/-- The texts of a term. More parentheses may stand around any term. -/
inductive Written : Term → List Lexeme → Prop
  | int (value : Fin (Grammar.maxInteger + 1)) : Written (.int value) [(.number, toString value.val)]
  | str (value : String) : Written (.str value) [(.string, value)]
  | true : Written (.bool true) [(.trueWord, "true")]
  | false : Written (.bool false) [(.falseWord, "false")]
  | name (name : Identifier) : Written (.name name) [(.identifier, name.text)]
  | group {term : Term} {ls : List Lexeme} : Written term ls → Written term (parens ls)
  | call {callee : Term} {arguments : List Term} {ls : List Lexeme}
      {rs : List (List Lexeme)} : Written callee ls → Forall₂ Written arguments rs →
      Written (.call callee arguments) (parens ls ++ parens (commas rs))
  | binary {operator : BinaryOperator} {left right : Term} {ls rs : List Lexeme} : Written left ls → Written right rs →
      Written (.binary operator left right) (parens ls ++ operator.lexeme :: parens rs)
  | unary {operator : UnaryOperator} {operand : Term} {ls : List Lexeme} : Written operand ls →
      Written (.unary operator operand) (operator.lexeme :: parens ls)
  | assign {assignee value : Term} {ls rs : List Lexeme} : Written assignee ls → Written value rs →
      Written (.assign assignee value) (parens ls ++ (.assignment, "=") :: parens rs)
  | tuple {elements : List Term} {rs : List (List Lexeme)} : elements.length ≠ 1 →
      Forall₂ Written elements rs → Written (.tuple elements) (parens (commas rs))
  /-- A comma tells a tuple of one element from parentheses. -/
  | single {element : Term} {ls : List Lexeme} :
    Written element ls → Written (.tuple [element]) (parens (ls ++ [comma]))
  | member {base : Term} {name : Identifier} {ls : List Lexeme} : Written base ls →
      Written (.member base name) (parens ls ++ [(.dot, "."), (.identifier, name.text)])
  | cond {clause success failure : Term} {clauses : List Term}
      {rs : List (List Lexeme)} {ls ls' : List Lexeme} : Forall₂ Written (clause :: clauses) rs →
      Written success ls → Written failure ls' → Written (.cond clause clauses success failure)
        ((.ifWord, "if") :: (commas rs ++ (braces ls ++ (.elseWord, "else") :: braces ls')))

mutual

/-- The text of a term in which every inner term stands in parentheses. -/
def print : Term → List Lexeme
  | .int value => [(.number, toString value.val)]
  | .str value => [(.string, value)]
  | .bool value => [if value then (.trueWord, "true") else (.falseWord, "false")]
  | .name word => [(.identifier, word.text)]
  | .call callee arguments => parens callee.print ++ parens (commas (printAll arguments))
  | .binary operator left right => parens left.print ++ operator.lexeme :: parens right.print
  | .unary operator operand => operator.lexeme :: parens operand.print
  | .assign assignee value => parens assignee.print ++ (.assignment, "=") :: parens value.print
  | .tuple elements => parens (commas (printAll elements) ++ if elements.length = 1 then [comma] else [])
  | .member base word => parens base.print ++ [(.dot, "."), (.identifier, word.text)]
  | .cond clause clauses success failure =>
    (.ifWord, "if") :: (commas (parens clause.print :: printAll clauses) ++
      (braces (parens success.print) ++ (.elseWord, "else") :: braces (parens failure.print)))

def printAll : List Term → List (List Lexeme)
  | [] => []
  | term :: terms => parens term.print :: printAll terms

end

mutual

lemma written_print (term : Term) : term.Written term.print := by
  cases term with
  | int value => exact .int value
  | str value => exact .str value
  | bool value =>
    cases value with
    | true => exact .true
    | false => exact .false
  | name name => exact .name name
  | call callee arguments => exact .call (written_print callee) (written_printAll arguments)
  | binary operator left right => exact .binary (written_print left) (written_print right)
  | unary operator operand => exact .unary (written_print operand)
  | assign assignee value => exact .assign (written_print assignee) (written_print value)
  | tuple elements =>
    unfold print
    split
    next hone =>
      obtain ⟨element, rfl⟩ := length_eq_one_iff.1 hone
      exact .single (.group (written_print element))
    next hmany =>
      rw [append_nil]
      exact .tuple hmany (written_printAll elements)
  | member base name => exact .member (written_print base)
  | cond clause clauses success failure =>
    exact .cond (.cons (.group (written_print clause)) (written_printAll clauses))
      (.group (written_print success)) (.group (written_print failure))

lemma written_printAll (terms : List Term) : Forall₂ Written terms (printAll terms) := by
  cases terms with
  | nil => exact .nil
  | cons term terms => exact .cons (.group (written_print term)) (written_printAll terms)

end

/-! ### The lexemes of a text -/

variable {rs : List (List Lexeme)} {ls : List Lexeme}

lemma mem_commas {lexeme} (h : lexeme ∈ commas rs) : lexeme = comma ∨ ∃ ls ∈ rs, lexeme ∈ ls := by
  fun_induction commas rs with
  | case1 => cases h
  | case2 ls => exact .inr ⟨ls, mem_cons_self, h⟩
  | case3 ls more _ ih => grind

lemma legible_toString (n : Nat) : Legible (.number, toString n) := by
  have htext : (toString n).toList = Nat.toDigits 10 n := by simp_all
  refine legible_number ?_ ?_
  · rw [htext]
    exact Nat.toDigits_ne_nil
  · intro c hc
    rw [htext] at hc
    exact Nat.isDigit_of_mem_toDigits (by omega) (by omega) hc

lemma legible_identifier (name : Identifier) : Legible (.identifier, name.text) :=
  legible_word name.isWord name.ofWord_text (by decide)

lemma legible_enclosed {first last} (hf : first.Legible) (hl : last.Legible)
    (h : ∀ lexeme ∈ ls, lexeme.Legible) : ∀ lexeme ∈ enclosed first last ls, lexeme.Legible := by
  simp only [enclosed, mem_cons, mem_append, not_mem_nil, or_false]
  rintro lexeme (rfl | hmem | rfl)
  · exact hf
  · exact h lexeme hmem
  · exact hl

lemma legible_parens : (∀ lexeme ∈ ls, lexeme.Legible) → ∀ lexeme ∈ parens ls, lexeme.Legible :=
  legible_enclosed (legible_symbol (by decide)) (legible_symbol (by decide))

lemma legible_braces : (∀ lexeme ∈ ls, lexeme.Legible) → ∀ lexeme ∈ braces ls, lexeme.Legible :=
  legible_enclosed (legible_symbol (by decide)) (legible_symbol (by decide))

lemma legible_comma : Legible comma := legible_symbol (by decide)

lemma legible_commas (h : ∀ ls ∈ rs, ∀ lexeme ∈ ls, lexeme.Legible) : ∀ lexeme ∈ commas rs, lexeme.Legible := by
  intro lexeme hl
  rcases mem_commas hl with rfl | ⟨ls, hls, hl⟩
  · exact legible_comma
  · exact h ls hls lexeme hl

/-- All lexemes of a text can be read back. -/
lemma legible_written {term : Term} (h : term.Written ls) : ∀ lexeme ∈ ls, lexeme.Legible := by
  -- with a text, the texts of all terms in a list
  refine @Written.rec (fun _ ls _ => ∀ lexeme ∈ ls, lexeme.Legible) (fun _ rs _ => ∀ ls ∈ rs,
    ∀ lexeme ∈ ls, lexeme.Legible) ?int ?str ?true ?false ?name ?group ?call ?binary ?unary ?assign
    ?tuple ?single ?member ?cond ?nil ?cons _ _ h
  case int => exact fun value => by simpa using legible_toString value.val
  case str => exact fun value => by simpa using legible_string value
  case true => simpa using legible_word (by exact ⟨'t', _, rfl, by decide, all_eq_true.1 rfl⟩) (by decide) (by decide)
  case false => simpa using legible_word (by exact ⟨'f', _, rfl, by decide, all_eq_true.1 rfl⟩) (by decide) (by decide)
  case name => exact fun name => by simpa using legible_identifier name
  case group => exact fun _ => legible_parens
  case call =>
    intro _ _ _ _ _ _ hf hxs
    exact forall_mem_append.2 ⟨legible_parens hf, legible_parens (legible_commas hxs)⟩
  case binary =>
    intro operator _ _ _ _ _ _ hl hr
    have hoperator : Legible operator.lexeme := legible_symbol (by cases operator <;> decide)
    exact forall_mem_append.2 ⟨legible_parens hl, forall_mem_cons.2 ⟨hoperator, legible_parens hr⟩⟩
  case unary =>
    intro operator _ _ _ ho
    have hoperator : Legible operator.lexeme := by cases operator <;> exact legible_symbol (by decide)
    exact forall_mem_cons.2 ⟨hoperator, legible_parens ho⟩
  case assign =>
    intro _ _ _ _ _ _ hl hr
    exact forall_mem_append.2 ⟨legible_parens hl, forall_mem_cons.2 ⟨legible_symbol (by decide), legible_parens hr⟩⟩
  case tuple => exact fun _ _ hxs => legible_parens (legible_commas hxs)
  case single => exact fun _ hx => legible_parens (forall_mem_append.2 ⟨hx, by simpa using legible_comma⟩)
  case member =>
    intro _ name _ _ hb
    refine forall_mem_append.2 ⟨legible_parens hb, forall_mem_cons.2 ⟨legible_symbol (by decide), ?_⟩⟩
    simpa using legible_identifier name
  case cond =>
    intro _ _ _ _ _ _ _ _ _ _ hcs hs hf
    refine forall_mem_cons.2 ⟨legible_word ⟨'i', _, rfl, by decide, all_eq_true.1 rfl⟩ (by decide) (by decide), ?_⟩
    refine forall_mem_append.2 ⟨legible_commas hcs, forall_mem_append.2 ⟨legible_braces hs, ?_⟩⟩
    refine forall_mem_cons.2 ⟨legible_word ⟨'e', _, rfl, by decide, all_eq_true.1 rfl⟩ (by decide) (by decide), ?_⟩
    exact legible_braces hf
  case nil => simp
  case cons => exact fun _ _ hx hxs => forall_mem_cons.2 ⟨hx, hxs⟩

end Term

end TraitLang
