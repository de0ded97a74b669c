import TraitLang.Proofs.Parsing.Taking
import TraitLang.Proofs.Printing.Term

/-! Reading known tokens. Where the tokens ahead are known, a step of reading is known too: it
passes them, and a span that starts at one of them can be closed behind any later one. -/
namespace TraitLang

open List

namespace Token.Forward

variable {xs ys : List Token}

lemma sublist (h : Forward ys) (hs : xs.Sublist ys) : Forward xs :=
  ⟨fun token ht => h.start_le token (hs.subset ht), h.pairwise.sublist hs⟩

lemma left (h : Forward (xs ++ ys)) : Forward xs := h.sublist (sublist_append_left xs ys)

lemma right (h : Forward (xs ++ ys)) : Forward ys := h.sublist (sublist_append_right xs ys)

lemma le_last (h : Forward xs) {token last} (ht : token ∈ xs) (hl : xs.getLast? = some last) :
    token.span.start.offset ≤ last.span.stop.offset := by
  obtain ⟨_, rfl⟩ := getLast?_eq_some_iff.1 hl
  rcases mem_append.1 ht with ht | ht
  · exact (pairwise_append.1 h.pairwise).2.2 token ht last mem_cons_self
  · cases mem_singleton.1 ht
    exact h.start_le _ (mem_append_right _ mem_cons_self)

end Token.Forward

/-- An expression of a tree starts where one of some tokens does. -/
def Tree.StartsAt (tree : Tree) (tokens : List Token) (id : ExprId) : Prop :=
  ∃ token ∈ tokens, ∃ expr, tree.expr? id = some expr ∧ expr.span.start = token.span.start

lemma Tree.StartsAt.mono {small large : Tree} {xs ys id} (h : small.StartsAt xs id) (hs : xs ⊆ ys)
    (he : small.Extends large) : large.StartsAt ys id := by
  obtain ⟨token, ht, expr, hx, hstart⟩ := h
  exact ⟨token, hs ht, expr, he.expr?_of_some hx, hstart⟩

/-! ### Passing tokens -/

namespace Cursor

/-- From a cursor over some tokens to one behind them. -/
structure Passes (c : Cursor) (tokens : List Token) (c' : Cursor) : Prop where
  tokens_eq : c.tokens = tokens ++ c'.tokens
  previous_eq : c'.previous = tokens.getLast?.or c.previous
  extends_ : c.tree.Extends c'.tree

/-- From a cursor over the tokens of an expression to one behind them, in whose tree the expression
is the one wanted. -/
structure Gives (c : Cursor) (tokens : List Token) (holds : Tree → ExprId → Prop) (id : ExprId)
    (c' : Cursor) : Prop extends Passes c tokens c' where
  denotes : holds c'.tree id
  starts : c'.tree.StartsAt tokens id

abbrev Yields (c : Cursor) (tokens : List Token) (term : Term) : ExprId → Cursor → Prop :=
  c.Gives tokens fun tree => tree.Denotes term

variable {c c' c'' : Cursor} {xs ys : List Token}

protected lemma Passes.refl (c : Cursor) : c.Passes [] c := ⟨rfl, rfl, .refl _⟩

lemma Passes.trans (h1 : c.Passes xs c') (h2 : c'.Passes ys c'') : c.Passes (xs ++ ys) c'' := by
  refine ⟨?_, ?_, h1.extends_.trans h2.extends_⟩
  · rw [h1.tokens_eq, h2.tokens_eq, append_assoc]
  · rw [h2.previous_eq, h1.previous_eq, getLast?_append, Option.or_assoc]

lemma Passes.tokens_eq_of (h : c.Passes xs c') (ht : c.tokens = xs ++ ys) : c'.tokens = ys := by
  rw [h.tokens_eq] at ht
  exact append_cancel_left ht

lemma Passes.push (h : c.Passes xs c') (node : Node) : c.Passes xs { c' with tree := (c'.tree.push node).2 } :=
  ⟨h.tokens_eq, h.previous_eq, h.extends_.trans (.push ..)⟩

variable {token : Token}

lemma length_lt (h : c.tokens = xs ++ token :: ys) : xs.length < c.remaining + 1 := by
  have hlength := congrArg List.length h
  simp only [tokens, length_cons, length_append] at hlength
  rw [remaining]
  omega

lemma current_eq (h : c.tokens = token :: xs) : c.current = token := (cons.inj h).1

end Cursor

namespace Parse

open Cursor

variable {α : Type} {c c' : Cursor} {token : Token} {xs ys : List Token} {post : α → Cursor → Prop}

lemma ensures_kind_bind {f} : Ensures (kind >>= f) c post ↔ Ensures (f c.current.kind) c post :=
  Iff.rfl

variable {f : Token → Parse α} {wanted : TokenKind}

lemma ensures_current_bind : Ensures (current >>= f) c post ↔ Ensures (f c.current) c post :=
  Iff.rfl

section

variable (ht : c.tokens = token :: xs)

include ht

lemma ensures_advance_bind (hne : xs ≠ []) (hk : token.kind ≠ .eof) (hf : ∀ c',
    c.Passes [token] c' → Ensures (f token) c' post) : Ensures (advance >>= f) c post := by
  obtain ⟨previous, current, _, tree⟩ := c
  obtain ⟨rfl, rfl⟩ := cons.inj ht
  obtain ⟨next, xs, rfl⟩ := exists_cons_of_ne_nil hne
  have hadvance : Cursor.advance ⟨previous, current, next :: xs, tree⟩ = ⟨some current, next, xs, tree⟩ := by
    simp [Cursor.advance, hk]
  refine ensures_modifyGet_bind.2 (hf _ ?_)
  rw [hadvance]
  exact ⟨rfl, rfl, .refl _⟩

section

variable (hne : xs ≠ []) (hk : token.kind = wanted) (hw : wanted ≠ .eof)

include hne hk hw

/-- The token in hand is the one to pass, whatever would be done about another one. -/
lemma ensures_passed_bind {other} (hf : ∀ c', c.Passes [token] c' → Ensures (f token) c' post) :
    Ensures ((if c.current.kind = wanted then advance else other) >>= f) c post := by
  rw [if_pos (by rw [current_eq ht, hk])]
  exact ensures_advance_bind ht hne (hk ▸ hw) hf

lemma ensures_expect_bind (hf : ∀ c', c.Passes [token] c' → Ensures (f token) c' post) :
    Ensures (expect wanted >>= f) c post :=
  ensures_passed_bind ht hne hk hw hf

lemma ensures_expectFor_bind {message} (hf : ∀ c', c.Passes [token] c' →
    Ensures (f token) c' post) : Ensures (expectFor wanted message >>= f) c post :=
  ensures_passed_bind ht hne hk hw hf

lemma ensures_eat_bind {f} (hf : ∀ c', c.Passes [token] c' → Ensures (f true) c' post) :
    Ensures (eat wanted >>= f) c post := by
  show Ensures ((if c.current.kind = wanted then (do let _ ← advance; return true) else return false) >>= f) c post
  rw [if_pos (by rw [current_eq ht, hk]), bind_assoc]
  exact ensures_advance_bind ht hne (hk ▸ hw) hf

end

lemma ensures_eat_bind_of_ne (hk : token.kind ≠ wanted) {f} (hf : Ensures (f false) c post) :
    Ensures (eat wanted >>= f) c post := by
  have hkind : c.current.kind ≠ wanted := by rwa [current_eq ht]
  show Ensures ((if c.current.kind = wanted then (do let _ ← advance; return true) else return false) >>= f) c post
  rw [if_neg hkind]
  exact hf

end

/-! ### Closing nodes -/

lemma ensures_spanFrom (h : c.Passes xs c') (hx : Token.Forward xs) (ht : token ∈ xs) :
    Ensures (spanFrom token.span.start) c' fun span d => d = c' ∧ span.start = token.span.start := by
  obtain ⟨last, hlast⟩ : ∃ last, xs.getLast? = some last := by
    cases hl : xs.getLast? with
    | none =>
      rw [getLast?_eq_none_iff.1 hl] at ht
      cases ht
    | some last => exact ⟨last, rfl⟩
  have hend : c'.previousEnd = last.span.stop := by
    rw [previousEnd, h.previous_eq, hlast]
    rfl
  refine ensures_get_bind.2 ?_
  rw [Span.between_eq_ok_iff.2 ⟨hend ▸ hx.le_last ht hlast, rfl⟩]
  exact ensures_pure.2 ⟨rfl, rfl⟩

variable {kind : ExprKind} {holds before : Tree → ExprId → Prop}

lemma ensures_insert {span} (h : c.Passes xs c') (ht : token ∈ xs) (hs : span.start = token.span.start)
    (hd : ∀ {tree id}, c'.tree.Extends tree → tree.expr? id = some ⟨kind, span⟩ → holds tree id) :
    Ensures (insertExpr kind span) c' (c.Gives xs holds) := by
  have hexpr : (c'.tree.push (.expr ⟨kind, span⟩)).2.expr? c'.tree.size = some ⟨kind, span⟩ :=
    Tree.expr?_eq_some.2 ((Tree.node?_push ..).trans (if_pos rfl))
  exact ensures_modifyGet.2 ⟨h.push _, hd (.push ..) hexpr, token, ht, _, hexpr, hs⟩

lemma ensures_close {start} (h : c.Passes xs c') (hx : Token.Forward xs)
    (ht : token ∈ xs) (hs : start = token.span.start) (hd : ∀ {tree id span},
    c'.tree.Extends tree → tree.expr? id = some ⟨kind, span⟩ → holds tree id) :
    Ensures (do insertExpr kind (← spanFrom start)) c' (c.Gives xs holds) := by
  subst hs
  refine (ensures_spanFrom h hx ht).bind ?_
  rintro span _ ⟨rfl, hstart⟩
  exact ensures_insert h ht hstart hd

lemma ensures_close_left {l} (hl : c.Gives xs before l c') {c''} (h : c'.Passes ys c'') (hx : Token.Forward (xs ++ ys))
    (hd : ∀ {tree id span}, c''.tree.Extends tree → tree.expr? id = some ⟨kind, span⟩ → holds tree id) :
    Ensures (do let start ← exprStart l; insertExpr kind (← spanFrom start)) c'' (c.Gives (xs ++ ys) holds) := by
  obtain ⟨_, ht, expr, he, hs⟩ := hl.starts
  have hstart : Ensures (exprStart l) c'' fun start d => d = c'' ∧ start = expr.span.start := by
    refine ensures_get_bind.2 ?_
    rw [h.extends_.expr?_of_some he]
    exact ensures_pure.2 ⟨rfl, rfl⟩
  refine hstart.bind ?_
  rintro _ _ ⟨rfl, rfl⟩
  exact ensures_close (hl.toPasses.trans h) hx (mem_append_left ys ht) hs hd

end Parse

end TraitLang
