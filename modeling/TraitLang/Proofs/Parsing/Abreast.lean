import TraitLang.Proofs.Parsing.Similar
import TraitLang.Proofs.Parsing.Taking

/-! One text read alone, and the same text read before more tokens. As long as the first reading is
not at its end the two go hand in hand, so they part only by a look at a token that one of them does
not have. A rule that ends by a token of its own never looks that far. -/
namespace TraitLang

open Relabeling Parse EStateM.Result

/-- Tokens up to the end of a text, and the same tokens with others in the place of the end. -/
inductive Token.Glued (rest : List Token) : List Token → List Token → Prop
  | ended {last : Token} : last.kind = .eof → Glued rest [last] rest
  | cons {token : Token} {first second : List Token} : token.kind ≠ .eof → Glued rest first second →
    Glued rest (token :: first) (token :: second)

lemma Token.Glued.length_eq {rest first second} (h : Glued rest first second) :
    second.length + 1 = first.length + rest.length := by
  induction h with
  | ended => exact Nat.add_comm _ _
  | cons _ _ ih =>
    simp only [List.length_cons]
    omega

namespace Cursor

/-- The second of two cursors has other tokens where the first one ends, and has made some nodes
before those of the first one. -/
structure Shares (before : Array Node) (rest : List Token) (c d : Cursor) : Prop where
  glued : Token.Glued rest c.tokens d.tokens
  nodes : d.tree.nodes = before ++ c.tree.nodes.map (shift before.size).node
  modules : d.tree.modules = c.tree.modules

/-- The two have also passed the same token last. -/
structure Abreast (before : Array Node) (rest : List Token) (c d : Cursor) : Prop extends Shares before rest c d where
  previous : c.previous = d.previous
  passed : c.current.kind = .eof → c.previous.isSome

lemma advance_of_ahead (c : Cursor)
    {next more} (hk : c.current.kind ≠ .eof) (ha : c.ahead = next :: more) :
    c.advance = { c with previous := some c.current, current := next, ahead := more } := by
  rw [advance, if_neg hk, ha]

variable {before : Array Node} {rest : List Token} {c d : Cursor}

namespace Shares

variable (h : c.Shares before rest d)

include h

lemma size_eq : d.tree.size = before.size + c.tree.size := by
  simp [Tree.size, h.nodes]

lemma remaining_eq : d.remaining + 1 = c.remaining + rest.length := h.glued.length_eq

lemma remaining_le (hrest : rest ≠ []) : c.remaining ≤ d.remaining := by
  have hlength := List.length_pos_iff.2 hrest
  have heq := h.remaining_eq
  omega

lemma ended_or : (c.current.kind = .eof ∧ d.tokens = rest) ∨
    (c.current.kind ≠ .eof ∧ d.current = c.current ∧ Token.Glued rest c.ahead d.ahead) := by
  obtain ⟨_, _, _, _⟩ := c
  obtain ⟨_, _, _, _⟩ := d
  cases h.glued with
  | ended hk => exact .inl ⟨hk, rfl⟩
  | cons hk hglued => exact .inr ⟨hk, rfl, hglued⟩

lemma tokens_eq (hk : c.current.kind = .eof) : d.tokens = rest :=
  (h.ended_or.resolve_right fun hc => hc.1 hk).2

/-- Before the end of the first one the same token is in hand. -/
lemma current_eq (hk : c.current.kind ≠ .eof) : d.current = c.current :=
  (h.ended_or.resolve_left fun hc => hk hc.1).2.1

lemma exists_ahead (hrest : rest ≠ []) (hk : c.current.kind ≠ .eof) : ∃ next more next' more',
    c.ahead = next :: more ∧ d.ahead = next' :: more' ∧ Token.Glued rest (next :: more) (next' :: more') := by
  obtain ⟨-, -, hglued⟩ := h.ended_or.resolve_left fun hc => hk hc.1
  cases hc : c.ahead with
  | nil =>
    rw [hc] at hglued
    cases hglued
  | cons next more =>
    rw [hc] at hglued
    cases hd : d.ahead with
    | nil =>
      rw [hd] at hglued
      cases hglued
      exact absurd rfl hrest
    | cons next' more' => grind

lemma advance (hrest : rest ≠ []) (hk : c.current.kind ≠ .eof) : c.advance.Abreast before rest d.advance := by
  have hcurrent := h.current_eq hk
  obtain ⟨_, _, _, _, hahead, hahead', hglued⟩ := h.exists_ahead hrest hk
  rw [c.advance_of_ahead hk hahead, d.advance_of_ahead (hcurrent ▸ hk) hahead', hcurrent]
  exact ⟨⟨hglued, h.nodes, h.modules⟩, rfl, fun _ => rfl⟩

lemma expr?_eq (id : ExprId) : d.tree.expr? (before.size + id) =
    (c.tree.expr? id).map fun expr => ⟨(shift before.size).exprKind expr.kind, expr.span⟩ := by
  have hnode : d.tree.node? (before.size + id) = (c.tree.node? id).map (shift before.size).node := by
    simp [Tree.node?, h.nodes, Array.getElem?_append_right]
  unfold Tree.expr?
  rw [hnode]
  rcases c.tree.node? id with _ | _ | _ | _ | _ <;> rfl

lemma push (node : Node) : Shares before rest { c with tree := (c.tree.push node).2 }
    { d with tree := (d.tree.push ((shift before.size).node node)).2 } := by
  refine ⟨h.glued, ?_, h.modules⟩
  simp [Tree.push, h.nodes]

end Shares

lemma Abreast.previousEnd_eq (h : c.Abreast before rest d) : d.previousEnd = c.previousEnd := by
  unfold previousEnd
  rw [← h.previous]
  cases hp : c.previous with
  | some token => rfl
  | none =>
    have hk : c.current.kind ≠ .eof := by
      intro hk
      simpa [hp] using h.passed hk
    exact congrArg (fun token => token.span.start) (h.current_eq hk)

lemma Abreast.push (h : c.Abreast before rest d) (node : Node) : Abreast before rest
    { c with tree := (c.tree.push node).2 } { d with tree := (d.tree.push ((shift before.size).node node)).2 } :=
  ⟨h.toShares.push node, h.previous, h.passed⟩

end Cursor

/-! ### Work on both -/

namespace Parse

variable {α β : Type} {f : α → α} {g : β → β} {before : Array Node} {rest : List Token}
  {x y : Parse α} {k l : α → Parse β} {may : Prop}

/-- Work answers what a map makes of an answer, and comes abreast of a cursor. -/
def Meets (before : Array Node) (rest : List Token) (f : α → α) (work : Parse α) (d : Cursor)
    (a : α) (c : Cursor) : Prop :=
  ∃ d', work d = .ok (f a) d' ∧ c.Abreast before rest d'

/-- From cursors that are abreast the second work does what the first one does. -/
def Matches (before : Array Node) (rest : List Token) (f : α → α) (first second : Parse α) : Prop :=
  ∀ c d, c.Abreast before rest d → Grants first c (Meets before rest f second d)

/-- It does so unless the first one gets to its end, where it stays if it may, and fails if it may
not. -/
structure Tracks (may : Prop) (before : Array Node) (rest : List Token) (f : α → α)
    (first second : Parse α) : Prop where
  stays : ∀ c : Cursor, c.current.kind = .eof → Grants first c fun _ c' => may ∧ c'.current.kind = .eof
  goes : ∀ c d, c.Abreast before rest d → c.current.kind ≠ .eof →
    Grants first c fun a c' => (may ∧ c'.current.kind = .eof) ∨ Meets before rest f second d a c'

abbrev Ends (before : Array Node) (rest : List Token) (f : α → α) (first second : Parse α) : Prop :=
  Tracks False before rest f first second

lemma bind_ok {x} {k : α → Parse β} {c c' a} (h : x c = .ok a c') : (x >>= k) c = k a c' := by
  simp only [bind, EStateM.bind, h]

lemma Meets.bind {c d d' a b} (hy : y d = .ok (f a) d') (h : Meets before rest g (l (f a)) d' b c) :
    Meets before rest g (y >>= l) d b c := by
  unfold Meets
  rwa [bind_ok hy]

/-! Work that looks at no token. -/

lemma matches_pure (f : α → α) (a : α) : Matches before rest f (pure a) (pure (f a)) :=
  fun _ d h => grants_pure.2 ⟨d, rfl, h⟩

lemma Matches.bind (hx : Matches before rest f x y) (hk : ∀ a,
    Matches before rest g (k a) (l (f a))) : Matches before rest g (x >>= k) (y >>= l) := by
  intro c d h
  refine (hx c d h).bind ?_
  rintro a c1 ⟨d1, hy, h1⟩
  exact (hk a c1 d1 h1).imp fun _ _ => .bind hy

lemma matches_insert (node : Node) : Matches before rest (shift before.size).id (insert node)
    (insert ((shift before.size).node node)) := by
  intro c d h id c' hid
  obtain ⟨rfl, rfl⟩ := ok.inj hid
  refine ⟨_, ?_, h.push node⟩
  show ok _ _ = _
  rw [ok.injEq]
  exact ⟨h.size_eq, rfl⟩

lemma matches_spanFrom (start : Position) : Matches before rest (shift before.size).span (spanFrom start)
    (spanFrom ((shift before.size).start start)) := by
  intro c d h
  refine (grants_spanFrom start c).imp ?_
  rintro span _ ⟨rfl, hspan⟩
  have hd : Ensures (spanFrom start) d fun span' d' => span' = span ∧ d' = d := by
    refine ensures_get_bind.2 ?_
    rw [h.previousEnd_eq, hspan]
    exact ensures_pure.2 ⟨rfl, rfl⟩
  obtain ⟨_, _, heq, rfl, rfl⟩ := hd
  exact ⟨_, heq, h⟩

lemma matches_exprStart (id : ExprId) : Matches before rest (shift before.size).start (exprStart id)
    (exprStart ((shift before.size).id id)) := by
  intro c d h
  refine (grants_exprStart id c).imp ?_
  rintro start _ ⟨rfl, expr, he, rfl⟩
  have hd : Ensures (exprStart (before.size + id)) d fun start' d' => start' = expr.span.start ∧ d' = d := by
    refine ensures_get_bind.2 ?_
    rw [h.expr?_eq, he]
    exact ensures_pure.2 ⟨rfl, rfl⟩
  obtain ⟨_, _, heq, rfl, rfl⟩ := hd
  exact ⟨_, heq, h⟩

lemma Matches.tracks (h : Matches before rest f x y)
    (hx : ∀ c, Grants x c fun _ c' => c'.current = c.current) : Tracks True before rest f x y where
  stays c hk := (hx c).imp fun _ _ hcurrent => ⟨trivial, hcurrent ▸ hk⟩
  goes c d hcd _ := (h c d hcd).imp fun _ _ h => .inr h

/-! Work that looks at tokens. -/

/-- Work that fails at the end may come after work that has gone astray there. -/
lemma Tracks.bind (hx : Tracks True before rest f x y) (hk : ∀ a,
    Tracks may before rest g (k a) (l (f a))) : Tracks may before rest g (x >>= k) (y >>= l) where
  stays c hc := (hx.stays c hc).bind fun a c1 h1 => (hk a).stays c1 h1.2
  goes c d h hc := by
    refine (hx.goes c d h hc).bind fun a c1 h1 => ?_
    by_cases hc1 : c1.current.kind = .eof
    · exact ((hk a).stays c1 hc1).imp fun _ _ h => .inl h
    obtain ⟨d1, hy, h1⟩ := h1.resolve_left fun h => hc1 h.2
    exact ((hk a).goes c1 d1 h1 hc1).imp fun _ _ h2 => h2.imp_right (.bind hy)

lemma Ends.bind (hx : Ends before rest f x y) (hk : ∀ a, Matches before rest g (k a) (l (f a))) :
    Ends before rest g (x >>= k) (y >>= l) where
  stays c hc := (hx.stays c hc).bind fun _ _ h => h.1.elim
  goes c d h hc := by
    refine (hx.goes c d h hc).bind ?_
    rintro a c1 (⟨⟨⟩, -⟩ | ⟨d1, hy, h1⟩)
    exact (hk a c1 d1 h1).imp fun _ _ h2 => .inr (.bind hy h2)

lemma tracks_current : Tracks True before rest (shift before.size).token current current where
  stays c hk := grants_pure.2 ⟨trivial, hk⟩
  goes c d h hk := by
    refine grants_pure.2 (.inr ⟨d, ?_, h⟩)
    rw [← h.current_eq hk]
    rfl

lemma goes_advance (hrest : rest ≠ []) {c d : Cursor} (h : c.Abreast before rest d) (hk : c.current.kind ≠ .eof) :
    advance d = .ok c.current d.advance ∧ c.advance.Abreast before rest d.advance :=
  ⟨by rw [← h.current_eq hk]; rfl, h.advance hrest hk⟩

lemma tracks_throw (failure : Failure) : Tracks may before rest f (throw failure) y where
  stays _ _ := Grants.throw
  goes _ _ _ _ := Grants.throw

/-- A bound may be larger where more tokens are left. -/
lemma tracks_measured (hrest : rest ≠ []) {w v : Nat → Parse α}
    (h : ∀ m n, m ≤ n → Tracks may before rest f (w m) (v n)) :
    Tracks may before rest f (fun c => w c.remaining c) (fun c => v c.remaining c) where
  stays c hk := (h c.remaining c.remaining le_rfl).stays c hk
  goes c d hcd hk := (h c.remaining d.remaining (hcd.remaining_le hrest)).goes c d hcd hk

end Parse

/-- A text read alone, and before more tokens. -/
def Simulation.alongside (before : Array Node) (rest : List Token) (hrest : rest ≠ []) :
    Simulation (.shift before.size) where
  rel f := Parse.Tracks True before rest f
  fuel m n := m ≤ n
  rel_pure f a := (matches_pure f a).tracks fun _ => grants_pure.2 rfl
  rel_bind hx hk := hx.bind hk
  rel_current := tracks_current
  rel_advance := by
    refine ⟨fun c hk token c' hc => ?_, fun c d h hk token c' hc => ?_⟩
    all_goals obtain ⟨rfl, rfl⟩ := ok.inj hc
    · rw [Cursor.advance, if_pos hk]
      exact ⟨trivial, hk⟩
    · exact .inr ⟨_, goes_advance hrest h hk⟩
  rel_fail f problem position := tracks_throw _
  rel_spanFrom start := (matches_spanFrom start).tracks fun c =>
    (grants_spanFrom start c).imp fun _ _ h => h.1 ▸ rfl
  rel_insert node := (matches_insert node).tracks fun c id c' hid => by
    obtain ⟨rfl, rfl⟩ := ok.inj hid
    rfl
  rel_exprStart id := (matches_exprStart id).tracks fun c =>
    (grants_exprStart id c).imp fun _ _ h => h.1 ▸ rfl
  rel_exhausted f := tracks_throw _
  rel_starved f y _ _ := tracks_throw _
  rel_measured h := tracks_measured hrest h
  fuel_map hg _ _ hle := hg hle
  fuel_pred hle := Nat.le_of_succ_le_succ hle
  not_fuel_zero := by simp

/-! ### Rules that end by a token of their own -/

namespace Parse

variable {β : Type} {g : β → β} {before : Array Node} {rest : List Token} {kind : TokenKind}
  (hrest : rest ≠ [])

include hrest

lemma ends_expect (hkind : kind ≠ .eof) : Ends before rest (shift before.size).token (expect kind) (expect kind) where
  stays c hk := by
    show Grants (if c.current.kind = kind then advance else unexpected) c _
    rw [if_neg (hk ▸ hkind.symm)]
    intro _ _ h
    cases h
  goes c d h hk := by
    show Grants (if c.current.kind = kind then advance else unexpected) c fun a c' => _ ∨ ∃ d',
      (if d.current.kind = kind then advance else unexpected) d = _ ∧ _
    rw [h.current_eq hk]
    split
    · intro token c' hc
      obtain ⟨rfl, rfl⟩ := ok.inj hc
      exact .inr ⟨_, goes_advance hrest h hk⟩
    · intro _ _ h
      cases h

/-- A token that may end a rule, and another way to end it. -/
lemma ends_eat_bind {k l} (hkind : kind ≠ .eof) (htrue : Matches before rest g (k true) (l true))
    (hfalse : Ends before rest g (k false) (l false)) : Ends before rest g (eat kind >>= k) (eat kind >>= l) where
  stays c hk := by
    show Grants ((if c.current.kind = kind then (do let _ ← advance; return true) else return false) >>= k) c _
    rw [if_neg (hk ▸ hkind.symm)]
    exact hfalse.stays c hk
  goes c d h hk := by
    show Grants ((if c.current.kind = kind then (do let _ ← advance; return true)
      else return false) >>= k) c fun a c' =>
      _ ∨ ∃ d', ((if d.current.kind = kind then (do let _ ← advance; return true) else return false) >>= l) d = _ ∧ _
    rw [h.current_eq hk]
    split
    · exact (htrue c.advance d.advance (goes_advance hrest h hk).2).imp fun _ _ h => .inr h
    · exact hfalse.goes c d h hk

end Parse

/-- A rule that ends by a token of its own, read alone and before more tokens. -/
def Simulation.ending (before : Array Node) (rest : List Token) (hrest : rest ≠ []) :
    (Simulation.alongside before rest hrest).Closing where
  rest f := Parse.Ends before rest f
  last f := Parse.Matches before rest f
  lead hx hk := Tracks.bind hx hk
  bind hx hk := Ends.bind hx hk
  expect hkind := ends_expect hrest hkind
  eat hkind htrue hfalse := ends_eat_bind hrest hkind htrue hfalse
  unexpectedFor _ _ := tracks_current.bind fun _ => tracks_throw _
  pure f a := matches_pure f a
  close start h := (matches_spanFrom start).bind fun span => by
    rw [h]
    exact matches_insert _

namespace Grammar

open Parse

/-- A declaration is read to its last token, and no further. -/
lemma ends_item {before rest} (hrest : rest ≠ []) :
    Ends before rest (shift before.size).id (item Phrase.read) (item Phrase.read) := by
  let s := Simulation.alongside before rest hrest
  let t := Simulation.ending before rest hrest
  have hblock : Ends before rest (shift before.size).id (Phrase.read .block) (Phrase.read .block) :=
    tracks_measured hrest fun m n hle =>
      t.block (s.rel_readWithin (2 * m + 1) (2 * n + 1) (Nat.succ_le_succ (Nat.mul_le_mul_left 2 hle)))
  exact t.item s.rel_read hblock

end Grammar

end TraitLang
