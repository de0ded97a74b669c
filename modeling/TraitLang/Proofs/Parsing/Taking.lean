import TraitLang.Proofs.Forest
import TraitLang.Proofs.Layout
import TraitLang.Proofs.Outcome
import TraitLang.Proofs.Parsing.Tokens
import TraitLang.Proofs.Parsing.Words

/-! Reading step by step. A cursor moves over tokens and the tree grows by the trees of some parts,
in the order of the text and with every slot well filled. Over the tokens of one text the parts also
say the words of the tokens passed, and as long as a token was passed since the start of a span, the
span can be built, so that reading fails with diagnostics only. -/
namespace TraitLang

open Parse TraitLang.Span List Token TraitLang.Tree TraitLang.Part Node

/-! ### Growing by the trees of some roots -/

structure Tree.Grows (small large : Tree) (roots : List NodeId) : Prop where
  extends_ : small.Extends large
  forest : Tree.Forest large small.size roots large.size

namespace Tree.Grows

variable {a b c : Tree} {xs ys : List NodeId}

protected lemma refl (tree : Tree) : Grows tree tree [] :=
  ⟨.refl tree, .nil⟩

lemma append (h1 : Grows a b xs) (h2 : Grows b c ys) : Grows a c (xs ++ ys) :=
  ⟨h1.extends_.trans h2.extends_, (h1.forest.mono h2.extends_).append h2.forest⟩

lemma push {node} (h : Grows a b node.children) (hf : node.Fits b) : Grows a (b.push node).2 [b.size] := by
  have he := Extends.push b node
  refine ⟨h.extends_.trans he, ?_⟩
  rw [size_push]
  refine Forest.single ?_ (he.fits hf) (h.forest.mono he)
  rw [node?_push, if_pos rfl]

end Tree.Grows

/-- The tree of a cursor grows by the trees of some roots, which it leaves in a row behind it. -/
structure Cursor.Grows (c c' : Cursor) (roots : List NodeId) : Prop where
  forest : c.tree.Grows c'.tree roots
  lays : c.Orderly → c.Lays c' roots

/-- The place of a node with some children, from where a cursor was to where it is. -/
structure Cursor.Spans (c c' : Cursor) (span : Span) (children : List NodeId) : Prop where
  start_le : c.start ≤ span.start.offset
  le : span.start.offset ≤ span.stop.offset
  stop_le : span.stop.offset ≤ c'.stop
  row : c'.tree.Row span.start.offset children span.stop.offset

namespace Cursor.Grows

variable {c c' c'' : Cursor} {xs ys : List NodeId}

lemma extends_ (h : c.Grows c' xs) : c.tree.Extends c'.tree := h.forest.extends_

protected lemma refl (c : Cursor) : c.Grows c [] := ⟨.refl _, .refl⟩

lemma append (h1 : c.Grows c' xs) (h2 : c'.Grows c'' ys) : c.Grows c'' (xs ++ ys) := by
  refine ⟨h1.forest.append h2.forest, fun ho => ?_⟩
  have hlays := h1.lays ho
  exact hlays.append (h2.lays hlays.orderly) h2.extends_

lemma push {node} (h : c.Grows c' node.children)
    (hf : node.Fits c'.tree) (hs : c.Orderly → c.Spans c' node.span node.children) :
    c.Grows { c' with tree := (c'.tree.push node).2 } [c'.tree.size] := by
  refine ⟨h.forest.push hf, fun ho => ?_⟩
  obtain ⟨hlow, hle, hhigh, hrow⟩ := hs ho
  exact (h.lays ho).push hlow hle hhigh hrow

lemma spans {span} (h : c.Grows c' xs) (hs : between c.current.span.start c'.previousEnd = .ok span)
    (ho : c.Orderly) : c.Spans c' span xs := by
  obtain ⟨hle, rfl⟩ := between_eq_ok_iff.1 hs
  exact ⟨le_rfl, hle, le_rfl, (h.lays ho).row⟩

lemma spans_left {left expr span} (h : c.Grows c' (left :: xs))
    (hl : c'.tree.expr? left = some expr) (hs : between expr.span.start c'.previousEnd = .ok span)
    (ho : c.Orderly) : c.Spans c' span (left :: xs) := by
  obtain ⟨hle, rfl⟩ := between_eq_ok_iff.1 hs
  rcases (h.lays ho).row with _ | ⟨hn, h1, h2, h3, hrest⟩
  cases hn.symm.trans (expr?_eq_some.1 hl)
  exact ⟨h1, hle, le_rfl, .cons hn le_rfl h2 h3 hrest⟩

end Cursor.Grows

lemma Cursor.grows_advance (c : Cursor) : c.Grows c.advance [] := by
  refine ⟨?_, fun ho => ho.lays_advance⟩
  rw [tree_advance]
  exact .refl _

lemma Cursor.Orderly.spans {c : Cursor} (h : c.Orderly) (hk : c.current.kind ≠ .eof) :
    c.Spans c.advance c.current.span [] :=
  ⟨le_rfl, h.inOrder.2.1, (h.stop_advance hk).ge, .nil⟩

/-! ### Cursors over one text -/

namespace Cursor

def tokens (c : Cursor) : List Token := c.current :: c.ahead

/-- A cursor over the tokens of a text of a given size, in whose tree every span is one of the text
up to the last token passed. -/
structure Proper (file : String) (size : Nat) (c : Cursor) : Prop where
  fill : Token.Fill file size c.stop c.tokens
  file_eq : c.previousEnd.file = file
  stop_le : c.stop ≤ size
  nodes : ∀ id node, c.tree.node? id = some node → node.span.Inside file c.stop

/-- From a cursor to a later one. The tree has grown, and some parts say the words of the tokens
passed. -/
structure Reads (file : String) (size : Nat) (c c' : Cursor) (parts : List Part) : Prop where
  proper : c'.Proper file size
  extends_ : c.tree.Extends c'.tree
  tells : ∃ passed, c.tokens = passed ++ c'.tokens ∧ c'.tree.Tells parts (passed.filterMap word?)
  start_le : c.start ≤ c'.start
  stop_le : c.stop ≤ c'.stop
  lt_stop : c'.remaining < c.remaining → c.start < c'.stop

variable {file : String} {size : Nat} {c c' c'' : Cursor} {parts more : List Part}

namespace Proper

variable (h : c.Proper file size)

include h

lemma start_file : c.current.span.start.file = file := by
  have hfill := h.fill.2
  split at hfill
  · exact hfill.1
  · exact hfill.1.start_file

protected lemma refl : c.Reads file size c [] :=
  ⟨h, .refl _, ⟨[], rfl, .nil⟩, le_rfl, le_rfl, fun hlt => absurd hlt (lt_irrefl _)⟩

lemma tokens_eq (hk : c.current.kind = .eof) : c.tokens = [c.current] := by
  have hfill := h.fill.2
  rw [if_pos hk] at hfill
  rw [tokens, hfill.2.2.2]

/-- A token that is not the end is followed by another one. -/
lemma advance_eq (hk : c.current.kind ≠ .eof) : ∃ next rest, c.ahead = next :: rest ∧
    c.advance = { c with previous := some c.current, current := next, ahead := rest } := by
  have hfill := h.fill.2
  rw [if_neg hk] at hfill
  cases hahead : c.ahead with
  | nil =>
    rw [hahead] at hfill
    cases hfill.2
  | cons next rest => exact ⟨next, rest, rfl, by simp [advance, hk, hahead]⟩

/-- A token is passed that is not the end. -/
lemma reads_advance (hk : c.current.kind ≠ .eof) :
    c.Reads file size c.advance (c.current.word?.toList.map word) ∧
    c.advance.remaining < c.remaining ∧ c.current.span.Inside file c.advance.stop := by
  obtain ⟨_, _, hahead, hadvance⟩ := h.advance_eq hk
  obtain ⟨hlow, hfill⟩ := h.fill
  rw [if_neg hk, hahead] at hfill
  obtain ⟨hinside, hrest⟩ := hfill
  have hle : c.stop ≤ c.current.span.stop.offset := hlow.trans hinside.lt.le
  rw [hadvance]
  refine ⟨⟨⟨hrest, hinside.stop_file, hinside.le, fun id node hn => (h.nodes id node hn).mono hle⟩, .refl _, ?_,
    hinside.lt.le.trans hrest.1, hle, fun _ => hinside.lt⟩, by simp [remaining, hahead],
    hinside.start_file, hinside.stop_file, hinside.lt, le_rfl⟩
  refine ⟨[c.current], by simp [tokens, hahead], ?_⟩
  cases hw : c.current.word? with
  | none => simpa [hw] using Tree.Tells.nil
  | some w => simpa [hw] using Tree.Tells.word .nil

end Proper

namespace Reads

lemma remaining_le (h : c.Reads file size c' parts) : c'.remaining ≤ c.remaining := by
  obtain ⟨_, htokens, -⟩ := h.tells
  have hlength := congrArg List.length htokens
  simp only [tokens, length_append, length_cons] at hlength
  simp only [remaining]
  omega

lemma append (h1 : c.Reads file size c' parts) (h2 : c'.Reads file size c'' more) :
    c.Reads file size c'' (parts ++ more) := by
  refine ⟨h2.proper, h1.extends_.trans h2.extends_, ?_, h1.start_le.trans h2.start_le,
    h1.stop_le.trans h2.stop_le, ?_⟩
  · obtain ⟨passed, htokens, htells⟩ := h1.tells
    obtain ⟨others, hrest, hmore⟩ := h2.tells
    refine ⟨passed ++ others, by rw [htokens, hrest, append_assoc], ?_⟩
    rw [filterMap_append]
    exact (htells.mono h2.extends_).append hmore
  · intro hlt
    by_cases h : c'.remaining < c.remaining
    · exact (h1.lt_stop h).trans_le h2.stop_le
    · exact h1.start_le.trans_lt (h2.lt_stop (by omega))

lemma push {node} (h : c.Reads file size c' node.parts) (hs : node.span.Inside file c'.stop) :
    c.Reads file size { c' with tree := (c'.tree.push node).2 } [.node c'.tree.size] := by
  have hp := h.proper
  refine ⟨⟨hp.fill, hp.file_eq, hp.stop_le, fun id found hn => ?_⟩, h.extends_.trans (.push ..), ?_,
    h.start_le, h.stop_le, h.lt_stop⟩
  · rw [node?_push] at hn
    split at hn
    · cases hn
      exact hs
    · exact hp.nodes id found hn
  · obtain ⟨passed, htokens, htells⟩ := h.tells
    exact ⟨passed, htokens, htells.push⟩

end Reads

end Cursor

/-! ### What is read -/

/-- Where tokens come from. They may be all tokens of one text. -/
structure Feed where
  file : String
  size : Nat
  plain : Prop

/-- All tokens of a text of a given size. -/
def Feed.text (file : String) (size : Nat) : Feed := ⟨file, size, True⟩

def Feed.any : Feed := ⟨"", 0, False⟩

namespace Cursor

variable {feed : Feed} {c c' c'' : Cursor} {parts more : List Part} {known also : Tree → Prop}

/-- From a cursor to a later one the tree has grown by some parts, of which something is known
whatever else the tree grows by. -/
structure Gains (feed : Feed) (c c' : Cursor) (parts : List Part) (known : Tree → Prop) : Prop where
  grows : c.Grows c' (parts.filterMap node?)
  holds : ∀ tree, c'.tree.Extends tree → known tree
  reads : feed.plain → c.Reads feed.file feed.size c' parts

/-- A cursor over one text, if there is one, with few enough tokens left. -/
def Ready (feed : Feed) (limit : Nat) (c : Cursor) : Prop :=
  feed.plain → c.Proper feed.file feed.size ∧ c.remaining ≤ limit

variable {limit : Nat}

lemma Ready.mono {larger} (h : c.Ready feed limit) (hle : limit ≤ larger) : c.Ready feed larger :=
  fun hp => ⟨(h hp).1, (h hp).2.trans hle⟩

lemma Ready.least (h : c.Ready feed limit) : c.Ready feed c.remaining := fun hp => ⟨(h hp).1, le_rfl⟩

lemma Ready.fewer {few bound} (h : c.Ready feed few) (hp : feed.plain)
    (hb : few ≤ limit ∧ few < bound + 1) : few - 1 ≤ limit ∧ few - 1 < bound := by
  have hle := (h hp).2
  simp only [remaining] at hle
  omega

namespace Gains

protected lemma refl (h : feed.plain → c.Proper feed.file feed.size) : c.Gains feed c [] fun _ => True :=
  ⟨.refl c, fun _ _ => trivial, fun hp => (h hp).refl⟩

lemma append (h1 : c.Gains feed c' parts known) (h2 : c'.Gains feed c'' more also) :
    c.Gains feed c'' (parts ++ more) fun tree => known tree ∧ also tree := by
  refine ⟨?_, fun tree he => ⟨h1.holds tree (h2.grows.extends_.trans he), h2.holds tree he⟩,
    fun hp => (h1.reads hp).append (h2.reads hp)⟩
  rw [filterMap_append]
  exact h1.grows.append h2.grows

lemma imp (h : c.Gains feed c' parts known) (hparts : more = parts)
    (hk : ∀ tree, known tree → also tree) : c.Gains feed c' more also :=
  ⟨hparts ▸ h.grows, fun tree he => hk tree (h.holds tree he), fun hp => hparts ▸ h.reads hp⟩

lemma push {node} (h : c.Gains feed c' node.parts known)
    (hf : ∀ tree, known tree → node.Fits tree) (hs : c.Orderly → c.Spans c' node.span node.children)
    (hi : feed.plain → node.span.Inside feed.file c'.stop) : c.Gains feed
    { c' with tree := (c'.tree.push node).2 } [.node c'.tree.size] fun tree =>
      tree.node? c'.tree.size = some node := by
  have hgrows := h.grows
  rw [filterMap_parts] at hgrows
  refine ⟨hgrows.push (hf _ (h.holds _ (.refl _))) hs, fun tree he => he.node?_of_some ?_, fun hp =>
    (h.reads hp).push (hi hp)⟩
  rw [node?_push, if_pos rfl]

end Gains

lemma Ready.gains_advance (h : c.Ready feed limit) (hk : c.current.kind ≠ .eof) :
    c.Gains feed c.advance (c.current.word?.toList.map word) fun _ => True := by
  refine ⟨?_, fun _ _ => trivial, fun hp => ((h hp).1.reads_advance hk).1⟩
  have hnone (w : Option Word) : (w.toList.map word).filterMap node? = [] := by cases w <;> rfl
  rw [hnone]
  exact c.grows_advance

end Cursor

/-- What a rule answers is made up of some parts that fit a tree. -/
structure Crop (α : Type) where
  parts : α → List Part
  fits : Tree → α → Prop

namespace Crop

variable {α : Type}

@[simps -fullyApplied]
def words (parts : α → List Part) : Crop α := ⟨parts, fun _ _ => True⟩

@[simps -fullyApplied]
def node (role : Tree → NodeId → Prop) : Crop NodeId := ⟨fun id => [.node id], role⟩

@[simps! -fullyApplied]
def decl (test : DeclKind → Bool) : Crop DeclId := node fun tree => tree.Declares test

@[simps! -fullyApplied]
def expr : Crop ExprId := node Tree.HasExpr

@[simps -fullyApplied]
def member : Crop BlockMember := ⟨fun member => [.node member.node], fun tree member => member.Fits tree⟩

@[simps -fullyApplied]
def item : Crop ConditionItem := ⟨fun item => [.node item.node], fun tree item => item.Fits tree⟩

@[simps -fullyApplied]
def pattern : Crop Pattern := ⟨fun pattern => pattern.nodes.map .node, fun tree pattern => pattern.Fits tree⟩

/-- A pattern that only takes values apart. -/
@[simps -fullyApplied]
def plain : Crop Pattern :=
  ⟨fun pattern => pattern.nodes.map .node, fun tree pattern => pattern.Fits tree ∧ pattern.exprs = []⟩

@[simps -fullyApplied]
def option (crop : Crop α) : Crop (Option α) :=
  ⟨fun a => a.toList.flatMap crop.parts, fun tree a => ∀ x ∈ a, crop.fits tree x⟩

@[simps -fullyApplied]
def list (crop : Crop α) : Crop (List α) :=
  ⟨fun as => as.flatMap crop.parts, fun tree as => ∀ x ∈ as, crop.fits tree x⟩

/-- A list, and whether a comma came last. -/
@[simps -fullyApplied]
def listed (crop : Crop α) : Crop (List α × Bool) :=
  ⟨fun a => crop.list.parts a.1, fun tree a => crop.list.fits tree a.1⟩

/-- An answer was read from a cursor to a later one. -/
def Read (crop : Crop α) (feed : Feed) (c : Cursor) (a : α) (c' : Cursor) : Prop :=
  c.Gains feed c' (crop.parts a) fun tree => crop.fits tree a

/-- An answer was read that takes at least one token. -/
structure Taken (crop : Crop α) (feed : Feed) (c : Cursor) (a : α) (c' : Cursor) : Prop where
  read : crop.Read feed c a c'
  lt : feed.plain → c'.remaining < c.remaining

end Crop

namespace Parse

/-! ### Outcomes -/

variable {α β : Type} {feed : Feed} {c : Cursor} {post : α → Cursor → Prop} {after : β → Cursor → Prop}

/-- Work leads to what a condition says, or fails. Over one text it fails with a diagnostic. -/
def Leads (feed : Feed) (work : Parse α) (c : Cursor) (post : α → Cursor → Prop) : Prop :=
  match work c with
  | .ok a c' => post a c'
  | .error failure _ => feed.plain → ∃ diagnostic, failure = .diagnostic diagnostic

variable {x work : Parse α} {post' : α → Cursor → Prop} {f : α → β} {limit : Nat} {crop : Crop α}

lemma Leads.bind {f} (hx : Leads feed x c post)
    (hf : ∀ a c', post a c' → Leads feed (f a) c' after) : Leads feed (x >>= f) c after := by
  unfold Leads at hx ⊢
  simp only [Bind.bind, EStateM.bind]
  cases hr : x c with
  | ok a c' =>
    rw [hr] at hx
    exact hf a c' hx
  | error failure c' => rwa [hr] at hx

lemma Leads.imp (hx : Leads feed x c post) (h : ∀ a c', post a c' → post' a c') : Leads feed x c post' := by
  unfold Leads at hx ⊢
  split
  next a c' hr => exact h a c' (by rwa [hr] at hx)
  next _ _ hr => rwa [hr] at hx

lemma Leads.and (hx : Leads feed x c post) (h : Grants x c post') : Leads feed x c fun a c' =>
    post a c' ∧ post' a c' := by
  unfold Leads at hx ⊢
  split
  next a c' hr => exact ⟨by rwa [hr] at hx, h a c' hr⟩
  next _ _ hr => rwa [hr] at hx

lemma Leads.grants (hx : Leads feed x c post) : Grants x c post := by
  intro a c' hr
  unfold Leads at hx
  rwa [hr] at hx

lemma Leads.map (hx : Leads feed x c fun a c' => after (f a) c') : Leads feed (f <$> x) c after := by
  exact hx.bind fun _ _ h => h

lemma leads_get_bind {f} : Leads feed (get >>= f) c post ↔ Leads feed (f c) c post := Iff.rfl

lemma leads_current_bind {f} : Leads feed (current >>= f) c post ↔ Leads feed (f c.current) c post := Iff.rfl

lemma leads_kind_bind {f} : Leads feed (kind >>= f) c post ↔ Leads feed (f c.current.kind) c post := Iff.rfl

lemma leads_fail {problem position} : Leads feed (fail problem position : Parse α) c post :=
  fun _ => ⟨_, rfl⟩

lemma leads_unexpected : Leads feed (unexpected : Parse α) c post := fun _ => ⟨_, rfl⟩

lemma leads_unexpectedFor {message} : Leads feed (unexpectedFor message : Parse α) c post := fun _ => ⟨_, rfl⟩

lemma leads_spanFrom {start} (h : feed.plain → start.offset ≤ c.stop) :
    Leads feed (spanFrom start) c fun span c' =>
    c = c' ∧ between start c.previousEnd = .ok span := by
  refine leads_get_bind.2 ?_
  split
  next _ hs => exact ⟨rfl, hs⟩
  next _ hs =>
    intro hp
    cases hs.symm.trans (between_eq_ok_iff.2 ⟨h hp, rfl⟩)

lemma leads_exprStart {id} (h : feed.plain → c.tree.HasExpr id) : Leads feed (exprStart id) c fun start c' =>
    c = c' ∧ ∃ expr, c.tree.expr? id = some expr ∧ start = expr.span.start := by
  refine leads_get_bind.2 ?_
  split
  next expr he => exact ⟨rfl, expr, he, rfl⟩
  next he =>
    intro hp
    obtain ⟨_, he'⟩ := h hp
    cases he.symm.trans he'

lemma grants_spanFrom (start : Position) (c : Cursor) : Grants (spanFrom start) c fun span c' =>
    c = c' ∧ between start c.previousEnd = .ok span :=
  (leads_spanFrom fun h : Feed.any.plain => h.elim).grants

lemma grants_exprStart (id : ExprId) (c : Cursor) : Grants (exprStart id) c fun start c' =>
    c = c' ∧ ∃ expr, c.tree.expr? id = some expr ∧ start = expr.span.start :=
  (leads_exprStart fun h : Feed.any.plain => h.elim).grants

/-! ### Rules -/

/-- Work that reads something, perhaps without passing a token, from every cursor with few enough
tokens left. -/
def Mild (feed : Feed) (limit : Nat) (work : Parse α) (crop : Crop α) : Prop :=
  ∀ c, c.Ready feed limit → Leads feed work c (crop.Read feed c)

/-- Work that passes tokens from every cursor with few enough tokens left. -/
def Able (feed : Feed) (limit : Nat) (work : Parse α) (crop : Crop α) : Prop :=
  ∀ c, c.Ready feed limit → Leads feed work c (crop.Taken feed c)

lemma Able.mild (h : Able feed limit work crop) : Mild feed limit work crop :=
  fun c hc => (h c hc).imp fun _ _ ht => ht.read

lemma Leads.some (hx : Leads feed x c (crop.Read feed c)) :
    Leads feed (some <$> x) c (crop.option.Read feed c) :=
  Leads.map (hx.imp fun _ _ hr => hr.imp (by simp) (by simp))

lemma Mild.some (h : Mild feed limit work crop) : Mild feed limit (some <$> work) crop.option :=
  fun c hc => (h c hc).some

lemma mild_none : Mild feed limit (pure none) crop.option :=
  fun _ hc => (Cursor.Gains.refl fun hp => (hc hp).1).imp rfl fun _ _ _ hx => by cases hx

lemma Leads.result {made : Crop β} (hx : Leads feed x c (crop.Taken feed c)) (hparts : ∀ a,
    made.parts (f a) = crop.parts a) (hfits : ∀ tree a, crop.fits tree a → made.fits tree (f a)) :
    Leads feed (do return f (← x)) c (made.Taken feed c) :=
  hx.bind fun a _ ht => ⟨ht.read.imp (hparts a) fun tree => hfits tree a, ht.lt⟩

lemma Leads.weaken {role weaker x} (hx : Leads feed x c ((Crop.node role).Taken feed c))
    (hr : ∀ tree id, role tree id → weaker tree id) : Leads feed x c ((Crop.node weaker).Taken feed c) :=
  hx.imp fun id _ ht => ⟨ht.read.imp rfl fun tree => hr tree id, ht.lt⟩

/-- Work that passes the token in hand if it is of a kind. -/
def Hits (kind : TokenKind) (work : Parse Token) : Prop :=
  ∀ feed c, Leads feed work c fun token c' => c.current.kind = kind ∧ token = c.current ∧ c' = c.advance

lemma hits_expect (kind : TokenKind) : Hits kind (expect kind) := by
  intro feed c
  show Leads feed (if c.current.kind = kind then advance else unexpected) c _
  split
  next hk => exact ⟨hk, rfl, rfl⟩
  next => exact leads_unexpected

lemma hits_expectFor (kind : TokenKind) (message : String) : Hits kind (expectFor kind message) := by
  intro feed c
  show Leads feed (if c.current.kind = kind then advance else unexpectedFor message) c _
  split
  next hk => exact ⟨hk, rfl, rfl⟩
  next => exact leads_unexpectedFor

section

variable {limit : Nat} {kind : TokenKind} {x : Parse Token} {message : String} {w : Word}

lemma word_ne_eof (hw : c.current.word? = some w) : c.current.kind ≠ .eof := by
  intro heof
  simp [word?, heof] at hw

lemma mark_ne_eof (hk : c.current.kind.isMark) : c.current.kind ≠ .eof := by
  intro heof
  simp [heof, TokenKind.isMark] at hk

lemma taken_word (hc : c.Ready feed limit) (hw : c.current.word? = some w) {crop : Crop α} {a}
    (hparts : crop.parts a = [.word w]) (hfits : ∀ tree, crop.fits tree a) : crop.Taken feed c a c.advance := by
  have hg := hc.gains_advance (word_ne_eof hw)
  rw [hw] at hg
  exact ⟨hg.imp hparts fun tree _ => hfits tree, fun hp => ((hc hp).1.reads_advance (word_ne_eof hw)).2.1⟩

lemma able_name :
    Able feed limit (expectFor .identifier message) (.words fun token => [.name token.value]) := by
  intro c hc
  refine (hits_expectFor .identifier message feed c).imp ?_
  rintro _ _ ⟨hk, rfl, rfl⟩
  exact taken_word hc (by simp [word?, hk]) rfl fun _ => trivial

lemma leads_leaf {node role} (hc : c.Ready feed limit) (hw : c.current.word? = some w)
    (hparts : node.parts = [.word w]) (hspan : node.span = c.current.span)
    (hfits : ∀ tree, node.Fits tree) (hrole : ∀ tree id, tree.node? id = some node → role tree id) :
    Leads feed (insert node) c.advance ((Crop.node role).Taken feed c) := by
  have hne := word_ne_eof hw
  have hg := hc.gains_advance hne
  rw [hw] at hg
  have hchildren : node.children = [] := by rw [← filterMap_parts, hparts]; rfl
  refine ⟨((hg.imp hparts fun _ h => h).push (fun tree _ => hfits tree) (fun ho => ?_) fun hp =>
    ?_).imp rfl fun tree => hrole tree _, fun hp => ((hc hp).1.reads_advance hne).2.1⟩
  · rw [hspan, hchildren]
    exact ho.spans hne
  · rw [hspan]
    exact ((hc hp).1.reads_advance hne).2.2

end

/-! ### The way through a rule -/

/-- The rest of a rule, after some parts were read from a cursor on and at least one token was
passed. -/
def Goes (feed : Feed) (limit : Nat) (c : Cursor) (parts : List Part) (known : Tree → Prop)
    (work : Parse α) (post : α → Cursor → Prop) : Prop :=
  ∀ c', c.Gains feed c' parts known →
    (feed.plain → c'.remaining ≤ limit ∧ c'.remaining < c.remaining) → Leads feed work c' post

section

variable {limit : Nat} {kind : TokenKind} {message : String} {parts : List Part}
  {known : Tree → Prop} {f : Token → Parse α}

lemma Leads.advance (hc : c.Ready feed (limit + 1)) (hk : c.current.kind.isMark)
    (hf : Goes feed limit c [] (fun _ => True) (f c.current) post) : Leads feed (advance >>= f) c post := by
  have hne := mark_ne_eof hk
  have hg := hc.gains_advance hne
  rw [word?_of_isMark hk] at hg
  refine hf c.advance hg fun hp => ?_
  have hlt := ((hc hp).1.reads_advance hne).2.1
  exact ⟨by have := (hc hp).2; omega, hlt⟩

lemma Leads.mark {x} (hx : Hits kind x) (hm : kind.isMark) (hc : c.Ready feed (limit + 1))
    (hf : Goes feed limit c [] (fun _ => True) (f c.current) post) : Leads feed (x >>= f) c post := by
  refine (hx feed c).bind ?_
  rintro _ _ ⟨hk, rfl, rfl⟩
  exact Leads.advance hc (hk ▸ hm) hf

lemma Leads.name (hc : c.Ready feed (limit + 1))
    (hf : Goes feed limit c [.name c.current.value] (fun _ => True) (f c.current) post) :
    Leads feed (expectFor .identifier message >>= f) c post := by
  refine (hits_expectFor .identifier message feed c).bind ?_
  rintro _ _ ⟨hk, rfl, rfl⟩
  have ht : (Crop.words fun token : Token => [.name token.value]).Taken feed c c.current c.advance :=
    taken_word hc (by simp [word?, hk]) rfl fun _ => trivial
  refine hf c.advance ht.read fun hp => ?_
  have hlt := ht.lt hp
  exact ⟨by have := (hc hp).2; omega, hlt⟩

namespace Goes

variable {x : Parse α} {f : Token → Parse α} {crop : Crop α} {role : Tree → NodeId → Prop}

lemma bind {f} (hx : Mild feed limit x crop) (hf : ∀ a, Goes feed limit c (parts ++ crop.parts a)
    (fun tree => known tree ∧ crop.fits tree a) (f a) after) :
    Goes feed limit c parts known (x >>= f) after := by
  intro c' h hle
  refine (hx c' fun hp => ⟨(h.reads hp).proper, (hle hp).1⟩).bind fun a d hd =>
    hf a d (h.append hd) fun hp => ?_
  have hremaining := (hd.reads hp).remaining_le
  have := hle hp
  omega

lemma imp {also more} (h : Goes feed limit c more also x post) (hparts : more = parts)
    (hk : ∀ tree, known tree → also tree) : Goes feed limit c parts known x post :=
  fun c' hg => h c' (hg.imp hparts hk)

lemma words {f said} (hx : Mild feed limit x (.words said))
    (hf : ∀ a, Goes feed limit c (parts ++ said a) known (f a) after) :
    Goes feed limit c parts known (x >>= f) after :=
  .bind hx fun a => (hf a).imp rfl fun _ h => h.1

lemma pass {c'} (hx : Goes feed limit c parts known x post) (h : c.Gains feed c' parts known)
    (hle : feed.plain → c'.remaining ≤ limit ∧ c'.remaining < c.remaining)
    (hk : c'.current.kind.isMark) : Leads feed x c'.advance post := by
  have hready : c'.Ready feed limit := fun hp => ⟨(h.reads hp).proper, (hle hp).1⟩
  have hg := h.append (hready.gains_advance (mark_ne_eof hk))
  rw [word?_of_isMark hk] at hg
  refine hx _ (hg.imp (append_nil _).symm fun _ h => h.1) fun hp => ?_
  have hlt := ((hready hp).1.reads_advance (mark_ne_eof hk)).2.1
  have := hle hp
  omega

lemma mark {x} (hx : Hits kind x) (hm : kind.isMark)
    (hf : ∀ token, Goes feed limit c parts known (f token) post) :
    Goes feed limit c parts known (x >>= f) post := by
  intro c' h hle
  refine (hx feed c').bind ?_
  rintro _ _ ⟨hk, rfl, rfl⟩
  exact (hf c'.current).pass h hle (hk ▸ hm)

lemma expect (hm : kind.isMark) (hf : ∀ token, Goes feed limit c parts known (f token) post) :
    Goes feed limit c parts known (expect kind >>= f) post :=
  .mark (hits_expect kind) hm hf

lemma expectFor (hm : kind.isMark) (hf : ∀ token, Goes feed limit c parts known (f token) post) :
    Goes feed limit c parts known (expectFor kind message >>= f) post :=
  .mark (hits_expectFor kind message) hm hf

lemma name (hf : ∀ token, Goes feed limit c (parts ++ [.name token.value]) known (f token) post) :
    Goes feed limit c parts known (Parse.expectFor .identifier message >>= f) post :=
  .words able_name.mild hf

lemma eat (hm : kind.isMark) {f} (htrue : Goes feed limit c parts known (f true) post)
    (hfalse : Goes feed limit c parts known (f false) post) :
    Goes feed limit c parts known (eat kind >>= f) post := by
  intro c' h hle
  show Leads feed ((if c'.current.kind = kind then (do let _ ← advance; return true)
    else return false) >>= f) c' post
  split
  next hk => exact htrue.pass h hle (hk ▸ hm)
  next => exact hfalse c' h hle

/-- A mark says which of two things is read. -/
lemma ifEaten (hm : kind.isMark) {y} {f : α → Parse β} (hx : Mild feed limit x crop)
    (hy : Mild feed limit y crop) (hf : ∀ a, Goes feed limit c (parts ++ crop.parts a) (fun tree =>
    known tree ∧ crop.fits tree a) (f a) after) : Goes feed limit c parts known (do
      let a ← if ← Parse.eat kind then x else y
      f a) after :=
  .eat hm (.bind hx hf) (.bind hy hf)

/-- What is read depends on the kind of the token in hand. -/
lemma ifKind {y} {f : α → Parse β}
    (hx : ∀ c', c'.current.kind = kind → c'.Ready feed limit → Leads feed x c' (crop.Read feed c'))
    (hy : Mild feed limit y crop) (hf : ∀ a, Goes feed limit c (parts ++ crop.parts a) (fun tree =>
    known tree ∧ crop.fits tree a) (f a) after) : Goes feed limit c parts known (do
      let a ← if (← Parse.kind) = kind then x else y
      f a) after := by
  have hchoice : Mild feed limit (do if (← Parse.kind) = kind then x else y) crop := by
    intro c' hready
    refine leads_kind_bind.2 ?_
    split
    next hk => exact hx c' hk hready
    next => exact hy c' hready
  intro c' h hle
  have hrest := Goes.bind hchoice hf c' h hle
  simp only [bind_assoc] at hrest
  refine leads_kind_bind.2 ?_
  have hrest := leads_kind_bind.1 hrest
  split at hrest <;> simp_all

lemma span {f} (hf : ∀ span, Goes feed limit c parts known (f span) post) :
    Goes feed limit c parts known (spanFrom c.current.span.start >>= f) post := by
  intro c' h hle
  refine (leads_spanFrom fun hp => ((h.reads hp).lt_stop (hle hp).2).le).bind ?_
  rintro span _ ⟨rfl, -⟩
  exact hf span c' h hle

protected lemma pure {a} (hparts : crop.parts a = parts) (hfits : ∀ tree, known tree →
    crop.fits tree a) : Goes feed limit c parts known (pure a) (crop.Taken feed c) :=
  fun _ h hle => ⟨h.imp hparts hfits, fun hp => (hle hp).2⟩

section

variable (hc : c.Ready feed (limit + 1))

include hc

lemma close {build : Span → Node} (hparts : ∀ span, (build span).parts = parts) (hspan : ∀ span,
    (build span).span = span) (hfits : ∀ span tree, known tree → (build span).Fits tree)
    (hrole : ∀ span tree id, tree.node? id = some (build span) → role tree id) :
    Goes feed limit c parts known (do insert (build (← spanFrom c.current.span.start)))
    ((Crop.node role).Taken feed c) := by
  intro c' h hle
  have hlt (hp : feed.plain) := (h.reads hp).lt_stop (hle hp).2
  refine (leads_spanFrom fun hp => (hlt hp).le).bind ?_
  rintro span _ ⟨rfl, hs⟩
  have hg := h.imp (hparts span) fun _ h => h
  refine ⟨(hg.push (hfits span) (fun ho => ?_) fun hp => ?_).imp rfl fun tree => hrole span tree _,
    fun hp => (hle hp).2⟩
  · have hgrows := hg.grows
    rw [filterMap_parts] at hgrows
    rw [hspan]
    exact hgrows.spans hs ho
  · obtain ⟨-, rfl⟩ := between_eq_ok_iff.1 hs
    rw [hspan]
    exact ⟨(hc hp).1.start_file, (h.reads hp).proper.file_eq, hlt hp, le_rfl⟩

lemma closeDecl {kind test} (hparts : kind.parts = parts)
    (hfits : ∀ tree, known tree → kind.Fits tree) (ht : test kind) : Goes feed limit c parts known
      (do insertDecl kind (← spanFrom c.current.span.start)) ((Crop.decl test).Taken feed c) :=
  .close hc (fun _ => hparts) (fun _ => rfl) (fun _ => hfits) fun _ _ _ hn => ⟨_, decl?_eq_some.2 hn, ht⟩

lemma closeStmt {kind} (hparts : kind.children.map .node = parts) (hfits : ∀ tree, known tree →
    kind.Fits tree) (hrole : ∀ span tree id, tree.stmt? id = some ⟨kind, span⟩ → role tree id) :
    Goes feed limit c parts known (do insertStmt kind (← spanFrom c.current.span.start))
      ((Crop.node role).Taken feed c) :=
  .close hc (fun _ => hparts) (fun _ => rfl) (fun _ => hfits) fun _ _ _ hn => hrole _ _ _ (stmt?_eq_some.2 hn)

lemma closeExpr {kind} (hparts : kind.parts = parts) (hfits : ∀ tree, known tree → kind.Fits tree) :
    Goes feed limit c parts known (do insertExpr kind (← spanFrom c.current.span.start))
    (Crop.expr.Taken feed c) :=
  .close hc (fun _ => hparts) (fun _ => rfl) (fun _ => hfits) fun _ _ _ hn => ⟨_, expr?_eq_some.2 hn⟩

end

lemma closeLeft {first left kind} (hl : Crop.expr.Read feed first left c)
    (hparts : kind.parts = .node left :: parts) (hfits : ∀ tree, tree.HasExpr left → known tree → kind.Fits tree) :
    Goes feed limit c parts known (do let start ← exprStart left; insertExpr kind (← spanFrom start)) fun id d =>
      Crop.expr.Read feed first id d ∧ (feed.plain → d.remaining < c.remaining) := by
  intro c' h hle
  have hg := hl.append h
  refine (leads_exprStart fun _ => (hg.holds _ (.refl _)).1).bind ?_
  rintro _ _ ⟨rfl, expr, he, rfl⟩
  have hinside (hp : feed.plain) := (h.reads hp).proper.nodes left _ (expr?_eq_some.1 he)
  refine (leads_spanFrom fun hp => (hinside hp).lt.le.trans (hinside hp).le).bind ?_
  rintro span _ ⟨rfl, hs⟩
  have hnode : first.Gains feed c' (Node.expr ⟨kind, span⟩).parts _ := hg.imp hparts fun _ h => h
  refine ⟨(hnode.push (fun tree hk => hfits tree hk.1 hk.2) (fun ho => ?_) fun hp => ?_).imp rfl fun tree hn =>
    ⟨_, expr?_eq_some.2 hn⟩, fun hp => (hle hp).2⟩
  · have hgrows := hg.grows
    have hchildren : (Node.expr ⟨kind, span⟩).children = left :: parts.filterMap node? := by
      rw [← Node.filterMap_parts]
      exact congrArg _ hparts
    rw [hchildren]
    exact hgrows.spans_left he hs ho
  · obtain ⟨-, rfl⟩ := between_eq_ok_iff.1 hs
    have hin := hinside hp
    exact ⟨hin.start_file, (h.reads hp).proper.file_eq, hin.lt.trans_le hin.le, le_rfl⟩

lemma last (hx : Mild feed limit x crop) : Goes feed limit c [] (fun _ => True) x (crop.Taken feed c) := by
  have h : Goes feed limit c [] (fun _ => True) (x >>= pure) (crop.Taken feed c) :=
    .bind hx fun a => .pure rfl fun _ hk => hk.2
  simpa using h

end Goes

lemma Leads.ended {x} {f : α → β} {crop : Crop α} {made : Crop β} (hx : Leads feed x c
    (crop.Taken feed c)) (hm : kind.isMark) (hparts : ∀ a, made.parts (f a) = crop.parts a)
    (hfits : ∀ tree a, crop.fits tree a → made.fits tree (f a)) : Leads feed (do
      let a ← x
      let _ ← expect kind
      return f a) c (made.Taken feed c) := by
  refine hx.bind fun a c' ht => ?_
  have hrest : Goes feed c'.remaining c (crop.parts a) (fun tree => crop.fits tree a) _ (made.Taken feed c) :=
    .expect hm fun _ => .pure (hparts a) fun tree => hfits tree a
  exact hrest c' ht.read fun hp => ⟨le_rfl, ht.lt hp⟩

lemma mild_eat (hm : kind.isMark)
    {x none} {crop : Crop α} (hparts : crop.parts none = []) (hfits : ∀ tree, crop.fits tree none)
    (hx : ∀ c, Goes feed limit c [] (fun _ => True) x (crop.Taken feed c)) :
    Mild feed limit (do if ← eat kind then x else return none) crop := by
  intro c hc
  show Leads feed ((if c.current.kind = kind then (do let _ ← advance; return true)
    else return false) >>= _) c _
  split
  next hk => exact (Leads.advance (f := fun _ => x) (hc.mono (Nat.le_succ _)) (hk ▸ hm) (hx c)).imp fun _ _ ht => ht.read
  next => exact (Cursor.Gains.refl fun hp => (hc hp).1).imp hparts fun tree _ => hfits tree

end

/-! ### Lists -/

section

variable {limit few : Nat} {item : Parse α} {crop : Crop α} (hitem : Able feed limit item crop)

include hitem

/-- What follows the first item is read with fewer tokens left. -/
lemma Leads.first (hfew : feed.plain → few ≤ limit) (hc : c.Ready feed few) {f}
    (hf : ∀ a, Goes feed (few - 1) c (crop.parts a) (fun tree => crop.fits tree a) (f a) after) :
    Leads feed (item >>= f) c after := by
  refine (hitem c fun hp => ⟨(hc hp).1, (hc hp).2.trans (hfew hp)⟩).bind fun a c' ht =>
    hf a c' ht.read fun hp => ?_
  have := (hc hp).2
  have := ht.lt hp
  omega

variable (close : TokenKind)

lemma mild_commaListWithin (bound : Nat) : ∀ (trailing : Bool) {few}, (feed.plain → few ≤ limit ∧
    few < bound) → Mild feed few (commaListWithin close item bound trailing) crop.listed := by
  induction bound with
  | zero => exact fun _ _ hb _ _ hp => absurd (hb hp).2 (Nat.not_lt_zero _)
  | succ bound ih =>
    intro trailing few hb c hc
    refine leads_kind_bind.2 ?_
    split
    · exact (Cursor.Gains.refl fun hp => (hc hp).1).imp rfl (by simp)
    refine Leads.imp (Leads.first hitem (fun hp => (hb hp).1) hc fun a => .eat rfl ?_ ?_)
      fun _ _ (ht : crop.listed.Taken ..) => ht.read
    · refine .bind (ih true fun hp => hc.fewer hp (hb hp)) ?_
      rintro ⟨rest, trailing⟩
      exact .pure rfl fun tree hk => forall_mem_cons.2 hk
    · exact .pure (by simp) (by simp)

lemma mild_commaList : Mild feed limit (commaList close item) crop.listed :=
  fun c hc => leads_get_bind.2 (mild_commaListWithin hitem close _ false (fun hp =>
    ⟨(hc hp).2, Nat.lt_succ_self _⟩) c hc.least)

variable {separator : TokenKind}

lemma able_separatedWithin (hs : separator.isMark) (bound : Nat) :
    ∀ {few}, (feed.plain → few ≤ limit ∧ few < bound) →
    Able feed few (separatedWithin separator item bound) crop.list := by
  induction bound with
  | zero => exact fun hb _ _ hp => absurd (hb hp).2 (Nat.not_lt_zero _)
  | succ bound ih =>
    intro few hb c hc
    refine Leads.first hitem (fun hp => (hb hp).1) hc fun a => .eat hs ?_ ?_
    · refine .bind (ih fun hp => hc.fewer hp (hb hp)).mild fun rest => ?_
      exact .pure rfl fun tree hk => forall_mem_cons.2 hk
    · exact .pure (by simp) (by simp)

lemma able_separated (hs : separator.isMark) : Able feed limit (separated separator item) crop.list :=
  fun c hc => leads_get_bind.2 (able_separatedWithin hitem hs _ (fun hp =>
    ⟨(hc hp).2, Nat.lt_succ_self _⟩) c hc.least)

lemma mild_untilWithin (bound : Nat) : ∀ {few}, (feed.plain → few ≤ limit ∧ few < bound) →
    Mild feed few (untilWithin close item bound) crop.list := by
  induction bound with
  | zero => exact fun hb _ _ hp => absurd (hb hp).2 (Nat.not_lt_zero _)
  | succ bound ih =>
    intro few hb c hc
    refine leads_kind_bind.2 ?_
    split
    · exact (Cursor.Gains.refl fun hp => (hc hp).1).imp rfl (by simp)
    refine Leads.imp (Leads.first hitem (fun hp => (hb hp).1) hc fun a => .bind (ih fun hp =>
      hc.fewer hp (hb hp)) fun rest => ?_) fun _ _ (ht : crop.list.Taken ..) => ht.read
    exact .pure rfl fun tree hk => forall_mem_cons.2 hk

lemma mild_untilClosed : Mild feed limit (untilClosed close item) crop.list :=
  fun c hc => leads_get_bind.2 (mild_untilWithin hitem close _ (fun hp =>
    ⟨(hc hp).2, Nat.lt_succ_self _⟩) c hc.least)

omit hitem in
/-- A list ends where the closing token is in hand. -/
lemma grants_untilWithin (bound : Nat) : ∀ {c},
    Grants (untilWithin close item bound) c fun _ c' => c'.current.kind = close := by
  induction bound with
  | zero => exact Grants.throw
  | succ bound ih =>
    intro c
    show Grants (if c.current.kind = close then (return []) else (do
      let first ← item
      return first :: (← untilWithin close item bound)) : Parse (List α)) c _
    split
    next hk => exact grants_pure.2 hk
    next =>
      refine Grants.bind (fun _ _ _ => trivial) fun first c1 (_ : True) => ih.bind fun rest c2 hk => ?_
      exact grants_pure.2 hk

omit hitem in
lemma grants_untilClosed : Grants (untilClosed close item) c fun _ c' => c'.current.kind = close :=
  grants_get_bind.2 (grants_untilWithin close _)

end

end Parse

end TraitLang
