import TraitLang.Grammar.Module
import TraitLang.Proofs.Shape

/-! Where nodes stand in the text of one file. Tokens follow each other, and a cursor that moves
over them leaves nodes behind whose spans follow each other and have those of their children in
them. -/
namespace TraitLang

/-! ### Nodes in a row -/

namespace Tree

/-- The spans of some nodes follow each other between two offsets. -/
inductive Row (tree : Tree) : (low : Nat) → List NodeId → (high : Nat) → Prop
  | nil {low high : Nat} : Row tree low [] high
  | cons {low high : Nat} {root : NodeId} {roots : List NodeId}
    {node : Node} : tree.node? root = some node → low ≤ node.span.start.offset →
    node.span.start.offset ≤ node.span.stop.offset → node.span.stop.offset ≤ high →
    Row tree node.span.stop.offset roots high → Row tree low (root :: roots) high

namespace Row

variable {tree : Tree} {low high : Nat} {roots more : List NodeId}

lemma mono {large} (h : tree.Row low roots high) (hl : tree.Extends large) : large.Row low roots high := by
  induction h with
  | nil => exact .nil
  | cons hn h1 h2 h3 _ ih => exact .cons (hl.node?_of_some hn) h1 h2 h3 ih

lemma addModule (h : tree.Row low roots high) (id : DeclId) : (tree.addModule id).Row low roots high := by
  induction h with
  | nil => exact .nil
  | cons hn h1 h2 h3 _ ih => exact .cons hn h1 h2 h3 ih

lemma weaken {lower higher} (h : tree.Row low roots high) (hlow : lower ≤ low)
    (hhigh : high ≤ higher) : tree.Row lower roots higher := by
  induction h generalizing lower with
  | nil => exact .nil
  | cons hn h1 h2 h3 _ ih => exact .cons hn (hlow.trans h1) h2 (h3.trans hhigh) (ih le_rfl hhigh)

lemma append {stop start} (h1 : tree.Row low roots stop) (h2 : tree.Row start more high) (hlow : low ≤ start)
    (hgap : stop ≤ start) (hhigh : stop ≤ high) : tree.Row low (roots ++ more) high := by
  induction h1 with
  | nil => exact h2.weaken hlow le_rfl
  | cons hn hl hm hh _ ih => exact .cons hn hl hm (hh.trans hhigh) (ih (hh.trans hgap) hgap hhigh)

end Row

/-- A node has the spans of its children in a row inside of its own span. -/
def NeatAt (tree : Tree) (id : NodeId) : Prop :=
  ∀ node, tree.node? id = some node → tree.Row node.span.start.offset node.children node.span.stop.offset

def Neat (tree : Tree) : Prop := ∀ id, tree.NeatAt id

lemma neat_empty : empty.Neat := by
  intro id node hn
  simp [empty, node?] at hn

lemma Neat.push {tree : Tree} {node} (h : tree.Neat)
    (hr : tree.Row node.span.start.offset node.children node.span.stop.offset) : (tree.push node).2.Neat := by
  intro id found hn
  rw [node?_push] at hn
  split at hn
  · cases hn
    exact hr.mono (.push ..)
  · exact (h id found hn).mono (.push ..)

end Tree

/-! ### Tokens in order -/

namespace Token

/-- Tokens follow each other from an offset on, up to the end of the text. -/
def InOrder : (low : Nat) → List Token → Prop
  | _, [] => False
  | low, token :: tokens => low ≤ token.span.start.offset ∧ token.span.start.offset ≤ token.span.stop.offset ∧
    (token.kind ≠ .eof → InOrder token.span.stop.offset tokens)

lemma inOrder_ofPieces (file : String) (pieces : List Piece) : ∀ {low offset}, low ≤ offset →
    InOrder low (ofPieces file offset pieces) := by
  induction pieces with
  | nil => exact fun hle => ⟨hle, le_rfl, fun h => absurd rfl h⟩
  | cons piece pieces ih =>
    intro low offset hle
    unfold ofPieces
    split
    · exact ih (hle.trans (Nat.le_add_right _ _))
    · exact ⟨hle, Nat.le_add_right _ _, fun _ => ih le_rfl⟩

lemma inOrder_scan {file source tokens} (h : scan file source = .ok tokens) : InOrder 0 tokens := by
  unfold scan at h
  split at h
  split at h
  · cases h
    exact inOrder_ofPieces _ _ le_rfl
  · cases h

end Token

/-! ### Cursors -/

namespace Cursor

def start (cursor : Cursor) : Nat := cursor.current.span.start.offset

def stop (cursor : Cursor) : Nat := cursor.previousEnd.offset

/-- What is still to be read comes in order, and what was made is neat. -/
structure Orderly (cursor : Cursor) : Prop where
  inOrder : Token.InOrder cursor.stop (cursor.current :: cursor.ahead)
  neat : cursor.tree.Neat

/-- From a cursor to a later one, which has left some roots in a row behind it. -/
structure Lays (c c' : Cursor) (roots : List NodeId) : Prop where
  orderly : c'.Orderly
  start_le : c.start ≤ c'.start
  stop_le : c.stop ≤ c'.stop
  row : c'.tree.Row c.start roots c'.stop

variable {c c' c'' : Cursor} {roots more : List NodeId}

lemma Orderly.stop_le_start (h : c.Orderly) : c.stop ≤ c.start := h.inOrder.1

protected lemma Lays.refl (h : c.Orderly) : c.Lays c [] := ⟨h, le_rfl, le_rfl, .nil⟩

lemma Lays.append (h1 : c.Lays c' roots) (h2 : c'.Lays c'' more) (he : c'.tree.Extends c''.tree) :
    c.Lays c'' (roots ++ more) :=
  ⟨h2.orderly, h1.start_le.trans h2.start_le, h1.stop_le.trans h2.stop_le,
    (h1.row.mono he).append h2.row h1.start_le h1.orderly.stop_le_start h2.stop_le⟩

lemma tree_advance (c : Cursor) : c.advance.tree = c.tree := by
  unfold advance
  split
  · rfl
  · split <;> rfl

lemma Orderly.advance_eq (h : c.Orderly) (hk : c.current.kind ≠ .eof) : ∃ next rest, c.ahead = next :: rest ∧
    c.advance = { c with previous := some c.current, current := next, ahead := rest } := by
  cases ha : c.ahead with
  | nil =>
    have := h.inOrder.2.2 hk
    simp [ha, Token.InOrder] at this
  | cons next rest => exact ⟨next, rest, rfl, by simp [advance, hk, ha]⟩

lemma Orderly.stop_advance (h : c.Orderly) (hk : c.current.kind ≠ .eof) :
    c.advance.stop = c.current.span.stop.offset := by
  obtain ⟨_, _, -, ha⟩ := h.advance_eq hk
  rw [ha]
  rfl

lemma Orderly.lays_advance (h : c.Orderly) : c.Lays c.advance [] := by
  by_cases hk : c.current.kind = .eof
  · rw [advance, if_pos hk]
    exact .refl h
  · obtain ⟨_, _, hahead, ha⟩ := h.advance_eq hk
    obtain ⟨hstop, hspan, hrest⟩ := h.inOrder
    have hrest := hrest hk
    rw [hahead] at hrest
    rw [ha]
    exact ⟨⟨hrest, h.neat⟩, hspan.trans hrest.1, hstop.trans hspan, .nil⟩

lemma Lays.push {node} (h : c.Lays c' node.children) (hlow : c.start ≤ node.span.start.offset)
    (hle : node.span.start.offset ≤ node.span.stop.offset) (hhigh : node.span.stop.offset ≤ c'.stop)
    (hrow : c'.tree.Row node.span.start.offset node.children node.span.stop.offset) :
    c.Lays { c' with tree := (c'.tree.push node).2 } [c'.tree.size] := by
  refine ⟨⟨h.orderly.inOrder, h.orderly.neat.push hrow⟩, h.start_le, h.stop_le, .cons ?_ hlow hle hhigh .nil⟩
  rw [Tree.node?_push, if_pos rfl]

lemma orderly_ofTokens (file : String) {tokens} (h : Token.InOrder 0 tokens) : (ofTokens file tokens).Orderly := by
  cases tokens with
  | nil => cases h
  | cons token tokens => exact ⟨⟨le_rfl, h.2⟩, Tree.neat_empty⟩

end Cursor

end TraitLang
