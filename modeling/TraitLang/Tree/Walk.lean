import TraitLang.Tree.Basic

/-! Walks over a tree. An observer sees each node before its children and may pass over them. -/
namespace TraitLang

structure Observer (m : Type → Type) where
  /-- Called before the children. If it answers `false` they are passed over, and so is `exit`. -/
  enter : NodeId → m Bool
  exit : NodeId → m Unit

namespace Tree

variable {m : Type → Type} [Monad m]

/-- Walks a node down to a depth. -/
def walkWithin (tree : Tree) (observer : Observer m) : (depth : Nat) → NodeId → m Unit
  | 0, _ => pure ()
  | depth + 1, id => do
    if ← observer.enter id then
      (tree.children id).forM (walkWithin tree observer depth)
      observer.exit id

/-- Walks a node and everything below it. No path down a tree is longer than the tree has nodes. -/
def walk (tree : Tree) (observer : Observer m) (id : NodeId) : m Unit :=
  walkWithin tree observer (tree.size + 1) id

/-- The nodes entered and left by a walk, in order. -/
structure Trace where
  entered : List NodeId
  exited : List NodeId

def recorder (skip : Option NodeId) : Observer (StateM Trace) where
  enter id := do
    modify fun trace => { trace with entered := id :: trace.entered }
    return skip ≠ some id
  exit id := modify fun trace => { trace with exited := id :: trace.exited }

/-- The trace of a walk that passes over the children of one node. -/
def trace (tree : Tree) (id : NodeId) (skip : Option NodeId) : Trace :=
  let (_, trace) := (tree.walk (recorder skip) id).run ⟨[], []⟩
  ⟨trace.entered.reverse, trace.exited.reverse⟩

end Tree

end TraitLang
