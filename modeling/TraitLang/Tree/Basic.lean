import TraitLang.Tree.Node

/-! A tree is a numbered store of nodes with some declarations marked as its modules. Nodes are
never removed, so a number stays good once it was given out; a slot of a node may be pointed at a
newer node later. -/
namespace TraitLang

structure Tree where
  nodes : Array Node
  modules : List DeclId
deriving Repr, Inhabited

namespace Tree

def empty : Tree := ⟨#[], []⟩

def size (tree : Tree) : Nat := tree.nodes.size

/-- Adds a node, which gets the next number. -/
def push (tree : Tree) (node : Node) : NodeId × Tree :=
  (tree.size, { tree with nodes := tree.nodes.push node })

def addModule (tree : Tree) (id : DeclId) : Tree :=
  { tree with modules := tree.modules ++ [id] }

/-! ### Nodes by number and family -/

def node? (tree : Tree) (id : NodeId) : Option Node := tree.nodes[id]?

def decl? (tree : Tree) (id : NodeId) : Option Decl :=
  match tree.node? id with
  | some (.decl decl) => some decl
  | _ => none

def stmt? (tree : Tree) (id : NodeId) : Option Stmt :=
  match tree.node? id with
  | some (.stmt stmt) => some stmt
  | _ => none

def expr? (tree : Tree) (id : NodeId) : Option Expr :=
  match tree.node? id with
  | some (.expr expr) => some expr
  | _ => none

def case? (tree : Tree) (id : NodeId) : Option MatchCase :=
  match tree.node? id with
  | some (.case case) => some case
  | _ => none

def span? (tree : Tree) (id : NodeId) : Option Span :=
  (tree.node? id).map Node.span

def isModule (tree : Tree) (id : NodeId) : Bool :=
  (tree.node? id).any Node.isModule

def isScope (tree : Tree) (id : NodeId) : Bool :=
  (tree.node? id).any Node.isScope

/-- The scope that a node introduces, if it introduces one. -/
def scope? (tree : Tree) (id : NodeId) : Option ScopeId :=
  if tree.isScope id then some id else none

def children (tree : Tree) (id : NodeId) : List NodeId :=
  ((tree.node? id).map Node.children).getD []

/-- The name that a declaration introduces. -/
def declName? (tree : Tree) (id : DeclId) : Option String :=
  (tree.decl? id).bind fun decl => decl.kind.name?

def isFunction (tree : Tree) (id : DeclId) : Bool :=
  (tree.decl? id).any fun decl => decl.kind.isFunction

/-- The number of a declaration. -/
def asDecl? (tree : Tree) (id : NodeId) : Option DeclId :=
  (tree.decl? id).map fun _ => id

/-! ### Slots -/

/-- A list with another value at an index, which has to be in range. -/
def setSlot {α : Type} (slots : List α) (index : Nat) (value : α) : Option (List α) :=
  if index < slots.length then some (slots.set index value) else none

def put (tree : Tree) (id : NodeId) (node : Node) : Tree :=
  { tree with nodes := tree.nodes.setIfInBounds id node }

/-- Replaces a node by the result of a change to it. There is no result if the tree has no such
node, or the node not what is changed in it. -/
def update (tree : Tree) (id : NodeId) (change : Node → Option Node) : Option Tree :=
  ((tree.node? id).bind change).map (tree.put id)

def updateDecl (tree : Tree) (id : DeclId) (change : DeclKind → Option DeclKind) : Option Tree :=
  tree.update id fun
    | .decl decl => (change decl.kind).map fun kind => .decl { decl with kind }
    | _ => none

def updateStmt (tree : Tree) (id : StmtId) (change : StmtKind → Option StmtKind) : Option Tree :=
  tree.update id fun
    | .stmt stmt => (change stmt.kind).map fun kind => .stmt { stmt with kind }
    | _ => none

def updateExpr (tree : Tree) (id : ExprId) (change : ExprKind → Option ExprKind) : Option Tree :=
  tree.update id fun
    | .expr expr => (change expr.kind).map fun kind => .expr { expr with kind }
    | _ => none

def updateCase (tree : Tree) (id : CaseId) (change : MatchCase → MatchCase) : Option Tree :=
  tree.update id fun
    | .case case => some (.case (change case))
    | _ => none

@[simp]
theorem size_push (tree : Tree) (node : Node) : (tree.push node).2.size = tree.size + 1 := by
  simp [push, size]

theorem node?_push (tree : Tree) (node : Node) (id : NodeId) :
    (tree.push node).2.node? id = if id = tree.size then some node else tree.node? id := by
  simp only [push, node?, size, Array.getElem?_push]
  congr

@[simp]
theorem size_put (tree : Tree) (id : NodeId) (node : Node) : (tree.put id node).size = tree.size := by
  simp [put, size]

theorem node?_put {tree : Tree} {id : NodeId} (h : id < tree.size) (node : Node) (other : NodeId) :
    (tree.put id node).node? other = if id = other then some node else tree.node? other := by
  simp only [put, node?, Array.getElem?_setIfInBounds]
  split
  next heq => exact if_pos (heq ▸ h)
  next => rfl

theorem setSlot_eq_some_iff {α : Type} {slots later : List α} {index : Nat} {value : α} :
    setSlot slots index value = some later ↔ index < slots.length ∧ slots.set index value = later := by
  simp [setSlot]

theorem update_eq_some_iff {tree after : Tree} {id : NodeId} {change : Node → Option Node} :
    tree.update id change = some after ↔ ∃ before node, tree.node? id = some before ∧
      change before = some node ∧ tree.put id node = after := by
  simp only [update, Option.map_eq_some_iff, Option.bind_eq_some_iff]
  grind

section

variable {tree : Tree} {id : NodeId} {span : Span}

theorem updateDecl_eq {kind kind' change} (h : tree.node? id = some (.decl ⟨kind, span⟩))
    (hc : change kind = some kind') :
    tree.updateDecl id change = some (tree.put id (.decl ⟨kind', span⟩)) := by
  simp [updateDecl, update, h, hc]

theorem updateStmt_eq {kind kind' change} (h : tree.node? id = some (.stmt ⟨kind, span⟩))
    (hc : change kind = some kind') :
    tree.updateStmt id change = some (tree.put id (.stmt ⟨kind', span⟩)) := by
  simp [updateStmt, update, h, hc]

theorem updateExpr_eq {kind kind' change} (h : tree.node? id = some (.expr ⟨kind, span⟩))
    (hc : change kind = some kind') :
    tree.updateExpr id change = some (tree.put id (.expr ⟨kind', span⟩)) := by
  simp [updateExpr, update, h, hc]

theorem updateCase_eq {case} (h : tree.node? id = some (.case case)) (change : MatchCase →
    MatchCase) : tree.updateCase id change = some (tree.put id (.case (change case))) := by
  simp [updateCase, update, h]

end

end Tree

end TraitLang
