import TraitLang.Diagnostic.Defect
import TraitLang.Scope.Program

/-! The walk that finds the lexical structure of a tree. It carries the innermost scope along, and
puts the scope around back when it leaves one. Bindings, conditionals and do/while loops see to what
is below them on their own: these are then not left in the usual way. -/
namespace TraitLang

/-- What a walk has found and where it is. -/
structure Visitor where
  program : Program
  /-- The bindings that the walk is in, innermost first. -/
  bindings : List DeclId
  innermost : Option ScopeId

abbrev Visit := EStateM Halt Visitor

namespace Visitor

def new (tree : Tree) : Visitor := ⟨.bare tree, [], none⟩

/-- Puts a node into the innermost scope, which is returned. -/
def insert (node : NodeId) : Visit ScopeId := do
  let visitor ← get
  match visitor.innermost with
  | none => throw (.defect (.orphanNode node))
  | some scope =>
    set { visitor with program := visitor.program.insert node scope }
    return scope

def enterScope (node : NodeId) : Visit Unit :=
  modify fun visitor =>
    match visitor.program.tree.scope? node with
    | none => { visitor with innermost := none }
    | some scope => { visitor with program := visitor.program.openScope scope, innermost := some scope }

def returnTo (scope : Option ScopeId) : Visit Unit :=
  modify fun visitor => { visitor with innermost := scope }

def enterBinding (binding : DeclId) : Visit Unit :=
  modify fun visitor => { visitor with bindings := binding :: visitor.bindings }

/-- Leaves the innermost binding, which has to be the one expected. -/
def leaveBinding (expected : DeclId) : Visit Unit := do
  let visitor ← get
  match visitor.bindings with
  | [] => throw (.defect (.mismatchedBindingExit expected none))
  | found :: bindings =>
    set { visitor with bindings }
    if found ≠ expected then throw (.defect (.mismatchedBindingExit expected (some found)))

section

variable (walk : NodeId → Visit Unit)

/-- What is below a binding is in it. -/
def visitBinding (binding : DeclId) (children : List NodeId) : Visit Unit := do
  enterBinding binding
  children.forM walk
  leaveBinding binding

/-- The condition and the success branch are in the scope of a conditional, the failure branch is in
the scope around it. -/
def visitConditional (node : NodeId) (enclosing : ScopeId) (condition : List ConditionItem)
    (success : NodeId) (failure : Option NodeId) : Visit Unit := do
  enterScope node
  (condition.map ConditionItem.node).forM walk
  walk success
  returnTo (some enclosing)
  failure.toList.forM walk

/-- The condition of a do/while loop is in the scope of its body. -/
def visitLoop (node : NodeId) (enclosing : ScopeId) (body condition : NodeId) : Visit Unit := do
  match (← get).program.tree.stmt? body with
  | some ⟨.block members, _⟩ =>
    let _ ← insert body
    enterScope body
    (members.map BlockMember.node).forM walk
    walk condition
    returnTo (some enclosing)
  | _ => throw (.defect (.malformedTree node "do/while body is not a brace statement"))

/-- Whether the walk has yet to go over what is below a node, which stands in `enclosing`. -/
def visitWithin (id : NodeId) (enclosing : ScopeId) (node : Node) : Visit Bool := do
  match node with
  | .decl ⟨.binding _, _⟩ =>
    visitBinding walk id node.children
    return false
  | .decl ⟨.var _, _⟩ =>
    modify fun visitor =>
      match visitor.bindings with
      | [] => visitor
      | binding :: _ => { visitor with program := visitor.program.bindVar id binding }
    return true
  | .stmt ⟨.cond condition success failure, _⟩ =>
    visitConditional walk id enclosing condition success failure
    return false
  | .stmt ⟨.doWhile body condition, _⟩ =>
    visitLoop walk id enclosing body condition
    return false
  | .expr ⟨.cond condition success failure, _⟩ =>
    visitConditional walk id enclosing condition success (some failure)
    return false
  | _ =>
    if node.isScope then enterScope id
    return true

def willEnter (id : NodeId) (node : Node) : Visit Bool := do
  if node.isModule then
    if (← get).innermost.isSome then throw (.defect (.nestedModule id))
    enterScope id
    return true
  else
    let enclosing ← insert id
    visitWithin walk id enclosing node

end

def willExit (id : NodeId) (node : Node) : Visit Unit :=
  modify fun visitor =>
    if node.isModule then { visitor with innermost := none }
    else if node.isScope then { visitor with innermost := visitor.program.scopeOf id }
    else visitor

/-- Walks over a node and everything below it, down to a depth. -/
def walkWithin : (depth : Nat) → NodeId → Visit Unit
  | 0, _ => throw .exhausted
  | depth + 1, id => do
    match (← get).program.tree.node? id with
    | none => throw (.missing id)
    | some node =>
      if ← willEnter (walkWithin depth) id node then
        node.children.forM (walkWithin depth)
        willExit id node

end Visitor

namespace Program

/-- Finds the lexical structure of a tree, module by module. -/
def ofTree (tree : Tree) : Except Halt Program :=
  match tree.modules.forM (Visitor.walkWithin (tree.size + 1)) (.new tree) with
  | .ok _ visitor => .ok visitor.program
  | .error halt _ => .error halt

end Program

end TraitLang
