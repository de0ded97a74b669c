import Std.Data.TreeMap
import TraitLang.Diagnostic.Defect
import TraitLang.Tree.Basic

/-! A tree together with its lexical structure. A walk over the tree fills the three tables; later
work only adds nodes to it. -/
namespace TraitLang

/-- A table keyed by node numbers, in their order. -/
abbrev NodeMap (α : Type) := Std.TreeMap NodeId α

structure Program where
  tree : Tree
  /-- The innermost scope around every node below the modules. -/
  nodeScopes : NodeMap ScopeId
  /-- The declarations that each scope owns directly, in source order. -/
  scopeDecls : NodeMap (List DeclId)
  /-- The innermost binding that was open where a variable was met. -/
  varBindings : NodeMap DeclId

namespace Program

def bare (tree : Tree) : Program := ⟨tree, ∅, ∅, ∅⟩

/-! ### Entries -/

/-- Puts a node into a scope, and a declaration into the list of the scope as well. -/
def insert (program : Program) (node : NodeId) (scope : ScopeId) : Program :=
  let placed := { program with nodeScopes := program.nodeScopes.insert node scope }
  if (program.tree.decl? node).isSome then
    let decls := program.scopeDecls.getD scope []
    { placed with scopeDecls := program.scopeDecls.insert scope (decls ++ [node]) }
  else placed

def openScope (program : Program) (scope : ScopeId) : Program :=
  { program with scopeDecls := program.scopeDecls.insertIfNew scope [] }

/-- Notes the binding that a variable is met under. The first one counts. -/
def bindVar (program : Program) (var binding : DeclId) : Program :=
  { program with varBindings := program.varBindings.insertIfNew var binding }

/-! ### The scope chain -/

/-- The innermost scope around a node; modules have none. -/
def scopeOf (program : Program) (id : NodeId) : Option ScopeId := program.nodeScopes[id]?

def parent (program : Program) (scope : ScopeId) : Option ScopeId := program.scopeOf scope

def decls (program : Program) (scope : ScopeId) : List DeclId := program.scopeDecls.getD scope []

/-- The binding that was open where a variable was met. The variable of a match case may stand in
the initializer of a binding that does not introduce it. -/
def bindingOf (program : Program) (var : DeclId) : Option DeclId := program.varBindings[var]?

def chainWithin (program : Program) : (length : Nat) → ScopeId → List ScopeId
  | 0, _ => []
  | length + 1, scope =>
    scope ::
      match program.parent scope with
      | none => []
      | some outer => chainWithin program length outer

/-- A scope and its ancestors, innermost first. All but the last are placed somewhere, which bounds
the length. -/
def chain (program : Program) (scope : ScopeId) : List ScopeId :=
  program.chainWithin (program.nodeScopes.size + 1) scope

/-- Whether a scope is `outer` or lies inside it. -/
def isWithin (program : Program) (scope outer : ScopeId) : Bool :=
  (program.chain scope).contains outer

/-- The innermost function whose scope contains `scope`. -/
def enclosingFunction? (program : Program) (scope : ScopeId) : Option DeclId :=
  (program.chain scope).find? program.tree.isFunction

/-! ### Names -/

/-- Halts unless all of some numbers name declarations. What is read off declarations is demanded
before, since the searches below pass over numbers that name none. -/
def demand (program : Program) (ids : List DeclId) : Except Halt Unit :=
  match ids.find? fun id => (program.tree.decl? id).isNone with
  | some id => .error (.missing id)
  | none => .ok ()

/-- Demands the declarations that can be met on the way out of a scope, and the bindings of those
that are variables. -/
def demandFrom (program : Program) (scope : ScopeId) : Except Halt Unit :=
  let met := (program.chain scope).flatMap program.decls
  program.demand (met ++ met.filterMap program.bindingOf)

/-- The declarations of a name, among the visible ones, in the innermost scope that has any. -/
def findWhere (program : Program) (name : String) (scope : ScopeId)
    (visible : ScopeId → DeclId → Bool) : List DeclId :=
  let found := fun scope => (program.decls scope).filter fun decl =>
    program.tree.declName? decl = some name && visible scope decl
  (((program.chain scope).map found).find? fun decls => !decls.isEmpty).getD []

def find (program : Program) (name : String) (scope : ScopeId) : List DeclId :=
  program.findWhere name scope fun _ _ => true

/-- The binding whose own pattern introduces a variable. -/
def owningBinding? (program : Program) (var : DeclId) : Option DeclId :=
  (program.bindingOf var).filter fun binding =>
    match program.tree.decl? binding with
    | some ⟨.binding decl, _⟩ => decl.pattern.introduces var
    | _ => false

/-- The name of a declaration, or `_` if it has none. -/
def declName (program : Program) (id : DeclId) : String :=
  (program.tree.declName? id).getD "_"

/-! ### Added nodes -/

/-- Places a node that was made while checking. -/
def register (program : Program) (node : NodeId) (scope : ScopeId) : Program :=
  { program with nodeScopes := program.nodeScopes.insert node scope }

def push (program : Program) (node : Node) : NodeId × Program :=
  let (id, tree) := program.tree.push node
  (id, { program with tree })

def placedCount (program : Program) : Nat := program.nodeScopes.size

end Program

end TraitLang
