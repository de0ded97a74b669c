import TraitLang.Token.Basic
import TraitLang.Tree.TypeExpr

/-! The nodes of a syntax tree. Nodes refer to each other by number, and every number is used at the
family that its name says. -/
namespace TraitLang

/-- The number of a node, below `2 ^ 32` in any tree that is not larger than that. -/
abbrev NodeId := Nat
abbrev DeclId := NodeId
abbrev StmtId := NodeId
abbrev ExprId := NodeId
abbrev CaseId := NodeId

/-- A node that owns a lexical region. -/
abbrev ScopeId := NodeId

/-- What a binding or a match case takes apart. -/
inductive Pattern where
  /-- Introduces a variable, whose declaration it owns. -/
  | name (var : DeclId)
  | tuple (elements : List Pattern)
  | wildcard
  /-- Matches the values that equal an expression. -/
  | expr (expr : ExprId)
deriving Repr

namespace Pattern

mutual

/-- The nodes that a pattern owns, in source order. -/
def nodes : Pattern → List NodeId
  | .name var => [var]
  | .tuple elements => nodesAll elements
  | .wildcard => []
  | .expr id => [id]

def nodesAll : List Pattern → List NodeId
  | [] => []
  | element :: elements => element.nodes ++ nodesAll elements

end

mutual

/-- The variables that a pattern introduces, in source order. -/
def vars : Pattern → List DeclId
  | .name var => [var]
  | .tuple elements => varsAll elements
  | .wildcard | .expr _ => []

def varsAll : List Pattern → List DeclId
  | [] => []
  | element :: elements => element.vars ++ varsAll elements

end

def introduces (pattern : Pattern) (var : DeclId) : Bool :=
  pattern.vars.contains var

end Pattern

/-! ### Declarations -/

/-- Whether what a binding introduces may be assigned to. -/
inductive Introducer where
  | constant
  | variable
deriving DecidableEq, Repr

/-- One requirement of a where clause on a generic parameter. -/
inductive Requirement where
  | equality (param : String) (type : TypeExpr) (span : Span)
  | conformance (param : String) (traits : List TraitName) (span : Span)
deriving Repr

namespace Requirement

def param : Requirement → String
  | .equality param _ _ | .conformance param _ _ => param

def span : Requirement → Span
  | .equality _ _ span | .conformance _ _ span => span

end Requirement

structure FunctionDecl where
  name : String
  genericParams : List DeclId
  params : List DeclId
  output : Option TypeExpr
  whereClause : List Requirement
  /-- Absent for what a trait requires. -/
  body : Option StmtId
deriving Repr

/-- A `let` or `var` that introduces every variable of its pattern at once. -/
structure BindingDecl where
  introducer : Introducer
  pattern : Pattern
  ascription : Option TypeExpr
  initializer : Option ExprId
deriving Repr

structure TraitDecl where
  name : String
  refinements : List TraitName
  members : List DeclId
deriving Repr

structure ProductDecl where
  name : String
  conformances : List TraitName
  members : List DeclId
deriving Repr

inductive DeclKind where
  | module (name : String) (members : List DeclId)
  | function (decl : FunctionDecl)
  | param (name : String) (ascription : TypeExpr)
  | genericParam (name : String)
  | binding (decl : BindingDecl)
  | var (name : String)
  | trait (decl : TraitDecl)
  | product (decl : ProductDecl)
deriving Repr

namespace DeclKind

/-- The name that a declaration introduces. A binding introduces names through its variables. -/
def name? : DeclKind → Option String
  | .module name _ | .param name _ | .genericParam name | .var name => some name
  | .function decl => some decl.name
  | .trait decl => some decl.name
  | .product decl => some decl.name
  | .binding _ => none

def isFunction : DeclKind → Bool
  | .function _ => true
  | _ => false

def isBinding : DeclKind → Bool
  | .binding _ => true
  | _ => false

def describe : DeclKind → String
  | .module _ _ => "module"
  | .function _ => "function"
  | .param _ _ => "parameter"
  | .genericParam _ => "generic parameter"
  | .binding _ => "binding"
  | .var _ => "variable"
  | .trait _ => "trait"
  | .product _ => "type"

end DeclKind

structure Decl where
  kind : DeclKind
  span : Span
deriving Repr

/-! ### Statements -/

/-- One slot of a block. -/
inductive BlockMember where
  | decl (id : DeclId)
  | stmt (id : StmtId)
  | expr (id : ExprId)
deriving DecidableEq, Repr

def BlockMember.node : BlockMember → NodeId
  | .decl id | .stmt id | .expr id => id

/-- One clause of a condition: a boolean test or a binding. -/
inductive ConditionItem where
  | expr (id : ExprId)
  | decl (id : DeclId)
deriving DecidableEq, Repr

def ConditionItem.node : ConditionItem → NodeId
  | .expr id | .decl id => id

inductive StmtKind where
  | block (members : List BlockMember)
  | ret (value : Option ExprId)
  | cond (condition : List ConditionItem) (success : StmtId) (failure : Option StmtId)
  | whileLoop (condition : List ConditionItem) (body : StmtId)
  | doWhile (body : StmtId) (condition : ExprId)
deriving DecidableEq, Repr

structure Stmt where
  kind : StmtKind
  span : Span
deriving DecidableEq, Repr

/-! ### Expressions -/

inductive BinaryOperator where
  | add
  | sub
  | mul
  | div
  | rem
  | eq
  | ne
  | lt
  | le
  | gt
  | ge
  | and
  | or
deriving DecidableEq, Repr

namespace BinaryOperator

def all : List BinaryOperator := [add, sub, mul, div, rem, eq, ne, lt, le, gt, ge, and, or]

theorem mem_all (operator : BinaryOperator) : operator ∈ all := by
  cases operator <;> decide

def ofToken? : TokenKind → Option BinaryOperator
  | .plus => some add
  | .dash => some sub
  | .star => some mul
  | .slash => some div
  | .percent => some rem
  | .equals => some eq
  | .notEquals => some ne
  | .less => some lt
  | .lessEquals => some le
  | .greater => some gt
  | .greaterEquals => some ge
  | .and => some and
  | .or => some or
  | _ => none

def symbol : BinaryOperator → String
  | add => "+"
  | sub => "-"
  | mul => "*"
  | div => "/"
  | rem => "%"
  | eq => "=="
  | ne => "!="
  | lt => "<"
  | le => "<="
  | gt => ">"
  | ge => ">="
  | and => "&&"
  | or => "||"

def name : BinaryOperator → String
  | add => "Add"
  | sub => "Sub"
  | mul => "Mul"
  | div => "Div"
  | rem => "Rem"
  | eq => "Eq"
  | ne => "Ne"
  | lt => "Lt"
  | le => "Le"
  | gt => "Gt"
  | ge => "Ge"
  | and => "And"
  | or => "Or"

end BinaryOperator

inductive UnaryOperator where
  | neg
  | not
deriving DecidableEq, Repr

inductive ExprKind where
  | int (value : Int)
  | str (value : String)
  | bool (value : Bool)
  | name (name : String)
  | call (callee : ExprId) (arguments : List ExprId)
  | binary (operator : BinaryOperator) (left right : ExprId)
  | unary (operator : UnaryOperator) (operand : ExprId)
  | assign (assignee value : ExprId)
  | tuple (elements : List ExprId)
  | member (base : ExprId) (member : String)
  | cond (condition : List ConditionItem) (success failure : ExprId)
  | select (subject : ExprId) (cases : List CaseId)
  /-- A value packed into an existential. No source text says this; checking inserts it. -/
  | existential (witness : ExprId) (traits : List DeclId)
deriving DecidableEq, Repr

structure Expr where
  kind : ExprKind
  span : Span
deriving DecidableEq, Repr

structure MatchCase where
  pattern : Pattern
  body : ExprId
  span : Span
deriving Repr

inductive Node where
  | decl (decl : Decl)
  | stmt (stmt : Stmt)
  | expr (expr : Expr)
  | case (case : MatchCase)
deriving Repr

namespace Node

def span : Node → Span
  | .decl d => d.span
  | .stmt s => s.span
  | .expr e => e.span
  | .case c => c.span

def isModule : Node → Bool
  | .decl ⟨.module _ _, _⟩ => true
  | _ => false

/-- Whether a node owns a lexical region. -/
def isScope : Node → Bool
  | .decl d =>
    match d.kind with
    | .module _ _ | .function _ | .trait _ | .product _ => true
    | _ => false
  | .stmt s =>
    match s.kind with
    | .block _ | .cond _ _ _ | .whileLoop _ _ => true
    | _ => false
  | .expr e =>
    match e.kind with
    | .cond _ _ _ => true
    | _ => false
  | .case _ => true

end Node

/-! ### Children -/

def DeclKind.children : DeclKind → List NodeId
  | .module _ members => members
  | .trait decl => decl.members
  | .product decl => decl.members
  | .function decl => decl.genericParams ++ decl.params ++ decl.body.toList
  | .binding decl => decl.pattern.nodes ++ decl.initializer.toList
  | .param _ _ | .genericParam _ | .var _ => []

def StmtKind.children : StmtKind → List NodeId
  | .block members => members.map BlockMember.node
  | .ret value => value.toList
  | .cond condition success failure =>
    condition.map ConditionItem.node ++ success :: failure.toList
  | .whileLoop condition body => condition.map ConditionItem.node ++ [body]
  | .doWhile body condition => [body, condition]

def ExprKind.children : ExprKind → List NodeId
  | .int _ | .str _ | .bool _ | .name _ => []
  | .call callee arguments => callee :: arguments
  | .binary _ left right => [left, right]
  | .unary _ operand => [operand]
  | .assign assignee value => [assignee, value]
  | .tuple elements => elements
  | .member base _ => [base]
  | .cond condition success failure =>
    condition.map ConditionItem.node ++ [success, failure]
  | .select subject cases => subject :: cases
  | .existential witness _ => [witness]

/-- The direct children of a node, in source order. -/
def Node.children : Node → List NodeId
  | .decl d => d.kind.children
  | .stmt s => s.kind.children
  | .expr e => e.kind.children
  | .case c => c.pattern.nodes ++ [c.body]

end TraitLang
