import Mathlib.Data.List.Basic
import Mathlib.Data.Nat.Basic
import Mathlib.Logic.Relation
import Mathlib.Order.Basic
import Mathlib.Tactic.Common
import TraitLang.Tree.Basic

/-! The shape of a tree that was made by reading source: every number names a node of the family
that its slot asks for, and declarations stand only where the grammar lets them. All of this stays
so when a tree gets further nodes. -/
namespace TraitLang

open DeclKind List

namespace Tree

/-! ### Families -/

section

variable {tree : Tree} {id : Nat}

lemma decl?_eq_some {decl} : tree.decl? id = some decl ↔ tree.node? id = some (.decl decl) := by
  unfold decl?
  rcases tree.node? id with _ | _ | _ | _ | _ <;> simp

lemma stmt?_eq_some {stmt} : tree.stmt? id = some stmt ↔ tree.node? id = some (.stmt stmt) := by
  unfold stmt?
  rcases tree.node? id with _ | _ | _ | _ | _ <;> simp

lemma expr?_eq_some {expr} : tree.expr? id = some expr ↔ tree.node? id = some (.expr expr) := by
  unfold expr?
  rcases tree.node? id with _ | _ | _ | _ | _ <;> simp

lemma case?_eq_some {case} : tree.case? id = some case ↔ tree.node? id = some (.case case) := by
  unfold case?
  rcases tree.node? id with _ | _ | _ | _ | _ <;> simp

variable {node : Node}

lemma lt_size (h : tree.node? id = some node) : id < tree.size := by
  by_contra hlt
  rw [node?, Array.getElem?_eq_none (by simpa [size] using hlt)] at h
  cases h

lemma exists_node? (h : id < tree.size) : ∃ node, tree.node? id = some node :=
  ⟨tree.nodes[id], Array.getElem?_eq_getElem h⟩

lemma children_of_node? (h : tree.node? id = some node) : tree.children id = node.children := by
  simp [children, h]

end

/-! ### Growth -/

structure Extends (small large : Tree) : Prop where
  size_le : small.size ≤ large.size
  node?_eq : ∀ id < small.size, large.node? id = small.node? id
  modules_eq : large.modules = small.modules

namespace Extends

variable {small large : Tree}

protected lemma refl (tree : Tree) : Extends tree tree :=
  ⟨le_rfl, fun _ _ => rfl, rfl⟩

protected lemma trans {middle} (h1 : Extends small middle) (h2 : Extends middle large) : Extends small large := by
  refine ⟨h1.size_le.trans h2.size_le, ?_, h2.modules_eq.trans h1.modules_eq⟩
  intro id hid
  rw [h2.node?_eq id (hid.trans_le h1.size_le), h1.node?_eq id hid]

lemma push (tree : Tree) (node : Node) : Extends tree (tree.push node).2 := by
  refine ⟨by simp, ?_, rfl⟩
  intro id hid
  rw [node?_push, if_neg (Nat.ne_of_lt hid)]

variable {id : NodeId}

variable (h : Extends small large)

include h

lemma node?_of_some {node} (hn : small.node? id = some node) : large.node? id = some node := by
  rw [h.node?_eq id (lt_size hn), hn]

lemma decl?_of_some {decl} (hd : small.decl? id = some decl) : large.decl? id = some decl :=
  decl?_eq_some.2 (h.node?_of_some (decl?_eq_some.1 hd))

lemma stmt?_of_some {stmt} (hs : small.stmt? id = some stmt) : large.stmt? id = some stmt :=
  stmt?_eq_some.2 (h.node?_of_some (stmt?_eq_some.1 hs))

lemma expr?_of_some {expr} (he : small.expr? id = some expr) : large.expr? id = some expr :=
  expr?_eq_some.2 (h.node?_of_some (expr?_eq_some.1 he))

lemma case?_of_some {case} (hc : small.case? id = some case) : large.case? id = some case :=
  case?_eq_some.2 (h.node?_of_some (case?_eq_some.1 hc))

end Extends

/-- A node is another one or below it. -/
def Reaches (tree : Tree) : NodeId → NodeId → Prop :=
  Relation.ReflTransGen fun parent child => child ∈ tree.children parent

end Tree

namespace DeclKind

def isModule : DeclKind → Bool
  | .module _ _ => true
  | _ => false

def isParam : DeclKind → Bool
  | .param _ _ => true
  | _ => false

def isGenericParam : DeclKind → Bool
  | .genericParam _ => true
  | _ => false

def isVar : DeclKind → Bool
  | .var _ => true
  | _ => false

def isTrait : DeclKind → Bool
  | .trait _ => true
  | _ => false

def isProduct : DeclKind → Bool
  | .product _ => true
  | _ => false

def isGeneric : DeclKind → Bool
  | .function decl => !decl.genericParams.isEmpty
  | _ => false

/-- What may stand in a block or in a type. -/
def isLocal (kind : DeclKind) : Bool := kind.isFunction || kind.isBinding

/-- What may stand in a module. -/
def isItem (kind : DeclKind) : Bool := kind.isLocal || kind.isTrait || kind.isProduct

end DeclKind

def StmtKind.isBranch : StmtKind → Bool
  | .block _ | .cond _ _ _ => true
  | _ => false

namespace Tree

/-- A declaration whose kind passes a test. -/
def Declares (tree : Tree) (test : DeclKind → Bool) (id : NodeId) : Prop :=
  ∃ decl, tree.decl? id = some decl ∧ test decl.kind

variable {tree : Tree} {test : DeclKind → Bool} {id : Nat} {decl : Decl}

lemma Declares.lt_size (h : tree.Declares test id) : id < tree.size := by
  obtain ⟨_, hd, -⟩ := h
  exact Tree.lt_size (decl?_eq_some.1 hd)

lemma Declares.isSome_decl? (h : tree.Declares test id) : (tree.decl? id).isSome := by
  obtain ⟨_, hd, -⟩ := h
  rw [hd]
  rfl

def HasStmt (tree : Tree) (id : NodeId) : Prop := ∃ stmt, tree.stmt? id = some stmt

def HasBlock (tree : Tree) (id : NodeId) : Prop :=
  ∃ members span, tree.stmt? id = some ⟨.block members, span⟩

lemma HasBlock.hasStmt {id} : tree.HasBlock id → tree.HasStmt id
  | ⟨_, _, h⟩ => ⟨_, h⟩

def HasBranch (tree : Tree) (id : NodeId) : Prop :=
  ∃ stmt, tree.stmt? id = some stmt ∧ stmt.kind.isBranch

lemma HasBranch.hasStmt {id} : tree.HasBranch id → tree.HasStmt id
  | ⟨_, h, _⟩ => ⟨_, h⟩

lemma HasBlock.hasBranch {id} : tree.HasBlock id → tree.HasBranch id
  | ⟨_, _, h⟩ => ⟨_, h, rfl⟩

def HasExpr (tree : Tree) (id : NodeId) : Prop := ∃ expr, tree.expr? id = some expr

def HasCase (tree : Tree) (id : NodeId) : Prop := ∃ case, tree.case? id = some case

/-- A declaration is nothing else. -/
lemma decl_only (h : tree.decl? id = some decl) : ¬tree.HasExpr id ∧ ¬tree.HasStmt id ∧ ¬tree.HasCase id := by
  rw [decl?_eq_some] at h
  refine ⟨?_, ?_, ?_⟩
  · rintro ⟨_, he⟩
    rw [expr?_eq_some, h] at he
    cases he
  · rintro ⟨_, hs⟩
    rw [stmt?_eq_some, h] at hs
    cases hs
  · rintro ⟨_, hc⟩
    rw [case?_eq_some, h] at hc
    cases hc

lemma declares_iff (h : tree.decl? id = some decl) : tree.Declares test id ↔ test decl.kind := by
  simp [Declares, h]

namespace Extends

variable {small large : Tree} {id : NodeId}

variable (h : Extends small large)

include h

lemma declares {test} (hd : small.Declares test id) : large.Declares test id := by
  obtain ⟨decl, hd, ht⟩ := hd
  exact ⟨decl, h.decl?_of_some hd, ht⟩

lemma hasStmt (hs : small.HasStmt id) : large.HasStmt id :=
  hs.imp fun _ => h.stmt?_of_some

lemma hasBlock (hb : small.HasBlock id) : large.HasBlock id :=
  hb.imp fun _ => Exists.imp fun _ => h.stmt?_of_some

lemma hasBranch (hb : small.HasBranch id) : large.HasBranch id :=
  hb.imp fun _ => And.imp_left h.stmt?_of_some

lemma hasExpr (he : small.HasExpr id) : large.HasExpr id :=
  he.imp fun _ => h.expr?_of_some

lemma hasCase (hc : small.HasCase id) : large.HasCase id :=
  hc.imp fun _ => h.case?_of_some

end Extends

end Tree

/-! ### Shapes of nodes -/

namespace Pattern

mutual

/-- The expressions that a pattern matches by equality, in source order. -/
def exprs : Pattern → List ExprId
  | .name _ | .wildcard => []
  | .tuple elements => exprsAll elements
  | .expr id => [id]

def exprsAll : List Pattern → List ExprId
  | [] => []
  | element :: elements => element.exprs ++ exprsAll elements

end

mutual

variable {id : NodeId}

lemma mem_nodes_iff : ∀ pattern : Pattern, id ∈ pattern.nodes ↔ id ∈ pattern.vars ∨ id ∈ pattern.exprs
  | .name _ => by simp [nodes, vars, exprs]
  | .tuple elements => by simpa [nodes, vars, exprs] using mem_nodesAll_iff elements
  | .wildcard | .expr _ => by simp [nodes, vars, exprs]

lemma mem_nodesAll_iff : ∀ elements : List Pattern, id ∈ nodesAll elements ↔ id ∈ varsAll elements ∨
    id ∈ exprsAll elements
  | [] => by simp [nodesAll, varsAll, exprsAll]
  | element :: elements => by
    have h : id ∈ element.nodes ↔ _ := mem_nodes_iff element
    have hs : id ∈ nodesAll elements ↔ _ := mem_nodesAll_iff elements
    simp only [nodesAll, varsAll, exprsAll, mem_append, h, hs]
    tauto

end

lemma nodesAll_eq : ∀ elements, nodesAll elements = elements.flatMap nodes
  | [] => rfl
  | _ :: elements => by rw [nodesAll, nodesAll_eq elements, flatMap_cons]

lemma varsAll_eq : ∀ elements, varsAll elements = elements.flatMap vars
  | [] => rfl
  | _ :: elements => by rw [varsAll, varsAll_eq elements, flatMap_cons]

lemma exprsAll_eq : ∀ elements, exprsAll elements = elements.flatMap exprs
  | [] => rfl
  | _ :: elements => by rw [exprsAll, exprsAll_eq elements, flatMap_cons]

def Fits (tree : Tree) (pattern : Pattern) : Prop :=
  (∀ var ∈ pattern.vars, tree.Declares isVar var) ∧ ∀ id ∈ pattern.exprs, tree.HasExpr id

lemma fits_tuple {tree elements} : (Pattern.tuple elements).Fits tree ↔ ∀ element ∈ elements, element.Fits tree := by
  simp only [Fits, vars, exprs, varsAll_eq, exprsAll_eq, mem_flatMap]
  grind

end Pattern

namespace BlockMember

def Fits (tree : Tree) : BlockMember → Prop
  | .decl id => tree.Declares isLocal id
  | .stmt id => tree.HasStmt id
  | .expr id => tree.HasExpr id

end BlockMember

namespace ConditionItem

def Fits (tree : Tree) : ConditionItem → Prop
  | .expr id => tree.HasExpr id
  | .decl id => tree.Declares isBinding id

end ConditionItem

def DeclKind.Fits (tree : Tree) : DeclKind → Prop
  | .module _ members => ∀ id ∈ members, tree.Declares isItem id
  | .function decl =>
    (∀ id ∈ decl.genericParams, tree.Declares isGenericParam id) ∧
      (∀ id ∈ decl.params, tree.Declares isParam id) ∧ ∀ id ∈ decl.body, tree.HasBlock id
  | .binding decl =>
    decl.pattern.Fits tree ∧ decl.pattern.exprs = [] ∧ ∀ id ∈ decl.initializer, tree.HasExpr id
  | .trait decl => ∀ id ∈ decl.members, tree.Declares isFunction id
  | .product decl => ∀ id ∈ decl.members, tree.Declares isLocal id
  | .param _ _ | .genericParam _ | .var _ => True

def StmtKind.Fits (tree : Tree) : StmtKind → Prop
  | .block members => ∀ member ∈ members, member.Fits tree
  | .ret value => ∀ id ∈ value, tree.HasExpr id
  | .cond condition success failure =>
    (∀ item ∈ condition, item.Fits tree) ∧ tree.HasBlock success ∧ ∀ id ∈ failure, tree.HasBranch id
  | .whileLoop condition body => (∀ item ∈ condition, item.Fits tree) ∧ tree.HasBlock body
  | .doWhile body condition => tree.HasBlock body ∧ tree.HasExpr condition

/-- No source text is read as a packed value. -/
def ExprKind.Fits (tree : Tree) : ExprKind → Prop
  | .int _ | .str _ | .bool _ | .name _ => True
  | .call callee arguments => tree.HasExpr callee ∧ ∀ id ∈ arguments, tree.HasExpr id
  | .binary _ left right => tree.HasExpr left ∧ tree.HasExpr right
  | .unary _ operand => tree.HasExpr operand
  | .assign assignee value => tree.HasExpr assignee ∧ tree.HasExpr value
  | .tuple elements => ∀ id ∈ elements, tree.HasExpr id
  | .member base _ => tree.HasExpr base
  | .cond condition success failure =>
    (∀ item ∈ condition, item.Fits tree) ∧ tree.HasExpr success ∧ tree.HasExpr failure
  | .select subject cases => tree.HasExpr subject ∧ ∀ id ∈ cases, tree.HasCase id
  | .existential _ _ => False

/-- Every child of a node is of the family and the kind that its slot asks for. -/
def Node.Fits (tree : Tree) : Node → Prop
  | .decl d => d.kind.Fits tree
  | .stmt s => s.kind.Fits tree
  | .expr e => e.kind.Fits tree
  | .case c => c.pattern.Fits tree ∧ tree.HasExpr c.body

/-! What may stand directly below a node. -/

section

variable {tree : Tree} {id : Nat}

lemma ConditionItem.Fits.node {items : List ConditionItem} (h : ∀ item ∈ items, item.Fits tree)
    (hid : id ∈ items.map ConditionItem.node) : tree.HasExpr id ∨ tree.Declares isBinding id := by
  obtain ⟨item, hitem, rfl⟩ := mem_map.1 hid
  cases item with
  | expr id => exact .inl (h _ hitem)
  | decl id => exact .inr (h _ hitem)

lemma ExprKind.Fits.child {kind : ExprKind} (h : kind.Fits tree) (hid : id ∈ kind.children) :
    tree.HasExpr id ∨ tree.HasCase id ∨ tree.Declares isBinding id ∧
      ∃ condition success failure, kind = .cond condition success failure := by
  cases kind with
  | int | str | bool | name => cases hid
  | call callee arguments =>
    rcases mem_cons.1 hid with rfl | hid
    · exact .inl h.1
    · exact .inl (h.2 _ hid)
  | binary operator left right | assign left right =>
    rcases mem_pair.1 hid with rfl | rfl
    · exact .inl h.1
    · exact .inl h.2
  | unary operator operand | member operand name =>
    obtain rfl := mem_singleton.1 hid
    exact .inl h
  | tuple elements => exact .inl (h id hid)
  | cond condition success failure =>
    rcases mem_append.1 hid with hid | hid
    · rcases ConditionItem.Fits.node h.1 hid with he | hd
      · exact .inl he
      · exact .inr (.inr ⟨hd, _, _, _, rfl⟩)
    · rcases mem_pair.1 hid with rfl | rfl
      · exact .inl h.2.1
      · exact .inl h.2.2
  | select subject cases =>
    rcases mem_cons.1 hid with rfl | hid
    · exact .inl h.1
    · exact .inr (.inl (h.2 _ hid))
  | existential witness traits => exact h.elim

lemma StmtKind.Fits.child {kind : StmtKind} (h : kind.Fits tree) (hid : id ∈ kind.children) :
    tree.HasStmt id ∨ tree.HasExpr id ∨ tree.Declares isLocal id := by
  have local_ (hid : tree.Declares isBinding id) : tree.Declares isLocal id := by
    obtain ⟨decl, hd, hk⟩ := hid
    exact ⟨decl, hd, by simp [isLocal, hk]⟩
  cases kind with
  | block members =>
    obtain ⟨member, hm, rfl⟩ := mem_map.1 hid
    cases member with
    | decl id => exact .inr (.inr (h _ hm))
    | stmt id => exact .inl (h _ hm)
    | expr id => exact .inr (.inl (h _ hm))
  | ret value => exact .inr (.inl (h id (by simpa [StmtKind.children] using hid)))
  | cond condition success failure =>
    rcases mem_append.1 hid with hid | hid
    · exact .inr ((ConditionItem.Fits.node h.1 hid).imp_right local_)
    · rcases mem_cons.1 hid with rfl | hid
      · exact .inl h.2.1.hasStmt
      · exact .inl (h.2.2 id (by simpa using hid)).hasStmt
  | whileLoop condition body =>
    rcases mem_append.1 hid with hid | hid
    · exact .inr ((ConditionItem.Fits.node h.1 hid).imp_right local_)
    · obtain rfl := mem_singleton.1 hid
      exact .inl h.2.hasStmt
  | doWhile body condition =>
    rcases mem_pair.1 hid with rfl | rfl
    · exact .inl h.1.hasStmt
    · exact .inr (.inl h.2)

lemma Pattern.Fits.node {pattern : Pattern} (h : pattern.Fits tree) (hid : id ∈ pattern.nodes) :
    tree.Declares isVar id ∨ tree.HasExpr id :=
  ((mem_nodes_iff pattern).1 hid).imp (h.1 id) (h.2 id)

lemma BindingDecl.child {decl} (h : (binding decl).Fits tree)
    (hid : id ∈ (binding decl).children) : tree.Declares isVar id ∨ tree.HasExpr id := by
  rcases mem_append.1 hid with hid | hid
  · exact h.1.node hid
  · exact .inr (h.2.2 id (by simpa using hid))

/-- A declaration of a kind may stand directly below a node. -/
inductive Node.Seats (id : DeclId) (kind : DeclKind) : Node → Prop
  | item {name : String} {members : List DeclId} {span : Span} :
    kind.isItem → Seats id kind (.decl ⟨.module name members, span⟩)
  | generic {decl : FunctionDecl} {span : Span} : id ∈ decl.genericParams → kind.isGenericParam →
    Seats id kind (.decl ⟨.function decl, span⟩)
  | param {decl : FunctionDecl} {span : Span} : kind.isParam → Seats id kind (.decl ⟨.function decl, span⟩)
  | requirement {decl : TraitDecl} {span : Span} : kind.isFunction → Seats id kind (.decl ⟨.trait decl, span⟩)
  | member {decl : ProductDecl} {span : Span} : kind.isLocal → Seats id kind (.decl ⟨.product decl, span⟩)
  | bound {decl : BindingDecl} {span : Span} : id ∈ decl.pattern.vars → kind.isVar →
    Seats id kind (.decl ⟨.binding decl, span⟩)
  | matched {case : MatchCase} : id ∈ case.pattern.vars → kind.isVar → Seats id kind (.case case)
  | inStmt {stmt : Stmt} : kind.isLocal → Seats id kind (.stmt stmt)
  | inExpr {condition : List ConditionItem} {success failure : ExprId} {span : Span} :
    kind.isBinding → Seats id kind (.expr ⟨.cond condition success failure, span⟩)

lemma Node.Fits.seats {node : Node} (h : node.Fits tree) (hid : id ∈ node.children) {kind span}
    (hd : tree.decl? id = some ⟨kind, span⟩) : node.Seats id kind := by
  obtain ⟨hexpr, hstmt, hcase⟩ := Tree.decl_only hd
  have hkind {test} (ht : tree.Declares test id) : test kind := (Tree.declares_iff hd).1 ht
  match node with
  | .decl ⟨.module _ _, _⟩ => exact .item (hkind (h id hid))
  | .decl ⟨.function _, _⟩ =>
    rcases mem_append.1 hid with hid | hid
    · rcases mem_append.1 hid with hid | hid
      · exact .generic hid (hkind (h.1 id hid))
      · exact .param (hkind (h.2.1 id hid))
    · exact absurd (h.2.2 id (by simpa using hid)).hasStmt hstmt
  | .decl ⟨.binding _, _⟩ =>
    rcases mem_append.1 hid with hid | hid
    · rcases (Pattern.mem_nodes_iff _).1 hid with hv | he
      · exact .bound hv (hkind (h.1.1 id hv))
      · exact absurd (h.1.2 id he) hexpr
    · exact absurd (h.2.2 id (by simpa using hid)) hexpr
  | .decl ⟨.trait _, _⟩ => exact .requirement (hkind (h id hid))
  | .decl ⟨.product _, _⟩ => exact .member (hkind (h id hid))
  | .decl ⟨.param _ _, _⟩ | .decl ⟨.genericParam _, _⟩ | .decl ⟨.var _, _⟩ => cases hid
  | .stmt _ =>
    rcases StmtKind.Fits.child h hid with hs | he | hl
    · exact absurd hs hstmt
    · exact absurd he hexpr
    · exact .inStmt (hkind hl)
  | .expr ⟨_, _⟩ =>
    rcases ExprKind.Fits.child h hid with he | hc | ⟨hb, _, _, _, rfl⟩
    · exact absurd he hexpr
    · exact absurd hc hcase
    · exact .inExpr (hkind hb)
  | .case _ =>
    rcases mem_append.1 hid with hid | hid
    · rcases (Pattern.mem_nodes_iff _).1 hid with hv | he
      · exact .matched hv (hkind (h.1.1 id hv))
      · exact absurd (h.1.2 id he) hexpr
    · obtain rfl := mem_singleton.1 hid
      exact absurd h.2 hexpr

end

namespace Tree.Extends

variable {small large : Tree}

lemma pattern (h : Extends small large) {pattern : Pattern} (hp : pattern.Fits small) : pattern.Fits large :=
  ⟨fun var hv => h.declares (hp.1 var hv), fun id he => h.hasExpr (hp.2 id he)⟩

lemma member (h : Extends small large) : ∀ {member : BlockMember}, member.Fits small → member.Fits large
  | .decl _ => h.declares
  | .stmt _ => h.hasStmt
  | .expr _ => h.hasExpr

variable (h : Extends small large)

include h

lemma item : ∀ {item : ConditionItem}, item.Fits small → item.Fits large
  | .expr _ => h.hasExpr
  | .decl _ => h.declares

lemma declKind : ∀ {kind : DeclKind}, kind.Fits small → kind.Fits large
  | .module _ _, hk => fun id hid => h.declares (hk id hid)
  | .function _, hk =>
    ⟨fun id hid => h.declares (hk.1 id hid), fun id hid => h.declares (hk.2.1 id hid),
      fun id hid => h.hasBlock (hk.2.2 id hid)⟩
  | .binding _, hk => ⟨h.pattern hk.1, hk.2.1, fun id hid => h.hasExpr (hk.2.2 id hid)⟩
  | .trait _, hk | .product _, hk => fun id hid => h.declares (hk id hid)
  | .param _ _, _ | .genericParam _, _ | .var _, _ => trivial

lemma stmtKind : ∀ {kind : StmtKind}, kind.Fits small → kind.Fits large
  | .block _, hk => fun member hm => h.member (hk member hm)
  | .ret _, hk => fun id hid => h.hasExpr (hk id hid)
  | .cond _ _ _, hk =>
    ⟨fun item hi => h.item (hk.1 item hi), h.hasBlock hk.2.1, fun id hid => h.hasBranch (hk.2.2 id hid)⟩
  | .whileLoop _ _, hk => ⟨fun item hi => h.item (hk.1 item hi), h.hasBlock hk.2⟩
  | .doWhile _ _, hk => ⟨h.hasBlock hk.1, h.hasExpr hk.2⟩

lemma exprKind : ∀ {kind : ExprKind}, kind.Fits small → kind.Fits large
  | .int _, _ | .str _, _ | .bool _, _ | .name _, _ => trivial
  | .call _ _, hk => ⟨h.hasExpr hk.1, fun id hid => h.hasExpr (hk.2 id hid)⟩
  | .binary _ _ _, hk => ⟨h.hasExpr hk.1, h.hasExpr hk.2⟩
  | .unary _ _, hk => h.hasExpr hk
  | .assign _ _, hk => ⟨h.hasExpr hk.1, h.hasExpr hk.2⟩
  | .tuple _, hk => fun id hid => h.hasExpr (hk id hid)
  | .member _ _, hk => h.hasExpr hk
  | .cond _ _ _, hk =>
    ⟨fun item hi => h.item (hk.1 item hi), h.hasExpr hk.2.1, h.hasExpr hk.2.2⟩
  | .select _ _, hk => ⟨h.hasExpr hk.1, fun id hid => h.hasCase (hk.2 id hid)⟩
  | .existential _ _, hk => hk.elim

lemma fits : ∀ {node : Node}, node.Fits small → node.Fits large
  | .decl _, hn => h.declKind hn
  | .stmt _, hn => h.stmtKind hn
  | .expr _, hn => h.exprKind hn
  | .case _, hn => ⟨h.pattern hn.1, h.hasExpr hn.2⟩

end Tree.Extends

end TraitLang
