import TraitLang.Proofs.Descent
import TraitLang.Proofs.Resolution

/-! Typing rules. They say of a tree whose nodes were given types when these fit together, construct
by construct, and know nothing of how the types were found. In their lax form the error type goes
with every type, which is what holds while a program is checked. -/
namespace TraitLang

open Solver List Check

/-! ### What names and written types stand for -/

namespace Program

/-- The declaration that a name stands for in an expression. -/
def valueNamed (program : Program) (id : ExprId) (name : String) : Option DeclId := do
  let scope ← program.scopeOf id
  let expr ← program.tree.expr? id
  (program.findWhere name scope (isVisible program expr.span.start.offset)).getLast?

mutual

/-- The type that a written type stands for in a scope, if all of its names are known. -/
def meaning (program : Program) (scope : ScopeId) : TypeExpr → Option Ty
  | .name name _ => (declaredType? program name scope).or (builtinType? name)
  | .tuple elements _ => (meanings program scope elements).map .tuple
  | .existential traits _ => (traitTypes program scope traits).map .existential
where
  /-- The types of named traits. -/
  traitTypes (program : Program) (scope : ScopeId) : List TraitName → Option (List Ty)
    | [] => some []
    | trait :: traits => do
      let id ← program.trait? trait.name scope
      let types ← traitTypes program scope traits
      return .trait id trait.name :: types

def meanings (program : Program) (scope : ScopeId) : List TypeExpr → Option (List Ty)
  | [] => some []
  | element :: elements => do
    let type ← meaning program scope element
    let types ← meanings program scope elements
    return type :: types

end

mutual

/-- The type that a written type is taken for in a scope. What is unknown in it is the error
type. -/
def reading (program : Program) (scope : ScopeId) : TypeExpr → Ty
  | .tuple elements _ => .tuple (readings program scope elements)
  | written => (meaning program scope written).getD .error

def readings (program : Program) (scope : ScopeId) : List TypeExpr → List Ty
  | [] => []
  | element :: elements => reading program scope element :: readings program scope elements

end

section

variable {program : Program} {scope : ScopeId} (bindings : List (Nat × Ty))

lemma isTrait_of_traitTypes : ∀ {traits types},
    meaning.traitTypes program scope traits = some types → ∀ type ∈ types, type.isTrait
  | [], _, h => by cases h; simp
  | trait :: traits, _, h => by
    simp only [meaning.traitTypes, Option.bind_eq_bind, Option.bind_eq_some_iff, Option.pure_def,
      Option.some.injEq] at h
    obtain ⟨_, -, _, ht, rfl⟩ := h
    exact forall_mem_cons.2 ⟨rfl, isTrait_of_traitTypes ht⟩

lemma isLeaf_of_name {name type} (h : (declaredType? program name scope).or (builtinType? name) = some type) :
    type.isLeaf ∧ ∀ id, type ≠ .var id := by
  rcases Option.or_eq_some_iff.1 h with h | ⟨-, h⟩
  · obtain ⟨_, -, hid⟩ := Option.bind_eq_some_iff.1 h
    split at hid <;> cases hid <;> exact ⟨rfl, by simp⟩
  · simp only [builtinType?, lookup_cons, lookup_nil] at h
    split at h <;> [cases h; split at h <;> [cases h; split at h <;> cases h]] <;> exact ⟨rfl, by simp⟩

mutual

/-- There are no inference variables in written types. -/
lemma resolveBy_meaning : ∀ {written type}, program.meaning scope written = some type → resolveBy bindings type = type
  | .name name span, type, h => by
    obtain ⟨hl, hv⟩ := isLeaf_of_name h
    exact resolveBy_leaf bindings hl hv
  | .tuple elements span, type, h => by
    obtain ⟨types, ht, rfl⟩ := Option.map_eq_some_iff.1 h
    rw [resolveBy_tuple, Ty.map_eq_self (resolveBy_meanings ht)]
  | .existential traits span, type, h => by
    obtain ⟨_, ht, rfl⟩ := Option.map_eq_some_iff.1 h
    exact resolveBy_traits bindings (isTrait_of_traitTypes ht)

lemma resolveBy_meanings : ∀ {elements types},
    program.meanings scope elements = some types → ∀ type ∈ types, resolveBy bindings type = type
  | [], _, h => by cases h; simp
  | element :: elements, _, h => by
    simp only [meanings, Option.bind_eq_bind, Option.bind_eq_some_iff, Option.pure_def, Option.some.injEq] at h
    obtain ⟨_, ht, _, hts, rfl⟩ := h
    exact forall_mem_cons.2 ⟨resolveBy_meaning ht, resolveBy_meanings hts⟩

end

end

/-- A use of a match variable before the pattern that introduces it. Offsets keep uses after the
variables they see, but only among nodes of one file. -/
def EarlyUse (program : Program) (id var : Nat) : Prop :=
  ∃ name span, program.tree.expr? id = some ⟨.name name, span⟩ ∧ program.valueNamed id name = some var ∧
    program.tree.Declares DeclKind.isVar var ∧ program.owningBinding? var = none ∧ id < var

end Program

/-! ### Operators -/

/-- The type that an operator takes on both sides and the type that it gives, if it fixes them. -/
inductive BinaryOperator.Takes : BinaryOperator → (operand result : Ty) → Prop
  | addition : Takes .add .int .int
  | concatenation : Takes .add .string .string
  | arithmetic {operator : BinaryOperator} : operator ∈ [sub, mul, div, rem] → Takes operator .int .int
  | ordering {operator : BinaryOperator} : operator ∈ [lt, le, gt, ge] → Takes operator .int .bool
  | logic {operator : BinaryOperator} : operator ∈ [and, or] → Takes operator .bool .bool

lemma BinaryOperator.Takes.resolveBy {operator : BinaryOperator} {operand result}
    (h : operator.Takes operand result) (bindings : List (Nat × Ty)) :
    resolveBy bindings operand = operand ∧ resolveBy bindings result = result := by
  cases h <;> exact ⟨resolveBy_leaf _ rfl (by simp), resolveBy_leaf _ rfl (by simp)⟩

/-- The type that an operator takes and gives. -/
inductive UnaryOperator.Takes : UnaryOperator → Ty → Prop
  | negation : Takes .neg .int
  | complement : Takes .not .bool

/-! ### Rules -/

/-- A tree whose nodes were given types. -/
structure Typing where
  tree : Tree
  /-- Where names are looked up. -/
  program : Program
  declType : DeclId → Option Ty
  exprType : ExprId → Option Ty
  /-- The type that a return statement has to give. -/
  returnType : StmtId → Ty → Prop
  /-- The types that a generic function may have where it is named. -/
  instanceOf : DeclId → Ty → Prop

namespace Typing

section

variable (lax : Prop) (typing : Typing)

/-- An expression has a type, up to the order and repetition of the traits of existentials. -/
def Has (id : ExprId) (type : Ty) : Prop :=
  ∃ actual, typing.exprType id = some actual ∧ actual.Agree lax type

/-- The tests of a condition are boolean. -/
def Tests (condition : List ConditionItem) : Prop :=
  ∀ test, .expr test ∈ condition → typing.Has lax test .bool

/-- What the kind of an expression says about its type. -/
def ExprRule (id : ExprId) (type : Ty) : ExprKind → Prop
  | .int _ => type = .int
  | .str _ => type = .string
  | .bool _ => type = .bool
  | .name name => ∀ found, typing.program.valueNamed id name = some found →
    (typing.program.tree.Declares (fun kind => kind.isVar || kind.isParam) found →
      typing.declType found = some type) ∧
    (typing.program.tree.Declares DeclKind.isGeneric found → typing.instanceOf found type)
  | .call callee arguments => ∃ params, typing.exprType callee = some (.function params type) ∧
    Forall₂ (typing.Has lax) arguments params
  | .binary operator left right =>
    (∃ operand, operator.Takes operand type ∧ typing.Has lax left operand ∧ typing.Has lax right operand) ∨
    -- values of any one type can be compared
    operator ∈ [.eq, .ne] ∧ type = .bool ∧
      ∃ compared, typing.exprType left = some compared ∧ typing.Has lax right compared
  | .unary operator operand => operator.Takes type ∧ typing.Has lax operand type
  | .assign assignee value => type = .unit ∧
    ∃ target, typing.exprType assignee = some target ∧ typing.Has lax value target
  | .tuple elements => ∃ types, type = .tuple types ∧
    Forall₂ (fun element type => typing.exprType element = some type) elements types
  | .member base _ => ∃ type, typing.exprType base = some type
  | .cond condition success failure => typing.Tests lax condition ∧
    typing.exprType success = some type ∧ typing.Has lax failure type
  | .select subject cases => (∃ type, typing.exprType subject = some type) ∧
    (cases = [] → type = .unit) ∧
    ∀ id ∈ cases, ∃ case, typing.tree.case? id = some case ∧ typing.Has lax case.body type
  | .existential witness traits =>
    (∃ types, type = .existential types ∧ (∀ type ∈ types, type.isTrait) ∧ Ty.traitDeclsAll types = traits) ∧
    ∃ actual, typing.exprType witness = some actual ∧
      (¬lax → ∃ product name, actual = .product product name)

/-- What the kind of a statement says about the expressions in it. -/
def StmtRule (id : StmtId) : StmtKind → Prop
  | .block _ => True
  | .ret value => ∀ expr ∈ value, ∃ expected, typing.returnType id expected ∧ typing.Has lax expr expected
  | .cond condition _ _ | .whileLoop condition _ => typing.Tests lax condition
  | .doWhile _ condition => typing.Has lax condition .bool

/-- Variables, parameters and bindings have types. A binding with a written type has that type, and
so has its initializer. -/
def DeclRule (id : DeclId) : DeclKind → Prop
  | .var _ | .param _ _ => ∃ type, typing.declType id = some type
  | .binding decl => ∃ type, typing.declType id = some type ∧ ∀ written ∈ decl.ascription,
    (typing.program.scopeOf id).bind (typing.program.meaning · written) = some type ∧
      ∀ initializer ∈ decl.initializer, typing.Has lax initializer type
  | .module _ _ | .function _ | .genericParam _ | .trait _ | .product _ => True

def NodeRule (id : NodeId) : Node → Prop
  | .decl decl => typing.DeclRule lax id decl.kind
  | .stmt stmt => typing.StmtRule lax id stmt.kind
  | .expr expr => ∃ type, typing.exprType id = some type ∧ typing.ExprRule lax id type expr.kind
  | .case _ => True

/-- The rule of the node of a number. -/
def Rule (id : NodeId) : Prop :=
  ∃ node, typing.tree.node? id = some node ∧ typing.NodeRule lax id node

end

/-! ### What keeps the rules -/

section

variable {lax lax' : Prop} {before after : Typing} {bindings : List (Nat × Ty)} {id : Nat}

/-- What was recorded for an expression is still recorded, with more known about inference
variables. -/
def Retains (before after : Typing) (bindings : List (Nat × Ty)) (slot : ExprId) : Prop :=
  ∀ type, before.exprType slot = some type → after.exprType slot = some (resolveBy bindings type)

/-- No type that the rule of a node speaks of has errors in it. -/
structure Clean (typing : Typing) (id : NodeId) : Prop where
  expr : ∀ slot type, typing.exprType slot = some type → type.hasErrors = false
  decl : ∀ decl type, typing.declType decl = some type → type.hasErrors = false
  returned : ∀ type, typing.returnType id type → type.hasErrors = false
  packed : ∀ witness traits span, typing.tree.expr? id = some ⟨.existential witness traits, span⟩ →
  ∀ actual, typing.exprType witness = some actual → ∃ product name, actual = .product product name

variable (hlax : (lax → lax') ∨ before.Clean id)

include hlax

lemma Has.refine {slot type} (hs : before.Retains after bindings slot) (ht : (lax → lax') ∨ type.hasErrors = false)
    (h : before.Has lax slot type) : after.Has lax' slot (resolveBy bindings type) := by
  obtain ⟨_, ha, hagree⟩ := h
  exact ⟨_, hs _ ha, (hagree.relax (hlax.imp_right fun hclean => hclean.expr _ _ ha) ht).resolveBy bindings⟩

lemma Tests.refine {condition} (hs : ∀ test, .expr test ∈ condition → before.Retains after bindings test)
    (h : before.Tests lax condition) : after.Tests lax' condition := by
  intro test ht
  have := Has.refine hlax (hs test ht) (.inr rfl) (h test ht)
  rwa [resolveBy_leaf _ rfl (by simp)] at this

lemma ExprRule.refine {type kind span} (hp : after.program = before.program)
    (hexpr : before.tree.expr? id = some ⟨kind, span⟩) (ht : (lax → lax') ∨ type.hasErrors = false)
    (hchild : ∀ slot ∈ kind.children, before.Retains after bindings slot)
    (hcase : ∀ child ∈ kind.children, ∀ case, before.tree.case? child = some case →
      after.tree.case? child = some case ∧ before.Retains after bindings case.body)
    (hdecl : ∀ decl type, before.declType decl = some type → after.declType decl = some
      (resolveBy bindings type)) (hinstance : ∀ decl type, before.instanceOf decl type →
    after.instanceOf decl (resolveBy bindings type)) (h : before.ExprRule lax id type kind) :
    after.ExprRule lax' id (resolveBy bindings type) kind := by
  have hleaf {type : Ty} (hl : type.isLeaf) (hv : ∀ id, type ≠ .var id) :=
    resolveBy_leaf bindings hl hv
  have hsound {slot type} (ht : before.exprType slot = some type) : (lax → lax') ∨ type.hasErrors = false :=
    hlax.imp_right fun hclean => hclean.expr _ _ ht
  cases kind with
  | int | str | bool =>
    obtain rfl := h
    exact hleaf rfl (by simp)
  | name name =>
    intro found hf
    rw [hp] at hf ⊢
    exact ⟨fun hd => hdecl _ _ ((h found hf).1 hd), fun hd => hinstance _ _ ((h found hf).2 hd)⟩
  | call callee arguments =>
    obtain ⟨params, hcallee, hargs⟩ := h
    refine ⟨params.map (resolveBy bindings), ?_, ?_⟩
    · rw [hchild callee (by simp [ExprKind.children]) _ hcallee, resolveBy_function]
    · rw [forall₂_map_right_iff]
      have hparams (param : Ty) (hp : param ∈ params) : (lax → lax') ∨ param.hasErrors = false :=
        Ty.strict_of_part (hsound hcallee) (mem_append_left _ hp)
      have hall := (forall₂_and_left _ _).2 ⟨hparams, ((forall₂_and_left _ _).2 ⟨fun argument ha => ha, hargs⟩).flip⟩
      exact Forall₂.flip (hall.imp fun param argument hr =>
        hr.2.2.refine hlax (hchild argument (mem_cons_of_mem _ hr.2.1)) hr.1)
  | binary operator left right =>
    have hl := hchild left (by simp [ExprKind.children])
    have hr := hchild right (by simp [ExprKind.children])
    rcases h with ⟨operand, ht, hleft, hright⟩ | ⟨ho, rfl, _, hleft, hright⟩
    · have hoperand : operand.hasErrors = false := by cases ht <;> rfl
      refine .inl ⟨operand, ?_, ?_, ?_⟩
      · rwa [(ht.resolveBy bindings).2]
      · simpa [(ht.resolveBy bindings).1] using hleft.refine hlax hl (.inr hoperand)
      · simpa [(ht.resolveBy bindings).1] using hright.refine hlax hr (.inr hoperand)
    · exact .inr ⟨ho, hleaf rfl (by simp), _, hl _ hleft, hright.refine hlax hr (hsound hleft)⟩
  | unary operator operand =>
    have hchild := hchild operand (by simp [ExprKind.children])
    obtain ⟨htakes, hh⟩ := h
    have hh := hh.refine hlax hchild ht
    cases htakes <;> rw [hleaf rfl (by simp)] at hh ⊢
    · exact ⟨.negation, hh⟩
    · exact ⟨.complement, hh⟩
  | assign assignee value =>
    obtain ⟨rfl, _, ht, hv⟩ := h
    exact ⟨by simp [Ty.unit, resolveBy_tuple], _, hchild assignee (by simp [ExprKind.children])
      _ ht, hv.refine hlax (hchild value (by simp [ExprKind.children])) (hsound ht)⟩
  | tuple elements =>
    obtain ⟨types, rfl, htypes⟩ := h
    refine ⟨_, resolveBy_tuple bindings types, ?_⟩
    rw [forall₂_map_right_iff]
    have hall := (forall₂_and_left _ _).2 ⟨fun element he => he, htypes⟩
    exact hall.imp fun element type hr => hchild element hr.1 _ hr.2
  | member base name =>
    obtain ⟨_, ht⟩ := h
    exact ⟨_, hchild base (by simp [ExprKind.children]) _ ht⟩
  | cond condition success failure =>
    obtain ⟨htests, hs, hf⟩ := h
    exact ⟨htests.refine hlax fun test ht => hchild test (mem_append_left _
      (mem_map.2 ⟨_, ht, rfl⟩)), hchild success (by simp [ExprKind.children]) _ hs,
      hf.refine hlax (hchild failure (by simp [ExprKind.children])) ht⟩
  | select subject cases =>
    obtain ⟨⟨_, hsubject⟩, hnone, hcases⟩ := h
    refine ⟨⟨_, hchild subject (by simp [ExprKind.children]) _ hsubject⟩, ?_, ?_⟩
    · intro hc
      rw [hnone hc]
      simp [Ty.unit, resolveBy_tuple]
    · intro id hid
      obtain ⟨case, hc, hbody⟩ := hcases id hid
      obtain ⟨hc', hbody'⟩ := hcase id (mem_cons_of_mem _ hid) case hc
      exact ⟨case, hc', hbody.refine hlax hbody' ht⟩
  | existential witness traits =>
    obtain ⟨⟨types, rfl, htypes, htraits⟩, _, ha, hproduct⟩ := h
    refine ⟨⟨types, resolveBy_traits bindings htypes, htypes, htraits⟩, _,
      hchild witness (by simp [ExprKind.children]) _ ha, fun hstrict => ?_⟩
    obtain ⟨product, name, rfl⟩ := hlax.elim (fun h => hproduct (mt h hstrict)) fun h => h.packed _ _ _ hexpr _ ha
    exact ⟨product, name, hleaf rfl (by simp)⟩

/-- More being known about inference variables, the rule of a node still holds if the node, the
cases directly below it and what was recorded are kept. Without error types the lax rule is the
rule. -/
lemma Rule.refine (bindings : List (Nat × Ty)) (hp : after.program = before.program)
    (hn : after.tree.node? id = before.tree.node? id) (hself : before.Retains after bindings id)
    (hchild : ∀ slot ∈ before.tree.children id, before.Retains after bindings slot)
    (hcase : ∀ child ∈ before.tree.children id, ∀ case, before.tree.case? child = some case →
      after.tree.case? child = some case ∧ before.Retains after bindings case.body)
    (hdecl : ∀ decl type, before.declType decl = some type →
      after.declType decl = some (resolveBy bindings type)) (hinstance : ∀ decl type,
    before.instanceOf decl type → after.instanceOf decl (resolveBy bindings type))
    (hreturn : ∀ type, before.returnType id type → after.returnType id (resolveBy bindings type))
    (h : before.Rule lax id) : after.Rule lax' id := by
  obtain ⟨node, hnode, hr⟩ := h
  refine ⟨node, hn ▸ hnode, ?_⟩
  rw [Tree.children_of_node? hnode] at hchild hcase
  cases node with
  | decl decl =>
    obtain ⟨kind, span⟩ := decl
    cases kind with
    | var | param =>
      obtain ⟨type, ht⟩ := hr
      exact ⟨_, hdecl _ _ ht⟩
    | binding decl =>
      obtain ⟨type, ht, hw⟩ := hr
      refine ⟨_, hdecl _ _ ht, fun written hwritten => ?_⟩
      obtain ⟨hmeaning, hinitializer⟩ := hw written hwritten
      obtain ⟨_, -, hscope⟩ := Option.bind_eq_some_iff.1 hmeaning
      rw [Program.resolveBy_meaning bindings hscope, hp]
      refine ⟨hmeaning, fun initializer hi => ?_⟩
      have := Has.refine hlax (hchild initializer (mem_append_right _ (by simpa using hi)))
        (hlax.imp_right fun hclean => hclean.decl _ _ ht) (hinitializer initializer hi)
      rwa [Program.resolveBy_meaning bindings hscope] at this
    | module | function | genericParam | trait | product => trivial
  | stmt stmt =>
    obtain ⟨kind, _⟩ := stmt
    cases kind with
    | block members => trivial
    | ret value =>
      intro expr he
      obtain ⟨_, hexpected, hh⟩ := hr expr he
      exact ⟨_, hreturn _ hexpected, hh.refine hlax (hchild expr (by simpa [Node.children, StmtKind.children] using he))
        (hlax.imp_right fun hclean => hclean.returned _ hexpected)⟩
    | cond condition success failure | whileLoop condition body =>
      exact Tests.refine hlax (fun test ht => hchild test (mem_append_left _ (mem_map.2 ⟨_, ht, rfl⟩))) hr
    | doWhile body condition =>
      have := Has.refine hlax (hchild condition (mem_pair.2 (.inr rfl))) (.inr rfl) hr
      rwa [resolveBy_leaf _ rfl (by simp)] at this
  | expr expr =>
    obtain ⟨_, ht, hr⟩ := hr
    exact ⟨_, hself _ ht, hr.refine hlax hp (Tree.expr?_eq_some.2 hnode)
      (hlax.imp_right fun hclean => hclean.expr _ _ ht) hchild hcase hdecl hinstance⟩
  | case => trivial

end

end Typing

end TraitLang
