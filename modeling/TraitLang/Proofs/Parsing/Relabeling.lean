import Mathlib.Order.Monotone.Basic
import TraitLang.Grammar.Module

/-! Two readings that go hand in hand. The second one makes the nodes of the first one under new
numbers and at new places. What must hold of single steps for that is a `Simulation`; that all rules
of the grammar then go hand in hand is shown once for all simulations. -/
namespace TraitLang

open Parse

/-- New numbers for nodes, and new places for where spans start and stop. -/
structure Relabeling where
  id : NodeId → NodeId
  start : Position → Position
  stop : Position → Position

namespace Relabeling

/-- Numbers go up by a count, and places stay. -/
def shift (count : Nat) : Relabeling :=
  ⟨fun id => count + id, fun position => position, fun position => position⟩

variable (r : Relabeling)

def span (span : Span) : Span := ⟨r.start span.start, r.stop span.stop⟩

def token (token : Token) : Token := { token with span := r.span token.span }

def traitName (trait : TraitName) : TraitName := { trait with span := r.span trait.span }

mutual

def type : TypeExpr → TypeExpr
  | .name text span => .name text (r.span span)
  | .tuple elements span => .tuple (types elements) (r.span span)
  | .existential traits span => .existential (traits.map r.traitName) (r.span span)

def types : List TypeExpr → List TypeExpr
  | [] => []
  | element :: elements => type element :: types elements

end

def requirement : Requirement → Requirement
  | .equality param type span => .equality param (r.type type) (r.span span)
  | .conformance param traits span => .conformance param (traits.map r.traitName) (r.span span)

mutual

def pattern : Pattern → Pattern
  | .name var => .name (r.id var)
  | .tuple elements => .tuple (patterns elements)
  | .wildcard => .wildcard
  | .expr expr => .expr (r.id expr)

def patterns : List Pattern → List Pattern
  | [] => []
  | element :: elements => pattern element :: patterns elements

end

def item : ConditionItem → ConditionItem
  | .expr id => .expr (r.id id)
  | .decl id => .decl (r.id id)

def member : BlockMember → BlockMember
  | .decl id => .decl (r.id id)
  | .stmt id => .stmt (r.id id)
  | .expr id => .expr (r.id id)

def function (decl : FunctionDecl) : FunctionDecl where
  name := decl.name
  genericParams := decl.genericParams.map r.id
  params := decl.params.map r.id
  output := decl.output.map r.type
  whereClause := decl.whereClause.map r.requirement
  body := decl.body.map r.id

def binding (decl : BindingDecl) : BindingDecl where
  introducer := decl.introducer
  pattern := r.pattern decl.pattern
  ascription := decl.ascription.map r.type
  initializer := decl.initializer.map r.id

def declKind : DeclKind → DeclKind
  | .module name members => .module name (members.map r.id)
  | .function decl => .function (r.function decl)
  | .param name ascription => .param name (r.type ascription)
  | .genericParam name => .genericParam name
  | .binding decl => .binding (r.binding decl)
  | .var name => .var name
  | .trait decl => .trait ⟨decl.name, decl.refinements.map r.traitName, decl.members.map r.id⟩
  | .product decl => .product ⟨decl.name, decl.conformances.map r.traitName, decl.members.map r.id⟩

def stmtKind : StmtKind → StmtKind
  | .block members => .block (members.map r.member)
  | .ret value => .ret (value.map r.id)
  | .cond condition success failure => .cond (condition.map r.item) (r.id success) (failure.map r.id)
  | .whileLoop condition body => .whileLoop (condition.map r.item) (r.id body)
  | .doWhile body condition => .doWhile (r.id body) (r.id condition)

def exprKind : ExprKind → ExprKind
  | .int value => .int value
  | .str value => .str value
  | .bool value => .bool value
  | .name name => .name name
  | .call callee arguments => .call (r.id callee) (arguments.map r.id)
  | .binary operator left right => .binary operator (r.id left) (r.id right)
  | .unary operator operand => .unary operator (r.id operand)
  | .assign assignee value => .assign (r.id assignee) (r.id value)
  | .tuple elements => .tuple (elements.map r.id)
  | .member base name => .member (r.id base) name
  | .cond condition success failure => .cond (condition.map r.item) (r.id success) (r.id failure)
  | .select subject cases => .select (r.id subject) (cases.map r.id)
  | .existential witness traits => .existential (r.id witness) (traits.map r.id)

/-- A node under new labels. All else stays. -/
def node : Node → Node
  | .decl d => .decl ⟨r.declKind d.kind, r.span d.span⟩
  | .stmt s => .stmt ⟨r.stmtKind s.kind, r.span s.span⟩
  | .expr e => .expr ⟨r.exprKind e.kind, r.span e.span⟩
  | .case c => .case ⟨r.pattern c.pattern, r.id c.body, r.span c.span⟩

lemma types_eq : ∀ elements, r.types elements = elements.map r.type
  | [] => rfl
  | element :: elements => by rw [types, types_eq elements, List.map_cons]

lemma patterns_eq : ∀ elements, r.patterns elements = elements.map r.pattern
  | [] => rfl
  | element :: elements => by rw [patterns, patterns_eq elements, List.map_cons]

variable (token : Token)

@[simp]
lemma kind_token : (r.token token).kind = token.kind := rfl

@[simp]
lemma value_token : (r.token token).value = token.value := rfl

@[simp]
lemma span_token : (r.token token).span = r.span token.span := rfl

@[simp]
lemma start_span (span : Span) : (r.span span).start = r.start span.start := rfl

/-- A phrase under new labels. -/
def phrase : {α : Type} → Phrase α → α → α
  | _, .expr _ | _, .conditional | _, .block | _, .branch => r.id
  | _, .typeExpr => r.type
  | _, .bindingPattern | _, .casePattern => r.pattern

end Relabeling

/-- What two readings that go hand in hand have to do alike: the second one answers what the
relabelling, or another map, makes of the answer of the first one. The bounds of the two may
differ. -/
structure Simulation (r : Relabeling) where
  rel {α : Type} (f : α → α) (first second : Parse α) : Prop
  fuel : Nat → Nat → Prop
  rel_pure {α : Type} (f : α → α) (a : α) : rel f (pure a) (pure (f a))
  rel_bind {α β : Type} {f : α → α} {g : β → β} {x y : Parse α} {k l : α → Parse β} :
    rel f x y → (∀ a, rel g (k a) (l (f a))) → rel g (x >>= k) (y >>= l)
  rel_current : rel r.token current current
  rel_advance : rel r.token advance advance
  rel_fail {α : Type} (f : α → α) (problem : Problem) (position : Position) :
    rel f (fail problem position) (fail problem (r.start position))
  rel_spanFrom (start : Position) : rel r.span (spanFrom start) (spanFrom (r.start start))
  rel_insert (node : Node) : rel r.id (insert node) (insert (r.node node))
  rel_exprStart (id : ExprId) : rel r.start (exprStart id) (exprStart (r.id id))
  rel_exhausted {α : Type} (f : α → α) : rel f (throw .exhausted) (throw .exhausted)
  /-- Only the first reading runs out of its bound alone. -/
  rel_starved {α : Type} (f : α → α) (y : Parse α) {bound : Nat} : fuel 0 (bound + 1) → rel f (throw .exhausted) y
  /-- Bounds come from the numbers of tokens left. -/
  rel_measured {α : Type} {f : α → α} {w v : Nat → Parse α} : (∀ m n, fuel m n →
    rel f (w m) (v n)) → rel f (fun c => w c.remaining c) (fun c => v c.remaining c)
  fuel_map {g : Nat → Nat} (hg : Monotone g) {m n : Nat} : fuel m n → fuel (g m) (g n)
  fuel_pred {m n : Nat} : fuel (m + 1) (n + 1) → fuel m n
  not_fuel_zero {m : Nat} : ¬fuel (m + 1) 0

namespace Simulation

variable {r : Relabeling} (s : Simulation r) {α β : Type} {f : α → α} {g : β → β}

/-- An induction on two bounds. -/
lemma fuel_induct {p : Nat → Nat → Prop} (hzero : p 0 0) (hstarved : ∀ n, s.fuel 0 (n + 1) →
    p 0 (n + 1)) (hsucc : ∀ m n, p m n → p (m + 1) (n + 1)) : ∀ m n, s.fuel m n → p m n := by
  intro m
  induction m with
  | zero =>
    intro n hf
    cases n with
    | zero => exact hzero
    | succ n => exact hstarved n hf
  | succ m ih =>
    intro n hf
    cases n with
    | zero => exact absurd hf s.not_fuel_zero
    | succ n => exact hsucc m n (ih n (s.fuel_pred hf))

lemma fuel_succ {m n} (hf : s.fuel m n) : s.fuel (m + 1) (n + 1) :=
  s.fuel_map (fun _ _ hle => Nat.succ_le_succ hle) hf

/-! ### Steps -/

lemma rel_kind : s.rel (fun kind => kind) kind kind := by
  have heq : kind = current >>= fun token => pure token.kind := rfl
  rw [heq]
  exact s.rel_bind s.rel_current fun token => s.rel_pure (fun kind => kind) token.kind

lemma rel_hasTokens : s.rel (fun more => more) hasTokens hasTokens :=
  s.rel_bind s.rel_kind fun kind => s.rel_pure (fun more => more) (decide (kind ≠ .eof))

lemma rel_unexpected (f : α → α) : s.rel f unexpected unexpected :=
  s.rel_bind s.rel_current fun token => s.rel_fail f (.unexpectedToken token.value) token.span.start

lemma rel_unexpectedFor (f : α → α) (message : String) : s.rel f (unexpectedFor message) (unexpectedFor message) :=
  s.rel_bind s.rel_current fun token => s.rel_fail f (.unexpectedTokenDetailed token.value message) token.span.start

variable (kind : TokenKind)

lemma rel_expect : s.rel r.token (expect kind) (expect kind) := by
  refine s.rel_bind s.rel_kind fun found => ?_
  split
  · exact s.rel_advance
  · exact s.rel_unexpected r.token

lemma rel_expectFor (message : String) : s.rel r.token (expectFor kind message) (expectFor kind message) := by
  refine s.rel_bind s.rel_kind fun found => ?_
  split
  · exact s.rel_advance
  · exact s.rel_unexpectedFor r.token message

lemma rel_eat : s.rel (fun eaten => eaten) (eat kind) (eat kind) := by
  refine s.rel_bind s.rel_kind fun found => ?_
  split
  · exact s.rel_bind s.rel_advance fun _ => s.rel_pure (fun eaten => eaten) true
  · exact s.rel_pure (fun eaten => eaten) false

lemma rel_some {x y} (h : s.rel f x y) : s.rel (Option.map f) (some <$> x) (some <$> y) := by
  exact s.rel_bind h fun a => s.rel_pure (Option.map f) (some a)

lemma rel_close {build : Span → Node} {build' : Span → Node} (start : Position)
    (h : ∀ span, build' (r.span span) = r.node (build span)) :
    s.rel r.id (do insert (build (← spanFrom start)))
      (do insert (build' (← spanFrom (r.start start)))) := by
  refine s.rel_bind (s.rel_spanFrom start) fun span => ?_
  rw [h]
  exact s.rel_insert (build span)

/-! ### Lists -/

section

variable {item item' : Parse α} (h : s.rel f item item')

include h

variable (close : TokenKind)

lemma rel_commaListWithin : ∀ m n : Nat, s.fuel m n → ∀ trailing : Bool,
    s.rel (Prod.map (List.map f) fun last => last) (commaListWithin close item m trailing)
      (commaListWithin close item' n trailing) := by
  refine s.fuel_induct (fun _ => s.rel_exhausted _) (fun n hf _ => s.rel_starved _ _ hf) fun m n ih trailing => ?_
  refine s.rel_bind s.rel_kind fun kind => ?_
  split
  · exact s.rel_pure (Prod.map (List.map f) fun last => last) ([], trailing)
  refine s.rel_bind h fun first => ?_
  refine s.rel_bind (s.rel_eat .comma) fun more => ?_
  split
  · refine s.rel_bind (ih true) ?_
    rintro ⟨rest, last⟩
    exact s.rel_pure (Prod.map (List.map f) fun last => last) (first :: rest, last)
  · exact s.rel_pure (Prod.map (List.map f) fun last => last) ([first], false)

lemma rel_commaList :
    s.rel (Prod.map (List.map f) fun last => last) (commaList close item) (commaList close item') :=
  s.rel_measured fun m n hf => s.rel_commaListWithin h close (m + 1) (n + 1) (s.fuel_succ hf) false

lemma rel_separatedWithin (separator : TokenKind) : ∀ m n : Nat, s.fuel m n →
    s.rel (List.map f) (separatedWithin separator item m) (separatedWithin separator item' n) := by
  refine s.fuel_induct (s.rel_exhausted _) (fun n hf => s.rel_starved _ _ hf) fun m n ih => ?_
  refine s.rel_bind h fun first => ?_
  refine s.rel_bind (s.rel_eat separator) fun more => ?_
  split
  · exact s.rel_bind ih fun rest => s.rel_pure (List.map f) (first :: rest)
  · exact s.rel_pure (List.map f) [first]

lemma rel_separated (separator : TokenKind) :
    s.rel (List.map f) (separated separator item) (separated separator item') :=
  s.rel_measured fun m n hf => s.rel_separatedWithin h separator (m + 1) (n + 1) (s.fuel_succ hf)

lemma rel_untilWithin : ∀ m n : Nat, s.fuel m n →
    s.rel (List.map f) (untilWithin close item m) (untilWithin close item' n) := by
  refine s.fuel_induct (s.rel_exhausted _) (fun n hf => s.rel_starved _ _ hf) fun m n ih => ?_
  refine s.rel_bind s.rel_kind fun kind => ?_
  split
  · exact s.rel_pure (List.map f) []
  refine s.rel_bind h fun first => ?_
  exact s.rel_bind ih fun rest => s.rel_pure (List.map f) (first :: rest)

lemma rel_untilClosed : s.rel (List.map f) (untilClosed close item) (untilClosed close item') :=
  s.rel_measured fun m n hf => s.rel_untilWithin h close (m + 1) (n + 1) (s.fuel_succ hf)

end

end Simulation

end TraitLang
