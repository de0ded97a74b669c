import TraitLang.Proofs.Parsing.Relabeling

/-! Every rule of the grammar goes hand in hand with itself in every simulation, as long as the
readers of the phrases inside do. By induction on the depth so do the readers of all phrases. -/
namespace TraitLang

open Parse in
/-- The rule that traits and products have in common: members in braces behind a name and a list of
traits. -/
def Grammar.membered (member : Parse DeclId) (message : String)
    (build : String → List TraitName → List DeclId → DeclKind) : Parse DeclId := do
  let start ← advance
  let name ← expectFor .identifier message
  let traits ← traitList
  let _ ← expect .openCurly
  let members ← untilClosed .closeCurly member
  let _ ← expect .closeCurly
  insertDecl (build name.value traits members) (← spanFrom start.span.start)

namespace Simulation

open Parse Grammar

variable {r : Relabeling} (s : Simulation r)

/-- Two readers of phrases that go hand in hand. -/
def Readers (read read' : Reader) : Prop :=
  ∀ ⦃α : Type⦄ (phrase : Phrase α), s.rel (r.phrase phrase) (read phrase) (read' phrase)

/-! ### Types and traits -/

lemma rel_traitName : s.rel r.traitName traitName traitName :=
  s.rel_bind (s.rel_expectFor _ _) fun token => s.rel_pure r.traitName ⟨token.value, token.span⟩

lemma rel_composition : s.rel (List.map r.traitName) composition composition :=
  s.rel_separated s.rel_traitName .ampersand

lemma rel_traitList : s.rel (List.map r.traitName) traitList traitList := by
  refine s.rel_bind (s.rel_eat .colon) fun more => ?_
  split
  · exact s.rel_separated s.rel_traitName .comma
  · exact s.rel_pure (List.map r.traitName) []

lemma rel_var : s.rel r.id var var :=
  s.rel_bind (s.rel_expectFor _ _) fun token => s.rel_insert (.decl ⟨.var token.value, token.span⟩)

lemma rel_genericParam : s.rel r.id genericParam genericParam :=
  s.rel_bind (s.rel_expectFor _ _) fun token => s.rel_insert (.decl ⟨.genericParam token.value, token.span⟩)

lemma rel_genericParams : s.rel (List.map r.id) genericParams genericParams := by
  refine s.rel_bind (s.rel_eat .less) fun more => ?_
  split
  · refine s.rel_bind (s.rel_separated s.rel_genericParam .comma) fun params => ?_
    exact s.rel_bind (s.rel_expect .greater) fun _ => s.rel_pure (List.map r.id) params
  · exact s.rel_pure (List.map r.id) []

lemma rel_primary : s.rel r.id primary primary := by
  refine s.rel_bind s.rel_current fun token => ?_
  have leaf (kind : ExprKind) : s.rel r.id (do let _ ← advance; insertExpr kind token.span)
      (do let _ ← advance; insertExpr (r.exprKind kind) (r.span token.span)) :=
    s.rel_bind s.rel_advance fun _ => s.rel_insert (.expr ⟨kind, token.span⟩)
  simp only [Relabeling.kind_token, Relabeling.value_token, Relabeling.span_token, Relabeling.start_span, pure_bind]
  split
  · split
    · exact leaf (.int (decimal token.value.toList))
    · exact s.rel_bind (s.rel_fail r.exprKind _ token.span.start) leaf
  · exact leaf (.name token.value)
  · exact leaf (.str token.value)
  · exact leaf (.bool true)
  · exact leaf (.bool false)
  · exact s.rel_bind (s.rel_unexpected r.exprKind) leaf

/-- How the rest of a rule goes hand in hand: `rest` where there are tokens to look at, and `last`
where there is none. -/
structure Closing where
  rest {α : Type} (f : α → α) (first second : Parse α) : Prop
  last {α : Type} (f : α → α) (first second : Parse α) : Prop
  lead {α β : Type} {f : α → α} {g : β → β} {x y : Parse α} {k l : α → Parse β} :
    s.rel f x y → (∀ a, rest g (k a) (l (f a))) → rest g (x >>= k) (y >>= l)
  bind {α β : Type} {f : α → α} {g : β → β} {x y : Parse α} {k l : α → Parse β} :
    rest f x y → (∀ a, last g (k a) (l (f a))) → rest g (x >>= k) (y >>= l)
  expect {kind : TokenKind} : kind ≠ .eof → rest r.token (expect kind) (expect kind)
  eat {β : Type} {g : β → β} {k l : Bool → Parse β} {kind : TokenKind} : kind ≠ .eof →
  last g (k true) (l true) → rest g (k false) (l false) → rest g (eat kind >>= k) (eat kind >>= l)
  unexpectedFor {α : Type} (f : α → α) (message : String) :
  rest f (unexpectedFor message) (unexpectedFor message)
  pure {α : Type} (f : α → α) (a : α) : last f (pure a) (pure (f a))
  close {build build' : Span → Node} (start : Position) :
  (∀ span, build' (r.span span) = r.node (build span)) → last r.id
    (do insert (build (← spanFrom start))) (do insert (build' (← spanFrom (r.start start))))

/-- The rest goes hand in hand like all else. -/
def whole : s.Closing where
  rest := s.rel
  last := s.rel
  lead := s.rel_bind
  bind := s.rel_bind
  expect _ := s.rel_expect _
  eat _ htrue hfalse := s.rel_bind (s.rel_eat _) (Bool.rec hfalse htrue)
  unexpectedFor := s.rel_unexpectedFor
  pure := s.rel_pure
  close := s.rel_close

section

variable {s} (t : s.Closing) {α β : Type} {f : α → α} {g : β → β} {x y : Parse α}

lemma Closing.some (hx : t.rest f x y) : t.rest (Option.map f) (some <$> x) (some <$> y) := by
  exact t.bind hx fun a => t.pure (Option.map f) (Option.some a)

lemma Closing.optional {k l : Option α → Parse β} (hx : s.rel f x y) (kind : TokenKind)
    (hk : ∀ a, t.rest g (k a) (l (a.map f))) : t.rest g (do
        let a ← if ← Parse.eat kind then Option.some <$> x else Pure.pure none
        k a)
      (do
        let a ← if ← Parse.eat kind then Option.some <$> y else Pure.pure none
        l a) := by
  refine t.lead (s.rel_eat kind) fun more => ?_
  split
  · exact t.lead (s.rel_some hx) hk
  · exact hk none

end

section

variable {read read' : Reader} (h : s.Readers read read')

include h

lemma rel_typeExpr : s.rel r.type (typeExpr read) (typeExpr read') := by
  refine s.rel_bind s.rel_current fun token => ?_
  simp only [Relabeling.kind_token, Relabeling.value_token, Relabeling.span_token, Relabeling.start_span]
  split
  · exact s.rel_bind s.rel_advance fun _ => s.rel_pure r.type (.name token.value token.span)
  · refine s.rel_bind s.rel_advance fun _ => ?_
    refine s.rel_bind (s.rel_commaList (h .typeExpr) .closeParen) ?_
    rintro ⟨elements, trailing⟩
    refine s.rel_bind (s.rel_expect .closeParen) fun _ => ?_
    refine s.rel_bind (s.rel_spanFrom token.span.start) fun span => ?_
    have hpure := s.rel_pure r.type (.tuple elements span)
    rwa [Relabeling.type, Relabeling.types_eq] at hpure
  · refine s.rel_bind s.rel_advance fun _ => ?_
    refine s.rel_bind s.rel_composition fun traits => ?_
    refine s.rel_bind (s.rel_spanFrom token.span.start) fun span => ?_
    exact s.rel_pure r.type (.existential traits span)
  · exact s.rel_unexpected r.type

lemma rel_bindingPattern : s.rel r.pattern (bindingPattern read) (bindingPattern read') := by
  refine s.rel_bind s.rel_kind fun kind => ?_
  split
  · exact s.rel_bind s.rel_advance fun _ => s.rel_pure r.pattern .wildcard
  · refine s.rel_bind s.rel_advance fun _ => ?_
    refine s.rel_bind (s.rel_commaList (h .bindingPattern) .closeParen) ?_
    rintro ⟨elements, trailing⟩
    refine s.rel_bind (s.rel_expect .closeParen) fun _ => ?_
    have hpure := s.rel_pure r.pattern (.tuple elements)
    rwa [Relabeling.pattern, Relabeling.patterns_eq] at hpure
  · exact s.rel_bind s.rel_var fun id => s.rel_pure r.pattern (.name id)

lemma rel_binding : s.rel r.id (binding read) (binding read') := by
  refine s.rel_bind s.rel_advance fun start => ?_
  refine s.rel_bind (h .bindingPattern) fun pattern => ?_
  refine s.whole.optional (h .typeExpr) .colon fun ascription => ?_
  refine s.whole.optional (h (.expr .default)) .assignment fun initializer => ?_
  exact s.rel_close start.span.start fun _ => rfl

lemma rel_conditionItem : s.rel r.item (conditionItem read) (conditionItem read') := by
  refine s.rel_bind s.rel_kind fun kind => ?_
  split
  · exact s.rel_bind (s.rel_binding h) fun id => s.rel_pure r.item (.decl id)
  · exact s.rel_bind (s.rel_binding h) fun id => s.rel_pure r.item (.decl id)
  · exact s.rel_bind (h (.expr .default)) fun id => s.rel_pure r.item (.expr id)

lemma rel_conditions : s.rel (List.map r.item) (conditions read) (conditions read') :=
  s.rel_separated (s.rel_conditionItem h) .comma

/-! ### Expressions -/

lemma rel_unary : s.rel r.id (unary read) (unary read') := by
  refine s.rel_bind s.rel_advance fun token => ?_
  refine s.rel_bind (h (.expr .unary)) fun operand => ?_
  exact s.rel_close token.span.start fun _ => rfl

lemma rel_grouping : s.rel r.id (grouping read) (grouping read') := by
  refine s.rel_bind s.rel_advance fun start => ?_
  refine s.rel_bind (s.rel_commaList (h (.expr .default)) .closeParen) ?_
  rintro ⟨elements, trailing⟩
  refine s.rel_bind (s.rel_expect .closeParen) fun _ => ?_
  have tuple : s.rel r.id (do insertExpr (.tuple elements) (← spanFrom start.span.start))
      (do insertExpr (.tuple (elements.map r.id)) (← spanFrom (r.start start.span.start))) :=
    s.rel_close start.span.start fun _ => rfl
  cases elements with
  | nil => exact tuple
  | cons element rest =>
    cases rest with
    | nil =>
      cases trailing with
      | false => exact s.rel_pure r.id element
      | true => exact tuple
    | cons second rest => exact tuple

lemma rel_braced : s.rel r.id (braced read) (braced read') := by
  refine s.rel_bind (s.rel_expect .openCurly) fun _ => ?_
  refine s.rel_bind (h (.expr .default)) fun id => ?_
  exact s.rel_bind (s.rel_expect .closeCurly) fun _ => s.rel_pure r.id id

lemma rel_conditional : s.rel r.id (conditional read) (conditional read') := by
  refine s.rel_bind s.rel_advance fun start => ?_
  refine s.rel_bind (s.rel_conditions h) fun condition => ?_
  refine s.rel_bind (s.rel_braced h) fun success => ?_
  refine s.rel_bind (s.rel_expectFor .elseWord _) fun _ => ?_
  refine s.rel_bind s.rel_kind fun kind => ?_
  split
  · exact s.rel_bind (h .conditional) fun failure => s.rel_close start.span.start fun _ => rfl
  · exact s.rel_bind (s.rel_braced h) fun failure => s.rel_close start.span.start fun _ => rfl

lemma rel_casePattern : s.rel r.pattern (casePattern read) (casePattern read') := by
  refine s.rel_bind s.rel_kind fun kind => ?_
  split
  · refine s.rel_bind s.rel_advance fun _ => ?_
    exact s.rel_bind s.rel_var fun id => s.rel_pure r.pattern (.name id)
  · exact s.rel_bind s.rel_advance fun _ => s.rel_pure r.pattern .wildcard
  · refine s.rel_bind s.rel_advance fun _ => ?_
    refine s.rel_bind (s.rel_commaList (h .casePattern) .closeParen) ?_
    rintro ⟨elements, trailing⟩
    refine s.rel_bind (s.rel_expect .closeParen) fun _ => ?_
    have tuple := s.rel_pure r.pattern (.tuple elements)
    rw [Relabeling.pattern, Relabeling.patterns_eq] at tuple
    cases elements with
    | nil => exact tuple
    | cons element rest =>
      cases rest with
      | nil => exact s.rel_pure r.pattern element
      | cons second rest => exact tuple
  · exact s.rel_bind (h (.expr .default)) fun id => s.rel_pure r.pattern (.expr id)

lemma rel_matchCase : s.rel r.id (matchCase read) (matchCase read') := by
  refine s.rel_bind (s.rel_expectFor .caseWord _) fun start => ?_
  refine s.rel_bind (h .casePattern) fun pattern => ?_
  refine s.rel_bind (s.rel_braced h) fun body => ?_
  exact s.rel_close start.span.start fun _ => rfl

lemma rel_selection : s.rel r.id (selection read) (selection read') := by
  refine s.rel_bind s.rel_advance fun start => ?_
  refine s.rel_bind (h (.expr .default)) fun subject => ?_
  refine s.rel_bind (s.rel_expect .openCurly) fun _ => ?_
  refine s.rel_bind (s.rel_untilClosed (s.rel_matchCase h) .closeCurly) fun cases => ?_
  refine s.rel_bind (s.rel_expect .closeCurly) fun _ => ?_
  exact s.rel_close start.span.start fun _ => rfl

lemma rel_operand : s.rel r.id (operand read) (operand read') := by
  refine s.rel_bind s.rel_kind fun kind => ?_
  split
  all_goals first
    | exact s.rel_primary
    | exact s.rel_unary h
    | exact s.rel_grouping h
    | exact s.rel_conditional h
    | exact s.rel_selection h
    | exact s.rel_unexpected r.id

variable (left : ExprId)

omit h in
lemma rel_closeLeft (kind : ExprKind) :
    s.rel r.id (do let start ← exprStart left; insertExpr kind (← spanFrom start))
      (do let start ← exprStart (r.id left); insertExpr (r.exprKind kind) (← spanFrom start)) :=
  s.rel_bind (s.rel_exprStart left) fun start => s.rel_close start fun _ => rfl

variable (power : Power)

lemma rel_binary : s.rel r.id (binary read left power) (binary read' (r.id left) power) := by
  refine s.rel_bind s.rel_advance fun token => ?_
  simp only [Relabeling.kind_token, Relabeling.value_token, Relabeling.span_token, Relabeling.start_span]
  split
  · exact s.rel_fail r.id _ token.span.start
  next operator _ =>
    refine s.rel_bind (h (.expr power)) fun right => ?_
    exact s.rel_closeLeft left (.binary operator left right)

lemma rel_assignment :
    s.rel r.id (assignment read left power) (assignment read' (r.id left) power) := by
  refine s.rel_bind s.rel_advance fun _ => ?_
  refine s.rel_bind (h (.expr power)) fun value => ?_
  exact s.rel_closeLeft left (.assign left value)

lemma rel_call : s.rel r.id (call read left) (call read' (r.id left)) := by
  refine s.rel_bind s.rel_advance fun _ => ?_
  refine s.rel_bind (s.rel_commaList (h (.expr .default)) .closeParen) ?_
  rintro ⟨arguments, trailing⟩
  refine s.rel_bind (s.rel_expect .closeParen) fun _ => ?_
  exact s.rel_closeLeft left (.call left arguments)

omit h in
lemma rel_member : s.rel r.id (member left) (member (r.id left)) := by
  refine s.rel_bind s.rel_advance fun _ => ?_
  refine s.rel_bind (s.rel_expectFor .identifier _) fun name => ?_
  exact s.rel_closeLeft left (.member left name.value)

lemma rel_extend : s.rel r.id (extend read left power) (extend read' (r.id left) power) := by
  refine s.rel_bind s.rel_kind fun kind => ?_
  split
  · exact s.rel_assignment h left power
  · exact s.rel_call h left
  · exact s.rel_member left
  · exact s.rel_binary h left power

lemma rel_climbWithin (floor : Power) : ∀ m n : Nat, s.fuel m n → ∀ left : ExprId,
    s.rel r.id (climbWithin read floor m left) (climbWithin read' floor n (r.id left)) := by
  refine s.fuel_induct (fun _ => s.rel_exhausted _) (fun n hf _ => s.rel_starved _ _ hf) fun m n ih left => ?_
  refine s.rel_bind s.rel_kind fun kind => ?_
  dsimp only
  split
  · exact s.rel_pure r.id left
  · exact s.rel_bind (s.rel_extend h left _) ih

lemma rel_expr (floor : Power) : s.rel r.id (expr read floor) (expr read' floor) := by
  refine s.rel_bind (s.rel_operand h) fun left => ?_
  exact s.rel_measured fun m n hf => s.rel_climbWithin h floor (m + 1) (n + 1) (s.fuel_succ hf) left

/-! ### Functions and statements -/

lemma rel_param : s.rel r.id (param read) (param read') := by
  refine s.rel_bind (s.rel_expectFor .identifier _) fun token => ?_
  refine s.rel_bind (s.rel_expect .colon) fun _ => ?_
  refine s.rel_bind (h .typeExpr) fun ascription => ?_
  exact s.rel_close token.span.start fun _ => rfl

lemma rel_requirement : s.rel r.requirement (requirement read) (requirement read') := by
  refine s.rel_bind (s.rel_expectFor .identifier _) fun token => ?_
  refine s.rel_bind (s.rel_eat .equals) fun equality => ?_
  split
  · refine s.rel_bind (h .typeExpr) fun type => ?_
    refine s.rel_bind (s.rel_spanFrom token.span.start) fun span => ?_
    exact s.rel_pure r.requirement (.equality token.value type span)
  · refine s.rel_bind (s.rel_expectFor .colon _) fun _ => ?_
    refine s.rel_bind s.rel_composition fun traits => ?_
    refine s.rel_bind (s.rel_spanFrom token.span.start) fun span => ?_
    exact s.rel_pure r.requirement (.conformance token.value traits span)

lemma rel_whereClause : s.rel (List.map r.requirement) (whereClause read) (whereClause read') := by
  refine s.rel_bind (s.rel_eat .whereWord) fun more => ?_
  split
  · exact s.rel_separated (s.rel_requirement h) .comma
  · exact s.rel_pure (List.map r.requirement) []

variable {s} in
lemma Closing.function (t : s.Closing) (hblock : t.rest r.id (read .block) (read' .block)) :
    t.rest r.id (function read) (function read') := by
  refine t.lead s.rel_advance fun start => ?_
  refine t.lead (s.rel_expectFor .identifier _) fun name => ?_
  refine t.lead s.rel_genericParams fun generics => ?_
  refine t.lead (s.rel_expect .openParen) fun _ => ?_
  refine t.lead (s.rel_commaList (s.rel_param h) .closeParen) ?_
  rintro ⟨params, trailing⟩
  refine t.lead (s.rel_expect .closeParen) fun _ => ?_
  refine t.optional (h .typeExpr) .arrow fun output => ?_
  refine t.lead (s.rel_whereClause h) fun requirements => ?_
  have close (body : Option StmtId) : t.last r.id
      (do insertDecl (.function ⟨name.value, generics, params, output, requirements, body⟩) (← spanFrom start.span.start))
      (do insertDecl (r.declKind (.function ⟨name.value, generics, params, output, requirements, body⟩))
            (← spanFrom (r.start start.span.start))) :=
    t.close start.span.start fun _ => rfl
  exact t.eat (by decide) (close none) (t.bind (t.some hblock) close)

variable {s} in
lemma Closing.bindingItem (t : s.Closing) : t.rest r.id (bindingItem read) (bindingItem read') := by
  refine t.lead (s.rel_binding h) fun id => ?_
  exact t.bind (t.expect (by decide)) fun _ => t.pure r.id id

lemma rel_returnStmt : s.rel r.id (returnStmt read) (returnStmt read') := by
  refine s.rel_bind s.rel_advance fun start => ?_
  refine s.rel_bind s.rel_kind fun kind => ?_
  have close (value : Option ExprId) :
      s.rel r.id (do let _ ← expect .semicolon; insertStmt (.ret value) (← spanFrom start.span.start))
        (do let _ ← expect .semicolon; insertStmt (.ret (value.map r.id)) (← spanFrom (r.start start.span.start))) :=
    s.rel_bind (s.rel_expect .semicolon) fun _ => s.rel_close start.span.start fun _ => rfl
  split
  · exact close none
  · exact s.rel_bind (s.rel_some (h (.expr .default))) close

lemma rel_branch : s.rel r.id (branch read) (branch read') := by
  refine s.rel_bind s.rel_advance fun start => ?_
  refine s.rel_bind (s.rel_conditions h) fun condition => ?_
  refine s.rel_bind (h .block) fun success => ?_
  refine s.rel_bind (s.rel_eat .elseWord) fun more => ?_
  have close (failure : Option StmtId) :
      s.rel r.id (do insertStmt (.cond condition success failure) (← spanFrom start.span.start))
        (do insertStmt (r.stmtKind (.cond condition success failure)) (← spanFrom (r.start start.span.start))) :=
    s.rel_close start.span.start fun _ => rfl
  split
  · refine s.rel_bind s.rel_kind fun kind => ?_
    split
    · exact s.rel_bind (s.rel_some (h .branch)) close
    · exact s.rel_bind (s.rel_some (h .block)) close
  · exact close none

lemma rel_whileLoop : s.rel r.id (whileLoop read) (whileLoop read') := by
  refine s.rel_bind s.rel_advance fun start => ?_
  refine s.rel_bind (s.rel_conditions h) fun condition => ?_
  refine s.rel_bind (h .block) fun body => ?_
  exact s.rel_close start.span.start fun _ => rfl

lemma rel_doWhile : s.rel r.id (doWhile read) (doWhile read') := by
  refine s.rel_bind s.rel_advance fun start => ?_
  refine s.rel_bind (h .block) fun body => ?_
  refine s.rel_bind (s.rel_expectFor .whileWord _) fun _ => ?_
  refine s.rel_bind (h (.expr .default)) fun condition => ?_
  refine s.rel_bind (s.rel_expect .semicolon) fun _ => ?_
  exact s.rel_close start.span.start fun _ => rfl

lemma rel_stmt : s.rel r.member (stmt read) (stmt read') := by
  refine s.rel_bind s.rel_kind fun kind => ?_
  have decl {x y} (hx : s.rel r.id x y) : s.rel r.member (do return .decl (← x)) (do return .decl (← y)) :=
    s.rel_bind hx fun id => s.rel_pure r.member (.decl id)
  have stmt {x y} (hx : s.rel r.id x y) : s.rel r.member (do return .stmt (← x)) (do return .stmt (← y)) :=
    s.rel_bind hx fun id => s.rel_pure r.member (.stmt id)
  split
  · exact decl (s.whole.bindingItem h)
  · exact decl (s.whole.bindingItem h)
  · exact decl (s.whole.function h (h .block))
  · exact stmt (h .block)
  · exact stmt (s.rel_returnStmt h)
  · exact stmt (s.rel_branch h)
  · exact stmt (s.rel_whileLoop h)
  · exact stmt (s.rel_doWhile h)
  · refine s.rel_bind (h (.expr .default)) fun id => ?_
    exact s.rel_bind (s.rel_expect .semicolon) fun _ => s.rel_pure r.member (.expr id)

lemma rel_blockMember : s.rel r.member (blockMember read) (blockMember read') := by
  refine s.rel_bind s.rel_hasTokens fun more => ?_
  split
  · exact s.rel_stmt h
  · exact s.rel_unexpectedFor r.member _

variable {s} in
lemma Closing.block (t : s.Closing) : t.rest r.id (block read) (block read') := by
  refine t.lead (s.rel_expect .openCurly) fun start => ?_
  refine t.lead (s.rel_untilClosed (s.rel_blockMember h) .closeCurly) fun members => ?_
  exact t.bind (t.expect (by decide)) fun _ => t.close start.span.start fun _ => rfl

lemma rel_traitMember : s.rel r.id (traitMember read) (traitMember read') := by
  refine s.rel_bind s.rel_kind fun kind => ?_
  split
  · exact s.whole.function h (h .block)
  · exact s.rel_unexpectedFor r.id _

lemma rel_productMember : s.rel r.id (productMember read) (productMember read') := by
  refine s.rel_bind s.rel_kind fun kind => ?_
  split
  · exact s.whole.function h (h .block)
  · exact s.whole.bindingItem h
  · exact s.whole.bindingItem h
  · exact s.rel_unexpectedFor r.id _

omit h in
variable {s} in
lemma Closing.members (t : s.Closing) {member member'} (hmember : s.rel r.id member member')
    (message : String) (build : String → List TraitName → List DeclId → DeclKind)
    (hbuild : ∀ name traits members, build name (traits.map r.traitName)
      (members.map r.id) = r.declKind (build name traits members)) :
    t.rest r.id (membered member message build) (membered member' message build) := by
  refine t.lead s.rel_advance fun start => ?_
  refine t.lead (s.rel_expectFor .identifier message) fun name => ?_
  refine t.lead s.rel_traitList fun traits => ?_
  refine t.lead (s.rel_expect .openCurly) fun _ => ?_
  refine t.lead (s.rel_untilClosed hmember .closeCurly) fun members => ?_
  refine t.bind (t.expect (by decide)) fun _ => t.close start.span.start fun span => ?_
  exact congrArg (fun kind => Node.decl ⟨kind, r.span span⟩) (hbuild name.value traits members)

variable {s} in
lemma Closing.item (t : s.Closing) (hblock : t.rest r.id (read .block) (read' .block)) :
    t.rest r.id (item read) (item read') := by
  refine t.lead s.rel_kind fun kind => ?_
  split
  · exact t.function h hblock
  · exact t.members (s.rel_traitMember h) _ (fun name refinements members =>
      .trait ⟨name, refinements, members⟩) fun _ _ _ => rfl
  · exact t.members (s.rel_productMember h) _ (fun name conformances members =>
      .product ⟨name, conformances, members⟩) fun _ _ _ => rfl
  · exact t.bindingItem h
  · exact t.bindingItem h
  · exact t.unexpectedFor r.id _

end

lemma rel_rule {read read'} (h : s.Readers read read') : s.Readers (Phrase.rule read) (Phrase.rule read') := by
  intro α phrase
  cases phrase with
  | expr floor => exact s.rel_expr h floor
  | conditional => exact s.rel_conditional h
  | typeExpr => exact s.rel_typeExpr h
  | bindingPattern => exact s.rel_bindingPattern h
  | casePattern => exact s.rel_casePattern h
  | block => exact s.whole.block h
  | branch => exact s.rel_branch h

lemma rel_readWithin : ∀ m n : Nat, s.fuel m n → s.Readers (Phrase.readWithin m) (Phrase.readWithin n) :=
  s.fuel_induct (fun _ _ => s.rel_exhausted _) (fun _ hf _ _ => s.rel_starved _ _ hf) fun _ _ ih => s.rel_rule ih

lemma rel_read : s.Readers Phrase.read Phrase.read := by
  intro α phrase
  have hmono : Monotone fun n => 2 * n + 2 := fun m n hle => Nat.add_le_add_right (Nat.mul_le_mul_left 2 hle) 2
  exact s.rel_measured fun m n hf => s.rel_readWithin (2 * m + 2) (2 * n + 2) (s.fuel_map hmono hf) phrase

lemma rel_items : s.rel (List.map r.id) items items :=
  s.rel_untilClosed (s.whole.item s.rel_read (s.rel_read .block)) .eof

end Simulation

end TraitLang
