import TraitLang.Proofs.Bodies.Items
import TraitLang.Proofs.Levels

/-! Slots of nodes. A slot holds the value that the program has there, or something that packs it;
so it never holds another value of the program. Storing what packs the value of a slot keeps
this. -/
namespace TraitLang

open TraitLang.Tree

/-! ### What is in a slot -/

/-- Only one value of the tree may be in the slot of a child. -/
def Tree.Fills (tree : Tree) (child slot : ExprId) : Prop := tree.HasExpr slot → slot = child

lemma ConditionItem.Patched.exists_expr {packs} (hrefl : ∀ id, packs id id) {before} {slot}
    (h : Patched packs before (.expr slot)) : ∃ child, before = .expr child ∧ packs child slot := by
  cases h with
  | same => exact ⟨slot, rfl, hrefl slot⟩
  | expr hp => exact ⟨_, rfl, hp⟩

lemma Tree.fills_self (tree : Tree) (child : ExprId) : tree.Fills child child := fun _ => rfl

variable {base program : Program} {root id : Nat} {span : Span}

section

variable (h : base.Descends program)

include h

lemma Program.Descends.fills (hr : base.tree.Rooted root) {child slot}
    (hp : program.tree.Packs child slot) : base.tree.Fills child slot := by
  rintro ⟨expr, he⟩
  rcases hp with rfl | ⟨_, _, hslot⟩
  · rfl
  · have hge := (h.size_le_of_packed hr hslot).1
    exact absurd (lt_size (expr?_eq_some.1 he)) (Nat.not_lt.2 hge)

lemma Program.Descends.exprKind (hr : base.tree.Rooted root) {kind} (he : base.tree.HasExpr id)
    (hcurrent : program.tree.expr? id = some ⟨kind, span⟩) :
    ∃ before, base.tree.expr? id = some ⟨before, span⟩ ∧ before.Patched base.tree.Fills kind := by
  obtain ⟨⟨before, _⟩, hb⟩ := he
  have hn := expr?_eq_some.1 hb
  cases (h.patched id (lt_size hn) _ _ hn (expr?_eq_some.1 hcurrent)).imp fun _ _ => h.fills hr with
  | expr hk => exact ⟨before, hb, hk⟩

lemma Program.Descends.stmtKind (hr : base.tree.Rooted root) {kind} (hs : base.tree.HasStmt id)
    (hcurrent : program.tree.stmt? id = some ⟨kind, span⟩) :
    ∃ before, base.tree.stmt? id = some ⟨before, span⟩ ∧ before.Patched base.tree.Fills kind := by
  obtain ⟨⟨before, _⟩, hb⟩ := hs
  have hn := stmt?_eq_some.1 hb
  cases (h.patched id (lt_size hn) _ _ hn (stmt?_eq_some.1 hcurrent)).imp fun _ _ => h.fills hr with
  | stmt hk => exact ⟨before, hb, hk⟩

lemma Program.Descends.matchCase (hr : base.tree.Rooted root) {before found}
    (hb : base.tree.case? id = some before) (hcurrent : program.tree.case? id = some found) :
    found.pattern = before.pattern ∧ base.tree.Fills before.body found.body := by
  have hn := case?_eq_some.1 hb
  cases h.patched id (lt_size hn) _ _ hn (case?_eq_some.1 hcurrent) with
  | case hp => exact ⟨rfl, h.fills hr hp⟩

lemma Program.Descends.bindingDecl (hr : base.tree.Rooted root) {decl}
    (hcurrent : program.tree.decl? id = some ⟨.binding decl, span⟩) :
    ∃ before, base.tree.decl? id = some ⟨.binding before, span⟩ ∧ decl.pattern = before.pattern ∧
      ∀ initializer, decl.initializer = some initializer →
        ∃ child, before.initializer = some child ∧ base.tree.Fills child initializer := by
  obtain ⟨_, hb⟩ := exists_node? (h.lt_of_decl hcurrent)
  cases h.patched id (lt_size hb) _ _ hb (decl?_eq_some.1 hcurrent) with
  | decl => exact ⟨decl, decl?_eq_some.2 hb, rfl, fun initializer hi => ⟨initializer, hi, base.tree.fills_self _⟩⟩
  | binding hinitializer hp =>
    refine ⟨_, decl?_eq_some.2 hb, rfl, ?_⟩
    rintro _ ⟨⟩
    exact ⟨_, hinitializer, h.fills hr hp⟩

end

/-! ### Storing -/

lemma forall₂_setSlot {α : Type} {related : α → α → Prop} {before after later}
    (h : List.Forall₂ related before after) {index a b}
    (ha : before[index]? = some a) (hab : related a b) (hset : setSlot after index b = some later) :
    List.Forall₂ related before later := by
  obtain ⟨-, rfl⟩ := setSlot_eq_some_iff.1 hset
  clear hset
  induction h generalizing index with
  | nil => cases ha
  | cons hr hrest ih =>
    cases index with
    | zero =>
      cases ha
      exact .cons hab hrest
    | succ index => exact .cons hr (ih ha)

section

variable {packs : ExprId → ExprId → Prop} (hrefl : ∀ id, packs id id) {index : Nat}
  {child slot : ExprId} (hp : packs child slot)

include hrefl hp

namespace ExprKind.Patched

variable {kind later : ExprKind} {items : List ConditionItem}

lemma setArgument {callee arguments} (h : Patched packs (.call callee arguments) kind)
    (hi : arguments[index]? = some child) (hset : Check.setArgument index slot kind = some later) :
    Patched packs (.call callee arguments) later := by
  obtain ⟨_, rfl, hargs⟩ : ∃ slots, kind = .call callee slots ∧ List.Forall₂ packs arguments slots := by
    cases h with
    | same => exact ⟨_, rfl, List.forall₂_same.2 fun id _ => hrefl id⟩
    | call hargs => exact ⟨_, rfl, hargs⟩
  obtain ⟨_, hslots, rfl⟩ := Option.map_eq_some_iff.1 hset
  exact .call (forall₂_setSlot hargs hi hp hslots)

omit hrefl in
lemma setAssigned {assignee} (h : Patched packs (.assign assignee child) kind)
    (hset : Check.setAssigned slot kind = some later) : Patched packs (.assign assignee child) later := by
  cases h with
  | same | assign =>
    cases hset
    exact .assign hp

lemma setTest {success failure} (h : Patched packs (.cond items success failure) kind)
    (hi : items[index]? = some (.expr child)) (hset : Check.setTest index slot kind = some later) :
    Patched packs (.cond items success failure) later := by
  obtain ⟨_, _, rfl, hitems, hfailure⟩ : ∃ slots other, kind = .cond slots success other ∧
      List.Forall₂ (ConditionItem.Patched packs) items slots ∧ packs failure other := by
    cases h with
    | same => exact ⟨_, _, rfl, List.forall₂_same.2 fun item _ => .same item, hrefl failure⟩
    | cond hitems hfailure => exact ⟨_, _, rfl, hitems, hfailure⟩
  obtain ⟨_, hslots, rfl⟩ := Option.map_eq_some_iff.1 hset
  exact .cond (forall₂_setSlot hitems hi (.expr hp) hslots) hfailure

omit hrefl in
lemma setFailure {success} (h : Patched packs (.cond items success child) kind)
    (hset : Check.setFailure slot kind = some later) : Patched packs (.cond items success child) later := by
  cases h with
  | same =>
    cases hset
    exact .cond (List.forall₂_same.2 fun item _ => .same item) hp
  | cond hitems =>
    cases hset
    exact .cond hitems hp

end ExprKind.Patched

omit hrefl

lemma Body.Row.patched_store {α : Type} (row : Row α) {items item kind later}
    (h : (row.kind items).Patched packs kind) (hi : items[index]? = some item) (hview : row.view item = .expr child)
    (hset : row.store index slot kind = some later) : (row.kind items).Patched packs later := by
  obtain ⟨_, rfl, hitems⟩ := row.patched_iff.1 h
  rw [row.store_eq] at hset
  obtain ⟨_, hslots, rfl⟩ := Option.map_eq_some_iff.1 hset
  refine row.patched_iff.2 ⟨_, rfl, forall₂_setSlot hitems hi ?_ hslots⟩
  rw [hview, row.view_ofExpr]
  exact .expr hp

namespace StmtKind.Patched

variable {kind later : StmtKind}

lemma setReturned (h : Patched packs (.ret (some child)) kind)
    (hset : Body.setReturned slot kind = some later) : Patched packs (.ret (some child)) later := by
  cases h with
  | same | ret =>
    cases hset
    exact .ret hp

lemma setLoopTest {body} (h : Patched packs (.doWhile body child) kind)
    (hset : Body.setLoopTest slot kind = some later) :
    Patched packs (.doWhile body child) later := by
  cases h with
  | same | doWhile =>
    cases hset
    exact .doWhile hp

end StmtKind.Patched

end

lemma Tree.packs_self (tree : Tree) (id : ExprId) : tree.Packs id id := .inl rfl

namespace Program.Descends

variable {base program : Program} {root : Nat} (h : base.Descends program)
  (hr : base.tree.Rooted root) {id : Nat} {span : Span} {tree : Tree}

include h hr

lemma update {before} (hb : base.tree.node? id = some before) {change} (hp : ∀ {after later},
      before.Patched program.tree.Packs after → change after = some later → before.Patched program.tree.Packs later)
    (hset : program.tree.update id change = some tree) : base.Descends { program with tree } := by
  obtain ⟨_, _, hcurrent, hchange, rfl⟩ := update_eq_some_iff.1 hset
  exact h.put hr hb (hp (h.patched id (lt_size hb) _ _ hb hcurrent) hchange)

lemma updateExpr {kind} (hb : base.tree.expr? id = some ⟨kind, span⟩)
    {change} (hp : ∀ {after later}, kind.Patched program.tree.Packs after →
      change after = some later → kind.Patched program.tree.Packs later)
    (hset : program.tree.updateExpr id change = some tree) : base.Descends
    { program with tree } := by
  refine h.update hr (expr?_eq_some.1 hb) (fun hpatched hchange => ?_) hset
  cases hpatched with
  | expr hk =>
    obtain ⟨_, hlater, rfl⟩ := Option.map_eq_some_iff.1 hchange
    exact .expr (hp hk hlater)

lemma updateStmt {kind} (hb : base.tree.stmt? id = some ⟨kind, span⟩)
    {change} (hp : ∀ {after later}, kind.Patched program.tree.Packs after →
      change after = some later → kind.Patched program.tree.Packs later)
    (hset : program.tree.updateStmt id change = some tree) : base.Descends
    { program with tree } := by
  refine h.update hr (stmt?_eq_some.1 hb) (fun hpatched hchange => ?_) hset
  cases hpatched with
  | stmt hk =>
    obtain ⟨_, hlater, rfl⟩ := Option.map_eq_some_iff.1 hchange
    exact .stmt (hp hk hlater)

lemma updateBody {case} (hb : base.tree.case? id = some case) {slot} (hp : program.tree.Packs case.body slot)
    (hset : program.tree.updateCase id (fun found => { found with body := slot }) = some tree) :
    base.Descends { program with tree } := by
  refine h.update hr (case?_eq_some.1 hb) (fun hpatched hchange => ?_) hset
  cases hpatched with
  | case =>
    cases hchange
    exact .case hp

lemma updateInitializer
    {decl} (hb : base.tree.decl? id = some ⟨.binding decl, span⟩) {initializer slot}
    (hi : decl.initializer = some initializer) (hp : program.tree.Packs initializer slot)
    (hset : program.tree.updateDecl id (Check.setInitializer slot) = some tree) : base.Descends
    { program with tree } := by
  refine h.update hr (decl?_eq_some.1 hb) (fun hpatched hchange => ?_) hset
  cases hpatched with
  | decl | binding =>
    cases hchange
    exact .binding hi hp

end Program.Descends

/-! ### Where values stand -/

/-- A slot that is read from a scope. If a value of the program is in it then the value stands in
the scope, as a part of another one. -/
def Program.Reads (program : Program) (scope : ScopeId) (slot : ExprId) : Prop :=
  program.tree.HasExpr slot → program.scopeOf slot = some scope ∧ program.tree.Part slot

namespace Program.Surveyed

variable {program : Program} {root : Nat} (h : program.Surveyed root) {id : Nat}
  {child slot scope : Nat} {span : Span}

include h

lemma reads_of_expr {kind} (he : program.tree.expr? id = some ⟨kind, span⟩) (hc : child ∈ kind.children)
    (hscope : (Node.expr ⟨kind, span⟩).scopeOfChild id (program.scopeOf id) child = some scope)
    (hf : program.tree.Fills child slot) : program.Reads scope slot := by
  intro hslot
  obtain rfl := hf hslot
  have hn := expr?_eq_some.1 he
  refine ⟨(h.scopeOf_child hn hc).trans hscope, id, ?_, .inl ⟨_, he⟩⟩
  rwa [children_of_node? hn]

lemma reads_of_case {case} (he : program.tree.case? id = some case) (hc : child ∈ (Node.case case).children)
    (hf : program.tree.Fills child slot) : program.Reads id slot := by
  intro hslot
  obtain rfl := hf hslot
  have hn := case?_eq_some.1 he
  refine ⟨h.scopeOf_child hn hc, id, ?_, .inr ⟨_, he⟩⟩
  rwa [children_of_node? hn]

/-- The functions around a conditional expression or a case are those around what is in it. -/
lemma enclosingFunction?_of_inner (hi : program.tree.Inner id) (hscope : program.scopeOf id = some scope) :
    program.enclosingFunction? id = program.enclosingFunction? scope :=
  h.enclosingFunction?_eq_outer hscope fun hf => not_inner_of_function (isFunction_iff.1 hf) hi

end Program.Surveyed

end TraitLang
