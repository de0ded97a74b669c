import TraitLang.Check.Names
import TraitLang.Proofs.Chain

/-! Programs that checking has changed. Checking points slots at new nodes that pack the expressions
in them, and places those nodes; everything that names, written types and traits are resolved by
stays as it was. -/
namespace TraitLang

open TraitLang.Tree List Check

/-! ### Slots -/

/-- What stands in the slot of an expression: the expression, or a node that packs it. -/
def Tree.Packs (tree : Tree) (expr slot : ExprId) : Prop :=
  slot = expr ∨ ∃ traits span, tree.expr? slot = some ⟨.existential expr traits, span⟩

section

variable (packs : ExprId → ExprId → Prop)

inductive BlockMember.Patched : BlockMember → BlockMember → Prop
  | same (member : BlockMember) : Patched member member
  | expr {id slot : ExprId} : packs id slot → Patched (.expr id) (.expr slot)

inductive ConditionItem.Patched : ConditionItem → ConditionItem → Prop
  | same (item : ConditionItem) : Patched item item
  | expr {id slot : ExprId} : packs id slot → Patched (.expr id) (.expr slot)

inductive ExprKind.Patched : ExprKind → ExprKind → Prop
  | same (kind : ExprKind) : Patched kind kind
  | call {callee : ExprId} {arguments slots : List ExprId} : Forall₂ packs arguments slots →
    Patched (.call callee arguments) (.call callee slots)
  | assign {assignee value slot : ExprId} : packs value slot →
    Patched (.assign assignee value) (.assign assignee slot)
  | cond {items slots : List ConditionItem} {success failure slot : ExprId} :
    Forall₂ (ConditionItem.Patched packs) items slots → packs failure slot →
    Patched (.cond items success failure) (.cond slots success slot)

inductive StmtKind.Patched : StmtKind → StmtKind → Prop
  | same (kind : StmtKind) : Patched kind kind
  | block {members slots : List BlockMember} : Forall₂ (BlockMember.Patched packs) members slots →
    Patched (.block members) (.block slots)
  | ret {value slot : ExprId} : packs value slot → Patched (.ret (some value)) (.ret (some slot))
  | cond {items slots : List ConditionItem} {success : StmtId} {failure : Option StmtId} :
    Forall₂ (ConditionItem.Patched packs) items slots →
    Patched (.cond items success failure) (.cond slots success failure)
  | whileLoop {items slots : List ConditionItem} {body : StmtId} :
    Forall₂ (ConditionItem.Patched packs) items slots →
    Patched (.whileLoop items body) (.whileLoop slots body)
  | doWhile {body : StmtId} {condition slot : ExprId} : packs condition slot →
    Patched (.doWhile body condition) (.doWhile body slot)

/-- A node with some of its slots pointed at packed forms of what they held. -/
inductive Node.Patched : Node → Node → Prop
  | decl (decl : Decl) : Patched (.decl decl) (.decl decl)
  | binding {decl : BindingDecl} {span : Span} {initializer slot : ExprId} :
    decl.initializer = some initializer → packs initializer slot → Patched (.decl ⟨.binding decl,
    span⟩) (.decl ⟨.binding { decl with initializer := some slot }, span⟩)
  | stmt {kind kind' : StmtKind} {span : Span} : StmtKind.Patched packs kind kind' →
    Patched (.stmt ⟨kind, span⟩) (.stmt ⟨kind', span⟩)
  | expr {kind kind' : ExprKind} {span : Span} : ExprKind.Patched packs kind kind' →
    Patched (.expr ⟨kind, span⟩) (.expr ⟨kind', span⟩)
  | case {pattern : Pattern} {body slot : ExprId} {span : Span} : packs body slot →
    Patched (.case ⟨pattern, body, span⟩) (.case ⟨pattern, slot, span⟩)

end

variable {packs other : ExprId → ExprId → Prop}

lemma ConditionItem.Patched.imp (hi : ∀ expr slot, packs expr slot → other expr slot)
    {before after} : Patched packs before after → Patched other before after
  | .same _ => .same _
  | .expr h => .expr (hi _ _ h)

lemma BlockMember.Patched.imp (hi : ∀ expr slot, packs expr slot → other expr slot) {before after} :
    Patched packs before after → Patched other before after
  | .same _ => .same _
  | .expr h => .expr (hi _ _ h)

namespace Node.Patched

variable {packs : ExprId → ExprId → Prop} {before after : Node}

lemma isScope_eq (h : Patched packs before after) : after.isScope = before.isScope := by
  cases h with
  | decl | binding | case => rfl
  | stmt h | expr h => cases h <;> rfl

lemma imp {other} (h : Patched packs before after)
    (hi : ∀ expr slot, packs expr slot → other expr slot) : Patched other before after := by
  cases h with
  | decl d => exact .decl d
  | binding hb hp => exact .binding hb (hi _ _ hp)
  | stmt h =>
    refine .stmt ?_
    cases h with
    | same => exact .same _
    | block h => exact .block (h.imp fun _ _ => .imp hi)
    | ret h => exact .ret (hi _ _ h)
    | cond h => exact .cond (h.imp fun _ _ => .imp hi)
    | whileLoop h => exact .whileLoop (h.imp fun _ _ => .imp hi)
    | doWhile h => exact .doWhile (hi _ _ h)
  | expr h =>
    refine .expr ?_
    cases h with
    | same => exact .same _
    | call h => exact .call (h.imp hi)
    | assign h => exact .assign (hi _ _ h)
    | cond h hf => exact .cond (h.imp fun _ _ => .imp hi) (hi _ _ hf)
  | case h => exact .case (hi _ _ h)

/-- The children of a patched node are those it had, up to packing. -/
lemma children (h : Patched packs before after) :
    Forall₂ (fun child slot => slot = child ∨ packs child slot) before.children after.children := by
  have refl (ids : List NodeId) : Forall₂ (fun child slot => slot = child ∨ packs child slot) ids ids :=
    forall₂_same.2 fun _ _ => .inl rfl
  have one {expr slot} (hp : packs expr slot) :
      Forall₂ (fun child slot => slot = child ∨ packs child slot) [expr] [slot] :=
    .cons (.inr hp) .nil
  have items {as bs} (hs : Forall₂ (ConditionItem.Patched packs) as bs) :
      Forall₂ (fun child slot => slot = child ∨ packs child slot) (as.map ConditionItem.node)
        (bs.map ConditionItem.node) := by
    rw [forall₂_map_left_iff, forall₂_map_right_iff]
    exact hs.imp fun a b hab => by
      cases hab with
      | same => exact .inl rfl
      | expr hp => exact .inr hp
  cases h with
  | decl d => exact refl _
  | binding hb hp =>
    simp only [Node.children, DeclKind.children, hb]
    exact rel_append (refl _) (one hp)
  | stmt h =>
    cases h with
    | same => exact refl _
    | block hs =>
      simp only [Node.children, StmtKind.children]
      rw [forall₂_map_left_iff, forall₂_map_right_iff]
      exact hs.imp fun a b hab => by
        cases hab with
        | same => exact .inl rfl
        | expr hp => exact .inr hp
    | ret hp => exact one hp
    | cond hs | whileLoop hs => exact rel_append (items hs) (refl _)
    | doWhile hp => exact .cons (.inl rfl) (one hp)
  | expr h =>
    cases h with
    | same => exact refl _
    | call hs => exact .cons (.inl rfl) (hs.imp fun _ _ => .inr)
    | assign hp => exact .cons (.inl rfl) (one hp)
    | cond hs hp => exact rel_append (items hs) (.cons (.inl rfl) (one hp))
  | case hp => exact rel_append (refl _) (one hp)

end Node.Patched

/-! ### Grown programs -/

/-- A program that checking made from another one. -/
structure Program.Descends (base program : Program) : Prop where
  size_le : base.tree.size ≤ program.tree.size
  modules_eq : program.tree.modules = base.tree.modules
  patched : ∀ id < base.tree.size, ∀ before after, base.tree.node? id = some before →
    program.tree.node? id = some after → before.Patched program.tree.Packs after
  added : ∀ id, base.tree.size ≤ id → id < program.tree.size → ∃ witness traits expr,
    base.tree.expr? witness = some expr ∧
    program.tree.expr? id = some ⟨.existential witness traits, expr.span⟩ ∧
    program.scopeOf id = base.scopeOf witness
  scopeOf_eq : ∀ id < base.tree.size, program.scopeOf id = base.scopeOf id
  scopeDecls_eq : program.scopeDecls = base.scopeDecls
  varBindings_eq : program.varBindings = base.varBindings

namespace Program.Descends

protected lemma refl (base : Program) : Descends base base := by
  refine ⟨le_rfl, rfl, ?_, fun id h1 h2 => absurd h1 (by omega), fun _ _ => rfl, rfl, rfl⟩
  intro id hid before after hb ha
  obtain rfl : before = after := by simpa [hb] using ha
  cases before with
  | decl d => exact .decl d
  | stmt s => exact .stmt (.same _)
  | expr e => exact .expr (.same _)
  | case c => exact .case (.inl rfl)

variable {base program : Program} (h : Descends base program) {id root witness scope : Nat}
  {expr : Expr} {traits : List DeclId} {decl : Decl}

include h

lemma exists_patched {before} (hb : base.tree.node? id = some before) :
    ∃ after, program.tree.node? id = some after ∧ before.Patched program.tree.Packs after := by
  have hlt := lt_size hb
  obtain ⟨after, ha⟩ := exists_node? (hlt.trans_le h.size_le)
  exact ⟨after, ha, h.patched id hlt before after hb ha⟩

lemma exists_expr (he : base.tree.expr? id = some expr) :
    ∃ kind, program.tree.expr? id = some ⟨kind, expr.span⟩ := by
  obtain ⟨_, ha, hp⟩ := h.exists_patched (expr?_eq_some.1 he)
  cases hp with
  | expr hk => exact ⟨_, expr?_eq_some.2 ha⟩

/-- A packed value is not in the tree that checking began with. -/
lemma size_le_of_packed {span} (hr : base.tree.Rooted root)
    (hp : program.tree.expr? id = some ⟨.existential witness traits, span⟩) :
    base.tree.size ≤ id ∧ id < program.tree.size := by
  rw [expr?_eq_some] at hp
  refine ⟨?_, lt_size hp⟩
  by_contra hlt
  obtain ⟨_, hb⟩ := exists_node? (Nat.not_le.1 hlt)
  cases h.patched _ (lt_size hb) _ _ hb hp with
  | expr hk =>
    cases hk with
    | same => exact (hr.below hb).1

lemma child_cases {parent child} (hr : base.tree.Rooted root) (hp : parent < base.tree.size)
    (hc : child ∈ program.tree.children parent) :
    child ∈ base.tree.children parent ∨ base.tree.size ≤ child ∧ child < program.tree.size := by
  obtain ⟨_, hb⟩ := exists_node? hp
  obtain ⟨_, ha, hpatched⟩ := h.exists_patched hb
  rw [children_of_node? ha] at hc
  rw [children_of_node? hb]
  obtain ⟨_, hi, rfl⟩ := getElem_of_mem hc
  have hlength := hpatched.children.length_eq
  rcases hpatched.children.get (hlength ▸ hi) hi with he | he | ⟨_, _, he⟩
  · exact .inl (Eq.mpr (congrArg (· ∈ _) he) (get_mem _ _))
  · exact .inl (Eq.mpr (congrArg (· ∈ _) he) (get_mem _ _))
  · exact .inr (h.size_le_of_packed hr he)

lemma lt_of_decl (hd : program.tree.decl? id = some decl) : id < base.tree.size := by
  by_contra hge
  have hn := decl?_eq_some.1 hd
  obtain ⟨_, _, _, -, he, -⟩ := h.added id (Nat.not_lt.1 hge) (lt_size hn)
  rw [expr?_eq_some, hn] at he
  cases he

/-- Declarations are what they were, up to the initializers of bindings. -/
lemma decl?_cases (id : Nat) : program.tree.decl? id = base.tree.decl? id ∨
    ∃ decl span slot, base.tree.decl? id = some ⟨.binding decl, span⟩ ∧
      program.tree.decl? id = some ⟨.binding { decl with initializer := slot }, span⟩ := by
  cases hb : base.tree.decl? id with
  | some decl =>
    obtain ⟨after, ha, hp⟩ := h.exists_patched (decl?_eq_some.1 hb)
    cases hp with
    | decl => exact .inl (decl?_eq_some.2 ha)
    | binding hi => exact .inr ⟨_, _, _, rfl, decl?_eq_some.2 ha⟩
  | none =>
    left
    cases ha : program.tree.decl? id with
    | none => rfl
    | some decl =>
      exfalso
      obtain ⟨_, hbefore⟩ := exists_node? (h.lt_of_decl ha)
      cases h.patched _ (lt_size hbefore) _ _ hbefore (decl?_eq_some.1 ha) with
      | decl d | binding => rw [decl?_eq_some.2 hbefore] at hb; cases hb

lemma decl?_of_not_binding (hd : base.tree.decl? id = some decl)
    (hb : decl.kind.isBinding = false) : program.tree.decl? id = some decl := by
  rcases h.decl?_cases id with heq | ⟨_, _, _, hd', -⟩
  · exact heq.trans hd
  · cases hd.symm.trans hd'
    cases hb

lemma base_decl?_of_not_binding (hd : program.tree.decl? id = some decl)
    (hb : decl.kind.isBinding = false) : base.tree.decl? id = some decl := by
  rcases h.decl?_cases id with heq | ⟨_, _, _, -, hd'⟩
  · exact heq.symm.trans hd
  · cases hd.symm.trans hd'
    cases hb

/-- What does not look at initializers says the same about declarations. -/
@[elab_as_elim]
lemma decl?_induct {motive : Option Decl → Option Decl → Prop} (id : Nat) (same : ∀ found, motive found found)
    (binding : ∀ decl span slot, motive (some ⟨.binding { decl with initializer := slot }, span⟩)
      (some ⟨.binding decl, span⟩)) : motive (program.tree.decl? id) (base.tree.decl? id) := by
  rcases h.decl?_cases id with he | ⟨decl, span, slot, hb, hp⟩
  · rw [he]
    exact same _
  · rw [hb, hp]
    exact binding decl span slot

lemma declares_iff {test}
    (ht : ∀ decl slot, test (.binding { decl with initializer := slot }) = test (.binding decl)) :
    program.tree.Declares test id ↔ base.tree.Declares test id := by
  unfold Tree.Declares
  exact h.decl?_induct id (fun _ => .rfl) fun decl span slot => by simp [ht]

lemma declName?_eq (id : Nat) : program.tree.declName? id = base.tree.declName? id := by
  unfold declName?
  exact h.decl?_induct id (fun _ => rfl) fun _ _ _ => rfl

lemma declName_eq (id : Nat) : program.declName id = base.declName id := by
  rw [declName, declName, h.declName?_eq]

lemma isFunction_eq (id : Nat) : program.tree.isFunction id = base.tree.isFunction id := by
  unfold isFunction
  exact h.decl?_induct id (fun _ => rfl) fun _ _ _ => rfl

lemma asDecl?_eq (id : Nat) : program.tree.asDecl? id = base.tree.asDecl? id := by
  unfold asDecl?
  exact h.decl?_induct id (fun _ => rfl) fun _ _ _ => rfl

lemma decls_eq (scope : ScopeId) : program.decls scope = base.decls scope := by
  rw [decls, decls, h.scopeDecls_eq]

lemma bindingOf_eq (var : DeclId) : program.bindingOf var = base.bindingOf var := by
  rw [bindingOf, bindingOf, h.varBindings_eq]

lemma isSome_decl?_eq (id : Nat) : (program.tree.decl? id).isSome = (base.tree.decl? id).isSome :=
  h.decl?_induct id (fun _ => rfl) fun _ _ _ => rfl

/-- What the tree had from the start can be demanded. -/
lemma demand_eq_ok {ids} (hids : ∀ id ∈ ids, (base.tree.decl? id).isSome) : program.demand ids = .ok () := by
  have hfind : (ids.find? fun id => (program.tree.decl? id).isNone) = none :=
    find?_eq_none.2 fun id hid => by
      simpa [← h.isSome_decl?_eq id, Option.isSome_iff_ne_none] using hids id hid
  rw [demand, hfind]

lemma demandFrom_eq_ok (hs : base.Surveyed root) (scope : ScopeId) : program.demandFrom scope = .ok () := by
  refine h.demand_eq_ok fun id hid => ?_
  rcases mem_append.1 hid with hid | hid
  · obtain ⟨outer, -, hd⟩ := mem_flatMap.1 hid
    exact (hs.mem_decls (h.decls_eq outer ▸ hd)).2
  · obtain ⟨var, -, hb⟩ := mem_filterMap.1 hid
    obtain ⟨_, hstands⟩ := hs.stands_of_bindingOf (h.bindingOf_eq var ▸ hb)
    exact hstands.isSome_decl? rfl

lemma owningBinding?_eq (var : DeclId) : program.owningBinding? var = base.owningBinding? var := by
  unfold owningBinding?
  rw [h.bindingOf_eq]
  congr 1
  funext binding
  exact h.decl?_induct binding (fun _ => rfl) fun _ _ _ => rfl

lemma scope?_eq (hid : id < base.tree.size) : program.tree.scope? id = base.tree.scope? id := by
  obtain ⟨_, hb⟩ := exists_node? hid
  obtain ⟨_, ha, hp⟩ := h.exists_patched hb
  simp only [scope?, isScope, ha, hb, Option.any_some, hp.isScope_eq]

lemma isVisible_eq (offset : Nat) (scope : ScopeId) (id : DeclId) :
    isVisible program offset scope id = isVisible base offset scope id := by
  have hspan (span : Span) : ((program.owningBinding? id).bind program.tree.decl?).elim span Decl.span =
      ((base.owningBinding? id).bind base.tree.decl?).elim span Decl.span := by
    rw [h.owningBinding?_eq]
    cases base.owningBinding? id with
    | none => rfl
    | some binding =>
      rw [Option.bind_some, Option.bind_some]
      exact h.decl?_induct binding (fun _ => rfl) fun _ _ _ => rfl
  have hscope := h.isSome_decl?_eq scope
  unfold isVisible
  simp only [hspan]
  cases hp : program.tree.decl? scope <;> cases hb : base.tree.decl? scope <;> simp [hp, hb] at hscope
  · exact h.decl?_induct id (fun _ => rfl) fun _ _ _ => rfl
  · rfl

/-- Names find the same declarations. -/
lemma findWhere_eq (hs : base.Surveyed root) (name : String)
    (hscope : scope ≤ root) (visible : ScopeId → DeclId → Bool) :
    program.findWhere name scope visible = base.findWhere name scope visible := by
  have hsize := hs.rooted.size_eq
  have hchain := hs.chain_eq_of_agree (fun id hid => h.scopeOf_eq id (by omega)) hscope
  simp only [findWhere, hchain, h.decls_eq, h.declName?_eq]

lemma trait?_eq (hs : base.Surveyed root) (name : String) (hscope : scope ≤ root) :
    program.trait? name scope = base.trait? name scope := by
  rw [trait?, trait?, find, find, h.findWhere_eq hs name hscope]
  congr 1
  funext id
  exact h.decl?_induct id (fun _ => rfl) fun _ _ _ => rfl

lemma enclosingScope_eq (hid : id < base.tree.size) : program.enclosingScope id = base.enclosingScope id := by
  rw [enclosingScope, enclosingScope, h.scopeOf_eq id hid]

lemma declaredType?_eq (hs : base.Surveyed root) (name : String) (hscope : scope ≤ root) :
    declaredType? program name scope = declaredType? base name scope := by
  rw [declaredType?, declaredType?, find, find, h.findWhere_eq hs name hscope]
  congr 1
  funext id
  exact h.decl?_induct id (fun _ => rfl) fun _ _ _ => rfl

/-! ### Growing further -/

lemma put (hr : base.tree.Rooted root) {before node} (hb : base.tree.node? id = some before)
    (hp : before.Patched program.tree.Packs node) : Descends base
    { program with tree := program.tree.put id node } := by
  have hid := lt_size hb
  have hnode (other : Nat) := node?_put (hid.trans_le h.size_le) node other
  have hexpr {other expr} (hne : id ≠ other) (he : program.tree.expr? other = some expr) :
      (program.tree.put id node).expr? other = some expr := by simp_all [expr?_eq_some]
  have hpacks (expr slot : ExprId) (h' : program.tree.Packs expr slot) :
      (program.tree.put id node).Packs expr slot := by
    rcases h' with rfl | ⟨traits, span, he⟩
    · exact .inl rfl
    · have := (h.size_le_of_packed hr he).1
      exact .inr ⟨traits, span, hexpr (by rintro rfl; exact absurd hid (by simpa using this)) he⟩
  refine ⟨by simpa using h.size_le, h.modules_eq, ?_, ?_, h.scopeOf_eq, h.scopeDecls_eq, h.varBindings_eq⟩
  · intro other hlt found after hbefore hafter
    rw [hnode] at hafter
    split at hafter
    next heq =>
      subst heq
      cases hb.symm.trans hbefore
      exact Option.some.inj hafter ▸ hp.imp hpacks
    next => exact (h.patched other hlt found after hbefore hafter).imp hpacks
  · intro other hge hlt
    obtain ⟨witness, traits, expr, hw, he, hs⟩ := h.added other hge (by simpa using hlt)
    exact ⟨witness, traits, expr, hw, hexpr (by omega) he, hs⟩

lemma push {scope} (hw : base.tree.expr? witness = some expr) (hs : base.scopeOf witness = some scope) :
    Descends base ((program.push (.expr ⟨.existential witness traits, expr.span⟩)).2.register
      program.tree.size scope) := by
  have hnode (other : Nat) : (program.tree.push (.expr ⟨.existential witness traits, expr.span⟩)).2.node? other =
      if other = program.tree.size then some (.expr ⟨.existential witness traits, expr.span⟩)
      else program.tree.node? other := program.tree.node?_push _ other
  have hold {other node} (hn : program.tree.node? other = some node) : (program.tree.push
      (.expr ⟨.existential witness traits, expr.span⟩)).2.node? other = some node := by
    rw [hnode, if_neg (Nat.ne_of_lt (lt_size hn)), hn]
  have hpacks (e slot : ExprId) (h' : program.tree.Packs e slot) :
      (program.tree.push (.expr ⟨.existential witness traits, expr.span⟩)).2.Packs e slot := by
    rcases h' with rfl | ⟨traits, span, he⟩
    · exact .inl rfl
    · exact .inr ⟨traits, span, expr?_eq_some.2 (hold (expr?_eq_some.1 he))⟩
  have hscope (other : Nat) : ((program.push (.expr ⟨.existential witness traits, expr.span⟩)).2.register
      program.tree.size scope).scopeOf other =
        if program.tree.size = other then some scope else program.scopeOf other :=
    NodeMap.getElem?_insert _ _ _ _
  have hsize : ((program.push (.expr ⟨.existential witness traits, expr.span⟩)).2.register
      program.tree.size scope).tree.size = program.tree.size + 1 := size_push _ _
  have hle := h.size_le
  refine ⟨by omega, h.modules_eq, ?_, ?_, ?_, h.scopeDecls_eq, h.varBindings_eq⟩
  · intro other hlt node after hbefore hafter
    have hafter : (program.tree.push (.expr ⟨.existential witness traits, expr.span⟩)).2.node? other =
      some after := hafter
    rw [hnode, if_neg (by omega)] at hafter
    exact (h.patched other hlt node after hbefore hafter).imp hpacks
  · intro other hge hlt
    rw [hscope]
    by_cases heq : program.tree.size = other
    · subst heq
      refine ⟨witness, traits, expr, hw, ?_, by rw [if_pos rfl, hs]⟩
      exact expr?_eq_some.2 ((hnode _).trans (if_pos rfl))
    · obtain ⟨w, ts, e, hw', he, hs'⟩ := h.added other hge (by omega)
      exact ⟨w, ts, e, hw', expr?_eq_some.2 (hold (expr?_eq_some.1 he)), by rw [if_neg heq, hs']⟩
  · intro other hlt
    rw [hscope, if_neg (by omega), h.scopeOf_eq other hlt]

end Program.Descends

end TraitLang
