import TraitLang.Proofs.Soundness

/-! What checking does to the tree. It adds nodes that pack expressions and points slots at them,
and that is all: with each of them replaced by what it packs, the tree is the one that was read.
Each of them is in the slot of what it packs, except in match patterns, whose slots are not
written. -/
namespace TraitLang

open List TraitLang.Tree Pattern Nat

/-! ### Undoing it -/

mutual

/-- Changes the expressions that a pattern matches. -/
def Pattern.mapExprs (f : ExprId → ExprId) : Pattern → Pattern
  | .expr id => .expr (f id)
  | .tuple elements => .tuple (mapExprsAll f elements)
  | .name var => .name var
  | .wildcard => .wildcard

def Pattern.mapExprsAll (f : ExprId → ExprId) : List Pattern → List Pattern
  | [] => []
  | element :: elements => element.mapExprs f :: mapExprsAll f elements

end

def BlockMember.mapExpr (f : ExprId → ExprId) : BlockMember → BlockMember
  | .expr id => .expr (f id)
  | member => member

def ConditionItem.mapExpr (f : ExprId → ExprId) : ConditionItem → ConditionItem
  | .expr id => .expr (f id)
  | item => item

def DeclKind.mapExprs (f : ExprId → ExprId) : DeclKind → DeclKind
  | .binding decl =>
    .binding { decl with pattern := decl.pattern.mapExprs f, initializer := decl.initializer.map f }
  | kind => kind

def StmtKind.mapExprs (f : ExprId → ExprId) : StmtKind → StmtKind
  | .block members => .block (members.map (BlockMember.mapExpr f))
  | .ret value => .ret (value.map f)
  | .cond condition success failure => .cond (condition.map (ConditionItem.mapExpr f)) success failure
  | .whileLoop condition body => .whileLoop (condition.map (ConditionItem.mapExpr f)) body
  | .doWhile body condition => .doWhile body (f condition)

def ExprKind.mapExprs (f : ExprId → ExprId) : ExprKind → ExprKind
  | .call callee arguments => .call (f callee) (arguments.map f)
  | .binary operator left right => .binary operator (f left) (f right)
  | .unary operator operand => .unary operator (f operand)
  | .assign assignee value => .assign (f assignee) (f value)
  | .tuple elements => .tuple (elements.map f)
  | .member base text => .member (f base) text
  | .cond condition success failure =>
    .cond (condition.map (ConditionItem.mapExpr f)) (f success) (f failure)
  | .select subject cases => .select (f subject) cases
  | .existential witness traits => .existential (f witness) traits
  | kind => kind

/-- Changes what is in the expression slots of a node. -/
def Node.mapExprs (f : ExprId → ExprId) : Node → Node
  | .decl d => .decl { d with kind := d.kind.mapExprs f }
  | .stmt s => .stmt { s with kind := s.kind.mapExprs f }
  | .expr e => .expr { e with kind := e.kind.mapExprs f }
  | .case c => .case { c with pattern := c.pattern.mapExprs f, body := f c.body }

/-- What a node packs, if it packs something. -/
def Tree.unpack (tree : Tree) (id : ExprId) : ExprId :=
  match tree.expr? id with
  | some ⟨.existential witness _, _⟩ => witness
  | _ => id

/-- The first nodes of a tree, with packed forms replaced by what they pack. -/
def Tree.unpacked (tree : Tree) (size : Nat) : Tree :=
  { tree with nodes := (tree.nodes.take size).map (Node.mapExprs tree.unpack) }

section

variable {f : ExprId → ExprId}

mutual

lemma Pattern.mapExprs_of_fixed : ∀ {pattern : Pattern}, (∀ id ∈ pattern.nodes, f id = id) →
    pattern.mapExprs f = pattern
  | .expr id, h => by simp [mapExprs, h id (by simp [nodes])]
  | .tuple elements, h => by rw [mapExprs, mapExprsAll_of_fixed h]
  | .name var, _ => rfl
  | .wildcard, _ => rfl

lemma Pattern.mapExprsAll_of_fixed : ∀ {elements}, (∀ id ∈ nodesAll elements, f id = id) →
    mapExprsAll f elements = elements
  | [], _ => rfl
  | element :: elements, h => by
    rw [nodesAll, forall_mem_append] at h
    rw [mapExprsAll, mapExprs_of_fixed h.1, mapExprsAll_of_fixed h.2]

end

lemma map_eq_of_forall₂ {α : Type} {related : α → α → Prop} {g before after}
    (h : Forall₂ related before after) (hg : ∀ a ∈ before, ∀ b, related a b → g b = a) : after.map g = before := by
  induction h with
  | nil => rfl
  | cons hab _ ih => grind

end

section

variable {f : ExprId → ExprId} {packs : ExprId → ExprId → Prop}

lemma ConditionItem.Patched.map_eq {before after} (h : Forall₂ (Patched packs) before after)
    (hback : (after.map node).map f = before.map node) : after.map (mapExpr f) = before := by
  induction h with
  | nil => rfl
  | @cons item _ _ _ hitem _ ih =>
    obtain ⟨hfirst, hrest⟩ := cons.inj hback
    rw [map_cons, ih hrest]
    cases hitem with
    | same =>
      cases item with
      | expr => exact congrArg (ConditionItem.expr · :: _) hfirst
      | decl => rfl
    | expr => exact congrArg (ConditionItem.expr · :: _) hfirst

lemma BlockMember.Patched.map_eq {before after} (h : Forall₂ (Patched packs) before after)
    (hback : (after.map node).map f = before.map node) : after.map (mapExpr f) = before := by
  induction h with
  | nil => rfl
  | @cons member _ _ _ hmember _ ih =>
    obtain ⟨hfirst, hrest⟩ := cons.inj hback
    rw [map_cons, ih hrest]
    cases hmember with
    | same =>
      cases member with
      | expr => exact congrArg (BlockMember.expr · :: _) hfirst
      | decl | stmt => rfl
    | expr => exact congrArg (BlockMember.expr · :: _) hfirst

lemma BindingDecl.mapExprs_eq {decl : BindingDecl} {initializer slot : Option ExprId}
    (hback : (decl.pattern.nodes ++ slot.toList).map f = decl.pattern.nodes ++ initializer.toList) :
    decl.pattern.mapExprs f = decl.pattern ∧ slot.map f = initializer := by
  rw [map_append] at hback
  obtain ⟨hpattern, hslot⟩ := append_inj hback (by simp)
  refine ⟨Pattern.mapExprs_of_fixed (map_inj_left.1 (hpattern.trans (map_id _).symm)), ?_⟩
  cases slot <;> cases initializer <;> simp_all

lemma StmtKind.Patched.mapExprs_eq {before after} (h : Patched packs before after)
    (hback : after.children.map f = before.children) : after.mapExprs f = before := by
  have hitems {items slots rest} (hs : Forall₂ (ConditionItem.Patched packs) items slots)
      (hback : (slots.map ConditionItem.node ++ rest).map f = items.map ConditionItem.node ++
      rest) : slots.map (ConditionItem.mapExpr f) = items :=
    ConditionItem.Patched.map_eq hs (append_inj' (map_append.symm.trans hback) (by simp)).1
  cases h with
  | same =>
    cases before with
    | block =>
      exact congrArg StmtKind.block (@BlockMember.Patched.map_eq f packs _ _ (forall₂_same.2 fun _ _ => .same _) hback)
    | ret value => cases value <;> simp_all [mapExprs, children]
    | cond | whileLoop => rw [mapExprs, hitems (forall₂_same.2 fun _ _ => .same _) hback]
    | doWhile => simp_all [mapExprs, children]
  | block hs => exact congrArg StmtKind.block (BlockMember.Patched.map_eq hs hback)
  | cond hs | whileLoop hs => rw [mapExprs, hitems hs hback]
  | ret | doWhile => simp_all [mapExprs, children]

lemma ExprKind.Patched.mapExprs_eq {before after} (h : Patched packs before after)
    (hback : after.children.map f = before.children) : after.mapExprs f = before := by
  have hcond {items slots success failure slot}
      (hs : Forall₂ (ConditionItem.Patched packs) items slots) (hback : (ExprKind.cond
      slots success slot).children.map f = (ExprKind.cond items success failure).children) :
      (ExprKind.cond slots success slot).mapExprs f = ExprKind.cond items success failure := by
    obtain ⟨hitems, hrest⟩ := append_inj' (map_append.symm.trans hback) rfl
    rw [mapExprs, ConditionItem.Patched.map_eq hs hitems]
    simp_all
  cases h with
  | same =>
    cases before with
    | cond => exact hcond (forall₂_same.2 fun _ _ => .same _) hback
    | _ => simp_all [mapExprs, children]
  | cond hs => exact hcond hs hback
  | call | assign => simp_all [mapExprs, children]

/-- A node comes back when every slot that was pointed elsewhere is pointed back. -/
lemma Node.Patched.mapExprs_eq {before after} (h : Patched packs before after)
    (hback : after.children.map f = before.children) : after.mapExprs f = before := by
  cases h with
  | decl decl =>
    obtain ⟨kind, span⟩ := decl
    cases kind with
    | binding decl =>
      obtain ⟨hpattern, hinitializer⟩ := BindingDecl.mapExprs_eq hback
      rw [mapExprs, DeclKind.mapExprs, hpattern, hinitializer]
    | _ => rfl
  | @binding decl span initializer slot hi =>
    obtain ⟨hpattern, hinitializer⟩ := @BindingDecl.mapExprs_eq f decl decl.initializer (some slot) hback
    rw [mapExprs, DeclKind.mapExprs, hpattern, hinitializer]
  | stmt hk => rw [mapExprs, hk.mapExprs_eq hback]
  | expr hk => rw [mapExprs, hk.mapExprs_eq hback]
  | case =>
    obtain ⟨hpattern, hbody⟩ := append_inj' (map_append.symm.trans hback) rfl
    rw [mapExprs, Pattern.mapExprs_of_fixed (map_inj_left.1 (hpattern.trans (map_id _).symm)), singleton_inj.1 hbody]

end

lemma Tree.unpack_of_packed {tree : Tree} {id witness traits span}
    (h : tree.expr? id = some ⟨.existential witness traits, span⟩) : tree.unpack id = witness := by
  simp [unpack, h]

namespace Program.Descends

variable {base program : Program} {root : Nat} (h : Descends base program)
  (hr : base.tree.Rooted root) {id parent slot witness : Nat} {traits : List DeclId} {span : Span}

include h hr

lemma unpack_of_lt (hid : id < base.tree.size) : program.tree.unpack id = id := by
  unfold unpack
  split
  next he => exact absurd (h.size_le_of_packed hr he).1 (not_le.2 hid)
  next => rfl

/-- Replacing packed values by what they pack gives the tree that checking began with. -/
lemma unpacked_eq : program.tree.unpacked base.tree.size = base.tree := by
  have hnodes : (program.tree.nodes.take base.tree.size).map (Node.mapExprs program.tree.unpack) = base.tree.nodes := by
    refine Array.ext_getElem? fun id => ?_
    rw [Array.getElem?_map, Array.take_eq_extract, Array.getElem?_extract, Nat.sub_zero,
      Nat.zero_add, Nat.min_eq_left (show base.tree.size ≤ program.tree.nodes.size from h.size_le)]
    split
    next hid =>
      obtain ⟨before, hb⟩ := exists_node? hid
      obtain ⟨after, ha, hp⟩ := h.exists_patched hb
      have hchildren (child : Nat) (hc : child ∈ before.children) : child < base.tree.size := by
        rw [← children_of_node? hb] at hc
        obtain ⟨hlt, hbelow, -⟩ := hr.child hc
        exact hbelow.trans hlt
      have hback : after.mapExprs program.tree.unpack = before := by
        refine hp.mapExprs_eq (map_eq_of_forall₂ hp.children fun child hc slot hslot => ?_)
        rcases hslot with rfl | rfl | ⟨_, _, he⟩
        · exact h.unpack_of_lt hr (hchildren slot hc)
        · exact h.unpack_of_lt hr (hchildren slot hc)
        · exact unpack_of_packed he
      exact (congrArg (Option.map _) ha).trans ((congrArg some hback).trans hb.symm)
    next hid => exact (Array.getElem?_eq_none (Nat.not_lt.1 hid)).symm
  rw [unpacked, hnodes, h.modules_eq]

/-- Where a child stood there is the child or what packs it, and below that the child. -/
lemma reaches_child {child} (hc : child ∈ base.tree.children parent) : program.tree.Reaches parent child := by
  obtain ⟨hlt, -⟩ := hr.child hc
  obtain ⟨_, hb⟩ := exists_node? hlt
  obtain ⟨after, ha, hp⟩ := h.exists_patched hb
  rw [children_of_node? hb] at hc
  obtain ⟨i, hi, rfl⟩ := getElem_of_mem hc
  have hlength := hp.children.length_eq
  have hslot : after.children.get ⟨i, hlength ▸ hi⟩ ∈ program.tree.children parent := by
    rw [children_of_node? ha]
    exact get_mem _ _
  rcases hp.children.get hi (hlength ▸ hi) with he | he | ⟨_, _, he⟩
  · exact .single (Eq.mp (congrArg (· ∈ _) he) hslot)
  · exact .single (Eq.mp (congrArg (· ∈ _) he) hslot)
  · refine (Relation.ReflTransGen.single hslot).tail ?_
    rw [children_of_node? (expr?_eq_some.1 he)]
    exact mem_singleton.2 rfl

lemma reaches (hid : id ≤ root) : program.tree.Reaches root id := by
  -- upwards: the parent of a node has a higher number
  induction hn : root - id using Nat.strong_induction_on generalizing id with
  | _ n ih =>
    rcases Nat.eq_or_lt_of_le hid with rfl | hlt
    · exact .refl
    · obtain ⟨parent, hc⟩ := hr.exists_parent hlt
      obtain ⟨hparent, hbelow, -⟩ := hr.child hc
      have hsize := hr.size_eq
      exact (ih (root - parent) (by omega) (by omega) rfl).trans (h.reaches_child hr hc)

variable (hp : program.tree.expr? slot = some ⟨.existential witness traits, span⟩)

include hp

/-- A packed value can only be where the value was. -/
lemma slot_of_packed {i : Nat} (hc : (program.tree.children parent)[i]? = some slot) :
    (base.tree.children parent)[i]? = some witness := by
  have hnew := (h.size_le_of_packed hr hp).1
  obtain ⟨after, ha⟩ : ∃ after, program.tree.node? parent = some after := by
    cases hn : program.tree.node? parent with
    | none => simp [children, hn] at hc
    | some after => exact ⟨after, rfl⟩
  rw [children_of_node? ha] at hc
  by_cases hold : parent < base.tree.size
  · obtain ⟨before, hb⟩ := exists_node? hold
    have hpatched := h.patched parent hold before after hb ha
    obtain ⟨hi, hslot⟩ := List.getElem?_eq_some_iff.1 hc
    have hlength := hpatched.children.length_eq
    have hi' : i < before.children.length := hlength ▸ hi
    have hbefore : before.children[i] < base.tree.size := by
      have hm : before.children[i] ∈ base.tree.children parent := by grind [children_of_node?]
      obtain ⟨hlt, hbelow, -⟩ := hr.child hm
      exact hbelow.trans hlt
    have hpacks : program.tree.Packs before.children[i] slot := by
      rw [← hslot]
      exact (hpatched.children.get hi' hi).elim .inl id
    rw [children_of_node? hb, List.getElem?_eq_some_iff]
    rcases hpacks with he | ⟨traits', _, he⟩
    · exact absurd hbefore (by rw [← he]; exact not_lt.2 hnew)
    · cases hp.symm.trans he
      exact ⟨hi', rfl⟩
  · obtain ⟨other, _, _, hw, he, -⟩ := h.added parent (not_lt.1 hold) (lt_size ha)
    cases ha.symm.trans (expr?_eq_some.1 he)
    have hother : slot = other := by grind [Node.children, ExprKind.children]
    have := lt_size (expr?_eq_some.1 hw)
    omega

/-- Match patterns keep the values that they were read with. -/
lemma unheld_of_inPattern (hw : base.tree.InPattern witness) (parent : Nat) : slot ∉ program.tree.children parent := by
  intro hc
  obtain ⟨case, _, hcase, hin⟩ := hw
  have hin := (mem_nodes_iff _).2 (.inr hin)
  obtain ⟨i, hi⟩ := mem_iff_getElem?.1 hc
  have hslot := h.slot_of_packed hr hp hi
  have hn := case?_eq_some.1 hcase
  have hnodup := hr.nodup_children case
  have hchild : witness ∈ base.tree.children case := by
    rw [children_of_node? hn]
    exact mem_append_left _ hin
  obtain rfl := hr.parent_unique (mem_of_getElem? hslot) hchild
  obtain ⟨_, ha, hpatched⟩ := h.exists_patched hn
  rw [children_of_node? hn] at hslot hnodup
  rw [children_of_node? ha] at hi
  cases hpatched with
  | @case pattern body =>
    simp only [Node.children] at hslot hi hnodup
    by_cases hlt : i < pattern.nodes.length
    · -- the pattern has the same nodes as before
      rw [getElem?_append_left hlt] at hslot hi
      have hnew := (h.size_le_of_packed hr hp).1
      obtain ⟨hparent, hbelow, -⟩ := hr.child hchild
      have := Option.some.inj (hslot.symm.trans hi)
      omega
    · -- the value of the pattern is not the body of the case
      grind

end Program.Descends

namespace Check

variable {files : List SourceFile} {name : String} {program : Program} {settings : Settings}
  {good : Bool} {s : State}

/-- Checking adds packed values in the scopes of what they pack and points slots at them. All else
stays, so the tree that was read can be had back. -/
theorem Checked.unpacked (h : Checked files name settings program good s) :
    (∀ id < program.tree.size, ∃ before after, program.tree.node? id = some before ∧
      s.program.tree.node? id = some after ∧ before.Patched s.program.tree.Packs after) ∧
    (∀ id < s.program.tree.size, program.tree.size ≤ id → ∃ witness traits expr scope,
      program.tree.expr? witness = some expr ∧
      s.program.tree.node? id = some (.expr ⟨.existential witness traits, expr.span⟩) ∧
      program.scopeOf witness = some scope ∧ s.program.scopeOf id = some scope) ∧
    (∀ id < program.tree.size, s.program.scopeOf id = program.scopeOf id) ∧
    s.program.tree.modules = program.tree.modules ∧ s.program.scopeDecls = program.scopeDecls ∧
    s.program.varBindings = program.varBindings ∧ s.program.tree.unpacked program.tree.size = program.tree := by
  obtain ⟨root, -, hs, -, -⟩ := h.exists_judged
  have hd := h.inv.descends
  refine ⟨fun id hid => ?_, fun id hid hge => ?_, hd.scopeOf_eq, hd.modules_eq, hd.scopeDecls_eq,
    hd.varBindings_eq, hd.unpacked_eq hs.rooted⟩
  · obtain ⟨before, hb⟩ := exists_node? hid
    obtain ⟨after, ha, hp⟩ := hd.exists_patched hb
    exact ⟨before, after, hb, ha, hp⟩
  · obtain ⟨witness, traits, expr, hw, he, hscope⟩ := hd.added id hge hid
    obtain ⟨scope, hplace⟩ := Option.isSome_iff_exists.1 (hs.scopeOf_isSome (hs.rooted.lt_root_of_expr ⟨expr, hw⟩))
    exact ⟨witness, traits, expr, scope, hw, expr?_eq_some.1 he, hplace, hscope.trans hplace⟩

theorem unpacked_packing : ∃ program s, Checked packing "main" {} program true s ∧
    (∀ id < program.tree.size, ∃ before after, program.tree.node? id = some before ∧
      s.program.tree.node? id = some after ∧ before.Patched s.program.tree.Packs after) ∧
    (∀ id < s.program.tree.size, program.tree.size ≤ id → ∃ witness traits expr scope,
      program.tree.expr? witness = some expr ∧
      s.program.tree.node? id = some (.expr ⟨.existential witness traits, expr.span⟩) ∧
      program.scopeOf witness = some scope ∧ s.program.scopeOf id = some scope) ∧
    (∀ id < program.tree.size, s.program.scopeOf id = program.scopeOf id) ∧
    s.program.tree.modules = program.tree.modules ∧ s.program.scopeDecls = program.scopeDecls ∧
    s.program.varBindings = program.varBindings ∧ s.program.tree.unpacked program.tree.size = program.tree := by
  obtain ⟨program, good, s, hchecked, htest⟩ := Checked.exists_of_any run_packing
  obtain ⟨rfl, -⟩ := Bool.and_eq_true_iff.1 htest
  exact ⟨program, s, hchecked, hchecked.unpacked⟩

/-! ### Where packed values are held -/

lemma Checked.exists_holder
    (h : Checked files name settings program good s) {id witness traits span}
    (hp : s.program.tree.expr? id = some ⟨.existential witness traits, span⟩)
    (hw : ¬program.tree.InPattern witness) : ∃ parent, id ∈ s.program.tree.children parent := by
  obtain ⟨_, _, hs, hjudged, -⟩ := h.exists_judged
  by_contra hnone
  have hunheld (parent : Nat) (node : Node) (hn : s.program.tree.node? parent = some node) : id ∉ node.children :=
    fun hc => hnone ⟨parent, by rwa [children_of_node? hn]⟩
  -- nothing was packed at first, so nothing was loose
  obtain ⟨_, _, _, he, -⟩ := (hjudged.step.loose ⟨⟨witness, traits, span, hp, hw⟩, hunheld⟩).packs
  exact (hs.rooted.below (expr?_eq_some.1 he)).1

/-- Once checking is over, a packed value is in one slot, where the value was, or in none if that is
in a match pattern. -/
theorem Checked.packed_stored (h : Checked files name settings program good s)
    {id witness : ExprId} {traits : List DeclId}
    {span : Span} (hp : s.program.tree.expr? id = some ⟨.existential witness traits, span⟩) :
    (program.tree.InPattern witness → ∀ parent, id ∉ s.program.tree.children parent) ∧
      (¬program.tree.InPattern witness →
        (∃ root ∈ s.program.tree.modules, s.program.tree.Reaches root id) ∧ ∃ parent i : Nat,
          (program.tree.children parent)[i]? = some witness ∧ ∀ other j : Nat,
          (s.program.tree.children other)[j]? = some id ↔ other = parent ∧ j = i) := by
  obtain ⟨root, -, hs, -, -⟩ := h.exists_judged
  have hr := hs.rooted
  have hd := h.inv.descends
  refine ⟨hd.unheld_of_inPattern hr hp, fun hw => ?_⟩
  obtain ⟨parent, hheld⟩ := h.exists_holder hp hw
  obtain ⟨i, hi⟩ := List.mem_iff_getElem?.1 hheld
  have hslot := hd.slot_of_packed hr hp hi
  have hparent := hr.child (List.mem_of_getElem? hslot)
  have hsize := hr.size_eq
  refine ⟨⟨root, by simp [hd.modules_eq, hr.modules_eq], (hd.reaches hr (by omega)).tail hheld⟩, parent, i, hslot, ?_⟩
  refine fun other j => ⟨fun hj => ?_, by rintro ⟨rfl, rfl⟩; exact hi⟩
  have hslot' := hd.slot_of_packed hr hp hj
  obtain rfl := hr.parent_unique (List.mem_of_getElem? hslot') (List.mem_of_getElem? hslot)
  have hindex := List.getElem?_eq_some_iff.1 hslot'
  exact ⟨rfl, (List.getElem?_inj hindex.1 (hr.nodup_children other)).1 (hslot'.trans hslot.symm)⟩

theorem packed_stored_packing : ∃ program s span, Checked packing "main" {} program true s ∧
    s.program.tree.expr? 18 = some ⟨.existential 13 [1], span⟩ ∧ ¬program.tree.InPattern 13 ∧
    (∃ root ∈ s.program.tree.modules, s.program.tree.Reaches root 18) ∧ ∃ parent i : Nat,
      (program.tree.children parent)[i]? = some 13 ∧
      ∀ other j : Nat, (s.program.tree.children other)[j]? = some 18 ↔ other = parent ∧ j = i := by
  obtain ⟨program, good, s, hchecked, htest⟩ := Checked.exists_of_any run_packing
  simp only [Bool.and_eq_true, beq_iff_eq] at htest
  obtain ⟨rfl, hpacked, -, -, hcases⟩ := htest
  have hpattern : ¬program.tree.InPattern 13 := by
    rintro ⟨case, node, hc, -⟩
    have hlt := lt_size (case?_eq_some.1 hc)
    simpa [hc] using all_eq_true.1 hcases case (mem_range.2 hlt)
  exact ⟨program, s, _, hchecked, hpacked, hpattern, (hchecked.packed_stored hpacked).2 hpattern⟩

/-- A program that packs the value of a match pattern. -/
def matching : List SourceFile :=
  [⟨"a", "trait T { fun f(); } type A: T { fun f() {} } fun g(x: any T) { match x { case A() { 1 } }; }"⟩]

lemma run_matching : (checked? matching "main" {}).any fun (_, good, s) =>
    good && (s.program.tree.expr? 15 == some ⟨.existential 8 [1], ⟨⟨79, "a"⟩, ⟨82, "a"⟩⟩⟩ &&
      s.program.tree.nodes.all fun node => !node.children.contains 15) := by
  decide +kernel

/-- The packed form of a pattern's value is in no slot. -/
theorem unstored_matching : ∃ program s span, Checked matching "main" {} program true s ∧
    s.program.tree.expr? 15 = some ⟨.existential 8 [1], span⟩ ∧
    ∀ parent : Nat, 15 ∉ s.program.tree.children parent := by
  obtain ⟨program, good, s, hchecked, htest⟩ := Checked.exists_of_any run_matching
  simp only [Bool.and_eq_true, beq_iff_eq] at htest
  obtain ⟨rfl, hpacked, hnone⟩ := htest
  refine ⟨program, s, _, hchecked, hpacked, fun parent hc => ?_⟩
  cases hn : s.program.tree.node? parent with
  | none => simp [children, hn] at hc
  | some node =>
    rw [children_of_node? hn] at hc
    have := Array.all_eq_true_iff_forall_mem.1 hnone node (Array.mem_of_getElem? hn)
    simp [hc] at this

end Check

end TraitLang
