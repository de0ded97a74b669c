import TraitLang.Proofs.Reading
import TraitLang.Proofs.Standing

/-! The scopes of a forest. The walk over it ends well exactly if its modules are where they should
be and its loops repeat blocks. Then every node below a module has a scope, which follows from the
scope of its parent. -/
namespace TraitLang

/-- The scope of a child of a node, which itself is in `outer`. A node that is a scope has its
children in it, but the failure branch of a conditional is beside it, and the condition of a
do/while loop is in the body. -/
def Node.scopeOfChild (id : NodeId) (outer : Option ScopeId) (child : NodeId) : Node → Option ScopeId
  | .stmt ⟨.cond _ _ failure, _⟩ => if failure = some child then outer else some id
  | .expr ⟨.cond _ _ failure, _⟩ => if failure = child then outer else some id
  | .stmt ⟨.doWhile body condition, _⟩ => if condition = child then some body else outer
  | node => if node.isScope then some id else outer

variable {id child : NodeId} {node : Node}

/-- A child of a declaration, an expression or a case is in its parent or beside it. -/
lemma Node.scopeOfChild_cases {outer} (h : ∀ stmt, node ≠ .stmt stmt) :
    node.scopeOfChild id outer child = some id ∨ node.scopeOfChild id outer child = outer := by
  cases node with
  | stmt stmt => exact absurd rfl (h stmt)
  | expr expr =>
    obtain ⟨kind, _⟩ := expr
    cases kind <;> simp only [scopeOfChild] <;> split <;> simp
  | decl | case =>
    simp only [scopeOfChild]
    split <;> simp

lemma Node.scope_around_eq {outer} (hnodup : node.children.Nodup) (hc : child ∈ node.children) :
    (node.around id outer child).scope = node.scopeOfChild id outer.scope child := by
  match node with
  | .decl ⟨.binding _, _⟩ => rfl
  | .stmt ⟨.cond _ _ failure, _⟩ | .expr ⟨.cond _ _ failure, _⟩ =>
    simp only [around, scopeOfChild]
    split <;> rfl
  | .stmt ⟨.doWhile body condition, _⟩ =>
    have hne : body ≠ condition := by simpa [children, StmtKind.children] using hnodup
    rcases List.mem_pair.1 hc with rfl | rfl
    · simp [around, scopeOfChild, hne.symm]
    · simp [around, scopeOfChild, hne]
  | .decl ⟨.module _ _, _⟩ | .decl ⟨.function _, _⟩ | .decl ⟨.param _ _, _⟩ | .decl ⟨.genericParam _, _⟩
  | .decl ⟨.var _, _⟩ | .decl ⟨.trait _, _⟩ | .decl ⟨.product _, _⟩ => rfl
  | .stmt ⟨.block _, _⟩ | .stmt ⟨.ret _, _⟩ | .stmt ⟨.whileLoop _ _, _⟩ => rfl
  | .expr ⟨.int _, _⟩ | .expr ⟨.str _, _⟩ | .expr ⟨.bool _, _⟩ | .expr ⟨.name _, _⟩
  | .expr ⟨.call _ _, _⟩ | .expr ⟨.binary _ _ _, _⟩ | .expr ⟨.unary _ _, _⟩ | .expr ⟨.assign _ _, _⟩
  | .expr ⟨.tuple _, _⟩ | .expr ⟨.member _ _, _⟩ | .expr ⟨.select _ _, _⟩ | .expr ⟨.existential _ _, _⟩ => rfl
  | .case _ => rfl

namespace Program

section

variable {tree : Tree} {placements : List Placement} (h : tree.EntersAll placements)
  (hs : tree.Spanned)

include h hs

lemma scopeOf_eq_of_stands {id around} (hid : tree.Stands id around) :
    (placements.foldl place (bare tree)).scopeOf id = around.scope := by
  obtain ⟨scope, binding⟩ := around
  cases scope with
  | some scope => exact (scopeOf_iff h hs).2 ⟨binding, hid⟩
  | none =>
    cases hscope : (placements.foldl place (bare tree)).scopeOf id with
    | none => rfl
    | some scope =>
      obtain ⟨_, hid'⟩ := (scopeOf_iff h hs).1 hscope
      cases h.placeable.stands_unique hs hid hid'

/-- The nodes with a scope are those below the modules. -/
lemma isSome_scopeOf_iff (id : Nat) : ((placements.foldl place (bare tree)).scopeOf id).isSome ↔
    tree.Attached id ∧ id ∉ tree.modules := by
  refine ⟨fun hsome => ?_, fun ⟨hattached, hnot⟩ => ?_⟩
  · obtain ⟨_, hscope⟩ := Option.isSome_iff_exists.1 hsome
    obtain ⟨_, hid⟩ := (scopeOf_iff h hs).1 hscope
    refine ⟨hid.attached, fun hm => ?_⟩
    cases h.placeable.stands_unique hs hid (.root hm)
  · obtain ⟨_, hid⟩ := hattached.stands
    rw [scopeOf_eq_of_stands h hs hid]
    exact h.placeable.scope_isSome hid hnot

lemma scopeOf_child {parent node} (hp : tree.Attached parent)
    (hn : tree.node? parent = some node) {child} (hc : child ∈ node.children) :
    (placements.foldl place (bare tree)).scopeOf child =
      node.scopeOfChild parent ((placements.foldl place (bare tree)).scopeOf parent) child := by
  obtain ⟨_, ho⟩ := hp.stands
  have hnodup := hs.nodup_children hp
  rw [Tree.children_of_node? hn] at hnodup
  rw [scopeOf_eq_of_stands h hs (.child ho hn hc), scopeOf_eq_of_stands h hs ho, Node.scope_around_eq hnodup hc]

end

/-- The lexical structure of a forest is found exactly if the forest is in order, and no binding is
ever left that was not entered. What has a scope is below the modules, and the scopes follow those
of the parents. -/
theorem ofTree_scopes {tree : Tree} (hs : tree.Spanned) :
    ((∃ program, ofTree tree = .ok program) ↔ (∀ root ∈ tree.modules, tree.isModule root) ∧
      (∀ id, tree.Nested id → tree.isModule id = false) ∧ ∀ id body condition span,
      tree.Attached id → tree.stmt? id = some ⟨.doWhile body condition, span⟩ →
        ∃ members place, tree.stmt? body = some ⟨.block members, place⟩) ∧
    (∀ halt, ofTree tree = .error halt → ∃ defect, halt = .defect defect ∧ ∀ expected found,
      defect ≠ .mismatchedBindingExit expected found) ∧ ∀ program, ofTree tree = .ok program →
      (∀ id, (program.scopeOf id).isSome ↔ tree.Attached id ∧ id ∉ tree.modules) ∧
      ∀ parent node, tree.Attached parent → tree.node? parent = some node → ∀ child ∈ node.children,
        program.scopeOf child = node.scopeOfChild parent (program.scopeOf parent) child := by
  rcases ofTree_cases hs with ⟨placements, hok, henters⟩ | ⟨defect, herror, hfault⟩
  · have hp := henters.placeable
    refine ⟨⟨fun _ => ⟨hp.roots, hp.nested, hp.loops⟩, fun _ => ⟨_, hok⟩⟩, fun halt herror => ?_,
      fun program hprogram => ?_⟩
    · cases hok.symm.trans herror
    · grind [isSome_scopeOf_iff, scopeOf_child]
  · refine ⟨⟨fun ⟨program, hok⟩ => ?_, fun ⟨hroots, hnested, hloops⟩ => ?_⟩, fun halt hhalt => ?_,
      fun program hok => ?_⟩
    · cases herror.symm.trans hok
    · exact absurd ⟨hroots, hnested, hloops⟩ hfault.not_placeable
    · cases herror.symm.trans hhalt
      refine ⟨defect, rfl, ?_⟩
      rintro expected found rfl
      cases hfault
    · cases herror.symm.trans hok

def branching : List SourceFile :=
  [⟨"a", "fun f() { do { let x = if true { 1 } else { 2 }; } while x == 1; if f() {} else if true {} else {} }"⟩]

theorem ofTree_scopes_branching : ∃ tree, Tree.ofFiles branching "main" = .ok tree ∧ tree.Spanned ∧
    ((∃ program, ofTree tree = .ok program) ↔ (∀ root ∈ tree.modules, tree.isModule root) ∧
      (∀ id, tree.Nested id → tree.isModule id = false) ∧ ∀ id body condition span,
      tree.Attached id → tree.stmt? id = some ⟨.doWhile body condition, span⟩ →
        ∃ members place, tree.stmt? body = some ⟨.block members, place⟩) ∧
    (∀ halt, ofTree tree = .error halt → ∃ defect, halt = .defect defect ∧ ∀ expected found,
      defect ≠ .mismatchedBindingExit expected found) ∧ ∀ program, ofTree tree = .ok program →
      (∀ id, (program.scopeOf id).isSome ↔ tree.Attached id ∧ id ∉ tree.modules) ∧
      ∀ parent node, tree.Attached parent → tree.node? parent = some node → ∀ child ∈ node.children,
        program.scopeOf child = node.scopeOfChild parent (program.scopeOf parent) child := by
  have hread : (Tree.ofFiles branching "main").isOk := by decide +kernel
  obtain ⟨tree, h⟩ := exists_eq_ok hread
  obtain ⟨root, hr⟩ := Tree.rooted_ofFiles h
  exact ⟨tree, h, hr.spanned, ofTree_scopes hr.spanned⟩

end Program

end TraitLang
