import TraitLang.Proofs.Standing

/-! The scopes around a node. Almost always a scope encloses what stands in it; only the test of a
do/while loop stands in the block before it. Going from a scope to the one around it therefore ends,
and the chain of scopes is never cut short. -/
namespace TraitLang

open TraitLang.Tree DeclKind List Pattern Nat Tree.Stands Option

namespace Tree

/-- What only occurs inside values: no statement or function stands below it. -/
def Inner (tree : Tree) (id : Nat) : Prop :=
  tree.HasExpr id ∨ tree.HasCase id ∨ tree.Declares DeclKind.isBinding id ∨ tree.Declares isVar id

namespace Rooted

variable {tree : Tree} {root : Nat} (h : tree.Rooted root) {outer inner id scope : Nat}
  {around : Surroundings}

include h

/-- What children take over from their parents holds of everything below. -/
lemma descend {P : Nat → Prop}
    (hstep : ∀ parent child, P parent → child ∈ tree.children parent → P child) (ho : P outer)
    (he : tree.Encloses outer inner) (hlt : outer < tree.size) : P inner := by
  have hsize := h.size_eq
  induction hk : outer - inner using Nat.strong_induction_on generalizing inner with
  | _ k ih =>
    have hroot : inner < root := by have := he.2; omega
    obtain ⟨parent, hc⟩ := h.exists_parent hroot
    have hgt := (h.child hc).2.1
    rcases h.encloses_parent hc he with rfl | he'
    · exact hstep _ _ ho hc
    · exact hstep _ _ (ih (outer - parent) (by have := he.2; have := he'.2; omega) he' rfl) hc

lemma inner_child {parent child} (hp : tree.Inner parent) (hc : child ∈ tree.children parent) :
    tree.Inner child := by
  obtain ⟨node, hn⟩ := exists_node? (h.child hc).1
  obtain ⟨hf, -⟩ := h.below hn
  rw [children_of_node? hn] at hc
  rcases hp with ⟨_, he⟩ | ⟨_, he⟩ | ⟨⟨kind, span⟩, he, hk⟩ | ⟨⟨kind, _⟩, he, hk⟩
  · rw [expr?_eq_some, hn] at he
    cases he
    rcases ExprKind.Fits.child hf hc with he | hc | ⟨hd, -⟩
    · exact .inl he
    · exact .inr (.inl hc)
    · exact .inr (.inr (.inl hd))
  · rw [case?_eq_some, hn] at he
    cases he
    rcases mem_append.1 hc with hc | hc
    · rcases hf.1.node hc with hv | he
      · exact .inr (.inr (.inr hv))
      · exact .inl he
    · obtain rfl := mem_singleton.1 hc
      exact .inl hf.2
  · rw [decl?_eq_some, hn] at he
    cases he
    cases kind with
    | binding decl =>
      rcases BindingDecl.child hf hc with hv | he
      · exact .inr (.inr (.inr hv))
      · exact .inl he
    | _ => cases hk
  · rw [decl?_eq_some, hn] at he
    cases he
    cases kind with
    | var name => cases hc
    | _ => cases hk

lemma inner_of_encloses (ho : tree.Inner outer) (he : tree.Encloses outer inner)
    (hlt : outer < tree.size) : tree.Inner inner :=
  h.descend (fun _ _ => h.inner_child) ho he hlt

omit h in
lemma not_inner_of_stmt (hs : tree.HasStmt id) : ¬tree.Inner id := by
  obtain ⟨_, hs⟩ := hs
  rw [stmt?_eq_some] at hs
  rintro (⟨_, he⟩ | ⟨_, he⟩ | ⟨_, he, -⟩ | ⟨_, he, -⟩)
  · rw [expr?_eq_some, hs] at he; cases he
  · rw [case?_eq_some, hs] at he; cases he
  · rw [decl?_eq_some, hs] at he; cases he
  · rw [decl?_eq_some, hs] at he; cases he

/-- A scope encloses what stands in it, or what stands in it is in the test of the loop that repeats
it. -/
lemma scope_cases (hs : tree.Stands id around) (hscope : around.scope = some scope) :
    scope < tree.size ∧ (tree.Encloses scope id ∨
      ∃ loop condition span, tree.node? loop = some (.stmt ⟨.doWhile scope condition, span⟩) ∧
        tree.first condition ≤ id ∧ id ≤ condition) := by
  induction hs with
  | root hm => cases hscope
  | @child parent id outer node hp hn hc ih =>
    have hchild : id ∈ tree.children parent := by rwa [children_of_node? hn]
    obtain ⟨hlt, hgt, hle, hfirst⟩ := h.child hchild
    rcases node.scope_around parent outer id with he | ⟨-, he⟩ | ⟨_, condition, span, rfl, hne, he⟩
    · rw [he] at hscope
      obtain ⟨hscope, he | ⟨loop, condition, span, hl, h1, h2⟩⟩ := ih hscope
      · exact ⟨hscope, .inl (h.encloses_trans hscope he (h.encloses_child hchild))⟩
      · refine ⟨hscope, .inr ⟨loop, condition, span, hl, ?_, by omega⟩⟩
        have hcondition : condition ∈ tree.children loop := by
          simp [children_of_node? hl, Node.children, StmtKind.children]
        have hmono := h.first_mono ((h.child hcondition).2.1.trans (lt_size hl)) h1 h2
        omega
    · rw [he] at hscope
      cases hscope
      exact ⟨hlt, .inl (h.encloses_child hchild)⟩
    · rw [he] at hscope
      cases hscope
      have hbody : scope ∈ tree.children parent := by
        simp [children_of_node? hn, Node.children, StmtKind.children]
      refine ⟨(h.child hbody).2.1.trans hlt, .inr ⟨parent, condition, span, hn, ?_⟩⟩
      rcases mem_pair.1 hc with rfl | rfl
      · exact absurd rfl hne
      · exact ⟨hle, le_rfl⟩

lemma encloses_of_stmt (hs : tree.Stands id around) (hscope : around.scope = some scope)
    (hid : tree.HasStmt id) : tree.Encloses scope id := by
  obtain ⟨-, he | ⟨_, condition, _, hl, h1, h2⟩⟩ := h.scope_cases hs hscope
  · exact he
  · -- the test would have to be a statement or to enclose one
    exfalso
    have hcondition : tree.Inner condition := .inl (h.below hl).1.2
    refine not_inner_of_stmt hid ?_
    rcases eq_or_lt_of_le h2 with rfl | hlt
    · exact hcondition
    · exact h.inner_of_encloses hcondition ⟨h1, hlt⟩ (by
        obtain ⟨_, he⟩ := (h.below hl).1.2
        exact lt_size (expr?_eq_some.1 he))

end Rooted

end Tree

namespace Program

namespace Surveyed

variable {program : Program} {root : Nat} (h : program.Surveyed root)
  {id scope loop body condition outer : Nat} {span : Span} {other : Program}

include h

/-- The scope of a node is the one that it stands in. -/
lemma scopeOf_eq {around} (hs : program.tree.Stands id around) : program.scopeOf id = around.scope := by
  cases hscope : program.scopeOf id with
  | some scope =>
    obtain ⟨_, hs'⟩ := h.stands_of_scopeOf hscope
    rw [h.rooted.stands_unique hs hs']
  | none =>
    cases hs with
    | root => rfl
    | child _ hn hc =>
      have hsome := h.scopeOf_isSome (h.rooted.lt_root_of_child (by rwa [children_of_node? hn]))
      simp [hscope] at hsome

lemma scopeOf_root : program.scopeOf root = none :=
  h.scopeOf_eq (.root (by simp [h.rooted.modules_eq]))

lemma le_root_of_scopeOf (hs : program.scopeOf id = some scope) : scope ≤ root := by
  obtain ⟨_, hstands⟩ := h.stands_of_scopeOf hs
  have := (h.rooted.scope_cases hstands rfl).1
  have := h.rooted.size_eq
  omega

/-- The scope of the block that a do/while loop repeats is that of the loop. -/
lemma scopeOf_loop (hl : program.tree.node? loop = some (.stmt ⟨.doWhile body condition, span⟩)) :
    program.scopeOf body = program.scopeOf loop := by
  obtain ⟨_, hs⟩ := h.rooted.stands_exists (lt_size hl)
  have hbody := child hs hl (by simp [Node.children, StmtKind.children] : body ∈ _)
  rw [h.scopeOf_eq hs, h.scopeOf_eq hbody, Node.around, if_pos rfl]

/-- A scope is the scope of a statement or function body further out, so chains of scopes that have
enough room do not depend on it, nor on what else is in the table. -/
lemma chainWithin_eq (ho : ∀ id ≤ root, other.scopeOf id = program.scopeOf id)
    (hscope : scope ≤ root) : ∀ {length length'}, root - scope < length → root - scope < length' →
    other.chainWithin length scope = program.chainWithin length' scope := by
  induction hk : root - scope using Nat.strong_induction_on generalizing scope with
  | _ k ih =>
    intro length length' hl hl'
    obtain ⟨length, rfl⟩ : ∃ m, length = m + 1 := ⟨length - 1, by omega⟩
    obtain ⟨length', rfl⟩ : ∃ m, length' = m + 1 := ⟨length' - 1, by omega⟩
    simp only [chainWithin, parent, ho scope hscope]
    cases hs : program.scopeOf scope with
    | none => rfl
    | some outer =>
      have hle := h.le_root_of_scopeOf hs
      obtain ⟨_, hstands⟩ := h.stands_of_scopeOf hs
      obtain ⟨-, he | ⟨loop, condition, _, hloop, h1, h2⟩⟩ := h.rooted.scope_cases hstands rfl
      · have := he.2
        exact congrArg (scope :: ·) (ih (root - outer) (by omega) hle rfl (by omega) (by omega))
      · -- two steps lead out of the loop
        have hcondition : condition ∈ program.tree.children loop := by
          simp [children_of_node? hloop, Node.children, StmtKind.children]
        have hgt := (h.rooted.child hcondition).2.1
        have hlt := lt_size hloop
        have hsize := h.rooted.size_eq
        obtain ⟨length, rfl⟩ : ∃ m, length = m + 1 := ⟨length - 1, by omega⟩
        obtain ⟨length', rfl⟩ : ∃ m, length' = m + 1 := ⟨length' - 1, by omega⟩
        simp only [chainWithin, parent, ho outer hle, h.scopeOf_loop hloop]
        cases hs' : program.scopeOf loop with
        | none => rfl
        | some beyond =>
          have hle' := h.le_root_of_scopeOf hs'
          obtain ⟨_, hstands'⟩ := h.stands_of_scopeOf hs'
          have := (h.rooted.encloses_of_stmt hstands' rfl ⟨_, stmt?_eq_some.2 hloop⟩).2
          exact congrArg (scope :: outer :: ·)
            (ih (root - beyond) (by omega) hle' rfl (by omega) (by omega))

lemma le_size_nodeScopes : root ≤ program.nodeScopes.size :=
  NodeMap.le_size fun _ hid => h.scopeOf_isSome hid

lemma chain_eq (hscope : scope ≤ root) : program.chain scope = scope ::
      match program.scopeOf scope with
      | none => []
      | some outer => program.chain outer := by
  have hsize := h.le_size_nodeScopes
  have hunfold : program.chain scope = program.chainWithin (program.nodeScopes.size + 1 + 1) scope :=
    h.chainWithin_eq (fun _ _ => rfl) hscope (by omega) (by omega)
  rw [hunfold, chainWithin]
  rfl

/-- Chains do not change when further nodes are placed. -/
lemma chain_eq_of_agree (ho : ∀ id ≤ root, other.scopeOf id = program.scopeOf id)
    (hscope : scope ≤ root) : other.chain scope = program.chain scope := by
  have hsize := h.le_size_nodeScopes
  have hsize' : root ≤ other.nodeScopes.size := NodeMap.le_size fun id hid => by
    have := ho id hid.le
    rw [scopeOf] at this
    rw [this]
    exact h.scopeOf_isSome hid
  exact h.chainWithin_eq ho hscope (by omega) (by omega)

/-- Going out from a scope to one in its chain. -/
lemma chain_induct {motive : Nat → Prop} (here : motive outer)
    (out : ∀ scope next, program.scopeOf scope = some next → motive next → motive scope)
    (hscope : scope ≤ root) (hm : outer ∈ program.chain scope) : motive scope := by
  induction hk : (program.chain scope).length using Nat.strong_induction_on generalizing scope with
  | _ k ih =>
    rw [h.chain_eq hscope] at hm hk
    rcases mem_cons.1 hm with rfl | hm
    · exact here
    · cases hs : program.scopeOf scope with
      | none => simp [hs] at hm
      | some next =>
        simp only [hs, length_cons] at hm hk
        exact out scope next hs (ih _ (by omega) (h.le_root_of_scopeOf hs) hm rfl)

lemma le_root_of_mem_chain (hscope : scope ≤ root) (hm : outer ∈ program.chain scope) : outer ≤ root := by
  have hreach : scope = outer ∨ ∃ id, program.scopeOf id = some outer := by
    refine h.chain_induct (motive := fun scope => scope = outer ∨ ∃ id,
      program.scopeOf id = some outer) (.inl rfl) (fun scope next hs ih => .inr ?_) hscope hm
    rcases ih with rfl | hid
    · exact ⟨scope, hs⟩
    · exact hid
  rcases hreach with rfl | ⟨_, hid⟩
  · exact hscope
  · exact h.le_root_of_scopeOf hid

lemma mem_chain_self (hscope : scope ≤ root) : scope ∈ program.chain scope := by
  simp [h.chain_eq hscope]

/-- A scope lies in another one if its chain ends with that of the other one. -/
lemma mem_chain_iff (hscope : scope ≤ root) :
    outer ∈ program.chain scope ↔ outer ≤ root ∧ program.chain outer <:+ program.chain scope := by
  constructor
  · intro hm
    refine ⟨h.le_root_of_mem_chain hscope hm, h.chain_induct (motive := fun scope => scope ≤ root →
      program.chain outer <:+ program.chain scope) (fun _ => suffix_rfl) ?_ hscope hm hscope⟩
    intro scope next hs ih hscope
    rw [h.chain_eq hscope, hs]
    exact (ih (h.le_root_of_scopeOf hs)).trans (suffix_cons _ _)
  · rintro ⟨houter, hsuffix⟩
    exact hsuffix.subset (h.mem_chain_self houter)

/-- What encloses the block of a loop encloses the test of the loop. -/
lemma encloses_test (hl : program.tree.node? loop = some (.stmt ⟨.doWhile body condition, span⟩))
    (h1 : program.tree.first condition ≤ id) (h2 : id ≤ condition) (ho : outer < program.tree.size)
    (he : program.tree.Encloses outer body) : program.tree.Encloses outer id := by
  have hchildren : program.tree.children loop = [body, condition] := children_of_node? hl
  have hloop : program.tree.Encloses loop id := by
    obtain ⟨-, hlt, -, hfirst⟩ := h.rooted.child (show condition ∈ program.tree.children loop by simp [hchildren])
    exact ⟨hfirst.trans h1, by omega⟩
  rcases h.rooted.encloses_parent (show body ∈ program.tree.children loop by simp [hchildren]) he with rfl | he
  · exact hloop
  · exact h.rooted.encloses_trans ho he hloop

/-- A scope in the chain around a node encloses the node, unless it is a block. -/
lemma encloses_of_mem_chain (hs : program.scopeOf id = some scope) (hm : outer ∈ program.chain scope) :
    program.tree.Encloses outer id ∨ program.tree.HasBlock outer := by
  have hle := h.le_root_of_scopeOf hs
  have hlt : outer < program.tree.size := by
    have := h.le_root_of_mem_chain hle hm
    have := h.rooted.size_eq
    omega
  refine h.chain_induct (motive := fun scope => ∀ id, program.scopeOf id = some scope →
    program.tree.Encloses outer id ∨ program.tree.HasBlock outer) ?_ ?_ hle hm id hs
  · intro id hs
    obtain ⟨binding, hstands⟩ := h.stands_of_scopeOf hs
    obtain ⟨-, he | ⟨loop, condition, span, hloop, -, -⟩⟩ := h.rooted.scope_cases hstands rfl
    · exact .inl he
    · exact .inr (h.rooted.below hloop).1.1
  · intro scope next hnext ih id hs
    rcases ih scope hnext with he | hb
    · left
      obtain ⟨_, hstands⟩ := h.stands_of_scopeOf hs
      obtain ⟨-, he' | ⟨_, _, _, hloop, h1, h2⟩⟩ := h.rooted.scope_cases hstands rfl
      · exact h.rooted.encloses_trans hlt he he'
      · exact h.encloses_test hloop h1 h2 hlt he
    · exact .inr hb

end Surveyed

end Program

/-! ### The function around a node -/

namespace Tree

variable {tree : Tree} {id : Nat}

lemma isFunction_iff : tree.isFunction id ↔ tree.Declares DeclKind.isFunction id := by
  unfold isFunction Declares
  cases tree.decl? id <;> simp

/-- The innermost function that encloses a node. -/
structure InFunction (tree : Tree) (function id : Nat) : Prop where
  declares : tree.Declares DeclKind.isFunction function
  encloses : tree.Encloses function id
  least : ∀ other, tree.Declares DeclKind.isFunction other → tree.Encloses other id →
  function ≤ other

lemma not_inner_of_declares {test} (h : tree.Declares test id) (ht : ∀ kind, test kind = true →
    kind.isBinding = false ∧ kind.isVar = false) : ¬tree.Inner id := by
  obtain ⟨_, hd, hk⟩ := h
  obtain ⟨hexpr, -, hcase⟩ := decl_only hd
  rintro (he | hc | hb | hv)
  · exact hexpr he
  · exact hcase hc
  · simp [declares_iff hd, (ht _ hk).1] at hb
  · simp [declares_iff hd, (ht _ hk).2] at hv

lemma not_inner_of_function (hf : tree.Declares DeclKind.isFunction id) : ¬tree.Inner id :=
  not_inner_of_declares hf fun kind hk => by cases kind <;> first | exact ⟨rfl, rfl⟩ | cases hk

namespace Rooted

variable {tree : Tree} {root : Nat} (h : tree.Rooted root)

include h

/-- A function is a scope, so no scope of what is in it lies outside of it. -/
lemma scope_le_function {function id scope : Nat} {around}
    (hf : tree.Declares DeclKind.isFunction function) (he : tree.Encloses function id)
    (hs : tree.Stands id around) (hscope : around.scope = some scope) : scope ≤ function := by
  induction hs with
  | root hm => cases hscope
  | @child parent id outer node hp hn hc ih =>
    have hchild : id ∈ tree.children parent := by rwa [children_of_node? hn]
    rcases h.encloses_parent hchild he with rfl | he
    · obtain ⟨⟨kind, span⟩, hd, hk⟩ := hf
      rw [decl?_eq_some, hn] at hd
      cases hd
      cases kind with
      | function decl => cases hscope; exact le_rfl
      | _ => cases hk
    · rcases node.scope_around parent outer id with ho | ⟨-, ho⟩ | ⟨_, _, _, rfl, hne, ho⟩
      · rw [ho] at hscope
        exact ih he hscope
      · rw [ho] at hscope
        cases hscope
        exact he.2.le
      · rw [ho] at hscope
        cases hscope
        have hbody : scope ∈ tree.children parent := by
          simp [children_of_node? hn, Node.children, StmtKind.children]
        have := (h.child hbody).2.1
        have := he.2
        omega

end Rooted

end Tree

namespace Program.Surveyed

variable {program : Program} {root : Nat} (h : program.Surveyed root) {function id scope : Nat}

include h

variable (hf : program.tree.InFunction function id)

include hf

/-- The scope of a node is the function around it or lies in that function too. -/
lemma inFunction_scope (hs : program.scopeOf id = some scope) : scope = function ∨
    ¬program.tree.Declares isFunction scope ∧ program.tree.InFunction function scope := by
  obtain ⟨_, hstands⟩ := h.stands_of_scopeOf hs
  have hle := h.rooted.scope_le_function hf.declares hf.encloses hstands rfl
  have hlt := hf.declares.lt_size
  rcases eq_or_lt_of_le hle with rfl | hlt'
  · exact .inl rfl
  right
  obtain ⟨hsize, he | ⟨loop, condition, _, hloop, h1, h2⟩⟩ := h.rooted.scope_cases hstands rfl
  · refine ⟨fun hd => absurd (hf.least scope hd he) (by omega), hf.declares, ⟨?_, hlt'⟩, ?_⟩
    · have := hf.encloses.1
      have := he.2
      omega
    · intro other hd ho
      exact hf.least other hd (h.rooted.encloses_trans (hd.lt_size) ho he)
  · obtain ⟨⟨_, _, hbody⟩, hexpr⟩ := (h.rooted.below hloop).1
    have hchildren : program.tree.children loop = [scope, condition] := children_of_node? hloop
    refine ⟨?_, hf.declares, ⟨?_, hlt'⟩, ?_⟩
    · rintro ⟨decl, hd, -⟩
      rw [stmt?_eq_some] at hbody
      rw [decl?_eq_some, hbody] at hd
      cases hd
    · -- the function is not in the test, so the loop is in the function
      have hc := h.rooted.child (show condition ∈ program.tree.children loop by simp [hchildren])
      have hb := h.rooted.child (show scope ∈ program.tree.children loop by simp [hchildren])
      have hout : condition < function := by
        by_contra hge
        refine not_inner_of_function hf.declares ?_
        have := hf.encloses.2
        rcases eq_or_lt_of_le (not_lt.1 hge) with rfl | hin
        · exact .inl hexpr
        · exact h.rooted.inner_of_encloses (.inl hexpr) ⟨by omega, hin⟩ (hc.2.1.trans hc.1)
      have hne : function ≠ loop := by
        rintro rfl
        obtain ⟨_, hd, -⟩ := hf.declares
        rw [decl?_eq_some, hloop] at hd
        cases hd
      have hfc : program.tree.Encloses function condition := ⟨by have := hf.encloses.1; omega, hout⟩
      have hfl : program.tree.Encloses function loop := by
        rcases h.rooted.encloses_parent (show condition ∈ program.tree.children loop by simp [hchildren]) hfc with
          rfl | he
        · exact absurd rfl hne
        · exact he
      have := h.rooted.first_mono hlt hfl.1 hfl.2.le
      omega
    · intro other hd ho
      exact hf.least other hd (h.encloses_test hloop h1 h2 (hd.lt_size) ho)

/-- The search along the chain of scopes finds the function around a node. -/
lemma enclosingFunction?_eq (hs : program.scopeOf id = some scope) :
    program.enclosingFunction? scope = some function := by
  unfold enclosingFunction?
  induction hk : (program.chain scope).length using Nat.strong_induction_on generalizing id scope with
  | _ k ih =>
    have hle := h.le_root_of_scopeOf hs
    rw [h.chain_eq hle] at hk ⊢
    rcases h.inFunction_scope hf hs with rfl | ⟨hnot, hin⟩
    · rw [find?_cons_of_pos (isFunction_iff.2 hf.declares)]
    · rw [find?_cons_of_neg (by rwa [isFunction_iff])]
      have hroot : scope < root := by
        have := hin.encloses.2
        have := hin.declares.lt_size
        have := h.rooted.size_eq
        omega
      obtain ⟨_, ho⟩ := isSome_iff_exists.1 (h.scopeOf_isSome hroot)
      simp only [ho, length_cons] at hk ⊢
      exact ih _ (by omega) hin ho rfl

lemma mem_chain_of_inFunction (hs : program.scopeOf id = some scope) : function ∈ program.chain scope :=
  mem_of_find?_eq_some (h.enclosingFunction?_eq hf hs)

end Program.Surveyed

/-! ### What names find -/

namespace Tree.Rooted

variable {tree : Tree} {root : Nat} (h : tree.Rooted root)

include h

/-- A variable of a match case that comes before a node in the case comes before all that is in the
node. -/
lemma var_lt_of_encloses {case id inner var : Nat} {node}
    (hc : tree.case? case = some node) (hv : var ∈ node.pattern.vars) (hid : tree.Encloses case id)
    (hlt : var < id) (hin : tree.Encloses id inner) : var < inner := by
  by_contra hge
  have hchild : var ∈ tree.children case := by
    rw [children_of_node? (case?_eq_some.1 hc)]
    exact mem_append_left _ ((mem_nodes_iff _).2 (.inl hv))
  have he : tree.Encloses id var := ⟨by have := hin.1; omega, hlt⟩
  have := hid.2
  rcases h.encloses_parent hchild he with rfl | he
  · omega
  · have := he.2
    omega

/-- A binding stands directly in the scope that its parent opens. -/
lemma scope_of_binding {id parent around} (hb : tree.Declares DeclKind.isBinding id)
    (hc : id ∈ tree.children parent) (hs : tree.Stands id around) :
    around.scope = some parent ∧ ¬tree.HasCase parent := by
  obtain ⟨⟨kind, _⟩, hd, hk⟩ := hb
  obtain ⟨hexpr, hstmt, -⟩ := decl_only hd
  obtain ⟨node, hn⟩ := exists_node? (h.child hc).1
  obtain ⟨_, ho⟩ := h.stands_exists (h.child hc).1
  have hf := (h.below hn).1
  rw [children_of_node? hn] at hc
  obtain rfl := h.stands_unique hs (.child ho hn hc)
  have notCase (hne : ∀ c, node ≠ .case c) : ¬tree.HasCase parent := by
    rintro ⟨c, hp⟩
    rw [case?_eq_some, hn] at hp
    exact hne c (by simpa using hp)
  cases kind with
  | binding decl =>
    cases hf.seats hc hd with
    | item | requirement | member => exact ⟨rfl, notCase (by simp)⟩
    | generic _ hk | param hk | bound _ hk | matched _ hk => cases hk
    | @inStmt stmt =>
      match stmt with
      | ⟨.block _, _⟩ | ⟨.whileLoop _ _, _⟩ => exact ⟨rfl, notCase (by simp)⟩
      | ⟨.cond condition success failure, _⟩ =>
        refine ⟨?_, notCase (by simp)⟩
        simp only [Node.around]
        rw [if_neg]
        rintro rfl
        exact hstmt (hf.2.2 id rfl).hasStmt
      | ⟨.ret value, _⟩ => exact absurd (hf id (by simpa [Node.children, StmtKind.children] using hc)) hexpr
      | ⟨.doWhile body condition, _⟩ =>
        rcases mem_pair.1 hc with rfl | rfl
        · exact absurd hf.1.hasStmt hstmt
        · exact absurd hf.2 hexpr
    | inExpr =>
      refine ⟨?_, notCase (by simp)⟩
      simp only [Node.around]
      rw [if_neg]
      rintro rfl
      exact hexpr hf.2.2
  | _ => cases hk

end Tree.Rooted

namespace Program

lemma mem_findWhere {program : Program} {name scope}
    {visible id} (hid : id ∈ program.findWhere name scope visible) : ∃ outer ∈ program.chain scope,
    id ∈ program.decls outer ∧ program.tree.declName? id = some name := by
  unfold findWhere at hid
  dsimp only at hid
  cases hf : ((program.chain scope).map fun scope => (program.decls scope).filter fun decl =>
      program.tree.declName? decl = some name && visible scope decl).find? fun decls => !decls.isEmpty with
  | none => simp [hf] at hid
  | some found => grind

namespace Surveyed

variable {program : Program} {root : Nat} (h : program.Surveyed root)
  {id scope var outer case binding : Nat} {node : MatchCase}

include h

/-- A variable of a match case is found only from inside the case. -/
lemma encloses_of_case_var (hs : program.scopeOf id = some scope) (hm : outer ∈ program.chain scope)
    (hd : var ∈ program.decls outer) (hc : program.tree.case? case = some node)
    (hv : var ∈ node.pattern.vars) : program.tree.Encloses case id := by
  have hn := case?_eq_some.1 hc
  have hchild : var ∈ (Node.case node).children :=
    mem_append_left _ ((mem_nodes_iff _).2 (.inl hv))
  obtain ⟨around, ho⟩ := h.rooted.stands_exists (lt_size hn)
  have hvar : program.tree.Stands var ⟨some case, around.binding⟩ := child ho hn hchild
  have hscope := (h.mem_decls hd).1
  rw [h.scopeOf_eq hvar] at hscope
  cases hscope
  rcases h.encloses_of_mem_chain hs hm with he | ⟨_, _, hb⟩
  · exact he
  · rw [stmt?_eq_some, hn] at hb
    cases hb

/-- If a variable of a binding is found from a node, then what is known at the node about the match
cases around it is known about those around the binding. -/
lemma case_of_binding_var {decl span} (hs : program.scopeOf id = some scope)
    (hm : outer ∈ program.chain scope) (hd : var ∈ program.decls outer)
    (hb : program.tree.decl? binding = some ⟨.binding decl, span⟩) (hv : var ∈ decl.pattern.vars)
    (hc : program.tree.case? case = some node) (he : program.tree.Encloses case binding) :
    program.tree.Encloses case id ∧ ∀ (v : Nat), v ∈ node.pattern.vars → (v < binding ↔ v < id) := by
  have hn := decl?_eq_some.1 hb
  have hcase := lt_size (case?_eq_some.1 hc)
  have hdeclares : program.tree.Declares isBinding binding := ⟨_, hb, rfl⟩
  -- the scope of the variable is the parent of the binding
  obtain ⟨_, ho⟩ := h.rooted.stands_exists (lt_size hn)
  obtain ⟨parent, hparent⟩ := h.rooted.exists_parent (show binding < root by
    have := he.2
    have := h.rooted.size_eq
    omega)
  obtain ⟨hscope, hnot⟩ := h.rooted.scope_of_binding hdeclares hparent ho
  have hchild : var ∈ (Node.decl ⟨.binding decl, span⟩).children :=
    mem_append_left _ ((mem_nodes_iff _).2 (.inl hv))
  have hvar : program.tree.Stands var ⟨some parent, some binding⟩ := hscope ▸ child ho hn hchild
  have hout := (h.mem_decls hd).1
  rw [h.scopeOf_eq hvar] at hout
  cases hout
  have hin : program.tree.Encloses case outer := by
    rcases h.rooted.encloses_parent hparent he with rfl | hin
    · exact absurd ⟨_, hc⟩ hnot
    · exact hin
  rcases h.encloses_of_mem_chain hs hm with hid | hblock
  · refine ⟨h.rooted.encloses_trans hcase hin hid, ?_⟩
    intro v hv
    have hbinding := h.rooted.encloses_child hparent
    exact ⟨fun hlt => h.rooted.var_lt_of_encloses hc hv hin (hlt.trans hbinding.2) hid,
      fun hlt => h.rooted.var_lt_of_encloses hc hv hin (hlt.trans hid.2) hbinding⟩
  · exact absurd (h.rooted.inner_of_encloses (.inr (.inl ⟨_, hc⟩)) hin hcase)
      (Tree.Rooted.not_inner_of_stmt hblock.hasStmt)

/-- The binding of a variable is the one whose pattern has it. -/
lemma owningBinding?_eq_some : program.owningBinding? var = some binding ↔ ∃ decl span,
    program.tree.decl? binding = some ⟨.binding decl, span⟩ ∧ var ∈ decl.pattern.vars := by
  unfold owningBinding?
  rw [filter_eq_some_iff]
  constructor
  · grind [introduces]
  · rintro ⟨decl, span, hd, hv⟩
    refine ⟨?_, by rw [hd]; simpa [introduces] using hv⟩
    have hn := decl?_eq_some.1 hd
    have hchild : var ∈ (Node.decl ⟨.binding decl, span⟩).children :=
      mem_append_left _ ((mem_nodes_iff _).2 (.inl hv))
    obtain ⟨around, ho⟩ := h.rooted.stands_exists (lt_size hn)
    have hs : program.tree.Stands var ⟨around.scope, some binding⟩ := child ho hn hchild
    obtain ⟨_, hb⟩ := isSome_iff_exists.1 (h.bindingOf_isSome ((h.rooted.below hn).1.1.1 var hv) hs)
    obtain ⟨_, hs'⟩ := h.stands_of_bindingOf hb
    cases h.rooted.stands_unique hs hs'
    exact hb

/-- A variable is introduced by a binding or by a match case. -/
lemma exists_case_of_var (hv : program.tree.Declares DeclKind.isVar var) (hb : program.owningBinding? var = none) :
    ∃ case node, program.tree.case? case = some node ∧ var ∈ node.pattern.vars := by
  obtain ⟨⟨kind, span⟩, hd, hk⟩ := hv
  cases kind with
  | var name =>
    have hroot := h.rooted.lt_root (lt_size (decl?_eq_some.1 hd)) (by simp [declares_iff hd, DeclKind.isModule])
    obtain ⟨parent, hc⟩ := h.rooted.exists_parent hroot
    obtain ⟨node, hn⟩ := exists_node? (h.rooted.child hc).1
    rw [children_of_node? hn] at hc
    cases (h.rooted.below hn).1.seats hc hd with
    | bound hv =>
      rw [h.owningBinding?_eq_some.2 ⟨_, _, decl?_eq_some.2 hn, hv⟩] at hb
      cases hb
    | matched hv => exact ⟨parent, _, case?_eq_some.2 hn, hv⟩
    | item hk | generic _ hk | param hk | requirement hk | member hk | inStmt hk | inExpr hk => cases hk
  | _ => cases hk

end Surveyed

end Program

end TraitLang
