import TraitLang.Proofs.Chain
import TraitLang.Proofs.Scoping

/-! The functions around a place, and the generic parameters that can be seen from it. Values do not
contain functions, so everything in a value has the same functions around it; and what a name stands
for has no more functions around it than the name has. -/
namespace TraitLang

open DeclKind List

namespace TypeExpr

mutual

def names (text : String) : TypeExpr → Bool
  | .name other _ => other = text
  | .tuple elements _ => namesAny text elements
  | .existential _ _ => false

def namesAny (text : String) : List TypeExpr → Bool
  | [] => false
  | element :: elements => element.names text || namesAny text elements

end

end TypeExpr

namespace Tree

/-- A variable that the pattern of a match case introduces. -/
def CaseVar (tree : Tree) (var : DeclId) : Prop :=
  ∃ case node, tree.case? case = some node ∧ var ∈ node.pattern.vars

/-- An expression that is part of another one, or of one of its cases. -/
def Part (tree : Tree) (id : ExprId) : Prop :=
  ∃ parent, id ∈ tree.children parent ∧ (tree.HasExpr parent ∨ tree.HasCase parent)

def Member (tree : Tree) (id : DeclId) : Prop :=
  ∃ item, tree.Declares (fun kind => kind.isProduct || kind.isTrait) item ∧ id ∈ tree.children item

end Tree

namespace Program

def ParamOf (program : Program) (param function : DeclId) : Prop :=
  ∃ decl span, program.tree.decl? function = some ⟨.function decl, span⟩ ∧ param ∈ decl.genericParams

/-- The innermost function around a node. -/
def level (program : Program) (id : NodeId) : Option DeclId :=
  (program.scopeOf id).bind program.enclosingFunction?

/-- A generic parameter of a function, or of one of the functions around it. -/
def Visible (program : Program) (level : Option DeclId) (param : DeclId) : Prop :=
  ∃ inner ∈ level, ∃ function ∈ program.chain inner, program.ParamOf param function

/-- A generic parameter of a member, or one that the where clause of its own function names in an
equality. -/
def Exposed (program : Program) (param : DeclId) : Prop :=
  ∃ function decl span, program.tree.decl? function = some ⟨.function decl, span⟩ ∧
    param ∈ decl.genericParams ∧ (program.tree.Member function ∨ ∃ name written place,
    .equality name written place ∈ decl.whereClause ∧ written.names (program.declName param))

variable {program : Program}

lemma ParamOf.isFunction {param function} (h : program.ParamOf param function) :
    program.tree.isFunction function := by
  obtain ⟨_, _, hd, -⟩ := h
  exact Tree.isFunction_iff.2 ⟨_, hd, rfl⟩

lemma not_visible_none {param} : ¬program.Visible none param := by
  rintro ⟨inner, hi, -⟩
  cases hi

end Program

/-! ### Where declarations stand -/

namespace Tree.Rooted

variable {tree : Tree} {root : Nat} (h : tree.Rooted root) {id parent : Nat}

include h

/-- Declarations below the module that are neither local nor variables are the parameters of
functions. -/
lemma decl_child {kind span} (hd : tree.decl? id = some ⟨kind, span⟩)
    (hc : id ∈ tree.children parent) : kind.isLocal ∨ kind.isVar ∨ parent = root ∧
    kind.isItem ∨ ∃ function place, tree.decl? parent = some ⟨.function function, place⟩ ∧
        (id ∈ function.genericParams ∧ kind.isGenericParam ∨ kind.isParam) := by
  obtain ⟨node, hn⟩ := exists_node? (h.child hc).1
  rw [children_of_node? hn] at hc
  cases (h.below hn).1.seats hc hd with
  | item hk =>
    refine .inr (.inr (.inl ⟨?_, hk⟩))
    by_contra hne
    have hlt : parent < root := by have := lt_size hn; have := h.size_eq; omega
    cases h.not_isModule hlt hn
  | generic hm hk => exact .inr (.inr (.inr ⟨_, _, decl?_eq_some.2 hn, .inl ⟨hm, hk⟩⟩))
  | param hk => exact .inr (.inr (.inr ⟨_, _, decl?_eq_some.2 hn, .inr hk⟩))
  | requirement hk | inExpr hk => exact .inl (by simp [DeclKind.isLocal, hk])
  | member hk | inStmt hk => exact .inl hk
  | bound _ hk | matched _ hk => exact .inr (.inl hk)

/-- Products and traits are declared in modules only. -/
lemma parent_of_item (hd : tree.Declares (fun kind => kind.isProduct || kind.isTrait) id)
    (hc : id ∈ tree.children parent) : parent = root := by
  obtain ⟨⟨kind, _⟩, hd, hk⟩ := hd
  rcases h.decl_child hd hc with hl | hv | ⟨hroot, -⟩ | ⟨_, _, -, hp⟩
  · cases kind <;> simp_all [DeclKind.isLocal, DeclKind.isProduct, DeclKind.isTrait,
      DeclKind.isFunction, DeclKind.isBinding]
  · cases kind <;> simp_all [DeclKind.isVar, DeclKind.isProduct, DeclKind.isTrait]
  · exact hroot
  · cases kind <;> simp_all [DeclKind.isParam, DeclKind.isGenericParam, DeclKind.isProduct, DeclKind.isTrait]

end Tree.Rooted

namespace Program.Surveyed

variable {program : Program} {root : Nat} (h : program.Surveyed root)

include h

/-! ### Scopes of children -/

variable {parent child id scope function outer inner : Nat} {param : DeclId}

lemma scopeOf_child {node} (hn : program.tree.node? parent = some node) (hc : child ∈ node.children) :
    program.scopeOf child = node.scopeOfChild parent (program.scopeOf parent) child := by
  obtain ⟨_, ho⟩ := h.rooted.stands_exists (Tree.lt_size hn)
  have hnodup : node.children.Nodup := by
    rw [← Tree.children_of_node? hn]
    exact h.rooted.nodup_children parent
  rw [h.scopeOf_eq (.child ho hn hc), h.scopeOf_eq ho, Node.scope_around_eq hnodup hc]

lemma lt_root_of_scopeOf (hs : program.scopeOf id = some scope) : id < root := by
  obtain ⟨_, hstands⟩ := h.stands_of_scopeOf hs
  exact h.rooted.lt_root_of_stands hstands (by simp)

/-! ### The function around a scope -/

lemma enclosingFunction?_of_function (hf : program.tree.isFunction function) :
    program.enclosingFunction? function = some function := by
  have hle : function ≤ root := by
    have := (Tree.isFunction_iff.1 hf).lt_size
    have := h.rooted.size_eq
    omega
  rw [enclosingFunction?, h.chain_eq hle, find?_cons_of_pos hf]

lemma enclosingFunction?_eq_outer (hs : program.scopeOf scope = some outer) (hf : ¬program.tree.isFunction scope) :
    program.enclosingFunction? scope = program.enclosingFunction? outer := by
  rw [enclosingFunction?, h.chain_eq (h.lt_root_of_scopeOf hs).le, find?_cons_of_neg hf, hs, enclosingFunction?]

omit h in
lemma mem_chain_of_enclosingFunction? (hf : program.enclosingFunction? scope = some function) :
    function ∈ program.chain scope ∧ program.tree.isFunction function :=
  ⟨mem_of_find?_eq_some hf, find?_some hf⟩

lemma mem_chain_trans {middle} (hinner : inner ≤ root) (hm : middle ∈ program.chain inner)
    (ho : outer ∈ program.chain middle) : outer ∈ program.chain inner :=
  ((h.mem_chain_iff hinner).1 hm).2.subset ho

/-- A function in the chain of a scope is in the chain of the innermost one. -/
lemma exists_enclosingFunction? (hscope : scope ≤ root) (hm : function ∈ program.chain scope)
    (hf : program.tree.isFunction function) :
    ∃ inner, program.enclosingFunction? scope = some inner ∧ function ∈ program.chain inner := by
  have hfunction := h.enclosingFunction?_of_function hf
  have hself : function ∈ program.chain function := (mem_chain_of_enclosingFunction? hfunction).1
  refine h.chain_induct (motive := fun scope => function ∈ program.chain scope →
    ∃ inner, program.enclosingFunction? scope = some inner ∧ function ∈ program.chain inner)
    (fun _ => ⟨function, hfunction, hself⟩) ?_ hscope hm hm
  intro scope next hs ih hm
  by_cases hfs : program.tree.isFunction scope
  · exact ⟨scope, h.enclosingFunction?_of_function hfs, hm⟩
  · rw [h.enclosingFunction?_eq_outer hs hfs]
    rw [h.chain_eq (h.lt_root_of_scopeOf hs).le, hs] at hm
    rcases mem_cons.1 hm with rfl | hm
    · exact absurd hf hfs
    · exact ih hm

/-- The parameters that can be seen from a scope are those of the functions in its chain. -/
lemma visible_iff (hscope : scope ≤ root) : program.Visible (program.enclosingFunction? scope)
      param ↔ ∃ function ∈ program.chain scope, program.ParamOf param function := by
  constructor
  · rintro ⟨inner, hi, function, hf, hp⟩
    have hinner := (mem_chain_of_enclosingFunction? hi).1
    exact ⟨function, h.mem_chain_trans hscope hinner hf, hp⟩
  · rintro ⟨function, hf, hp⟩
    obtain ⟨inner, hi, hm⟩ := h.exists_enclosingFunction? hscope hf hp.isFunction
    exact ⟨inner, hi, function, hm, hp⟩

/-- What can be seen from a scope can be seen from the scopes in it. -/
lemma visible_of_mem_chain (hscope : scope ≤ root) (ho : outer ∈ program.chain scope)
    (hv : program.Visible (program.enclosingFunction? outer) param) :
    program.Visible (program.enclosingFunction? scope) param := by
  obtain ⟨function, hf, hp⟩ := (h.visible_iff (h.le_root_of_mem_chain hscope ho)).1 hv
  exact (h.visible_iff hscope).2 ⟨function, h.mem_chain_trans hscope ho hf, hp⟩

/-- What can be seen inside a function can be seen around it, but for its own parameters. -/
lemma visible_outside (hv : program.Visible (some function) param) :
    program.ParamOf param function ∨ program.Visible (program.level function) param := by
  obtain ⟨_, hi, outer, hm, hp⟩ := hv
  cases hi
  have hle : function ≤ root := by
    by_contra hgt
    have hnone : program.scopeOf function = none := by
      cases hs : program.scopeOf function with
      | none => rfl
      | some scope => exact absurd (h.lt_root_of_scopeOf hs).le hgt
    have hsingle : program.chain function = [function] := by
      simp [chain, chainWithin, Program.parent, hnone]
    rw [hsingle, mem_singleton] at hm
    subst hm
    exact hgt (by have := (Tree.isFunction_iff.1 hp.isFunction).lt_size; have := h.rooted.size_eq; omega)
  rw [h.chain_eq hle] at hm
  rcases mem_cons.1 hm with rfl | hm
  · exact .inl hp
  · cases hs : program.scopeOf function with
    | none => simp [hs] at hm
    | some scope =>
      rw [hs] at hm
      right
      rw [level, hs, Option.bind_some]
      exact (h.visible_iff (h.le_root_of_scopeOf hs)).2 ⟨outer, hm, hp⟩

/-! ### Levels -/

omit h in
lemma level_of_scopeOf (hs : program.scopeOf id = some scope) :
    program.level id = program.enclosingFunction? scope := by
  rw [level, hs, Option.bind_some]

/-- What is inside a value is inside no further function. -/
lemma level_child (hi : program.tree.Inner parent) (hc : child ∈ program.tree.children parent) :
    program.level child = program.level parent := by
  obtain ⟨_, hn⟩ := Tree.exists_node? (h.rooted.child hc).1
  have hnot : ¬program.tree.isFunction parent := fun hf => Tree.not_inner_of_function (Tree.isFunction_iff.1 hf) hi
  have hstmt : ¬program.tree.HasStmt parent := fun hs => Tree.Rooted.not_inner_of_stmt hs hi
  have hlt : parent < root := h.rooted.lt_root (Tree.lt_size hn) fun hm =>
    Tree.not_inner_of_declares hm (fun kind hk => by cases kind <;> first | exact ⟨rfl, rfl⟩ | cases hk) hi
  obtain ⟨scope, hscope⟩ := Option.isSome_iff_exists.1 (h.scopeOf_isSome hlt)
  have hchild := h.scopeOf_child hn (by rwa [Tree.children_of_node? hn] at hc)
  -- the scope of a child is the parent or the scope of the parent
  have hcases : program.scopeOf child = some parent ∨ program.scopeOf child = program.scopeOf parent := by
    rw [hchild]
    refine Node.scopeOfChild_cases ?_
    rintro stmt rfl
    exact hstmt ⟨stmt, Tree.stmt?_eq_some.2 hn⟩
  rcases hcases with hs | hs
  · rw [level_of_scopeOf hs, level_of_scopeOf hscope]
    exact h.enclosingFunction?_eq_outer hscope hnot
  · rw [level, level, hs]

lemma level_of_encloses (hi : program.tree.Inner outer) (he : program.tree.Encloses outer inner)
    (hlt : outer < program.tree.size) : program.level inner = program.level outer := by
  have hall := h.rooted.descend (P := fun id => program.tree.Inner id ∧ program.level id = program.level outer)
    (fun parent child hp hc => ⟨h.rooted.inner_child hp.1 hc, (h.level_child hp.1 hc).trans hp.2⟩)
    ⟨hi, rfl⟩ he hlt
  exact hall.2

/-- The children of a function are at its level. -/
lemma level_of_function_child (hf : program.tree.isFunction function)
    (hc : child ∈ program.tree.children function) : program.level child = some function := by
  obtain ⟨⟨kind, _⟩, hd, hk⟩ := Tree.isFunction_iff.1 hf
  have hn := Tree.decl?_eq_some.1 hd
  cases kind with
  | function decl =>
    have hs := h.scopeOf_child hn (by rwa [Tree.children_of_node? hn] at hc)
    rw [level_of_scopeOf hs]
    exact h.enclosingFunction?_of_function hf
  | _ => cases hk

/-- Members are inside no function. -/
lemma level_of_member (hm : program.tree.Member id) : program.level id = none := by
  obtain ⟨item, hd, hc⟩ := hm
  obtain ⟨⟨kind, _⟩, hdecl, hk⟩ := hd
  have hn := Tree.decl?_eq_some.1 hdecl
  have hnot : ¬program.tree.isFunction item := by
    rw [Tree.isFunction_iff, Tree.declares_iff hdecl]
    cases kind <;> simp_all [isProduct, isTrait, isFunction]
  have hlt : item < root := h.rooted.lt_root (Tree.lt_size hn) (by
    rw [Tree.declares_iff hdecl]
    cases kind <;> simp_all [isProduct, isTrait, isModule])
  have hs : program.scopeOf id = some item := by
    rw [h.scopeOf_child hn (by rwa [Tree.children_of_node? hn] at hc)]
    cases kind <;> simp_all [isProduct, isTrait, Node.scopeOfChild, Node.isScope]
  obtain ⟨parent, hparent⟩ := h.rooted.exists_parent hlt
  obtain rfl := h.rooted.parent_of_item ⟨_, hdecl, hk⟩ hparent
  obtain ⟨⟨kind', _⟩, hdecl', hk'⟩ := h.rooted.declares
  have hroot : program.scopeOf item = some parent := by
    rw [h.scopeOf_child (Tree.decl?_eq_some.1 hdecl')
      (by rwa [Tree.children_of_node? (Tree.decl?_eq_some.1 hdecl')] at hparent)]
    cases kind' <;> simp_all [isModule, Node.scopeOfChild, Node.isScope]
  have hmodule : ¬program.tree.isFunction parent := by
    rw [Tree.isFunction_iff, Tree.declares_iff hdecl']
    cases kind' <;> simp_all [isModule, isFunction]
  rw [level_of_scopeOf hs, h.enclosingFunction?_eq_outer hroot hnot, enclosingFunction?,
    h.chain_eq le_rfl, h.scopeOf_root, find?_cons_of_neg hmodule, find?_nil]

/-- The parameters that can be seen inside a member are those of members. -/
lemma exposed_of_member (hm : program.tree.Member function)
    (hv : program.Visible (some function) param) : program.Exposed param := by
  rcases h.visible_outside hv with ⟨decl, span, hd, hp⟩ | hv
  · exact ⟨function, decl, span, hd, hp, .inl hm⟩
  · rw [h.level_of_member hm] at hv
    exact absurd hv not_visible_none

/-! ### What names stand for -/

/-- A variable of a match case is used in values of its own level. -/
lemma level_of_caseVar {var} (hs : program.scopeOf id = some scope)
    (hm : outer ∈ program.chain scope) (hd : var ∈ program.decls outer)
    (hv : program.tree.CaseVar var) : program.level var = program.level id := by
  obtain ⟨case, _, hc, hvar⟩ := hv
  have hn := Tree.case?_eq_some.1 hc
  have hinner : program.tree.Inner case := .inr (.inl ⟨_, hc⟩)
  have hchild : var ∈ program.tree.children case := by
    rw [Tree.children_of_node? hn]
    exact mem_append_left _ ((Pattern.mem_nodes_iff _).2 (.inl hvar))
  rw [h.level_child hinner hchild,
    h.level_of_encloses hinner (h.encloses_of_case_var hs hm hd hc hvar) (Tree.lt_size hn)]

/-- A declaration that is found from a scope sees no more than the scope does. -/
lemma visible_of_found (hscope : scope ≤ root) (hm : outer ∈ program.chain scope)
    (hd : id ∈ program.decls outer) (hv : program.Visible (program.level id) param) :
    program.Visible (program.enclosingFunction? scope) param := by
  rw [level_of_scopeOf (h.mem_decls hd).1] at hv
  exact h.visible_of_mem_chain hscope hm hv

/-- A generic parameter is declared by the function whose scope it is in. -/
lemma paramOf_of_mem_decls
    {param name span} (hp : program.tree.decl? param = some ⟨.genericParam name, span⟩)
    (hd : param ∈ program.decls scope) : program.ParamOf param scope := by
  have hlt : param < root := h.rooted.lt_root (Tree.lt_size (Tree.decl?_eq_some.1 hp)) (by
    rw [Tree.declares_iff hp]
    exact Bool.false_ne_true)
  obtain ⟨_, hparent⟩ := h.rooted.exists_parent hlt
  rcases h.rooted.decl_child hp hparent with hl | hv | ⟨-, hi⟩ | ⟨function, place, hf, ⟨hm, -⟩ | hk⟩
  · cases hl
  · cases hv
  · cases hi
  · have hn := Tree.decl?_eq_some.1 hf
    have hs := h.scopeOf_child hn (by rwa [Tree.children_of_node? hn] at hparent)
    rw [(h.mem_decls hd).1] at hs
    cases hs
    exact ⟨function, place, hf, hm⟩
  · cases hk

end Program.Surveyed

end TraitLang
