import TraitLang.Proofs.Paired.Inference
import TraitLang.Proofs.Statements

/-! Statements, with two answerers side by side. Only a return statement looks at the scope that the
checker of statements is in; the others work in scopes of their own. -/
namespace TraitLang.Check

open Body Follows TraitLang.Tree List

/-- The invariant of a checker of statements that is in a scope. -/
structure Running (base : Program) (settings : Settings) (exempt : ExprId → Prop) (site : ScopeId)
    (homes : List (Option DeclId)) (run : Body.Run State) : Prop where
  housed : Housed base settings exempt homes run.context
  policy_eq : run.body.policy = settings.freePolicy
  useSite_eq : run.body.useSite = site

/-- A statement that may be checked while in a scope. -/
structure Enters (base : Program) (site : ScopeId) (id : StmtId) : Prop where
  hasStmt : base.tree.HasStmt id
  scopeOf_eq : ∀ value span, base.tree.stmt? id = some ⟨.ret value, span⟩ →
  base.scopeOf id = some site

lemma Enters.of_branch {base id} (h : base.tree.HasBranch id) (site : ScopeId) : Enters base site id := by
  refine ⟨h.hasStmt, fun value span hs => ?_⟩
  obtain ⟨_, hstmt, hbranch⟩ := h
  cases hs.symm.trans hstmt
  cases hbranch

variable {base : Program} {root : Nat} (hs : base.Surveyed root) {settings : Settings}
  {exempt : ExprId → Prop} {homes : List (Option DeclId)} {run : Body.Run State}
  {ask other : Answerer} (hc : Consults base settings ask other) {site : ScopeId}
  {id : StmtId} {span : Span}

/-! ### Runs -/

section

variable {α : Type} {post : α → List (Option DeclId) → State → Prop}

lemma follows_askBody {work other} (h : Follows (Housed base settings exempt) work other homes run.context post) :
    Follows (Running base settings exempt site) (Body.ask work) (Body.ask other) homes run
      fun answer homes' run' => post answer homes' run'.context := by
  intro hrun answer run' hask
  unfold Body.ask at hask ⊢
  split at hask
  next _ _ hwork =>
    cases hask
    obtain ⟨hother, homes', hp, hhoused, hpost⟩ := h hrun.housed _ _ hwork
    exact ⟨by rw [hother], homes', hp, ⟨hhoused, hrun.policy_eq, hrun.useSite_eq⟩, hpost⟩
  next => cases hask

/-- Work in a scope comes back to where it began. -/
lemma follows_within (scope : ScopeId) {work other : Body.Steps State α}
    (h : Follows (Running base settings exempt scope) work other homes
    { run with body.useSite := scope } fun _ _ _ => True) :
    Follows (Running base settings exempt site) (within scope work) (within scope other) homes run
      fun _ _ _ => True := by
  intro hrun answer run' hwithin
  unfold within at hwithin ⊢
  split at hwithin
  next _ _ hwork =>
    cases hwithin
    obtain ⟨hother, homes', hp, hafter, -⟩ := h ⟨hrun.housed, hrun.policy_eq, rfl⟩ _ _ hwork
    exact ⟨by rw [hother], homes', hp, ⟨hafter.housed, hafter.policy_eq, hrun.useSite_eq⟩, trivial⟩
  next => cases hwithin

lemma grants_stmt (ask : Answerer) (id : StmtId) : Grants (Body.stmt (collaborator ask) id) run fun found run' =>
    run' = run ∧ run.context.program.tree.stmt? id = some found := by
  refine grants_get_bind.2 ?_
  dsimp only [collaborator]
  cases run.context.program.tree.stmt? id with
  | none => exact Grants.throw
  | some found => exact grants_pure.2 ⟨rfl, rfl⟩

lemma grants_scopeFor (ask : Answerer) (id : NodeId) (what : String) :
    Grants (scopeFor (collaborator ask) id what) run fun scope run' => run' = run ∧ id = scope := by
  refine grants_get_bind.2 ?_
  unfold scope?
  split
  next _ hscope => simp_all
  next => exact Grants.throw

include hs

lemma follows_updateSlots {kind} (hn : base.tree.stmt? id = some ⟨kind, span⟩)
    {change} (hp : ∀ {after later}, kind.Patched run.context.program.tree.Packs after →
    change after = some later → kind.Patched run.context.program.tree.Packs later) :
    Follows (Running base settings exempt site) (updateSlots (collaborator ask) id change)
      (updateSlots (collaborator other) id change) homes run fun _ _ _ => True := by
  simp only [updateSlots, Body.program, bind_assoc, pure_bind, collaborator]
  refine follows_get_bind ?_
  cases hset : run.context.program.tree.updateStmt id change with
  | none => exact follows_throw
  | some tree =>
    refine follows_modify (fun h => ?_) trivial
    exact ⟨h.housed.withProgram (h.housed.descends.updateStmt hs.rooted hn hp hset), h.policy_eq, h.useSite_eq⟩

include hc

lemma follows_stmtExpr {value useSite} (hsite : base.tree.HasExpr value →
    base.scopeOf value = some useSite) {expected} (hexpected : ∀ type ∈ expected,
    Belongs base settings homes (base.enclosingFunction? useSite) type)
    {policy} (hpolicy : settings.freePolicy = .reject → policy = .reject) :
    Follows (Running base settings exempt site)
    (Body.checkExpr (collaborator ask) value expected useSite policy) (Body.checkExpr
      (collaborator other) value expected useSite policy) homes run fun checked _ run' =>
      base.tree.HasExpr value ∧ run'.context.program.tree.Packs value checked.expr :=
  (follows_askBody (follows_checkExpr hs hc hsite hexpected hpolicy)).imp fun _ _ _ _ _ h => ⟨h.1, h.2.1⟩

end

/-! ### Returns -/

section

include hs

/-- The type that a return statement has to return may come up in the function that it leaves. -/
lemma follows_returnTarget (hsite : base.scopeOf id = some site) :
    Follows (Running base settings exempt site) (Body.returnTarget (collaborator ask) id)
      (Body.returnTarget (collaborator other) id) homes run
      fun target _ _ => Ground base settings (base.enclosingFunction? site) target.2 := by
  refine of_inv fun h => ?_
  have hroot := hs.le_root_of_scopeOf hsite
  have hlt := hs.lt_root_of_scopeOf hsite
  have hsize := hs.rooted.size_eq
  have hd := h.housed.descends
  unfold Body.returnTarget Body.program
  refine follows_get_bind ?_
  have hfunction : (run.context.program.scopeOf id).bind run.context.program.enclosingFunction? =
      base.enclosingFunction? site := by
    rw [hd.scopeOf_eq id (by omega), hsite, Option.bind_some, hd.enclosingFunction?_eq hs hroot]
  simp only [collaborator, hfunction]
  cases hinner : base.enclosingFunction? site with
  | none => exact follows_throw
  | some function =>
    refine follows_get_bind ?_
    cases hsignature : run.context.signatures[function]? with
    | none => exact follows_throw
    | some signature =>
      have houtput : Ground base settings (some function) signature.output :=
        (Ty.over_function.1 (h.housed.signatures hsignature)).2
      refine ite (fun _ => ?_) fun _ => follows_pure houtput
      refine (follows_askBody (follows_genericsOf hs function)).bind fun found homes1 run1 _ h1 hfound => ?_
      cases found with
      | none => exact follows_pure (ground_error _)
      | some generics =>
        refine follows_get_bind ?_
        rw [h1.useSite_eq]
        have hin : base.isWithin site function := by grind [Program.isWithin,
            Program.Surveyed.mem_chain_of_enclosingFunction?]
        refine (follows_askBody (follows_instantiate_inside hs
          (hfound generics rfl) houtput hin hroot)).bind fun answer _ _ _ _ hanswer => ?_
        exact follows_pure hanswer

include hc

lemma follows_checkReturn {before value} (hn : base.tree.stmt? id = some ⟨.ret before, span⟩)
    (hsite : base.scopeOf id = some site) (hvalue : StmtKind.Patched base.tree.Fills (.ret before) (.ret value)) :
    Follows (Running base settings exempt site) (Body.checkReturn (collaborator ask) id value)
      (Body.checkReturn (collaborator other) id value) homes run fun _ _ _ => True := by
  refine (follows_returnTarget hs hsite).bind ?_
  rintro ⟨function, expected⟩ homes1 run1 - - hexpected
  refine follows_modify_bind (fun h => { h with }) ?_
  cases value with
  | none =>
    refine follows_get_bind (ite (fun _ => ?_) fun _ => follows_pure trivial)
    refine read (grants_stmt ask id) fun stmt _ => ?_
    refine follows_modify_bind (fun h => ⟨{ h.housed with }, h.policy_eq, h.useSite_eq⟩) ?_
    exact follows_pure trivial
  | some value =>
    obtain ⟨child, rfl, hfills⟩ : ∃ child, before = some child ∧ base.tree.Fills child value := by
      cases hvalue with
      | same => exact ⟨value, rfl, fills_self _ _⟩
      | ret hp => exact ⟨_, rfl, hp⟩
    have hplace (he : base.tree.HasExpr value) : base.scopeOf value = some site := by
      rw [hfills he]
      exact (hs.scopeOf_child (stmt?_eq_some.1 hn) (by simp [Node.children, StmtKind.children])).trans hsite
    refine of_inv fun h => follows_get_bind ?_
    rw [h.useSite_eq]
    refine (follows_stmtExpr hs hc hplace (by rintro _ ⟨⟩; exact hexpected.belongs _) fun _ => rfl).bind ?_
    rintro checked homes2 run2 - - ⟨he, hpacks⟩
    rw [hfills he] at hpacks
    refine (follows_updateSlots hs hn fun hk hset => hk.setReturned hpacks hset).last

end

/-! ### Parts of statements -/

section

/-- A checker of statements with two answerers of its questions side by side, and two ways to check
inner statements. -/
abbrev Runs (base : Program) (settings : Settings) (exempt : ExprId → Prop) (ask other : Answerer)
    (nested nested' : StmtId → Body.Steps State Bool) (site : ScopeId)
    (work : Collaborator State → (StmtId → Body.Steps State Bool) → Body.Steps State Bool)
    (homes : List (Option DeclId)) (run : Body.Run State) : Prop :=
  Follows (Running base settings exempt site) (work (collaborator ask) nested)
    (work (collaborator other) nested') homes run fun _ _ _ => True

variable {nested nested' : StmtId → Body.Steps State Bool} (hnested :
  ∀ {site : ScopeId} {inner : StmtId} {homes : List (Option DeclId)} {run : Body.Run State},
    Enters base site inner → Follows (Running base settings exempt site) (nested inner)
    (nested' inner) homes run fun _ _ _ => True)

include hs hc hnested

/-- The items of a list in a statement stand in its scope. -/
lemma follows_checkItems {α : Type} (row : Body.Row α) {before items}
    (hn : base.tree.stmt? id = some ⟨row.kind before, span⟩) (hscope : ∀ item ∈ before, base.scopeOf
    (row.view item).node = some id) (hsite : ∀ body, body.useSite = site → row.site body = id)
    (henters : ∀ item ∈ before, ∀ inner, row.view item = .stmt inner → Enters base site inner)
    (hexpected : ∀ homes, ∀ type ∈ row.expected,
    Belongs base settings homes (base.enclosingFunction? id) type) (hitems : List.Forall₂
    (fun item slot => (row.view item).Patched base.tree.Fills (row.view slot)) before items) :
    Runs base settings exempt ask other nested nested' site (fun c nested =>
    inTurn (Body.checkItem c nested id row) 0 items) homes run := by
  refine follows_inTurn hitems fun index before item homes run hbefore hitem => ?_
  have hmem := mem_of_getElem? hbefore
  have hplace := hscope before hmem
  have henters := henters before hmem
  unfold Body.checkItem
  cases hview : row.view item with
  | decl decl => exact follows_askBody (hc.verdict decl)
  | stmt inner =>
    rw [hview] at hitem
    generalize row.view before = member at hitem henters
    cases hitem with
    | same => exact hnested (henters inner rfl)
  | expr value =>
    rw [hview] at hitem
    obtain ⟨_, hchild, hfills⟩ := hitem.exists_expr (fills_self _)
    rw [hchild] at hplace
    refine of_inv fun h => follows_get_bind ?_
    dsimp only
    rw [hsite _ h.useSite_eq, h.policy_eq]
    refine (follows_stmtExpr hs hc (fun he => hfills he ▸ hplace) (hexpected homes) fun h => h).bind ?_
    rintro checked homes1 run1 - - ⟨he, hpacks⟩
    rw [hfills he] at hpacks
    exact (follows_updateSlots hs hn fun hk hset => row.patched_store hpacks hk hbefore hchild hset).last

variable {before items : List ConditionItem} {body : StmtId}

/-- The tests of a conditional or of a loop are in its scope. -/
lemma follows_tests (row : Body.Row ConditionItem)
    (hview : row.view = ConditionItem.asMember) (hexpected : row.expected = some .bool)
    (hsite : row.site = fun _ => id) (hn : base.tree.stmt? id = some ⟨row.kind before, span⟩)
    (hscope : ∀ item ∈ before, base.scopeOf item.node = some id) (hitems : List.Forall₂
    (fun item slot => (row.view item).Patched base.tree.Fills (row.view slot)) before items) :
    Runs base settings exempt ask other nested nested' site (fun c nested =>
    inTurn (checkItem c nested id row) 0 items) homes run := by
  refine follows_checkItems hs hc hnested row hn (by simpa [hview] using hscope) (fun _ _ =>
    congrFun hsite _) ?_ ?_ hitems
  · rw [hview]
    rintro (_ | _) _ _ ⟨⟩
  · rw [hexpected]
    rintro homes _ ⟨⟩
    exact (Ty.over_end rfl).2 trivial

/-! ### Statements -/

lemma follows_block {before members} (hn : base.tree.stmt? id = some ⟨.block before, span⟩)
    (hmembers : List.Forall₂ (BlockMember.Patched base.tree.Fills) before members) :
    Runs base settings exempt ask other nested nested' site (Body.checkKind · · id (.block members)) homes run := by
  have hnode := stmt?_eq_some.1 hn
  have hscope (member : BlockMember) (hm : member ∈ before) : base.scopeOf member.node = some id :=
    hs.scopeOf_child hnode (mem_map_of_mem hm)
  simp only [Body.checkKind, Body.checkMembers_eq]
  refine read (grants_scopeFor ask id _) ?_
  rintro _ rfl
  refine follows_within id (follows_checkItems hs hc hnested .block hn hscope (fun _ h =>
    h) ?_ (by rintro _ _ ⟨⟩) hmembers)
  rintro _ hm inner rfl
  exact ⟨(hs.rooted.below hnode).1 (.stmt inner) hm, fun _ _ _ => hscope _ hm⟩

lemma follows_condStmt {success failure}
    (hn : base.tree.stmt? id = some ⟨.cond before success failure, span⟩) (hitems : List.Forall₂
    (fun item slot => item.asMember.Patched base.tree.Fills slot.asMember) before items) :
    Runs base settings exempt ask other nested nested' site (Body.checkKind · · id
    (.cond items success failure)) homes run := by
  have hnode := stmt?_eq_some.1 hn
  obtain ⟨-, hsuccess, hfailure⟩ := (hs.rooted.below hnode).1
  have hnodup := hs.rooted.nodup_children id
  rw [children_of_node? hnode] at hnodup
  have hscope (item : ConditionItem) (hm : item ∈ before) : base.scopeOf item.node = some id := by
    have hm : item.node ∈ before.map ConditionItem.node := mem_map_of_mem hm
    have hne : failure ≠ some item.node := by
      rintro rfl
      exact (nodup_append.1 hnodup).2.2 _ hm item.node (by simp) rfl
    exact (hs.scopeOf_child hnode (mem_append_left _ hm)).trans (if_neg hne)
  simp only [Runs, Body.checkKind, Body.checkConditions_eq (collaborator ask) nested,
    Body.checkConditions_eq (collaborator other) nested']
  refine read (grants_scopeFor ask id _) ?_
  rintro _ rfl
  refine (follows_tests hs hc hnested (.cond id success failure) rfl rfl rfl hn hscope hitems).next fun _ => ?_
  refine (hnested (.of_branch hsuccess.hasBranch site)).next fun _ => ?_
  cases failure with
  | none => exact follows_pure trivial
  | some failure =>
    exact (hnested (.of_branch (hfailure failure rfl) site)).last

lemma follows_whileLoop (hn : base.tree.stmt? id = some ⟨.whileLoop before body, span⟩)
    (hitems : List.Forall₂ (fun item slot => item.asMember.Patched base.tree.Fills slot.asMember)
    before items) : Runs base settings exempt ask other nested nested' site (Body.checkKind · · id
    (.whileLoop items body)) homes run := by
  have hnode := stmt?_eq_some.1 hn
  have hscope (item : ConditionItem) (hm : item ∈ before) : base.scopeOf item.node = some id :=
    hs.scopeOf_child hnode (mem_append_left _ (mem_map_of_mem hm))
  simp only [Runs, Body.checkKind, Body.checkConditions_eq (collaborator ask) nested,
    Body.checkConditions_eq (collaborator other) nested']
  refine read (grants_scopeFor ask id _) ?_
  rintro _ rfl
  refine (follows_tests hs hc hnested (.whileLoop id body) rfl rfl rfl hn hscope hitems).next fun _ => ?_
  exact (hnested (.of_branch (hs.rooted.below hnode).1.2.hasBranch site)).last

lemma follows_doWhile {child condition} (hn : base.tree.stmt? id = some ⟨.doWhile body child, span⟩)
    (hfills : base.tree.Fills child condition) : Runs base settings exempt ask other nested nested'
    site (Body.checkKind · · id (.doWhile body condition)) homes run := by
  have hnode := stmt?_eq_some.1 hn
  have hplace (he : base.tree.HasExpr condition) : base.scopeOf condition = some body := by
    rw [hfills he]
    exact (hs.scopeOf_child hnode (by simp [Node.children, StmtKind.children])).trans (if_pos rfl)
  refine (hnested (.of_branch (hs.rooted.below hnode).1.1.hasBranch site)).bind fun _ homes1 run1 _ h1 _ => ?_
  refine read (grants_scopeFor ask body _) ?_
  rintro _ rfl
  refine follows_get_bind ?_
  rw [h1.policy_eq]
  have hbool : Belongs base settings homes1 (base.enclosingFunction? body) .bool := (Ty.over_end rfl).2 trivial
  refine (follows_stmtExpr hs hc hplace (by rintro _ ⟨⟩; exact hbool) fun h => h).bind ?_
  rintro checked homes2 run2 - - ⟨he, hpacks⟩
  rw [hfills he] at hpacks
  exact (follows_updateSlots hs hn fun hk hset => hk.setLoopTest hpacks hset).last

lemma follows_stmtKind {before kind} (hn : base.tree.stmt? id = some ⟨before, span⟩)
    (hpatched : before.Patched base.tree.Fills kind) (henters : Enters base site id) :
    Runs base settings exempt ask other nested nested' site (Body.checkKind · · id kind) homes run := by
  cases before with
  | block members =>
    obtain ⟨slots, rfl, hslots⟩ := Body.Row.block.patched_iff.1 hpatched
    exact follows_block hs hc hnested hn hslots
  | ret value =>
    cases hpatched with
    | same => exact follows_checkReturn hs hc hn (henters.scopeOf_eq _ _ hn) (.same _)
    | ret hp => exact follows_checkReturn hs hc hn (henters.scopeOf_eq _ _ hn) (.ret hp)
  | cond items success failure =>
    obtain ⟨slots, rfl, hslots⟩ := (Body.Row.cond id success failure).patched_iff.1 hpatched
    exact follows_condStmt hs hc hnested hn hslots
  | whileLoop items body =>
    obtain ⟨_, rfl, hslots⟩ := (Body.Row.whileLoop id body).patched_iff.1 hpatched
    exact follows_whileLoop hs hc hnested hn hslots
  | doWhile body condition =>
    cases hpatched with
    | same => exact follows_doWhile hs hc hnested hn (fills_self _ _)
    | doWhile hfills => exact follows_doWhile hs hc hnested hn hfills

end

section

include hs hc

lemma follows_checkWithin : ∀ (depth : Nat) {site id homes} {run}, Enters base site id →
    Follows (Running base settings exempt site) (checkWithin (collaborator ask) depth id)
      (checkWithin (collaborator other) depth id) homes run fun _ _ _ => True
  | 0, _, _, _, _, _ => follows_throw
  | depth + 1, site, id, homes, run, henters => by
    refine of_inv fun h => read (grants_stmt ask id) fun found hfound => ?_
    obtain ⟨_, _⟩ := found
    obtain ⟨_, hbefore, hpatched⟩ := h.housed.descends.stmtKind hs.rooted henters.hasStmt hfound
    exact follows_stmtKind hs hc (fun henters => follows_checkWithin depth henters) hbefore hpatched henters

lemma follows_checkStmt (henters : Enters base site id) : Follows (Running base settings exempt site)
    (check (collaborator ask) id) (check (collaborator other) id) homes run fun _ _ _ => True :=
  follows_get_bind (follows_checkWithin hs hc _ henters)

end

end TraitLang.Check
