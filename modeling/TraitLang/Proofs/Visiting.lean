import TraitLang.Proofs.Spanning
import TraitLang.Proofs.Tables

/-! What the walk over a forest does. From a node in some surroundings the walk enters the node and
all that is below it into the tables, each as it stands, and then is where it was before: in the
same scope and the same bindings. It halts only if something is wrong with the forest. -/
namespace TraitLang

open List TraitLang.Tree Program

/-! ### Entries of a walk -/

/-- The nodes at or below some roots, each one before its children. -/
inductive Tree.Lists (tree : Tree) : (roots listing : List NodeId) → Prop
  | nil : Lists tree [] []
  | cons {root : NodeId} {roots below rest : List NodeId} {node : Node} :
    tree.node? root = some node → Lists tree node.children below → Lists tree roots rest →
    Lists tree (root :: roots) (root :: (below ++ rest))

/-- The node that an entry puts into a scope. -/
def Placement.inside? : Placement → Option NodeId
  | .inside node _ => some node
  | .opened _ | .bound _ _ => none

namespace Node

/-- The children of a node in their surroundings. -/
def starts (id : NodeId) (outer : Surroundings) (node : Node) : List (Nat × Surroundings) :=
  node.children.map fun child => (child, node.around id outer child)

/-- What is entered for a node apart from its scope. -/
def openings (id : NodeId) (around : Surroundings) : Node → List Placement
  | .decl ⟨.var _, _⟩ => around.binding.toList.map (.bound id)
  | node => if node.isScope then [.opened id] else []

def entries (id : NodeId) (around : Surroundings) (node : Node) : List Placement :=
  around.scope.toList.map (.inside id) ++ node.openings id around

/-- A node is as it should be in some surroundings. -/
structure Sound (tree : Tree) (around : Surroundings) (node : Node) : Prop where
  isModule_eq : node.isModule = around.scope.isNone
  loop : ∀ body condition span, node = .stmt ⟨.doWhile body condition, span⟩ →
    ∃ members place, tree.stmt? body = some ⟨.block members, place⟩

variable {id other : NodeId} {around : Surroundings} {node : Node}

lemma openings_of_isScope (h : node.isScope) : node.openings id around = [.opened id] := by
  unfold openings
  split
  · cases h
  · exact if_pos h

lemma inside?_openings : ∀ placement ∈ node.openings id around, placement.inside? = none := by
  unfold openings
  split
  · simp [Placement.inside?]
  · split <;> simp [Placement.inside?]

lemma inside_mem_entries {scope} : .inside other scope ∈ node.entries id around ↔ id = other ∧
    around.scope = some scope := by
  have hnot : .inside other scope ∉ node.openings id around := fun h => by cases inside?_openings _ h
  simp [entries, hnot, and_comm]

lemma bound_mem_entries {binding} : .bound other binding ∈ node.entries id around ↔
    id = other ∧ around.binding = some binding ∧ ∃ name span, node = .decl ⟨.var name, span⟩ := by
  unfold entries openings
  split
  · simp [and_comm]
  next hvar => grind

end Node

/-- The entries for some nodes in their surroundings, each one followed by those for what is below
it. -/
inductive Tree.Enters (tree : Tree) : List (Nat × Surroundings) → List Placement → Prop
  | nil : Enters tree [] []
  | cons {id : Nat} {around : Surroundings} {node : Node} {starts : List (Nat × Surroundings)}
    {below rest : List Placement} : tree.node? id = some node →
    node.Sound tree around → Enters tree (node.starts id around) below → Enters tree starts rest →
    Enters tree ((id, around) :: starts) (node.entries id around ++ below ++ rest)

/-- A node as it should be was entered, and so was all that is below it. -/
def Tree.Visited (tree : Tree) (placements : List Placement) (id : Nat) (around : Surroundings) : Prop :=
  ∃ node below, tree.node? id = some node ∧ node.Sound tree around ∧
    tree.Enters (node.starts id around) below ∧ node.entries id around ++ below ⊆ placements

namespace Tree.Enters

variable {tree : Tree} {starts more : List (Nat × Surroundings)}
  {placements others : List Placement}

lemma single {id around node} (hn : tree.node? id = some node) (hs : node.Sound tree around)
    (h : tree.Enters (node.starts id around) placements) : tree.Enters
    [(id, around)] (node.entries id around ++ placements) := by
  simpa using Enters.cons hn hs h .nil

lemma append (h1 : tree.Enters starts placements) (h2 : tree.Enters more others) :
    tree.Enters (starts ++ more) (placements ++ others) := by
  induction h1 with
  | nil => exact h2
  | cons hn hs hbelow _ _ ih =>
    rw [cons_append, append_assoc]
    exact .cons hn hs hbelow ih

lemma unique (h1 : tree.Enters starts placements) (h2 : tree.Enters starts others) : placements = others := by
  induction h1 generalizing others with
  | nil =>
    cases h2
    rfl
  | cons hn _ _ _ ih1 ih2 =>
    cases h2 with
    | cons hn' _ hbelow hrest =>
      cases hn.symm.trans hn'
      rw [ih1 hbelow, ih2 hrest]

/-- The nodes that are entered into scopes are all that are no modules, each one before its
children. -/
lemma exists_lists (h : tree.Enters starts placements) : ∃ listing, tree.Lists (starts.map Prod.fst) listing ∧
    placements.filterMap Placement.inside? = listing.filter fun id => !tree.isModule id := by
  induction h with
  | nil => exact ⟨[], .nil, rfl⟩
  | @cons id around node _ _ _ hn hs _ _ ih1 ih2 =>
    obtain ⟨listing, hlists, heq⟩ := ih1
    obtain ⟨rest, hrest, heq'⟩ := ih2
    rw [Node.starts, map_map, Function.comp_def, map_id'] at hlists
    refine ⟨id :: (listing ++ rest), .cons hn hlists hrest, ?_⟩
    have hself : (node.entries id around).filterMap Placement.inside? = [id].filter fun id => !tree.isModule id := by
      rw [Node.entries, filterMap_append, filterMap_eq_nil_iff.2 Node.inside?_openings, append_nil,
        filter_singleton, isModule_of_node? hn, hs.isModule_eq]
      cases around.scope <;> rfl
    grind

lemma visited (h : tree.Enters starts placements) : ∀ start ∈ starts, tree.Visited placements start.1 start.2 := by
  induction h with
  | nil => simp
  | cons hn hs hbelow _ _ ih =>
    refine forall_mem_cons.2 ⟨⟨_, _, hn, hs, hbelow, subset_append_left _ _⟩, fun start hstart => ?_⟩
    obtain ⟨node, below, hnode, hsound, hinner, hsub⟩ := ih start hstart
    exact ⟨node, below, hnode, hsound, hinner, List.Subset.trans hsub (subset_append_right _ _)⟩

/-- What is entered from the end of a trail on is entered for a node that the trail goes on to. -/
lemma exists_trail (h : tree.Enters starts placements) :
    ∀ {trail}, (∀ start ∈ starts, tree.Trail trail start.1 start.2) → ∀ placement ∈ placements,
    ∃ way id around node, tree.Trail (way ++ trail) id around ∧ tree.node? id = some node ∧
      node.Sound tree around ∧ placement ∈ node.entries id around := by
  induction h with
  | nil => simp
  | @cons id around node _ _ _ hn hs _ _ ih1 ih2 =>
    intro trail ht
    obtain ⟨hself, hrest⟩ := forall_mem_cons.1 ht
    have hbelow : ∀ start ∈ node.starts id around, tree.Trail (id :: trail) start.1 start.2 := by
      intro start hstart
      obtain ⟨child, hc, rfl⟩ := mem_map.1 hstart
      exact hself.child hn (by rw [hs.isModule_eq, hself.scope_isNone_iff]) hc
    refine forall_mem_append.2 ⟨forall_mem_append.2 ⟨fun placement hp => ?_, fun placement hp => ?_⟩, ih2 hrest⟩
    · exact ⟨[], id, around, node, hself, hn, hs, hp⟩
    · obtain ⟨way, found⟩ := ih1 hbelow placement hp
      exact ⟨way ++ [id], by simpa using found⟩

end Tree.Enters

/-! ### Outcomes -/

namespace Visitor

variable {α β : Type}

/-- The state after some entries. -/
def log (v : Visitor) (placements : List Placement) : Visitor :=
  { v with program := placements.foldl place v.program }

lemma log_append (v : Visitor) (placements others : List Placement) :
    v.log (placements ++ others) = (v.log placements).log others := by
  simp [log, foldl_append]

/-- The walk is in some surroundings. -/
structure At (tree : Tree) (around : Surroundings) (v : Visitor) : Prop where
  tree_eq : v.program.tree = tree
  innermost_eq : v.innermost = around.scope
  bindings_eq : v.bindings.head? = around.binding

/-- A step of a walk leads to what a condition says, or halts because of a fault of the tree. -/
def Leads (tree : Tree) (work : Visit α) (v : Visitor) (post : α → Visitor → Prop) : Prop :=
  match work v with
  | .ok a v' => post a v'
  | .error halt _ => ∃ defect, halt = .defect defect ∧ tree.Fault defect

section

variable {tree : Tree} {v : Visitor} {post : α → Visitor → Prop} {after : β → Visitor → Prop}
  {x : Visit α} {f : PUnit → Visit α} {id : NodeId} {scope : ScopeId}

lemma Leads.bind {f} (hx : Leads tree x v post)
    (hf : ∀ a v', post a v' → Leads tree (f a) v' after) : Leads tree (x >>= f) v after := by
  unfold Leads at hx ⊢
  simp only [Bind.bind, EStateM.bind]
  cases hr : x v with
  | ok a v' =>
    rw [hr] at hx
    exact hf a v' hx
  | error halt v' => rwa [hr] at hx

lemma Leads.imp {post'} (hx : Leads tree x v post) (h : ∀ a v', post a v' → post' a v') :
    Leads tree x v post' := by
  unfold Leads at hx ⊢
  split
  next a v' hr => exact h a v' (by rwa [hr] at hx)
  next _ _ hr => rwa [hr] at hx

lemma leads_pure {a} : Leads tree (pure a) v post ↔ post a v := Iff.rfl

lemma leads_get_bind {f} : Leads tree (get >>= f) v post ↔ Leads tree (f v) v post := Iff.rfl

lemma leads_modify_bind {g} : Leads tree (modify g >>= f) v post ↔ Leads tree (f ⟨⟩) (g v) post :=
  Iff.rfl

lemma leads_throw {defect} (h : tree.Fault defect) :
    Leads tree (throw (.defect defect) : Visit α) v post := ⟨defect, rfl, h⟩

lemma leads_insert_bind {f} (hi : v.innermost = some scope) :
    Leads tree (insert id >>= f) v post ↔ Leads tree (f scope) (v.log [.inside id scope]) post := by
  obtain ⟨_, _, _⟩ := v
  cases hi
  rfl

lemma leads_willExit {node post} (hm : node.isModule = false) : Leads tree (willExit id node) v post ↔
      post ⟨⟩ (if node.isScope then { v with innermost := v.program.scopeOf id } else v) := by
  show post ⟨⟩ (if node.isModule then _ else _) ↔ _
  rw [if_neg (by simp [hm])]

lemma leads_leaveBinding {id bindings post} (hb : v.bindings = id :: bindings) :
    Leads tree (leaveBinding id) v post ↔ post ⟨⟩ { v with bindings } := by
  obtain ⟨program, _, innermost⟩ := v
  cases hb
  have hrest : Leads tree (if id ≠ id then throw (.defect (.mismatchedBindingExit id (some id))) else pure ⟨⟩)
      ⟨program, bindings, innermost⟩ post ↔ post ⟨⟩ ⟨program, bindings, innermost⟩ := by
    rw [if_neg (not_not.2 rfl)]
    exact leads_pure
  exact hrest

end

/-- A step of a walk enters all that is at or below some nodes. -/
def Explores (tree : Tree) (starts : List (Nat × Surroundings)) (work : Visit Unit) (v : Visitor) : Prop :=
  Leads tree work v fun _ v' => ∃ placements, v' = v.log placements ∧ tree.Enters starts placements

/-- A step of a walk at a node that was put into its scope enters the rest. -/
def Descends (tree : Tree) (id : NodeId) (around : Surroundings) (node : Node) (work : Visit Unit)
    (v : Visitor) : Prop :=
  Leads tree work v fun _ v' => ∃ placements, v' = v.log (node.openings id around ++ placements) ∧
    tree.Enters (node.starts id around) placements

/-- A walk does what it should from nodes that are far enough down. -/
def Walks (tree : Tree) (level : Nat) (walk : NodeId → Visit Unit) : Prop :=
  ∀ {trail : List NodeId} {id : Nat} {around : Surroundings} {v : Visitor}, tree.Trail trail id around →
    level ≤ trail.length → v.At tree around → Explores tree [(id, around)] (walk id) v

section

variable {tree : Tree} {around : Surroundings} {v : Visitor} {trail : List NodeId} {level : Nat}
  {walk : NodeId → Visit Unit}

lemma At.log (h : v.At tree around) (placements : List Placement) : (v.log placements).At tree around :=
  ⟨(tree_foldl_place _).trans h.tree_eq, h.innermost_eq, h.bindings_eq⟩

lemma At.within {inner} (h : v.At tree around) (hb : inner.binding = around.binding) :
    At tree inner { v with innermost := inner.scope } :=
  ⟨h.tree_eq, rfl, hb ▸ h.bindings_eq⟩

lemma At.enterScope {α : Type} {id node f} {post : α → Visitor → Prop}
    (h : v.At tree around) (hn : tree.node? id = some node) (hscope : node.isScope)
    (hf : At tree ⟨some id, around.binding⟩ { v.log [.opened id] with innermost := some id } →
      Leads tree (f ⟨⟩) { v.log [.opened id] with innermost := some id } post) :
    Leads tree (Visitor.enterScope id >>= f) v post := by
  have hid : v.program.tree.scope? id = some id := by simp [scope?, isScope, h.tree_eq, hn, hscope]
  rw [Visitor.enterScope, leads_modify_bind, hid]
  exact hf ((h.log _).within rfl)

lemma explores_forM (hw : Walks tree level walk) (hl : level ≤ trail.length) :
    ∀ {ids : List NodeId} {v}, (∀ id ∈ ids, tree.Trail trail id around) → v.At tree around →
      Explores tree (ids.map fun id => (id, around)) (ids.forM walk) v
  | [], _, _, _ => leads_pure.2 ⟨[], rfl, .nil⟩
  | id :: ids, v, ht, hat => by
    rw [forall_mem_cons] at ht
    refine Leads.bind (hw ht.1 hl hat) ?_
    rintro - _ ⟨placements, rfl, henters⟩
    refine Leads.imp (explores_forM hw hl ht.2 (hat.log placements)) ?_
    rintro - _ ⟨others, rfl, hothers⟩
    exact ⟨placements ++ others, (log_append ..).symm, henters.append hothers⟩

/-- A walk that is back where it was. -/
lemma eq_log {v' placements} (hp : v'.program = (v.log placements).program)
    (hb : v'.bindings = v.bindings) (hi : v'.innermost = v.innermost) : v' = v.log placements := by
  obtain ⟨program, bindings, innermost⟩ := v'
  obtain rfl : program = _ := hp
  obtain rfl : bindings = _ := hb
  obtain rfl : innermost = _ := hi
  rfl

/-- What is done below a node that was entered in a scope. -/
def descend (walk : NodeId → Visit Unit) (id : NodeId) (node : Node) (enclosing : ScopeId) : Visit Unit := do
  if ← visitWithin walk id enclosing node then
    node.children.forM walk
    willExit id node

section

variable {id : Nat} {scope : ScopeId} {binding : Option DeclId} {node : Node} (hs : tree.Spanned)
  (hw : Walks tree (trail.length + 1) walk) (ht : tree.Trail trail id ⟨some scope, binding⟩)
  (hn : tree.node? id = some node) (hm : node.isModule = false)
  (hat : v.At tree ⟨some scope, binding⟩)

include hs hw ht hn hm hat

/-- A conditional, whose failure branch stays in the scope around it. -/
lemma descends_visitConditional {condition success failure} (hscope : node.isScope)
    (hchildren : node.children = condition.map ConditionItem.node ++ [success] ++ failure.toList)
    (hinner : ∀ child, failure ≠ some child → node.around id ⟨some scope,
    binding⟩ child = ⟨some id, binding⟩) (houter : ∀ child, failure = some child → node.around id
    ⟨some scope, binding⟩ child = ⟨some scope, binding⟩) : Descends tree id ⟨some scope,
    binding⟩ node (visitConditional walk id scope condition success failure) v := by
  have hnodup := hs.nodup_children ht.stands.attached
  rw [children_of_node? hn, hchildren] at hnodup
  have hnext {child} (hc : child ∈ node.children) := ht.next hn hm hc
  have hheld {child} (hc : child ∈ condition.map ConditionItem.node ++ [success]) :
      node.around id ⟨some scope, binding⟩ child = ⟨some id, binding⟩ := by grind
  have hother {child} (hc : child ∈ failure.toList) : node.around id ⟨some scope,
      binding⟩ child = ⟨some scope, binding⟩ := houter child (Option.mem_toList.1 hc)
  have hstarts : node.starts id ⟨some scope,
      binding⟩ = (condition.map ConditionItem.node).map (·, ⟨some id, binding⟩) ++
      [(success, ⟨some id, binding⟩)] ++ failure.toList.map (·, ⟨some scope, binding⟩) := by
    rw [Node.starts, hchildren, map_append, map_congr_left fun child hc => congrArg (child, ·)
      (hheld hc), map_congr_left fun child hc => congrArg (child, ·) (hother hc), map_append]
    rfl
  have hinside {child} (hc : child ∈ condition.map ConditionItem.node ++ [success]) :
      tree.Trail (id :: trail) child ⟨some id, binding⟩ :=
    hheld hc ▸ hnext (hchildren ▸ mem_append_left _ hc)
  have hbeside {child} (hc : child ∈ failure.toList) : tree.Trail (id :: trail) child ⟨some scope, binding⟩ :=
    hother hc ▸ hnext (hchildren ▸ mem_append_right _ hc)
  refine hat.enterScope hn hscope fun hin => ?_
  refine (explores_forM hw le_rfl (fun child hc => hinside (mem_append_left _ hc)) hin).bind ?_
  rintro - _ ⟨tests, rfl, htests⟩
  refine (hw (hinside (by simp)) le_rfl (hin.log tests)).bind ?_
  rintro - _ ⟨branch, rfl, hbranch⟩
  refine (explores_forM hw le_rfl (fun child hc => hbeside hc) ((hin.log _).log _ |>.within rfl)).imp ?_
  rintro - _ ⟨rest, rfl, hrest⟩
  refine ⟨tests ++ branch ++ rest, eq_log ?_ rfl hat.innermost_eq.symm, hstarts ▸ (htests.append hbranch).append hrest⟩
  simp [log, foldl_append, place, Node.openings_of_isScope hscope]

/-- A do/while loop, whose condition is in the scope of its body. -/
lemma descends_visitLoop {body condition span place members} (hloop : node = .stmt
    ⟨.doWhile body condition, span⟩) (hblock : tree.stmt? body = some ⟨.block members, place⟩) :
    Descends tree id ⟨some scope, binding⟩ node (visitLoop walk id scope body condition) v := by
  subst hloop
  have hne : body ≠ condition := by
    have := hs.nodup_children ht.stands.attached
    simpa [children_of_node? hn, Node.children, StmtKind.children] using this
  have hbody : tree.Trail (id :: trail) body ⟨some scope, binding⟩ := by
    have : tree.Trail _ body _ := ht.next hn hm (by simp [Node.children, StmtKind.children])
    simpa [Node.around] using this
  have hcondition : tree.Trail (id :: trail) condition ⟨some body, binding⟩ := by
    have : tree.Trail _ condition _ := ht.next hn hm (by simp [Node.children, StmtKind.children])
    simpa [Node.around, hne] using this
  have hbn := stmt?_eq_some.1 hblock
  have hmember {member} (hc : member ∈ members.map BlockMember.node) :
      tree.Trail (body :: id :: trail) member ⟨some body, binding⟩ := hbody.next hbn rfl hc
  unfold visitLoop
  simp only [Descends, leads_get_bind, hat.tree_eq, hblock]
  rw [leads_insert_bind hat.innermost_eq]
  refine (hat.log _).enterScope hbn rfl fun hin => ?_
  refine (explores_forM hw (Nat.le_succ _) (fun member hc => hmember hc) hin).bind ?_
  rintro - _ ⟨held, rfl, hheld⟩
  refine (hw hcondition le_rfl (hin.log held)).bind ?_
  rintro - _ ⟨tests, rfl, htests⟩
  have hstarts : Node.starts id ⟨some scope, binding⟩ (.stmt ⟨.doWhile body condition, span⟩) =
      [(body, ⟨some scope, binding⟩), (condition, ⟨some body, binding⟩)] := by
    simp [Node.starts, Node.children, StmtKind.children, Node.around, hne]
  refine ⟨.inside body scope :: .opened body :: (held ++ tests), eq_log ?_ rfl hat.innermost_eq.symm, ?_⟩
  · simp [log, foldl_append, Program.place, Node.openings, Node.isScope]
  · have hbelow : tree.Enters [(body, ⟨some scope, binding⟩)] _ := .single hbn ⟨rfl, by simp⟩ hheld
    exact hstarts ▸ hbelow.append htests

omit hs hm in
/-- A binding, which is around all that is below it. -/
lemma descends_visitBinding {decl span} (hb : node = .decl ⟨.binding decl, span⟩) :
    Descends tree id ⟨some scope, binding⟩ node (visitBinding walk id node.children) v := by
  subst hb
  have hin : At tree ⟨some scope, some id⟩ { v with bindings := id :: v.bindings } :=
    ⟨hat.tree_eq, hat.innermost_eq, rfl⟩
  refine (explores_forM hw le_rfl (fun child hc => ht.next hn rfl hc) hin).bind ?_
  rintro - _ ⟨placements, rfl, henters⟩
  exact (leads_leaveBinding rfl).2 ⟨placements, eq_log rfl rfl rfl, henters⟩

/-- A node that opens a scope for all of its children or for none. -/
lemma descends_plain (hv : v.program.scopeOf id = some scope) (hvisit : visitWithin walk id scope node = do
      if node.isScope then enterScope id
      return true)
    (hopen : node.openings id ⟨some scope, binding⟩ = if node.isScope then [.opened id] else [])
    (haround : ∀ child, node.around id ⟨some scope, binding⟩ child =
      if node.isScope then ⟨some id, binding⟩ else ⟨some scope, binding⟩) :
    Descends tree id ⟨some scope, binding⟩ node (descend walk id node scope) v := by
  rw [descend, hvisit, Descends, hopen]
  simp only [Node.starts, haround]
  have hnext {child} (hc : child ∈ node.children) := haround child ▸ ht.next hn hm hc
  split
  next hscope =>
    simp only [hscope, if_true] at hnext
    simp only [bind_assoc, pure_bind, if_true]
    refine hat.enterScope hn hscope fun hin => ?_
    refine (explores_forM hw le_rfl (fun child hc => hnext hc) hin).bind ?_
    rintro - _ ⟨placements, rfl, henters⟩
    -- a walk that went on from a node does not enter the node
    have hout (scope : ScopeId) : .inside id scope ∉ placements := by
      intro hp
      obtain ⟨_, _, _, _, ht', hn', -, hself⟩ := henters.exists_trail (by simpa using fun child hc => hnext hc) _ hp
      obtain ⟨rfl, -⟩ := Node.inside_mem_entries.1 hself
      exact ht'.not_mem hs ((isModule_of_node? hn).trans hm) (by simp)
    have hback : ((v.log [.opened id]).log placements).program.scopeOf id = v.innermost := by
      rw [hat.innermost_eq, log, scopeOf_foldl_place_of_not_mem hout]
      exact hv
    rw [leads_willExit hm, if_pos hscope]
    exact ⟨placements, eq_log rfl rfl hback, henters⟩
  next hscope =>
    simp only [hscope] at hnext
    simp only [pure_bind, if_true]
    refine Leads.bind (explores_forM hw le_rfl (fun child hc => hnext hc) hat) ?_
    rintro - _ ⟨placements, rfl, henters⟩
    rw [leads_willExit hm, if_neg hscope]
    exact ⟨placements, rfl, henters⟩

end

/-! ### Whole walks -/

variable {node : Node}

section

variable {id : Nat} {scope : ScopeId} {binding : Option DeclId} {rest : ScopeId → Visit Unit}
  {span : Span} (ht : tree.Trail trail id ⟨some scope, binding⟩) (hn : tree.node? id = some node)
  (hm : node.isModule = false) (hat : v.At tree ⟨some scope, binding⟩)

include ht hn hm hat

omit ht in
/-- A node is entered before all that is below it. -/
lemma explores_insert (hloop : ∀ body condition span, node = .stmt ⟨.doWhile body condition, span⟩ →
      ∃ members place, tree.stmt? body = some ⟨.block members, place⟩)
    (hrest : Descends tree id ⟨some scope, binding⟩ node (rest scope) (v.log [.inside id scope])) :
    Explores tree [(id, ⟨some scope, binding⟩)] (insert id >>= rest) v := by
  rw [Explores, leads_insert_bind hat.innermost_eq]
  refine hrest.imp ?_
  rintro - _ ⟨placements, rfl, henters⟩
  exact ⟨_, (log_append v [_] _).symm, .single hn ⟨hm, hloop⟩ henters⟩

omit ht hn hm in
lemma descends_var {name} (hnode : node = .decl ⟨.var name, span⟩) :
    Descends tree id ⟨some scope, binding⟩ node (descend walk id node scope) v := by
  subst hnode
  simp only [Descends, descend, visitWithin, bind_assoc, pure_bind, if_true]
  rw [leads_modify_bind]
  show Leads tree (willExit id (.decl ⟨.var name, span⟩)) _ _
  rw [leads_willExit rfl, if_neg (by simp [Node.isScope])]
  refine ⟨[], ?_, .nil⟩
  rw [append_nil, Node.openings, ← show v.bindings.head? = binding from hat.bindings_eq]
  cases hb : v.bindings with
  | nil => simp [log]
  | cons b bindings => simp [hb, log, place]

omit hm in
/-- A loop without a block stops the walk. -/
lemma explores_loop_fault {body condition} (hnode : node = .stmt ⟨.doWhile body condition, span⟩)
    (hblock : ¬∃ members place, tree.stmt? body = some ⟨.block members, place⟩) :
    Explores tree [(id, ⟨some scope, binding⟩)] (insert id >>= descend walk id node) v := by
  subst hnode
  simp only [not_exists] at hblock
  have hfault := Tree.Fault.loop ht.stands.attached (stmt?_eq_some.2 hn) hblock
  rw [Explores, leads_insert_bind hat.innermost_eq]
  simp only [descend, visitWithin, visitLoop, bind_assoc]
  rw [leads_get_bind, (hat.log _).tree_eq]
  split
  next members place hfound => exact absurd hfound (hblock members place)
  next => exact leads_throw hfault

lemma explores_nested (hs : tree.Spanned) (hw : Walks tree (trail.length + 1) walk) :
    Explores tree [(id, ⟨some scope, binding⟩)] (insert id >>= descend walk id node) v := by
  have hin := hat.log [.inside id scope]
  have hplaced : (v.log [.inside id scope]).program.scopeOf id = some scope := by
    simp [log, scopeOf_place]
  have plain := descends_plain hs hw ht hn hm hin hplaced
  -- kinds of nodes that see to what is below them
  have hdone {work} (hvisit : visitWithin walk id scope node = do work; return false)
      (h : Descends tree id ⟨some scope, binding⟩ node work (v.log [.inside id scope])) :
      Descends tree id ⟨some scope, binding⟩ node (descend walk id node scope) (v.log [.inside id scope]) := by
    simp only [descend, hvisit, bind_assoc, pure_bind]
    exact Leads.bind h fun _ _ hv' => leads_pure.2 hv'
  cases node with
  | decl decl =>
    obtain ⟨kind, span⟩ := decl
    cases kind with
    | module => cases hm
    | var name => exact explores_insert hn hm hat (by simp) (descends_var hin rfl)
    | binding decl =>
      exact explores_insert hn hm hat (by simp) (hdone rfl (descends_visitBinding hw ht hn hin rfl))
    | function | param | genericParam | trait | product =>
      exact explores_insert hn hm hat (by simp) (plain rfl rfl fun _ => rfl)
  | stmt stmt =>
    obtain ⟨kind, span⟩ := stmt
    cases kind with
    | cond condition success failure =>
      refine explores_insert hn hm hat (by simp) (hdone rfl (descends_visitConditional hs hw ht hn hm hin rfl ?_ ?_ ?_))
      · simp [Node.children, StmtKind.children]
      · intro child hne
        simp [Node.around, hne]
      · intro child he
        simp [Node.around, he]
    | doWhile body condition =>
      by_cases hblock : ∃ members place, tree.stmt? body = some ⟨.block members, place⟩
      · obtain ⟨members, place, hb⟩ := hblock
        refine explores_insert hn hm hat ?_ (hdone rfl (descends_visitLoop hs hw ht hn hm hin rfl hb))
        rintro _ _ _ ⟨⟩
        exact ⟨members, place, hb⟩
      · exact explores_loop_fault ht hn hat rfl hblock
    | block | ret | whileLoop =>
      exact explores_insert hn hm hat (by simp) (plain rfl rfl fun _ => rfl)
  | expr expr =>
    obtain ⟨kind, _⟩ := expr
    cases kind with
    | cond condition success failure =>
      refine explores_insert hn hm hat (by simp) (hdone rfl (descends_visitConditional hs hw ht hn hm hin rfl ?_ ?_ ?_))
      · simp [Node.children, ExprKind.children]
      · intro child hne
        simp [Node.around, mt (congrArg some) hne]
      · intro child he
        simp [Node.around, Option.some.inj he]
    | _ => exact explores_insert hn hm hat (by simp) (plain rfl rfl fun _ => rfl)
  | case => exact explores_insert hn hm hat (by simp) (plain rfl rfl fun _ => rfl)

end

lemma explores_module {id} (hw : Walks tree 1 walk) (ht : tree.Trail [] id ⟨none, none⟩)
    (hn : tree.node? id = some node) (hm : node.isModule) (hat : v.At tree ⟨none, none⟩) :
    Explores tree [(id, ⟨none, none⟩)] (do
      enterScope id
      node.children.forM walk
      willExit id node) v := by
  match node, hm with
  | .decl ⟨.module name members, span⟩, hm =>
    have hnext {child} (hc : child ∈ members) : tree.Trail [id] child ⟨some id, none⟩ :=
      .child ht hn (iff_of_true hm rfl) hc
    refine hat.enterScope hn rfl fun hin => ?_
    refine (explores_forM hw le_rfl (fun child hc => hnext hc) hin).bind ?_
    rintro - _ ⟨placements, rfl, henters⟩
    exact ⟨.opened id :: placements, eq_log rfl rfl hat.innermost_eq.symm, .single hn ⟨hm, by simp⟩ henters⟩

/-- The walk does what it should if its depth and its way make up for the number of nodes. -/
lemma walks_walkWithin (hs : tree.Spanned) (depth : Nat) : ∀ {trail id around v},
      tree.Trail trail id around → tree.size < depth + trail.length → v.At tree around →
      Explores tree [(id, around)] (walkWithin depth id) v := by
  induction depth with
  | zero =>
    intro trail id around v ht hdepth
    have := ht.length_le hs
    omega
  | succ depth ih =>
    intro trail id around v ht hdepth hat
    have hw : Walks tree (trail.length + 1) (walkWithin depth) := fun ht' hle hat' => ih ht' (by omega) hat'
    obtain ⟨node, hn⟩ := hs.exists_node ht.stands.attached
    simp only [walkWithin, Explores, leads_get_bind, hat.tree_eq, hn, willEnter]
    cases hm : node.isModule with
    | true =>
      cases trail with
      | nil =>
        cases ht with
        | root hroot =>
          simp only [if_true, bind_assoc, leads_get_bind, hat.innermost_eq, Option.isSome_none,
            Bool.false_eq_true, if_false, pure_bind]
          exact explores_module hw (.root hroot) hn hm hat
      | cons parent trail =>
        have hnested : tree.Nested id := ⟨parent, ht.parent⟩
        simp only [if_true, bind_assoc, leads_get_bind, hat.innermost_eq, ht.scope_isSome]
        exact leads_throw (.nested hnested ((isModule_of_node? hn).trans hm))
    | false =>
      cases trail with
      | nil =>
        cases ht with
        | root hroot =>
          simp only [Bool.false_eq_true, if_false, bind_assoc]
          have hfault := Tree.Fault.orphan hroot ((isModule_of_node? hn).trans hm)
          rw [insert, bind_assoc, leads_get_bind, hat.innermost_eq]
          exact leads_throw hfault
      | cons parent trail =>
        obtain ⟨_, hscope⟩ := Option.isSome_iff_exists.1 ht.scope_isSome
        obtain ⟨_, _⟩ := around
        cases hscope
        simp only [Bool.false_eq_true, if_false, bind_assoc]
        exact explores_nested ht hn hm hat hs hw

end

end Visitor

/-- The entries of a whole walk. -/
abbrev Tree.EntersAll (tree : Tree) (placements : List Placement) : Prop :=
  tree.Enters (tree.modules.map fun root => (root, ⟨none, none⟩)) placements

namespace Tree.EntersAll

variable {tree : Tree} {placements : List Placement} (h : tree.EntersAll placements)
  {id scope binding : Nat}

include h

/-- Every node is entered where it stands. -/
lemma visited_of_stands {around} (hs : tree.Stands id around) : tree.Visited placements id around := by
  induction hs with
  | root hm => exact h.visited _ (mem_map.2 ⟨_, hm, rfl⟩)
  | child _ hn hc ih =>
    obtain ⟨_, below, hn', -, hbelow, hsub⟩ := ih
    cases hn.symm.trans hn'
    obtain ⟨node, inner, hnode, hsound, hinner, hsub'⟩ := hbelow.visited _ (mem_map.2 ⟨_, hc, rfl⟩)
    exact ⟨node, inner, hnode, hsound, hinner,
      List.Subset.trans hsub' (List.Subset.trans (subset_append_right _ _) hsub)⟩

/-- A node that stands somewhere is as it should be. -/
lemma sound {around node} (hs : tree.Stands id around) (hn : tree.node? id = some node) : node.Sound tree around := by
  obtain ⟨_, _, hn', hsound, -⟩ := h.visited_of_stands hs
  cases hn.symm.trans hn'
  exact hsound

lemma exists_stands {placement} (hp : placement ∈ placements) :
    ∃ id around node, tree.Stands id around ∧ placement ∈ Node.entries id around node := by
  obtain ⟨_, id, around, node, ht, -, -, hmem⟩ := h.exists_trail (by simpa using fun root hroot => .root hroot) _ hp
  exact ⟨id, around, node, ht.stands, hmem⟩

lemma inside_mem_iff : .inside id scope ∈ placements ↔ ∃ binding, tree.Stands id ⟨some scope, binding⟩ := by
  refine ⟨fun hp => ?_, fun ⟨binding, hs⟩ => ?_⟩
  · obtain ⟨_, ⟨_, binding⟩, _, hs, hmem⟩ := h.exists_stands hp
    obtain ⟨rfl, rfl⟩ := Node.inside_mem_entries.1 hmem
    exact ⟨binding, hs⟩
  · obtain ⟨_, _, -, -, -, hsub⟩ := h.visited_of_stands hs
    exact hsub (mem_append_left _ (Node.inside_mem_entries.2 ⟨rfl, rfl⟩))

lemma stands_of_bound (hp : .bound id binding ∈ placements) : ∃ scope, tree.Stands id ⟨scope, some binding⟩ := by
  obtain ⟨_, ⟨scope, _⟩, _, hs, hmem⟩ := h.exists_stands hp
  obtain ⟨rfl, rfl, -⟩ := Node.bound_mem_entries.1 hmem
  exact ⟨scope, hs⟩

lemma bound_mem {scope} (hv : tree.Declares DeclKind.isVar id)
    (hs : tree.Stands id ⟨scope, some binding⟩) : .bound id binding ∈ placements := by
  obtain ⟨node, _, hn, -, -, hsub⟩ := h.visited_of_stands hs
  obtain ⟨⟨kind, span⟩, hd, hk⟩ := hv
  cases hn.symm.trans (decl?_eq_some.1 hd)
  cases kind with
  | var name => exact hsub (mem_append_left _ (Node.bound_mem_entries.2 ⟨rfl, rfl, name, span, rfl⟩))
  | _ => cases hk

/-- A walk that enters all nodes has found nothing wrong with them. -/
lemma placeable : tree.Placeable := by
  refine ⟨fun root hroot => ?_, ?_, ?_⟩
  · obtain ⟨_, _, hn, hsound, -⟩ := h.visited_of_stands (.root hroot)
    exact (isModule_of_node? hn).trans hsound.isModule_eq
  · rintro id ⟨parent, hp, hc⟩
    obtain ⟨outer, ho⟩ := hp.stands
    obtain ⟨node, hn, hc⟩ := exists_node_of_child hc
    obtain ⟨_, _, hchild, hsound, -⟩ := h.visited_of_stands (.child ho hn hc)
    rw [isModule_of_node? hchild, hsound.isModule_eq, Option.isNone_eq_false_iff]
    have hmodule := (h.sound ho hn).isModule_eq
    rcases node.scope_around parent outer id with he | ⟨-, he⟩ | ⟨_, _, _, -, -, he⟩
    · cases hscope : outer.scope with
      | none =>
        rw [hscope] at hmodule
        simp [Node.scope_around_of_isModule hmodule]
      | some scope => simp [he, hscope]
    · simp [he]
    · simp [he]
  · intro id body condition span ha hd
    obtain ⟨_, hs⟩ := ha.stands
    exact (h.sound hs (stmt?_eq_some.1 hd)).loop body condition span rfl

end Tree.EntersAll

namespace Program

/-- Either the structure of a forest is found, with all nodes entered as they stand, or there is a
fault. -/
lemma ofTree_cases {tree} (hs : tree.Spanned) : (∃ placements,
    ofTree tree = .ok (placements.foldl place (bare tree)) ∧ tree.EntersAll placements) ∨
      ∃ defect, ofTree tree = .error (.defect defect) ∧ tree.Fault defect := by
  have hat : Visitor.At tree ⟨none, none⟩ (.new tree) := ⟨rfl, rfl, rfl⟩
  have hwalks : Visitor.Walks tree 0 (Visitor.walkWithin (tree.size + 1)) := fun ht _ hat' =>
    Visitor.walks_walkWithin hs _ ht (by omega) hat'
  have hrun := Visitor.explores_forM hwalks (Nat.zero_le _) (fun root hroot => .root hroot) hat
  unfold ofTree
  unfold Visitor.Explores Visitor.Leads at hrun
  split at hrun
  next v' hv' =>
    obtain ⟨placements, rfl, henters⟩ := hrun
    exact .inl ⟨placements, by rw [hv']; rfl, henters⟩
  next _ _ hv' => grind

lemma scopeOf_iff {tree : Tree} {placements} (h : tree.EntersAll placements) (hs : tree.Spanned)
    {id scope} : (placements.foldl place (bare tree)).scopeOf id = some scope ↔ ∃ binding,
    tree.Stands id ⟨some scope, binding⟩ := by
  have hstands {id scope} (hscope : (placements.foldl place (bare tree)).scopeOf id = some scope) :
      ∃ binding, tree.Stands id ⟨some scope, binding⟩ := by
    rcases scopeOf_foldl_place hscope with hnone | hin
    · simp [bare, scopeOf] at hnone
    · exact h.inside_mem_iff.1 hin
  refine ⟨hstands, ?_⟩
  rintro ⟨binding, hid⟩
  have hsome : ((placements.foldl place (bare tree)).scopeOf id).isSome :=
    isSome_scopeOf_foldl_place (.inr (h.inside_mem_iff.2 ⟨binding, hid⟩))
  obtain ⟨_, hother⟩ := Option.isSome_iff_exists.1 hsome
  obtain ⟨_, hid'⟩ := hstands hother
  cases h.placeable.stands_unique hs hid hid'
  exact hother

end Program

end TraitLang
