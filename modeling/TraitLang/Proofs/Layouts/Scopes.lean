import TraitLang.Proofs.Parsing.Moving
import TraitLang.Proofs.Visiting

/-! Scopes do not depend on where nodes stand. What the walk enters for a node is a matter of kinds
and numbers of nodes only. -/
namespace TraitLang

namespace Relabeling

/-! ### Nodes at other places -/

section

variable (start stop : Position → Position)

@[simp]
lemma id_move (id : NodeId) : (move start stop).id id = id := rfl

@[simp]
lemma map_id_move (ids : List NodeId) : ids.map (move start stop).id = ids := List.map_id' ids

@[simp]
lemma option_id_move (id : Option NodeId) : id.map (move start stop).id = id := by
  cases id <;> rfl

@[simp]
lemma map_item_move (items : List ConditionItem) : items.map (move start stop).item = items := by
  have hitem : (move start stop).item = fun item => item := by
    funext item
    cases item <;> rfl
  rw [hitem, List.map_id']

@[simp]
lemma map_member_move (members : List BlockMember) : members.map (move start stop).member = members := by
  have hmember : (move start stop).member = fun member => member := by
    funext member
    cases member <;> rfl
  rw [hmember, List.map_id']

mutual

@[simp]
lemma pattern_move : ∀ pattern, (move start stop).pattern pattern = pattern
  | .name _ => rfl
  | .tuple elements => congrArg Pattern.tuple (patterns_move elements)
  | .wildcard => rfl
  | .expr _ => rfl

lemma patterns_move : ∀ patterns, (move start stop).patterns patterns = patterns
  | [] => rfl
  | pattern :: patterns => by rw [Relabeling.patterns, pattern_move pattern, patterns_move patterns]

end

@[simp]
lemma exprKind_move (kind : ExprKind) : (move start stop).exprKind kind = kind := by
  cases kind <;> simp [exprKind]

@[simp]
lemma stmtKind_move (kind : StmtKind) : (move start stop).stmtKind kind = kind := by
  cases kind <;> simp [stmtKind]

@[simp]
lemma children_move (node : Node) : ((move start stop).node node).children = node.children := by
  cases node with
  | decl decl =>
    obtain ⟨kind, _⟩ := decl
    cases kind <;> simp [node, Node.children, declKind, DeclKind.children, function, binding]
  | stmt stmt | expr expr | case case => simp [node, Node.children]

@[simp]
lemma isModule_move (node : Node) : ((move start stop).node node).isModule = node.isModule := by
  cases node with
  | decl decl =>
    obtain ⟨kind, _⟩ := decl
    cases kind <;> rfl
  | _ => rfl

@[simp]
lemma isScope_move (node : Node) : ((move start stop).node node).isScope = node.isScope := by
  cases node with
  | decl decl =>
    obtain ⟨kind, _⟩ := decl
    cases kind <;> rfl
  | stmt stmt | expr expr => simp [node, Node.isScope]
  | case case => rfl

end

variable (r : Relabeling)

lemma decl?_tree (tree : Tree) (id : NodeId) : (r.tree tree).decl? id = (tree.decl? id).map
    fun decl => ⟨r.declKind decl.kind, r.span decl.span⟩ := by
  unfold Tree.decl?
  rw [node?_tree]
  rcases tree.node? id with _ | _ | _ | _ | _ <;> rfl

lemma stmt?_tree (tree : Tree) (id : NodeId) : (r.tree tree).stmt? id = (tree.stmt? id).map
    fun stmt => ⟨r.stmtKind stmt.kind, r.span stmt.span⟩ := by
  unfold Tree.stmt?
  rw [node?_tree]
  rcases tree.node? id with _ | _ | _ | _ | _ <;> rfl

lemma case?_tree (tree : Tree) (id : NodeId) : (r.tree tree).case? id = (tree.case? id).map
    fun case => ⟨r.pattern case.pattern, r.id case.body, r.span case.span⟩ := by
  unfold Tree.case?
  rw [node?_tree]
  rcases tree.node? id with _ | _ | _ | _ | _ <;> rfl

variable (start stop : Position → Position)

lemma children_tree (tree : Tree) (id : NodeId) :
    ((move start stop).tree tree).children id = tree.children id := by
  unfold Tree.children
  rw [node?_tree]
  cases tree.node? id <;> simp

lemma modules_tree (tree : Tree) : ((move start stop).tree tree).modules = tree.modules :=
  map_id_move start stop tree.modules

lemma scope?_tree (tree : Tree) (id : NodeId) :
    ((move start stop).tree tree).scope? id = tree.scope? id := by
  unfold Tree.scope? Tree.isScope
  rw [node?_tree]
  cases tree.node? id <;> simp

def program (r : Relabeling) (program : Program) : Program :=
  { program with tree := r.tree program.tree }

/-! ### Entries -/

section

variable (start stop : Position → Position) {tree : Tree} {id : NodeId} {around : Surroundings}

lemma around_move (node : Node) (child : NodeId) :
    ((move start stop).node node).around id around child = node.around id around child := by
  cases node with
  | decl decl =>
    obtain ⟨kind, _⟩ := decl
    cases kind <;> rfl
  | stmt stmt =>
    obtain ⟨kind, _⟩ := stmt
    rw [node, stmtKind_move]
    cases kind <;> rfl
  | expr expr =>
    obtain ⟨kind, _⟩ := expr
    rw [node, exprKind_move]
    cases kind <;> rfl
  | case => rfl

lemma openings_move (node : Node) : ((move start stop).node node).openings id around = node.openings id around := by
  have hscope := isScope_move start stop node
  cases node with
  | decl decl =>
    obtain ⟨kind, _⟩ := decl
    cases kind <;> rfl
  | _ => exact congrArg (fun scope : Bool => if scope then [Placement.opened id] else []) hscope

lemma sound_move {node} (h : node.Sound tree around) :
    ((move start stop).node node).Sound ((move start stop).tree tree) around := by
  refine ⟨(isModule_move start stop node).trans h.isModule_eq, fun body condition span hloop => ?_⟩
  cases node with
  | stmt stmt =>
    obtain ⟨kind, _⟩ := stmt
    rw [node, stmtKind_move] at hloop
    cases hloop
    obtain ⟨members, place, hbody⟩ := h.loop body condition _ rfl
    exact ⟨members, _, by rw [stmt?_tree, hbody, Option.map_some, stmtKind_move]⟩
  | _ => cases hloop

/-- The same is entered at other places. -/
lemma enters_move {starts placements} (h : tree.Enters starts placements) :
    ((move start stop).tree tree).Enters starts placements := by
  induction h with
  | nil => exact .nil
  | @cons id around node starts below rest hn hs _ _ ih1 ih2 =>
    have hstarts : ((move start stop).node node).starts id around = node.starts id around := by
      simp [Node.starts, around_move]
    have hentries : ((move start stop).node node).entries id around = node.entries id around := by
      rw [Node.entries, openings_move, Node.entries]
    rw [← hstarts] at ih1
    exact hentries ▸ .cons (by rw [node?_tree, hn]; rfl) (sound_move start stop hs) ih1 ih2

lemma spanned_move (h : tree.Spanned) : ((move start stop).tree tree).Spanned := by
  have hchildren : ((move start stop).tree tree).children = tree.children := funext (children_tree start stop tree)
  have hattached {id : Nat} : ((move start stop).tree tree).Attached id ↔ tree.Attached id := by
    rw [Tree.Attached, Tree.Reaches, hchildren, modules_tree]
    exact .rfl
  refine ⟨fun ha => ?_, fun ha => ?_, fun hp hq hc hc' => ?_⟩
  · obtain ⟨node, hn⟩ := h.exists_node (hattached.1 ha)
    exact ⟨_, by rw [node?_tree, hn]; rfl⟩
  · rw [hchildren]
    exact h.nodup_children (hattached.1 ha)
  · rw [hchildren] at hc hc'
    exact h.parent_unique (hattached.1 hp) (hattached.1 hq) hc hc'

lemma place_move (program : Program) (placement : Placement) : ((move start stop).program program).place placement =
    (move start stop).program (program.place placement) := by
  cases placement with
  | inside node scope =>
    simp only [Program.place, Program.insert, Relabeling.program, decl?_tree, Option.isSome_map]
    split <;> rfl
  | opened | bound => rfl

end

end Relabeling

/-- The scopes of a forest at other places. -/
lemma Program.ofTree_moved (start stop : Position → Position) {tree : Tree} (hs : tree.Spanned)
    {program} (h : ofTree tree = .ok program) : ofTree ((Relabeling.move start stop).tree tree) =
    .ok ((Relabeling.move start stop).program program) := by
  rcases ofTree_cases hs with ⟨placements, hp, henters⟩ | ⟨_, hp, -⟩
  · cases h.symm.trans hp
    have hmoved : ((Relabeling.move start stop).tree tree).EntersAll
        placements := by grind [Relabeling.modules_tree, Relabeling.enters_move]
    rcases ofTree_cases (Relabeling.spanned_move start stop hs) with ⟨_, hp', henters'⟩ | ⟨_, -, hfault⟩
    · rw [hp', ← hmoved.unique henters']
      have hfold : placements.foldl place ((Relabeling.move start stop).program (bare tree)) = _ :=
        List.foldl_hom _ (Relabeling.place_move start stop)
      exact congrArg Except.ok hfold
    · exact absurd hmoved.placeable hfault.not_placeable
  · cases h.symm.trans hp

end TraitLang
