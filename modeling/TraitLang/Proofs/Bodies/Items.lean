import TraitLang.Proofs.Descent
import TraitLang.Proofs.Outcome

/-! Lists in statements. The members of a block and the clauses of a condition are checked in the
same way, one after the other. They differ in what the expressions among them are checked against,
in where they are seen from, and in where they are stored. -/
namespace TraitLang

open List

/-- A clause of a condition as it would stand in a block. -/
def ConditionItem.asMember : ConditionItem → BlockMember
  | .expr id => .expr id
  | .decl id => .decl id

@[simp]
lemma BlockMember.node_expr (id : ExprId) : (expr id).node = id := rfl

@[simp]
lemma ConditionItem.node_asMember (item : ConditionItem) : item.asMember.node = item.node := by cases item <;> rfl

lemma ConditionItem.Fits.asMember {tree} {item : ConditionItem} (h : item.Fits tree) : item.asMember.Fits tree := by
  cases item with
  | expr id => exact h
  | decl id => exact h.imp fun found hd => ⟨hd.1, by simp [DeclKind.isLocal, hd.2]⟩

variable {packs : ExprId → ExprId → Prop}

lemma ConditionItem.patched_iff {before after} :
    Patched packs before after ↔ BlockMember.Patched packs before.asMember after.asMember := by
  constructor
  · rintro (_ | hp)
    · exact .same _
    · exact .expr hp
  · intro h
    cases before <;> cases after <;> cases h <;> first | exact .same _ | exact .expr ‹_›

/-- What stands in the slot of an expression. -/
lemma BlockMember.Patched.exists_expr (hrefl : ∀ id, packs id id) {before slot}
    (h : Patched packs before (.expr slot)) : ∃ child, before = .expr child ∧ packs child slot := by
  cases h with
  | same => exact ⟨slot, rfl, hrefl slot⟩
  | expr hp => exact ⟨_, rfl, hp⟩

lemma exists_mem_of_forall₂ {α : Type} {related : α → α → Prop} {before after}
    (h : List.Forall₂ related before after) {b} (hb : b ∈ after) : ∃ a ∈ before, related a b := by
  induction h with
  | nil => cases hb
  | cons hr _ ih => grind

namespace Body

/-- A list in statements of a kind, by what its items would be in a block. -/
structure Row (α : Type) where
  view : α → BlockMember
  kind : List α → StmtKind
  tail : List NodeId
  expected : Option Ty
  site : Body → ScopeId
  ofExpr : ExprId → α
  store : Nat → ExprId → StmtKind → Option StmtKind
  view_ofExpr : ∀ id, view (ofExpr id) = .expr id
  children_eq : ∀ items, (kind items).children = items.map (fun item => (view item).node) ++ tail
  store_eq :
  ∀ index id items, store index id (kind items) = (Tree.setSlot items index (ofExpr id)).map kind
  patched_iff :
  ∀ {packs items after}, (kind items).Patched packs after ↔ ∃ slots, after = kind slots ∧
    List.Forall₂ (fun item slot => (view item).Patched packs (view slot)) items slots

/-- The members of a block are seen from where the checker is, which is inside of the block. -/
def Row.block : Row BlockMember where
  view member := member
  kind := .block
  tail := []
  expected := none
  site := useSite
  ofExpr := .expr
  store := setMember
  view_ofExpr _ := id_eq _
  children_eq _ := by simp [StmtKind.children]
  store_eq _ _ _ := rfl
  patched_iff {packs items after} := by
    constructor
    · rintro (_ | h)
      · exact ⟨items, rfl, forall₂_same.2 fun _ _ => .same _⟩
      · exact ⟨_, rfl, h⟩
    · rintro ⟨slots, rfl, h⟩
      exact .block h

/-- The tests of a statement are boolean, and are seen from its scope. -/
def Row.tests (scope : ScopeId) (kind : List ConditionItem → StmtKind) (tail : List NodeId)
    (children_eq : ∀ items, (kind items).children = items.map ConditionItem.node ++ tail)
    (store_eq : ∀ index id items, setTest index id (kind items) = (Tree.setSlot items index
    (.expr id)).map kind) (patched_iff : ∀ {packs items after}, (kind items).Patched packs after ↔
    ∃ slots, after = kind slots ∧ List.Forall₂ (ConditionItem.Patched packs) items slots) :
      Row ConditionItem where
  view := ConditionItem.asMember
  kind := kind
  tail := tail
  expected := some .bool
  site _ := scope
  ofExpr := .expr
  store := setTest
  view_ofExpr _ := rfl
  children_eq items := by simp [children_eq]
  store_eq := store_eq
  patched_iff := by simp only [patched_iff, ← ConditionItem.patched_iff, implies_true]

def Row.cond (scope : ScopeId) (success : StmtId) (failure : Option StmtId) : Row ConditionItem :=
  .tests scope (.cond · success failure) (success :: failure.toList) (fun _ => rfl) (fun _ _ _ => rfl) <| by
    intro packs items after
    constructor
    · rintro (_ | _ | _ | h)
      · exact ⟨items, rfl, forall₂_same.2 fun _ _ => .same _⟩
      · exact ⟨_, rfl, h⟩
    · rintro ⟨slots, rfl, h⟩
      exact .cond h

def Row.whileLoop (scope : ScopeId) (body : StmtId) : Row ConditionItem :=
  .tests scope (.whileLoop · body) [body] (fun _ => rfl) (fun _ _ _ => rfl) <| by
    intro packs items after
    constructor
    · rintro (_ | _ | _ | _ | h)
      · exact ⟨items, rfl, forall₂_same.2 fun _ _ => .same _⟩
      · exact ⟨_, rfl, h⟩
    · rintro ⟨slots, rfl, h⟩
      exact .whileLoop h

variable {σ α : Type} (c : Collaborator σ) (nested : StmtId → Steps σ Bool) (id : StmtId)

variable {c id} in
lemma ensures_updateSlots_bind {f : PUnit → Steps σ α} {run post change tree}
    (h : (c.program run.context).tree.updateStmt id change = some tree) (hf : Ensures (f ⟨⟩)
    { run with context := c.setProgram { c.program run.context with tree } run.context } post) :
    Ensures (updateSlots c id change >>= f) run post := by
  simpa only [updateSlots, program, bind_assoc, ensures_get_bind, ensures_pure_bind, h, ensures_modify_bind] using hf

def checkItem (row : Row α) (index : Nat) (item : α) : Steps σ Bool :=
  match row.view item with
  | .decl decl => ask (c.checkDecl decl)
  | .stmt inner => nested inner
  | .expr expr => do
    let body := (← get).body
    let checked ← checkExpr c expr row.expected (row.site body) body.policy
    updateSlots c id (row.store index checked.expr)
    return !checked.type.hasErrors

lemma checkMembers_eq (index : Nat) (members : List BlockMember) : checkMembers c nested id index
    members = inTurn (checkItem c nested id .block) index members := by
  induction members generalizing index with
  | nil => rfl
  | cons member members ih => cases member <;> simp [checkMembers, inTurn, checkItem, Row.block, ih]

/-- What statements the tests are in does not matter. -/
lemma checkConditions_eq (scope : ScopeId) (index : Nat) (items : List ConditionItem) :
    checkConditions c id scope index items = inTurn (checkItem c nested id (.cond scope id none)) index items := by
  induction items generalizing index with
  | nil => rfl
  | cons item items ih =>
    cases item <;> simp [checkConditions, inTurn, checkItem, Row.cond, Row.tests, ConditionItem.asMember, ih]

end Body

end TraitLang
