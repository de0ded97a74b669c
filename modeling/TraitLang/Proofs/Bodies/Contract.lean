import TraitLang.Proofs.Bodies.Calls
import TraitLang.Proofs.Packing

/-! What statement checkers and their collaborators owe to each other. A collaborator may do what it
likes as long as it answers and leaves statements, the functions around nodes and known signatures
alone. Then everything in a statement that it has to see to is put before it once, in the order of
reading, and what it answers is stored in the places that were asked about. -/
namespace TraitLang

open List TraitLang.Tree

namespace Collaborator

variable {σ : Type}

def functionAround? (c : Collaborator σ) (s : σ) (id : NodeId) : Option DeclId :=
  ((c.program s).scopeOf id).bind (c.program s).enclosingFunction?

/-- From one state of a collaborator to another, what a statement checker relies on stays. -/
structure Spares (c : Collaborator σ) (s s' : σ) : Prop where
  stmts : ∀ {id stmt}, (c.program s).tree.stmt? id = some stmt → (c.program s').tree.stmt? id = some stmt
  around : ∀ {id function}, c.functionAround? s id = some function →
  c.functionAround? s' id = some function
  signatures : ∀ {function signature}, c.signature? s function = some signature →
  c.signature? s' function = some signature

protected lemma Spares.refl (c : Collaborator σ) (s : σ) : c.Spares s s :=
  ⟨fun h => h, fun h => h, fun h => h⟩

protected lemma Spares.trans {c : Collaborator σ} {s s' s''} (h1 : c.Spares s s')
    (h2 : c.Spares s' s'') : c.Spares s s'' :=
  ⟨fun h => h2.stmts (h1.stmts h), fun h => h2.around (h1.around h), fun h => h2.signatures (h1.signatures h)⟩

/-- A collaborator that always answers and spares what a statement checker relies on. -/
structure Dutiful (c : Collaborator σ) : Prop where
  program_setProgram : ∀ program s, c.program (c.setProgram program s) = program
  signature?_setProgram : ∀ program s, c.signature? (c.setProgram program s) = c.signature? s
  checkDecl : ∀ id s, Ensures (c.checkDecl id) s fun _ s' => c.Spares s s'
  checkExpr : ∀ id expected site policy s, Ensures (c.checkExpr id expected site policy) s fun _ s' => c.Spares s s'
  generics : ∀ function s, Ensures (c.generics function) s fun _ s' => c.Spares s s'
  instantiate : ∀ generics type site s, Ensures (c.instantiate generics type site) s fun _ s' =>
  c.Spares s s'
  report : ∀ diagnostic s, c.Spares s (c.report diagnostic s)

/-- A call with nothing wrong in it. -/
def Call.good : Call → Bool
  | .decl _ good => good
  | .expr _ _ _ _ checked => !checked.type.hasErrors
  | .generics _ _ => true
  | .instantiate _ _ _ _ => true
  | .report _ => false

def Call.stored? : Call → Option ExprId
  | .expr _ _ _ _ checked => some checked.expr
  | _ => none

end Collaborator

open Collaborator

namespace Tree

variable {tree : Tree} {id : StmtId} {before : Stmt}

lemma stmt?_put (h : tree.node? id = some (.stmt before)) (after : Stmt) (other : NodeId) :
    (tree.put id (.stmt after)).stmt? other = if id = other then some after else tree.stmt? other := by
  unfold stmt?
  rw [node?_put (lt_size h)]
  by_cases heq : id = other <;> simp [heq]

lemma isFunction_put (h : tree.node? id = some (.stmt before)) (after : Stmt) :
    (tree.put id (.stmt after)).isFunction = tree.isFunction := by
  funext other
  unfold isFunction decl?
  rw [node?_put (lt_size h)]
  by_cases heq : id = other
  · simp [← heq, h]
  · simp [heq]

end Tree

/-- Scopes have nothing to do with what is in a tree. -/
lemma Program.chainWithin_tree (program : Program) (tree : Tree) : ∀ (length : Nat) (scope : ScopeId),
    chainWithin { program with tree } length scope = chainWithin program length scope
  | 0, _ => rfl
  | length + 1, scope => by
    unfold chainWithin
    rw [show parent { program with tree } scope = parent program scope from rfl]
    cases program.parent scope with
    | none => rfl
    | some outer => exact congrArg (scope :: ·) (chainWithin_tree program tree length outer)

lemma Program.enclosingFunction?_put {program : Program} {id : StmtId} {before : Stmt}
    (h : program.tree.node? id = some (.stmt before)) (after : Stmt) : enclosingFunction?
    { program with tree := program.tree.put id (.stmt after) } = program.enclosingFunction? := by
  funext scope
  unfold enclosingFunction? chain
  rw [chainWithin_tree, isFunction_put h]

/-- Changes the expressions in the slots of a statement, each by its index. -/
def StmtKind.refill (f : Nat → ExprId → ExprId) : StmtKind → StmtKind
  | .block members => .block (members.mapIdx fun index member => member.mapExpr (f index))
  | .ret value => .ret (value.map (f 0))
  | .cond condition success failure =>
    .cond (condition.mapIdx fun index item => item.mapExpr (f index)) success failure
  | .whileLoop condition body => .whileLoop (condition.mapIdx fun index item => item.mapExpr (f index)) body
  | .doWhile body condition => .doWhile body (f 0 condition)

namespace Body

variable {σ : Type}

/-! ### Slots -/

/-- A place in a statement that a collaborator sees to. Expressions are asked about from a scope. -/
inductive Slot where
  | decl (id : DeclId)
  | expr (owner : StmtId) (index : Nat) (expr : ExprId) (expected : Option Ty) (site : ScopeId)
  | ret (owner : StmtId) (value : Option ExprId) (site : ScopeId)

def Slot.place? : Slot → Option (StmtId × Nat)
  | .decl _ => none
  | .expr owner index _ _ _ => some (owner, index)
  | .ret owner _ _ => some (owner, 0)

/-- A slot, or a statement with the scope that it is checked from. -/
inductive Part where
  | slot (slot : Slot)
  | stmt (id : StmtId) (site : ScopeId)

/-- The members of a block are seen from the block. So are the tests of a statement, which have to
be of a type. -/
def memberParts (id : StmtId) (expected : Option Ty) : (index : Nat) → List BlockMember → List Part
  | _, [] => []
  | index, .decl decl :: members => .slot (.decl decl) :: memberParts id expected (index + 1) members
  | index, .stmt inner :: members => .stmt inner id :: memberParts id expected (index + 1) members
  | index, .expr expr :: members =>
    .slot (.expr id index expr expected id) :: memberParts id expected (index + 1) members

def testParts (id : StmtId) (index : Nat) (items : List ConditionItem) : List Part :=
  memberParts id (some .bool) index (items.map ConditionItem.asMember)

/-- The parts of a statement in the order of reading. The test of a loop that ends with it is seen
from the body of the loop. -/
def parts (id : StmtId) (site : ScopeId) : StmtKind → List Part
  | .block members => memberParts id none 0 members
  | .ret value => [.slot (.ret id value site)]
  | .cond condition success failure =>
    testParts id 0 condition ++ .stmt success site :: failure.toList.map fun failure => .stmt failure site
  | .whileLoop condition body => testParts id 0 condition ++ [.stmt body site]
  | .doWhile body condition => [.stmt body site, .slot (.expr id 0 condition (some .bool) body)]

/-- Parts with the statements and the slots in them, a statement before what is in it. -/
inductive Spread (tree : Tree) : List Part → List StmtId → List Slot → Prop
  | nil : Spread tree [] [] []
  | slot {slot : Slot} {parts : List Part} {stmts : List StmtId} {slots : List Slot} :
    Spread tree parts stmts slots → Spread tree (.slot slot :: parts) stmts (slot :: slots)
  | stmt {id : StmtId} {site : ScopeId} {found : Stmt} {parts : List Part}
    {inner stmts : List StmtId} {inside slots : List Slot} : tree.stmt? id = some found →
    (∀ body condition, found.kind = .doWhile body condition → tree.isScope body) →
    Spread tree (Body.parts id site found.kind) inner inside → Spread tree parts stmts slots →
    Spread tree (.stmt id site :: parts) (id :: inner ++ stmts) (inside ++ slots)

/-! ### Visits -/

/-- A slot with the calls that were made for it. -/
structure Visit where
  slot : Slot
  calls : List Call

def Visit.stored? (visit : Visit) (owner : StmtId) (index : Nat) : Option ExprId :=
  if visit.slot.place? = some (owner, index) then visit.calls.getLast?.bind Call.stored? else none

def replacement (visits : List Visit) (owner : StmtId) (index : Nat) (expr : ExprId) : ExprId :=
  visits.foldl (fun expr visit => (visit.stored? owner index).getD expr) expr

/-- The calls for the type that a return statement has to give: that of the signature, as it is seen
from a scope if it mentions parameters, or an error if the constraints on those cannot be met. -/
inductive Expects (function : DeclId) (output : Ty) (site : ScopeId) : List Call → Ty → Prop
  | plain : output.hasParams = false → Expects function output site [] output
  | unmet : output.hasParams = true → Expects function output site [.generics function none] .error
  | seen (generics : Generics) (answer : Ty × Substitution) : output.hasParams = true → Expects function output site
    [.generics function (some generics), .instantiate generics output site answer] answer.1

/-- The calls that are due for a slot. -/
inductive Answered (tree : Tree) (body : Body) (function : DeclId) (output : Ty) : Visit → Prop
  | decl {id : DeclId} {good : Bool} : Answered tree body function output ⟨.decl id, [.decl id good]⟩
  | expr {owner : StmtId} {index : Nat} {expr : ExprId} {expected : Option Ty} {site : ScopeId}
    {checked : CheckedExpr} : Answered tree body function output
      ⟨.expr owner index expr expected site, [.expr expr expected site body.policy checked]⟩
  | value {owner : StmtId}
    {expr : ExprId} {site : ScopeId} {calls : List Call} {expected : Ty} {checked : CheckedExpr} :
    Expects function output site calls expected → Answered tree body function output
      ⟨.ret owner (some expr) site, calls ++ [.expr expr (some expected) site .reject checked]⟩
  | bare {owner : StmtId} {site : ScopeId}
    {calls : List Call} {expected : Ty} : Expects function output site calls expected →
    (body.diagnoseMissingReturns && !expected.isUnit && !expected.hasErrors) = false →
    Answered tree body function output ⟨.ret owner none site, calls⟩
  | missing {owner : StmtId} {site : ScopeId} {calls : List Call} {expected : Ty} {found : Stmt} :
    Expects function output site calls expected →
    (body.diagnoseMissingReturns && !expected.isUnit && !expected.hasErrors) = true →
    tree.stmt? owner = some found → Answered tree body function output
      ⟨.ret owner none site, calls ++ [.report ⟨.missingReturnValue, found.span.start⟩]⟩

/-! ### What is stored -/

lemma replacement_append (visits : List Visit)
    (visit : Visit) (owner : StmtId) (index : Nat) (expr : ExprId) : replacement (visits ++ [visit])
    owner index expr = (visit.stored? owner index).getD (replacement visits owner index expr) := by
  simp [replacement, foldl_append]

/-- Nothing was stored in the slots of some statements. -/
def Leaves (stmts : List StmtId) (visits : List Visit) : Prop :=
  ∀ visit ∈ visits, ∀ owner index, visit.slot.place? = some (owner, index) → owner ∉ stmts

section

variable {visits : List Visit} {visit : Visit} {owner : StmtId} {index : Nat} {expr : ExprId}

lemma replacement_nothing (hn : ∀ index, visit.stored? owner index = none) :
    replacement (visits ++ [visit]) owner = replacement visits owner := by
  funext index old
  rw [replacement_append, hn]
  rfl

end

/-! ### Runs -/

/-- What a run relies on, after some visits. -/
structure Recorded (c : Collaborator σ) (start : σ) (body : Body) (function : DeclId)
    (signature : Signature) (visits : List Visit) (run : Run (σ × List Call)) : Prop where
  log : run.context.2 = visits.flatMap Visit.calls
  stmts : ∀ {id found},
  (c.program start).tree.stmt? id = some found → (c.program run.context.1).tree.stmt? id = some
    { found with kind := found.kind.refill (replacement visits id) }
  around : ∀ {id outer}, c.functionAround? start id = some outer →
  c.functionAround? run.context.1 id = some outer
  signature : c.signature? run.context.1 function = some signature
  policy : run.body.policy = body.policy
  diagnose : run.body.diagnoseMissingReturns = body.diagnoseMissingReturns

/-- From one run to another by some visits. -/
structure Visited (c : Collaborator σ) (start : σ) (body : Body) (function : DeclId)
    (signature : Signature) (visits new : List Visit) (run run' : Run (σ × List Call))
    (slots : List Slot) (good : Bool) : Prop where
  slots_eq : new.map Visit.slot = slots
  answered : ∀ visit ∈ new, Answered (c.program start).tree body function signature.output visit
  good_eq : good = (new.flatMap Visit.calls).all Call.good
  recorded : Recorded c start body function signature (visits ++ new) run'
  useSite_eq : run'.body.useSite = run.body.useSite

section

variable {c : Collaborator σ} {start : σ} {body : Body} {function : DeclId} {signature : Signature}
  {visits new more : List Visit} {visit : Visit} {run run' run'' : Run (σ × List Call)}
  {slots slots' : List Slot} {good good' : Bool}

lemma Visited.refl (h : Recorded c start body function signature visits run) :
    Visited c start body function signature visits [] run run [] true :=
  ⟨rfl, by simp, rfl, by simpa using h, rfl⟩

lemma Visited.append (h1 : Visited c start body function signature visits new run run' slots good)
    (h2 : Visited c start body function signature (visits ++ new) more run' run'' slots' good') :
    Visited c start body function signature visits (new ++ more) run run'' (slots ++ slots') (good && good') := by
  refine ⟨by rw [map_append, h1.slots_eq, h2.slots_eq], forall_mem_append.2 ⟨h1.answered,
    h2.answered⟩, ?_, append_assoc visits new more ▸ h2.recorded, h2.useSite_eq.trans h1.useSite_eq⟩
  rw [flatMap_append, all_append, ← h1.good_eq, ← h2.good_eq]

lemma Visited.single (h : Recorded c start body function signature (visits ++ [visit]) run')
    (ha : Answered (c.program start).tree body function signature.output visit)
    (hg : good = visit.calls.all Call.good) (hu : run'.body.useSite = run.body.useSite) :
    Visited c start body function signature visits [visit] run run' [visit.slot] good :=
  ⟨rfl, by simpa using ha, by simpa using hg, h, hu⟩

namespace Recorded

lemma quiet (h : Recorded c start body function signature visits run) (hn : ∀ owner index,
    visit.stored? owner index = none) (hs : c.Spares run.context.1 run'.context.1)
    (hlog : run'.context.2 = run.context.2 ++ visit.calls)
    (hpolicy : run'.body.policy = run.body.policy)
    (hdiagnose : run'.body.diagnoseMissingReturns = run.body.diagnoseMissingReturns) :
    Recorded c start body function signature (visits ++ [visit]) run' := by
  refine ⟨by simp [hlog, h.log], fun hid => ?_, fun hid => hs.around (h.around hid),
    hs.signatures h.signature, hpolicy.trans h.policy, hdiagnose.trans h.diagnose⟩
  rw [replacement_nothing (hn _)]
  exact hs.stmts (h.stmts hid)

/-- Calls were made for a visit, and the answer was stored in the slot. -/
lemma store (h : Recorded c start body function signature visits run)
    (hc : c.Dutiful) {owner index} {found} (hp : visit.slot.place? = some (owner, index))
    (hfound : (c.program start).tree.stmt? owner = some found) {s} (hs : c.Spares run.context.1 s)
    (hstored : run'.context.1 = c.setProgram { c.program s with
        tree := (c.program s).tree.put owner (.stmt
          { found with kind := found.kind.refill (replacement (visits ++ [visit]) owner) }) } s)
    (hlog : run'.context.2 = run.context.2 ++ visit.calls) (hpolicy : run'.body.policy = run.body.policy)
    (hdiagnose : run'.body.diagnoseMissingReturns = run.body.diagnoseMissingReturns) :
    Recorded c start body function signature (visits ++ [visit]) run' := by
  have hcurrent := stmt?_eq_some.1 (hs.stmts (h.stmts hfound))
  refine ⟨by simp [hlog, h.log], fun {id stmt} hid => ?_, fun hid => ?_, ?_, hpolicy.trans h.policy,
    hdiagnose.trans h.diagnose⟩
  · rw [hstored, hc.program_setProgram, stmt?_put hcurrent]
    split
    next heq =>
      subst heq
      cases hfound.symm.trans hid
      rfl
    next hne =>
      rw [replacement_nothing fun other => if_neg (by simp [hp, hne])]
      exact hs.stmts (h.stmts hid)
  · rw [functionAround?, hstored, hc.program_setProgram, Program.enclosingFunction?_put hcurrent]
    exact hs.around (h.around hid)
  · rw [hstored, hc.signature?_setProgram]
    exact hs.signatures h.signature

end Recorded

variable {β : Type} {id : StmtId} {found : Stmt} {output expected : Ty} {site : ScopeId}
  {calls : List Call} {tree : Tree} {stmts : List StmtId}

/-- Parts that can be checked one after the other: no statement occurs twice, and return statements
leave the function. -/
structure Fits (c : Collaborator σ) (start : σ) (function : DeclId) (parts : List Part)
    (stmts : List StmtId) (slots : List Slot) : Prop where
  spread : Spread (c.program start).tree parts stmts slots
  nodup : stmts.Nodup
  around : ∀ id ∈ stmts, (c.program start).tree.IsReturn id →
  c.functionAround? start id = some function

/-- The slots belong to some statements. -/
def Owns (stmts : List StmtId) (slots : List Slot) : Prop :=
  ∀ slot ∈ slots, ∀ owner index, slot.place? = some (owner, index) → owner ∈ stmts

lemma Visited.leaves (h : Visited c start body function signature visits new run run' slots good)
    {owners} (hl : Leaves stmts visits) (ho : Owns owners slots)
    (hd : ∀ owner ∈ owners, owner ∉ stmts) : Leaves stmts (visits ++ new) := by
  refine forall_mem_append.2 ⟨hl, fun visit hv owner index hp => hd owner ?_⟩
  exact ho visit.slot (h.slots_eq ▸ mem_map_of_mem hv) owner index hp

lemma Leaves.mono {others} (h : Leaves stmts visits) (hsub : ∀ id ∈ others, id ∈ stmts) : Leaves others visits :=
  fun visit hv owner index hp ho => h visit hv owner index hp (hsub owner ho)

lemma Spread.split {xs ys} : ∀ {stmts slots}, Spread tree (xs ++ ys) stmts slots →
    ∃ first second inside outside, stmts = first ++ second ∧ slots = inside ++ outside ∧
    Spread tree xs first inside ∧ Spread tree ys second outside := by
  induction xs with
  | nil => exact fun h => ⟨[], _, [], _, rfl, rfl, .nil, h⟩
  | cons part xs ih =>
    rintro _ _ (_ | h | ⟨hfound, hscope, hinner, h⟩)
    · obtain ⟨first, second, inside, outside, rfl, rfl, h1, h2⟩ := ih h
      exact ⟨first, second, _ :: inside, outside, rfl, rfl, .slot h1, h2⟩
    · obtain ⟨_, second, _, outside, rfl, rfl, h1, h2⟩ := ih h
      exact ⟨_, second, _, outside, (append_assoc ..).symm, (append_assoc ..).symm,
        .stmt hfound hscope hinner h1, h2⟩

namespace Fits

variable {parts xs ys : List Part} {stmts : List StmtId}

lemma nil (h : Fits c start function [] stmts slots) : stmts = [] ∧ slots = [] := by
  cases h.spread
  exact ⟨rfl, rfl⟩

lemma slot {slot} (h : Fits c start function [.slot slot] stmts slots) : slots = [slot] := by
  cases h.spread with
  | slot hrest =>
    cases hrest
    rfl

/-- Statements in earlier parts are apart from those in later ones. -/
lemma split (h : Fits c start function (xs ++ ys) stmts slots) : ∃ first second inside outside,
    stmts = first ++ second ∧ slots = inside ++ outside ∧ Fits c start function xs first inside ∧
      Fits c start function ys second outside ∧ ∀ owner ∈ first, owner ∉ second := by
  obtain ⟨hspread, hnodup, haround⟩ := h
  obtain ⟨first, second, inside, outside, rfl, rfl, h1, h2⟩ := hspread.split
  obtain ⟨hfirst, hsecond, hapart⟩ := nodup_append.1 hnodup
  obtain ⟨haround1, haround2⟩ := forall_mem_append.1 haround
  exact ⟨first, second, inside, outside, rfl, rfl, ⟨h1, hfirst, haround1⟩, ⟨h2, hsecond, haround2⟩,
    fun owner ho hs => hapart owner ho owner hs rfl⟩

lemma inner {id site} (h : Fits c start function [.stmt id site] stmts slots) : ∃ found inner,
    stmts = id :: inner ∧ (c.program start).tree.stmt? id = some found ∧ (∀ body condition,
      found.kind = .doWhile body condition → (c.program start).tree.isScope body) ∧
      Fits c start function (Body.parts id site found.kind) inner slots ∧ id ∉ inner := by
  obtain ⟨hspread, hnodup, haround⟩ := h
  cases hspread with
  | @stmt _ _ found _ inner _ _ _ hfound hscope hinner hrest =>
    cases hrest
    rw [append_nil] at hnodup haround ⊢
    rw [append_nil]
    obtain ⟨hid, hnodup⟩ := nodup_cons.1 hnodup
    exact ⟨found, inner, rfl, hfound, hscope, ⟨hinner, hnodup, (forall_mem_cons.1 haround).2⟩, hid⟩

end Fits

/-- Work that visits some slots, if nothing was stored yet in the statements that they are in. -/
def Covers (c : Collaborator σ) (start : σ) (body : Body) (function : DeclId)
    (signature : Signature) (work : Steps (σ × List Call) Bool) (site : ScopeId)
    (stmts : List StmtId) (slots : List Slot) : Prop :=
  ∀ (visits : List Visit) (run : Run (σ × List Call)),
    Recorded c start body function signature visits run →
    run.body.useSite = site → Leaves stmts visits → Ensures work run fun good run' =>
    ∃ new, Visited c start body function signature visits new run run' slots good

/-- Some slots are visited, and then those that come after them, in other statements. -/
lemma Covers.and {work other first second owners}
    (h1 : Covers c start body function signature work site first slots)
    (h2 : Covers c start body function signature other site second slots')
    (ho : Owns owners slots) (hd : ∀ owner ∈ owners, owner ∉ second) :
    Covers c start body function signature (do return (← work) && (← other)) site (first ++ second)
    (slots ++ slots') := by
  intro visits run h hsite hl
  refine (h1 visits run h hsite (hl.mono fun _ => mem_append_left _)).bind ?_
  rintro good run1 ⟨new, hnew⟩
  refine (h2 _ _ hnew.recorded (hnew.useSite_eq.trans hsite)
    (hnew.leaves (hl.mono fun _ => mem_append_right _) ho hd)).bind ?_
  rintro rest run2 ⟨more, hmore⟩
  exact ensures_pure.2 ⟨new ++ more, hnew.append hmore⟩

section

variable {nested : StmtId → Steps (σ × List Call) Bool} {bound : Nat}
  (hnested : ∀ {inner site stmts slots}, Fits c start function [.stmt inner site] stmts slots →
  stmts.length ≤ bound → Covers c start body function signature (nested inner) site stmts slots)
  (hc : c.Dutiful) {id : StmtId} {span : Span} {stmts : List StmtId} {site : ScopeId}

include hc

section

variable {α : Type}
  (row : Row α) {mapExpr : (ExprId → ExprId) → α → α} {all : List α} (hrefill : ∀ f,
  (row.kind all).refill f = row.kind (all.mapIdx fun index item => mapExpr (f index) item))
  (hmap : ∀ f item before, row.view item = .expr before → mapExpr f item = row.ofExpr (f before))
  (hsite : ∀ body : Body, body.useSite = site → row.site body = id)
  (hhome : ∀ item ∈ all, ∀ inner, row.view item = .stmt inner → site = id)
  (hfound : (c.program start).tree.stmt? id = some ⟨row.kind all, span⟩)

include hnested hrefill hmap hsite hhome hfound

end

include hnested

end

lemma Spread.lt_size {parts} (h : Spread tree parts stmts slots) : ∀ id ∈ stmts, id < tree.size := by
  induction h with
  | nil => simp
  | slot _ ih => exact ih
  | stmt hfound _ _ _ ih1 ih2 =>
    exact forall_mem_append.2 ⟨forall_mem_cons.2 ⟨Tree.lt_size (Tree.stmt?_eq_some.1 hfound), ih1⟩, ih2⟩

lemma Fits.length_le {parts} (h : Fits c start function parts stmts slots) :
    stmts.length ≤ (c.program start).tree.size := by
  have hsub := subperm_of_subset h.nodup fun id hid => mem_range.2 (h.spread.lt_size id hid)
  simpa using hsub.length_le

end

end Body

end TraitLang
