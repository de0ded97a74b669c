import TraitLang.Proofs.Parsing.Sources

/-! Reading tokens that stand elsewhere. Places of tokens are handed on to spans and diagnostics,
and are compared only where a span is closed. So moving all tokens moves what is read and changes
nothing else, as long as no span then ends before it starts. -/
namespace TraitLang

open Parse

namespace Relabeling

/-- New places, and numbers as they are. -/
def move (start stop : Position → Position) : Relabeling := ⟨fun id => id, start, stop⟩

/-- All places made the same. -/
def nowhere : Relabeling := move (fun _ => ⟨0, ""⟩) (fun _ => ⟨0, ""⟩)

/-- No start comes to lie after a stop that it was not after. -/
def Forward (r : Relabeling) : Prop :=
  ∀ start stop : Position, start.offset ≤ stop.offset → (r.start start).offset ≤ (r.stop stop).offset

variable (r : Relabeling)

def tree (tree : Tree) : Tree := ⟨tree.nodes.map r.node, tree.modules.map r.id⟩

def cursor (c : Cursor) : Cursor :=
  ⟨c.previous.map r.token, r.token c.current, c.ahead.map r.token, r.tree c.tree⟩

def diagnostic (diagnostic : Diagnostic) : Diagnostic :=
  { diagnostic with position := r.start diagnostic.position }

def failure : Failure → Failure
  | .diagnostic diagnostic => .diagnostic (r.diagnostic diagnostic)
  | .fault fault => .fault fault
  | .missing id => .missing (r.id id)
  | .exhausted => .exhausted

variable (tree : Tree)

@[simp]
lemma node?_tree (id : NodeId) : (r.tree tree).node? id = (tree.node? id).map r.node := by
  simp [Relabeling.tree, Tree.node?]

@[simp]
lemma size_tree : (r.tree tree).size = tree.size := by
  simp [Relabeling.tree, Tree.size]

variable (c : Cursor)

@[simp]
lemma current_cursor : (r.cursor c).current = r.token c.current := rfl

@[simp]
lemma tree_cursor : (r.cursor c).tree = r.tree c.tree := rfl

lemma remaining_cursor : (r.cursor c).remaining = c.remaining := by
  simp [cursor, Cursor.remaining]

lemma advance_cursor : (r.cursor c).advance = r.cursor c.advance := by
  unfold Cursor.advance
  split
  next hk => rw [if_pos (by exact hk)]
  next hk =>
    rw [if_neg (by exact hk)]
    cases c with
    | mk previous current ahead tree =>
      cases ahead with
      | nil => rfl
      | cons next => rfl

lemma tree_push (node : Node) : (r.tree tree).push (r.node node) =
    ((tree.push node).1, r.tree (tree.push node).2) := by
  simp [Tree.push, Relabeling.tree, Tree.size]

lemma expr?_tree (id : NodeId) : (r.tree tree).expr? id = (tree.expr? id).map fun expr =>
    ⟨r.exprKind expr.kind, r.span expr.span⟩ := by
  unfold Tree.expr?
  rw [node?_tree]
  rcases tree.node? id with _ | _ | _ | _ | _ <;> rfl

/-! ### Readings of moved tokens -/

/-- As long as no token was passed, the end of the last one passed is taken to be where the next one
starts. -/
def Begun (c : Cursor) : Prop :=
  c.previous = none → r.start c.current.span.start = r.stop c.current.span.start

lemma previousEnd_cursor {c} (h : r.Begun c) : (r.cursor c).previousEnd = r.stop c.previousEnd := by
  cases c with
  | mk previous current ahead tree =>
    cases previous with
    | none => exact h rfl
    | some token => rfl

lemma begun_advance {c} (h : r.Begun c) : r.Begun c.advance := by
  unfold Cursor.advance
  split
  · exact h
  · split
    · exact h
    · exact fun hnone => by cases hnone

/-- The second reading, of the moved tokens, does what the first one does, unless that asks for a
span that ends before it starts. -/
def Carries {α : Type} (f : α → α) (first second : Parse α) : Prop :=
  ∀ c, r.Begun c →
    match first c with
    | .ok a c' => second (r.cursor c) = .ok (f a) (r.cursor c') ∧ r.Begun c'
    | .error failure c' => (∀ fault, failure ≠ .fault fault) →
        second (r.cursor c) = .error (r.failure failure) (r.cursor c')

variable {r}

lemma Carries.bind {α β : Type} {f g x y} {k l : α → Parse β} (hx : r.Carries f x y)
    (hk : ∀ a, r.Carries g (k a) (l (f a))) : r.Carries g (x >>= k) (y >>= l) := by
  intro c hc
  have hx := hx c hc
  simp only [Bind.bind, EStateM.bind]
  cases hr : x c with
  | ok a c' =>
    rw [hr] at hx
    obtain ⟨hy, hc'⟩ := hx
    rw [hy]
    exact hk a c' hc'
  | error failure c' =>
    rw [hr] at hx
    intro hfault
    rw [hx hfault]

lemma spanFrom_eq (position : Position) (c : Cursor) : spanFrom position c =
    if position.offset ≤ c.previousEnd.offset then .ok ⟨position, c.previousEnd⟩ c
    else .error (.fault .reversed) c := by
  simp only [spanFrom, run_get_bind, Span.between]
  split <;> rfl

lemma carries_spanFrom {start stop} (hr : (move start stop).Forward) (position : Position) :
    (move start stop).Carries (move start stop).span (spanFrom position) (spanFrom (start position)) := by
  intro c hc
  rw [spanFrom_eq, spanFrom_eq, previousEnd_cursor _ hc]
  by_cases hle : position.offset ≤ c.previousEnd.offset
  · have hmoved := hr _ _ hle
    rw [if_pos hle, if_pos (by exact hmoved)]
    exact ⟨rfl, hc⟩
  · grind

/-- Moving the tokens moves what is read. -/
def moving {start stop : Position → Position} (hr : (move start stop).Forward) : Simulation (move start stop) where
  rel := (move start stop).Carries
  fuel m n := m = n
  rel_pure f a := fun c hc => ⟨rfl, hc⟩
  rel_bind := Carries.bind
  rel_current := fun c hc => ⟨rfl, hc⟩
  rel_advance := fun c hc =>
    ⟨congrArg (EStateM.Result.ok ((move start stop).token c.current)) (advance_cursor _ c), begun_advance _ hc⟩
  rel_fail f problem position := fun c hc _ => rfl
  rel_spanFrom := carries_spanFrom hr
  rel_insert node := fun c hc => by
    have hinsert (node : Node) (c : Cursor) :
        insert node c = .ok (c.tree.push node).1 { c with tree := (c.tree.push node).2 } := rfl
    rw [hinsert, hinsert, tree_cursor, tree_push]
    exact ⟨rfl, hc⟩
  rel_exprStart id := fun c hc => by
    rw [show (move start stop).id id = id from rfl]
    simp only [exprStart, run_get_bind, tree_cursor, expr?_tree]
    cases c.tree.expr? id with
    | none => exact fun _ => rfl
    | some expr => exact ⟨rfl, hc⟩
  rel_exhausted f := fun c hc _ => rfl
  rel_starved f y bound h := nomatch h
  rel_measured hw := fun c hc => by
    simp only [remaining_cursor]
    exact hw _ _ rfl c hc
  fuel_map := fun _ _ _ h => congrArg _ h
  fuel_pred h := Nat.succ.inj h
  not_fuel_zero h := nomatch h

end Relabeling

end TraitLang
