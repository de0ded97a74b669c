import TraitLang.Proofs.Bodies.Items
import TraitLang.Proofs.Lockstep.Expressions

/-! Statements in lockstep. The checker of statements works on a state of its own next to that of
the whole checking; its work is taken for work on the latter that hands the former on. -/
namespace TraitLang.Check

open Terms Body

/-! ### The work of a checker of statements -/

section

variable {α β : Type}

/-- Lets a checker of statements work, and answers the checker afterwards too. -/
def settle (work : Body.Steps State α) (body : Body) : Check (α × Body) := fun state =>
  match work ⟨body, state⟩ with
  | .ok answer run => .ok (answer, run.body) run.context
  | .error halt run => .error halt run.context

variable (body : Body)

lemma settle_bind (x : Body.Steps State α) (k : α → Body.Steps State β) :
    settle (x >>= k) body = settle x body >>= fun answer => settle (k answer.1) answer.2 := by
  funext s
  simp only [settle, bind, EStateM.bind]
  cases x ⟨body, s⟩ <;> rfl

lemma settle_ask (work : Check α) : settle (ask work) body = work >>= fun answer => pure (answer, body) := by
  funext s
  simp only [settle, ask, bind, EStateM.bind]
  cases work s <;> rfl

lemma settle_within (scope : ScopeId) (work : Body.Steps State α) :
    settle (within scope work) body = settle work { body with useSite := scope } >>= fun answer =>
      pure (answer.1, { answer.2 with useSite := body.useSite }) := by
  funext s
  simp only [settle, within, bind, EStateM.bind]
  cases work ⟨{ body with useSite := scope }, s⟩ <;> rfl

lemma settle_get_bind (k : Body.Run State → Body.Steps State α) :
    settle (get >>= k) body = get >>= fun state => settle (k ⟨body, state⟩) body := rfl

variable (ask : Answerer)

lemma settle_stmt (id : StmtId) :
    settle (Body.stmt (collaborator ask) id) body = stmt id >>= fun found => pure (found, body) := by
  funext s
  simp only [Body.stmt, Body.program, collaborator, stmt, tree, bind_assoc, pure_bind, settle_get_bind, run_get_bind]
  cases s.program.tree.stmt? id <;> rfl

lemma settle_updateSlots (id : StmtId) (f : StmtKind → Option StmtKind) :
    settle (updateSlots (collaborator ask) id f) body =
      updateTree id (fun tree => tree.updateStmt id f) >>= fun answer => pure (answer, body) := by
  funext s
  simp only [updateSlots, program, collaborator, updateTree, tree, bind_assoc, pure_bind, settle_get_bind, run_get_bind]
  cases s.program.tree.updateStmt id f <;> rfl

lemma settle_returnTarget (id : StmtId) : settle (returnTarget (collaborator ask) id) body = (do
    let target ← leaving id
    if target.2.output.hasParams then
      match ← genericsOf target.1 with
      | some generics =>
        let answer ← instantiate generics target.2.output body.useSite
        return ((target.1, answer.1), body)
      | none => return ((target.1, .error), body)
    else
      return ((target.1, target.2.output), body)) := by
  unfold leaving returnTarget program
  simp only [bind_assoc, pure_bind, settle_get_bind]
  refine congrArg (get >>= ·) (funext fun state => ?_)
  dsimp only [collaborator]
  cases (state.program.scopeOf id).bind state.program.enclosingFunction? with
  | none => rfl
  | some function =>
    rw [settle_get_bind, bind_assoc]
    refine congrArg (get >>= ·) (funext fun state => ?_)
    cases state.signatures[function]? with
    | none => rfl
    | some signature =>
      dsimp only
      rw [pure_bind]
      split
      · rw [settle_bind, settle_ask, bind_assoc]
        refine congrArg (genericsOf function >>= ·) (funext fun generics => ?_)
        rw [pure_bind]
        cases generics with
        | none => rfl
        | some generics =>
          rw [settle_get_bind]
          dsimp only
          rfl
      · rfl

lemma settle_returnNothing (diagnose : Bool) (id : StmtId) (expected : Ty) : settle
    (if diagnose && !expected.isUnit && !expected.hasErrors then do
      let position := (← Body.stmt (collaborator ask) id).span.start
      modify fun run => { run with context := (collaborator ask).report ⟨.missingReturnValue, position⟩ run.context }
      return false
    else return true) body = returnNothing diagnose id expected >>= fun good => pure (good, body) := by
  unfold returnNothing
  split
  · rw [settle_bind, settle_stmt, bind_assoc, bind_assoc]
    rfl
  · rfl

end

namespace Terms

variable (T : Terms) {α β : Type}

/-- Checkers of statements in lockstep. -/
structure Bodies (body body' : Body) : Prop where
  useSite_eq : body'.useSite = body.useSite
  policy : T.policy body.policy body'.policy
  diagnose : T.diagnose body.diagnoseMissingReturns body'.diagnoseMissingReturns
  returns_eq : body'.returns = body.returns

/-- The work of two checkers of statements in lockstep. -/
def Steps (R : α → α → Prop) (x y : Body.Steps State α) : Prop :=
  ∀ body body', T.Bodies body body' → T.Along (fun answer answer' => R answer.1 answer'.1 ∧
    T.Bodies answer.2 answer'.2) (settle x body) (settle y body')

variable {T} {R : α → α → Prop} {Q : β → β → Prop} {x y : Body.Steps State α}
  {k l : α → Body.Steps State β}

lemma Steps.bind (hx : T.Steps R x y) (hk : ∀ a b, R a b → T.Steps Q (k a) (l b)) : T.Steps Q (x >>= k) (y >>= l) := by
  intro body body' hbody
  rw [settle_bind, settle_bind]
  exact (hx body body' hbody).bind fun answer answer' ⟨ha, hb⟩ => hk _ _ ha _ _ hb

lemma Steps.next (hx : T.Steps Eq x y) (hk : ∀ a, T.Steps Q (k a) (l a)) : T.Steps Q (x >>= k) (y >>= l) :=
  hx.bind fun a _ heq => heq ▸ hk a

lemma steps_pure {a b} (h : R a b) : T.Steps R (pure a) (pure b) :=
  fun body body' hbody => along_pure (a := (a, body)) (b := (b, body')) ⟨h, hbody⟩

lemma steps_throw (halt : Halt) : T.Steps R (throw halt) (throw halt) :=
  fun _ _ _ => along_throw halt _

lemma steps_ask {x y} (h : T.Along R x y) : T.Steps R (ask x) (ask y) := by
  intro body body' hbody
  rw [settle_ask, settle_ask]
  exact h.bind fun a b hab => along_pure ⟨hab, hbody⟩

lemma steps_get {k l} (h : ∀ body body' s r, T.Bodies body body' → T.Apart s r →
    T.Steps R (k ⟨body, s⟩) (l ⟨body', r⟩)) : T.Steps R (get >>= k) (get >>= l) := by
  intro body body' hbody
  exact along_get fun s r hsr => h body body' s r hbody hsr body body' hbody

lemma steps_within (scope : ScopeId) (h : T.Steps R x y) : T.Steps R (within scope x) (within scope y) := by
  intro body body' hbody
  rw [settle_within, settle_within]
  have hinside : T.Bodies { body with useSite := scope } { body' with useSite := scope } :=
    ⟨rfl, hbody.policy, hbody.diagnose, hbody.returns_eq⟩
  refine (h _ _ hinside).bind ?_
  rintro answer answer' ⟨ha, hb⟩
  exact along_pure ⟨ha, hbody.useSite_eq, hb.policy, hb.diagnose, hb.returns_eq⟩

variable (ask : Answerer)

lemma steps_stmt (id : StmtId) : T.Steps (fun s s' => s'.kind = s.kind)
    (Body.stmt (collaborator ask) id) (Body.stmt (collaborator ask) id) := by
  intro body body' hbody
  rw [settle_stmt, settle_stmt]
  refine (along_stmt id).bind ?_
  rintro found _ rfl
  exact along_pure ⟨rfl, hbody⟩

lemma steps_updateSlots (id : StmtId) (f : StmtKind → Option StmtKind) :
    T.Steps Eq (updateSlots (collaborator ask) id f) (updateSlots (collaborator ask) id f) := by
  intro body body' hbody
  rw [settle_updateSlots, settle_updateSlots]
  exact (along_updateStmt id f).next fun _ => along_pure ⟨rfl, hbody⟩

lemma steps_scopeFor (id : NodeId) (what : String) :
    T.Steps Eq (scopeFor (collaborator ask) id what) (scopeFor (collaborator ask) id what) := by
  unfold scopeFor program
  refine steps_get fun body body' s r hbody hsr => ?_
  simp only [collaborator, hsr.program_eq, Relabeling.tree_program, Relabeling.scope?_tree]
  cases s.program.tree.scope? id with
  | none => exact steps_throw _
  | some scope => exact steps_pure rfl

lemma steps_returnTarget (id : StmtId) :
    T.Steps Eq (returnTarget (collaborator ask) id) (returnTarget (collaborator ask) id) := by
  intro body body' hbody
  rw [settle_returnTarget, settle_returnTarget]
  refine (along_leaving id).next fun target => ?_
  split
  · refine (along_genericsOf target.1).next fun generics => ?_
    cases generics with
    | none => exact along_pure ⟨rfl, hbody⟩
    | some generics =>
      rw [hbody.useSite_eq]
      exact (along_instantiate generics _ _).next fun answer => along_pure ⟨rfl, hbody⟩
  · exact along_pure ⟨rfl, hbody⟩

end Terms

/-! ### Statements -/

section

variable {T : Terms} {ask : Answerer} (h : T.Steady ask)

include h

lemma steps_checkDecl (id : DeclId) : T.Steps T.judged (Body.ask ((collaborator ask).checkDecl id))
    (Body.ask ((collaborator ask).checkDecl id)) :=
  steps_ask ((h.verdict id).imp fun _ _ hgood => hgood.1)

lemma steps_checkExpr (e : ExprId) (expected : Option Ty) (useSite : ScopeId) {p p'}
    (hp : T.policy p p') : T.Steps Eq (Body.checkExpr (collaborator ask) e expected useSite p)
      (Body.checkExpr (collaborator ask) e expected useSite p') :=
  steps_ask (along_checkExpr h e expected useSite hp)

lemma steps_checkReturn (id : StmtId) (value : Option ExprId) : T.Steps T.judged (Body.checkReturn
    (collaborator ask) id value) (Body.checkReturn (collaborator ask) id value) := by
  refine (steps_returnTarget ask id).next fun target => ?_
  have hkeep : T.Steps Eq (modify fun run =>
      { run with body.returns := run.body.returns ++ [⟨id, target.1, target.2⟩] }) (modify
      fun run => { run with body.returns := run.body.returns ++ [⟨id, target.1, target.2⟩] }) :=
      fun body body' hbody =>
    along_pure (R := fun answer answer' => answer.1 = answer'.1 ∧ T.Bodies answer.2 answer'.2)
      (a := ((), { body with returns := body.returns ++ [⟨id, target.1, target.2⟩] }))
      (b := ((), { body' with returns := body'.returns ++ [⟨id, target.1, target.2⟩] }))
      ⟨rfl, hbody.useSite_eq, hbody.policy, hbody.diagnose, congrArg (· ++ [_]) hbody.returns_eq⟩
  refine hkeep.next fun _ => ?_
  cases value with
  | none =>
    refine steps_get fun body body' s r hbody _ body1 body1' hbody1 => ?_
    rw [settle_returnNothing, settle_returnNothing]
    exact (along_returnNothing hbody.diagnose id target.2).bind fun good good' hgood => along_pure ⟨hgood, hbody1⟩
  | some e =>
    refine steps_get fun body body' s r hbody _ => ?_
    rw [hbody.useSite_eq]
    refine (steps_checkExpr h e (some target.2) _ (.inl rfl)).next fun checked => ?_
    exact (steps_updateSlots ask id _).next fun _ => steps_pure (T.judged_refl _)

section

variable {nested : StmtId → Body.Steps State Bool}
  (hnested : ∀ inner, T.Steps T.judged (nested inner) (nested inner))

include hnested

lemma steps_checkItem {α : Type} (id : StmtId) (row : Body.Row α) (hsite : ∀ body body',
    T.Bodies body body' → row.site body' = row.site body) (items : List α) : ∀ index : Nat,
    T.Steps T.judged (inTurn (Body.checkItem (collaborator ask) nested id row) index items)
      (inTurn (Body.checkItem (collaborator ask) nested id row) index items) := by
  induction items with
  | nil => exact fun _ => steps_pure (T.judged_refl true)
  | cons item items ih =>
    intro index
    refine Steps.bind (R := T.judged) ?_ fun good good' hgood => (ih (index + 1)).bind fun rest rest' hrest =>
      steps_pure (T.judged_and hgood hrest)
    unfold Body.checkItem
    cases row.view item with
    | decl d => exact steps_checkDecl h d
    | stmt inner => exact hnested inner
    | expr e =>
      refine steps_get fun body body' s r hbody _ => ?_
      dsimp only
      rw [hsite body body' hbody]
      refine (steps_checkExpr h e row.expected _ hbody.policy).next fun checked => ?_
      exact (steps_updateSlots ask id _).next fun _ => steps_pure (T.judged_refl _)

lemma steps_checkKind (id : StmtId) (kind : StmtKind) : T.Steps T.judged (Body.checkKind
    (collaborator ask) nested id kind) (Body.checkKind (collaborator ask) nested id kind) := by
  unfold Body.checkKind
  simp only [Body.checkMembers_eq, Body.checkConditions_eq _ nested]
  cases kind with
  | block members =>
    refine (steps_scopeFor ask id _).next fun scope => ?_
    exact steps_within scope (steps_checkItem h hnested id .block (fun _ _ hbody => hbody.useSite_eq) members 0)
  | ret value => exact steps_checkReturn h id value
  | cond condition success failure =>
    refine (steps_scopeFor ask id _).next fun scope => ?_
    refine (steps_checkItem h hnested id _ (fun _ _ _ => rfl) condition 0).bind fun tested tested' htested => ?_
    refine (hnested success).bind fun taken taken' htaken => ?_
    have hboth := T.judged_and htested htaken
    cases failure with
    | none => exact steps_pure (T.judged_and hboth (T.judged_refl true))
    | some failure => exact (hnested failure).bind fun other other' hother => steps_pure (T.judged_and hboth hother)
  | whileLoop condition body =>
    refine (steps_scopeFor ask id _).next fun scope => ?_
    refine (steps_checkItem h hnested id _ (fun _ _ _ => rfl) condition 0).bind fun tested tested' htested => ?_
    exact (hnested body).bind fun repeated repeated' hrepeated => steps_pure (T.judged_and htested hrepeated)
  | doWhile body condition =>
    refine (hnested body).bind fun repeated repeated' hrepeated => ?_
    refine (steps_scopeFor ask body _).next fun scope => ?_
    refine steps_get fun body body' s r hbody _ => ?_
    refine (steps_checkExpr h condition (some .bool) scope hbody.policy).next fun checked => ?_
    exact (steps_updateSlots ask id _).next fun _ => steps_pure (T.judged_and hrepeated (T.judged_refl _))

end

lemma steps_checkWithin (depth : Nat) : ∀ id : StmtId, T.Steps T.judged (Body.checkWithin
    (collaborator ask) depth id) (Body.checkWithin (collaborator ask) depth id) := by
  induction depth with
  | zero => exact fun _ => steps_throw _
  | succ depth ih =>
    intro id
    refine (steps_stmt ask id).bind fun found found' hkind => ?_
    rw [hkind]
    exact steps_checkKind h ih id found.kind

lemma steps_check (id : StmtId) : T.Steps T.judged (check (collaborator ask) id) (check (collaborator ask) id) := by
  unfold check program
  refine steps_get fun body body' s r _ hsr => ?_
  simp only [collaborator, hsr.program_eq, Relabeling.tree_program, Relabeling.size_tree]
  exact steps_checkWithin h _ id

lemma along_checkBody (function : DeclId) (id : StmtId) :
    T.Along T.judged (checkBody ask function id) (checkBody ask function id) := by
  have hsettle : checkBody ask function id = (do
      let settings := (← get).settings
      let scope ← ownScope function
      let answer ← settle (check (collaborator ask) id) (.new scope settings.freePolicy settings.diagnoseMissingReturns)
      modify fun state =>
        { state with returns := state.returns.insert function (state.returns.getD function [] ++ answer.2.returns) }
      return answer.1) := by
    refine congrArg (get >>= ·) (funext fun state => ?_)
    refine congrArg (ownScope function >>= ·) (funext fun scope => funext fun s => ?_)
    simp only [settle, runBody, bind, EStateM.bind, run_modifyGet]
    cases check (collaborator ask) id
      ⟨.new scope state.settings.freePolicy state.settings.diagnoseMissingReturns, s⟩ <;> rfl
  rw [hsettle]
  refine along_get fun s r hsr => ?_
  refine (along_ownScope function).next fun scope => ?_
  have hbodies : T.Bodies (.new scope s.settings.freePolicy s.settings.diagnoseMissingReturns)
      (.new scope r.settings.freePolicy r.settings.diagnoseMissingReturns) :=
      ⟨rfl, hsr.fits.policy, hsr.fits.diagnose, rfl⟩
  refine (steps_check h id _ _ hbodies).bind ?_
  rintro answer answer' ⟨hgood, hbody⟩
  rw [hbody.returns_eq]
  exact (along_note fun state =>
    { state with returns := state.returns.insert function (state.returns.getD function [] ++ answer.2.returns) }).next fun _ =>
      along_pure hgood

end

end TraitLang.Check
