import TraitLang.Proofs.Layouts.Moved
import TraitLang.Proofs.Tables

/-! Two checkings of one program that know the same at every step. The program of the second one may
stand at other places, and its settings, its verdicts and its reports may be others: on what `Terms`
that is, is chosen once for both. The first checking may also come to a point after which nothing is
said about the second one. -/
namespace TraitLang

open Relabeling TraitLang.Tree

/-- What comes before a place still comes before it. -/
def Relabeling.Sights (r : Relabeling) (place : Position) : Prop :=
  ∀ position : Position, position.offset ≤ place.offset ↔ (r.stop position).offset ≤ (r.start place).offset

namespace Check

/-! ### Steps by name -/

def stmt (id : StmtId) : Check Stmt := do
  match (← tree).stmt? id with
  | some stmt => return stmt
  | none => throw (.missing id)

/-- Applies the policy on variables that are still free to the type of an expression. -/
def settleFree (policy : FreePolicy) (id : ExprId) (type : Ty) : Check Ty :=
  if type.hasVars && policy = .reject then do
    reportAt (.ambiguousType type.describe) id
    pure Ty.error
  else pure type

/-- A return without a value, from a function that returns a type. -/
def returnNothing (diagnose : Bool) (id : StmtId) (expected : Ty) : Check Bool :=
  if diagnose && !expected.isUnit && !expected.hasErrors then do
    let found ← stmt id
    report ⟨.missingReturnValue, found.span.start⟩
    return false
  else return true

/-! ### Terms -/

/-- On what terms two checkings go in lockstep. -/
structure Terms where
  /-- Where the nodes of the second checking stand. -/
  start : Position → Position
  stop : Position → Position
  /-- Declarations whose verdicts are the same on both sides. -/
  plain : DeclId → Prop
  /-- Verdicts on what is in a declaration, taken together. -/
  judged : Bool → Bool → Prop
  judged_refl (good : Bool) : judged good good
  judged_and {a b c d : Bool} : judged a b → judged c d → judged (a && c) (b && d)
  /-- Problems that are reported on both sides. -/
  told : Problem → Prop
  told_of_ne {problem : Problem} : problem ≠ .missingReturnValue → told problem
  /-- Tables of conformances that say the same. -/
  claims : NodeMap (List Conformance) → NodeMap (List Conformance) → Prop
  claims_get {cs cs' : NodeMap (List Conformance)} (product : DeclId) : claims cs cs' →
    cs'[product]? = cs[product]?.map (List.map (move start stop).conformance)
  claims_insert {cs cs' : NodeMap (List Conformance)} (product : DeclId) (all : List Conformance) :
  claims cs cs' →
    claims (cs.insert product all) (cs'.insert product (all.map (move start stop).conformance))
  claims_erase {cs cs' : NodeMap (List Conformance)} (product : DeclId) : claims cs cs' →
    claims (cs.erase product) (cs'.erase product)
  reports : List Diagnostic → List Diagnostic → Prop
  reports_append {ds ds' : List Diagnostic} {problem : Problem} (position : Position) :
  reports ds ds' → told problem →
    reports (ds ++ [⟨problem, position⟩]) (ds' ++ [⟨problem, start position⟩])
  /-- Reports of the first checking after which the second one is let go. -/
  spoiled : List Diagnostic → Prop
  spoiled_append {ds : List Diagnostic} (d : Diagnostic) : spoiled ds → spoiled (ds ++ [d])

namespace Terms

lemma and_congr {a b c d} (h : a = b) (h' : c = d) : (a && c) = (b && d) := by rw [h, h']

variable (T : Terms)

abbrev places : Relabeling := .move T.start T.stop

/-- The verdicts of the two checkings on a declaration. -/
def verdict (id : DeclId) (good good' : Bool) : Prop :=
  T.judged good good' ∧ (T.plain id → good = good')

/-- The policies are the same, or the first one spoils what the second one lets pass. -/
def policy (p p' : FreePolicy) : Prop := p = p' ∨ p = .reject ∧ ∀ ds d, T.spoiled (ds ++ [d])

/-- Missing returns are reported on both sides or on none, or on the first one only. -/
def diagnose (d d' : Bool) : Prop :=
  d = d' ∧ (d = true → T.told .missingReturnValue) ∨
    d' = false ∧ T.judged false true ∧
      ∀ ds ds' position, T.reports ds ds' → T.reports (ds ++ [⟨.missingReturnValue, position⟩]) ds'

lemma verdict_refl (id : DeclId) (good : Bool) : T.verdict id good good :=
  ⟨T.judged_refl good, fun _ => rfl⟩

/-- Declarations among the conditions of an expression have the same verdicts on both sides. -/
def SuitsExpr : ExprKind → Prop
  | .cond condition _ _ => ∀ d, .decl d ∈ condition → T.plain d
  | _ => True

/-- Nodes that two checkings can go over on some terms. -/
def SuitsNode (id : NodeId) : Node → Prop
  | .decl d => d.kind.isBinding = false → ∀ good good', T.judged good good' → T.verdict id good good'
  | .expr e => T.SuitsExpr e.kind ∧ T.places.Sights e.span.start
  | .stmt _ | .case _ => True

def Suits (tree : Tree) : Prop := ∀ id node, tree.node? id = some node → T.SuitsNode id node

/-- The state of the second checking, which has the tables of the first one. -/
def other (s : State) (settings : Settings) (verdicts : NodeMap Bool)
    (conformances : NodeMap (List Conformance)) (diagnostics : List Diagnostic) : State :=
  { s with program := T.places.program s.program, settings, verdicts, conformances, diagnostics }

structure Fits (s : State) (settings : Settings) (verdicts : NodeMap Bool)
    (conformances : NodeMap (List Conformance)) (diagnostics : List Diagnostic) : Prop where
  tree : T.Suits s.program.tree
  policy : T.policy s.settings.freePolicy settings.freePolicy
  diagnose : T.diagnose s.settings.diagnoseMissingReturns settings.diagnoseMissingReturns
  verdicts : ∀ id : DeclId, Option.Rel (T.verdict id) s.verdicts[id]? verdicts[id]?
  conformances : T.claims s.conformances conformances
  reports : T.reports s.diagnostics diagnostics

/-- States of two checkings in lockstep. -/
inductive Apart (s : State) : State → Prop
  | mk {settings : Settings} {verdicts : NodeMap Bool} {conformances : NodeMap (List Conformance)}
    {diagnostics : List Diagnostic} : T.Fits s settings verdicts conformances diagnostics →
    Apart s (T.other s settings verdicts conformances diagnostics)

section

variable {T} {s r : State} (h : T.Apart s r)

include h

lemma Apart.program_eq : r.program = T.places.program s.program := by
  cases h
  rfl

lemma Apart.solver_eq : r.solver = s.solver := by
  cases h
  rfl

lemma Apart.declTypes_eq : r.declTypes = s.declTypes := by
  cases h
  rfl

lemma Apart.signatures_eq : r.signatures = s.signatures := by
  cases h
  rfl

lemma Apart.inProgress_eq : r.inProgress = s.inProgress := by
  cases h
  rfl

lemma Apart.generics_eq : r.generics = s.generics := by
  cases h
  rfl

/-- What two checkings find out has the same types and returns. -/
lemma Apart.finish_eq : r.finish =
    { s.finish with program := T.places.program s.program, conformances := r.conformances, diagnostics := r.diagnostics } := by
  cases h
  rfl

lemma Apart.fits : T.Fits s r.settings r.verdicts r.conformances r.diagnostics := by
  cases h with
  | mk hfits => exact hfits

end

/-- Where the first work succeeds the second one does too, with an answer and a state that go with
those of the first, unless the first is spoiled. What is spoiled stays so. -/
def Along {α : Type} (R : α → α → Prop) (x y : Check α) : Prop :=
  ∀ s r, T.Apart s r → ∀ a s', x s = .ok a s' → ∃ b r', T.Apart s' r' ∧ R a b ∧
    (T.spoiled s.diagnostics → T.spoiled s'.diagnostics) ∧ (T.spoiled s'.diagnostics ∨ y r = .ok b r')

/-- Both do the same work, with the same answer. -/
abbrev Shared {α : Type} (x : Check α) : Prop := T.Along Eq x x

section

variable {T} {α β : Type} {R : α → α → Prop} {Q : β → β → Prop} {x y : Check α} {k l : α → Check β}

lemma Along.bind (hx : T.Along R x y) (hk : ∀ a b, R a b → T.Along Q (k a) (l b)) : T.Along Q (x >>= k) (y >>= l) := by
  intro s r hsr c s2 hrun
  simp only [Bind.bind, EStateM.bind] at hrun ⊢
  cases hxs : x s with
  | error halt s1 => simp [hxs] at hrun
  | ok a s1 =>
    rw [hxs] at hrun
    obtain ⟨b, r1, hsr1, hab, hkeep, hy⟩ := hx s r hsr a s1 hxs
    obtain ⟨d, r2, hsr2, hcd, hkeep2, hl⟩ := hk a b hab s1 r1 hsr1 c s2 hrun
    refine ⟨d, r2, hsr2, hcd, fun h => hkeep2 (hkeep h), ?_⟩
    rcases hy with hspoiled | hy
    · exact .inl (hkeep2 hspoiled)
    · rw [hy]
      exact hl

lemma Along.next (hx : T.Along Eq x y) (hk : ∀ a, T.Along Q (k a) (l a)) : T.Along Q (x >>= k) (y >>= l) :=
  hx.bind fun a _ heq => heq ▸ hk a

lemma Along.imp (hx : T.Along R x y) {R'} (h : ∀ a b, R a b → R' a b) : T.Along R' x y := by
  intro s r hsr a s' hrun
  obtain ⟨b, r', hsr', hab, hrest⟩ := hx s r hsr a s' hrun
  exact ⟨b, r', hsr', h a b hab, hrest⟩

/-- Only work that succeeds counts. -/
lemma Along.congr {x' y'} (h : T.Along R x' y') (hx : ∀ s a s', x s = .ok a s' ↔ x' s = .ok a s')
    (hy : ∀ s a s', y s = .ok a s' ↔ y' s = .ok a s') : T.Along R x y := by
  intro s r hsr a s' hrun
  obtain ⟨b, r', hsr', hab, hkeep, hright⟩ := h s r hsr a s' ((hx s a s').1 hrun)
  exact ⟨b, r', hsr', hab, hkeep, hright.imp_right (hy r b r').2⟩

end

/-- Both checkings get the same answers. -/
structure Steady (ask : Answerer) : Prop where
  verdict (id : DeclId) : T.Along (T.verdict id) (ask (.verdict id)) (ask (.verdict id))
  declType (id : DeclId) : T.Shared (ask (.declType id))
  exprType (id : ExprId) (useSite : ScopeId) : T.Shared (ask (.exprType id useSite))

end Terms

open Terms

section

variable {T : Terms} {α : Type} {R : α → α → Prop}

lemma along_pure {a b} (h : R a b) : T.Along R (pure a) (pure b) := by
  intro s r hsr _ _ hrun
  cases hrun
  exact ⟨b, r, hsr, h, id, .inr rfl⟩

lemma Terms.Along.last {β : Type} {x y} {f : α → β} (hx : T.Along Eq x y) :
    T.Along Eq (x >>= fun a => pure (f a)) (y >>= fun a => pure (f a)) :=
  hx.next fun _ => along_pure rfl

lemma along_throw (halt : Halt) (y : Check α) : T.Along R (throw halt) y := by
  intro s r hsr a s' hrun
  cases hrun

lemma along_get {k l} (h : ∀ s r, T.Apart s r → T.Along R (k s) (l r)) : T.Along R (get >>= k) (get >>= l) :=
  fun s r hsr => h s r hsr s r hsr

lemma along_modifyGet {f g} (h : ∀ s r, T.Apart s r → R (f s).1 (g r).1 ∧ T.Apart (f s).2 (g r).2 ∧
      (T.spoiled s.diagnostics → T.spoiled (f s).2.diagnostics)) : T.Along R (modifyGet f) (modifyGet g) := by
  intro s r hsr _ _ hrun
  cases hrun
  obtain ⟨hanswer, hapart, hkeep⟩ := h s r hsr
  exact ⟨_, _, hapart, hanswer, hkeep, .inr rfl⟩

lemma along_modify {f g} (h : ∀ s r, T.Apart s r → T.Apart (f s) (g r) ∧
    (T.spoiled s.diagnostics → T.spoiled (f s).diagnostics)) : T.Along Eq (modify f) (modify g) := by
  refine along_modifyGet fun s r hsr => ⟨rfl, ?_⟩
  exact h s r hsr

lemma along_note (f : State → State) (hkeep : ∀ s, (f s).program = s.program ∧ (f s).settings =
    s.settings ∧ (f s).verdicts = s.verdicts ∧ (f s).conformances = s.conformances ∧
      (f s).diagnostics = s.diagnostics := by exact fun _ => ⟨rfl, rfl, rfl, rfl, rfl⟩)
    (hf : ∀ s settings verdicts conformances diagnostics,
    f (T.other s settings verdicts conformances diagnostics) =
      T.other (f s) settings verdicts conformances diagnostics := by exact fun _ _ _ _ _ => rfl) :
      T.Shared (modify f) := by
  refine along_modify fun s r hsr => ?_
  obtain ⟨hprogram, hsettings, hverdicts, hconformances, hdiagnostics⟩ := hkeep s
  rw [hdiagnostics]
  refine ⟨?_, id⟩
  cases hsr with
  | mk hfits =>
    rw [hf]
    exact .mk ⟨hprogram ▸ hfits.tree, hsettings ▸ hfits.policy, hsettings ▸ hfits.diagnose,
      hverdicts ▸ hfits.verdicts, hconformances ▸ hfits.conformances, hdiagnostics ▸ hfits.reports⟩

lemma Terms.Apart.setTree {s r} (h : T.Apart s r) {tree} (hs : T.Suits tree) :
    T.Apart { s with program.tree := tree } { r with program.tree := T.places.tree tree } := by
  cases h with
  | mk hfits => exact @Terms.Apart.mk T { s with program.tree := tree } _ _ _ _ { hfits with tree := hs }

end

/-! ### The program -/

section

variable {T : Terms} {α : Type}

lemma along_tree {R : α → α → Prop} {k l} (h : ∀ tree, T.Suits tree →
    T.Along R (k tree) (l (T.places.tree tree))) : T.Along R (tree >>= k) (tree >>= l) := by
  refine along_get fun s r hsr => ?_
  rw [hsr.program_eq]
  exact h s.program.tree hsr.fits.tree

lemma along_decl (id : DeclId) : T.Along (fun d d' => d' = ⟨T.places.declKind d.kind, T.places.span d.span⟩ ∧
    (d.kind.isBinding = false → ∀ good good', T.judged good good' → T.verdict id good good')) (decl id) (decl id) := by
  refine along_tree fun tree hsuits => ?_
  rw [decl?_tree]
  cases hd : tree.decl? id with
  | none => exact along_throw _ _
  | some decl => exact along_pure ⟨rfl, hsuits id _ (decl?_eq_some.1 hd)⟩

lemma along_expr (id : ExprId) : T.Along (fun e e' => e' = ⟨e.kind, T.places.span e.span⟩ ∧
    T.SuitsExpr e.kind ∧ T.places.Sights e.span.start) (expr id) (expr id) := by
  refine along_tree fun tree hsuits => ?_
  simp only [expr?_tree, exprKind_move]
  cases he : tree.expr? id with
  | none => exact along_throw _ _
  | some expr => exact along_pure ⟨rfl, hsuits id _ (expr?_eq_some.1 he)⟩

lemma along_case (id : CaseId) :
    T.Along (fun c c' => c' = ⟨c.pattern, c.body, T.places.span c.span⟩) (case id) (case id) := by
  refine along_tree fun tree _ => ?_
  simp only [case?_tree, pattern_move, id_move]
  cases tree.case? id with
  | none => exact along_throw _ _
  | some case => exact along_pure rfl

lemma along_stmt (id : StmtId) : T.Along (fun s s' => s' = ⟨s.kind, T.places.span s.span⟩) (stmt id) (stmt id) := by
  refine along_tree fun tree _ => ?_
  simp only [stmt?_tree, stmtKind_move]
  cases tree.stmt? id with
  | none => exact along_throw _ _
  | some stmt => exact along_pure rfl

lemma along_need {demanded} (h : ∀ p, demanded (T.places.program p) = demanded p) : T.Shared (need demanded) := by
  refine along_get fun s r hsr => ?_
  rw [hsr.program_eq, h]
  cases demanded s.program with
  | ok => exact along_pure rfl
  | error halt => exact along_throw halt _

lemma along_demand (ids : List DeclId) : T.Shared (demand ids) :=
  along_need fun p => demand_program p _ ids

lemma along_demandFrom (scope : ScopeId) : T.Shared (demandFrom scope) :=
  along_need fun p => demandFrom_program p _ scope

lemma along_declName (id : DeclId) : T.Shared (declName id) := by
  refine (along_demand [id]).next fun _ => along_get fun s r hsr => along_pure ?_
  rw [hsr.program_eq, declName_moved]

lemma along_enclosingScope (id : NodeId) : T.Shared (enclosingScope id) := by
  refine along_get fun s r hsr => ?_
  have hscope : r.program.enclosingScope id = s.program.enclosingScope id := by
    rw [hsr.program_eq]
    rfl
  rw [hscope]
  cases s.program.enclosingScope id with
  | ok scope => exact along_pure rfl
  | error halt => exact along_throw halt _

lemma along_ownScope (id : NodeId) : T.Shared (ownScope id) := by
  refine along_tree fun tree _ => ?_
  rw [scope?_tree]
  cases tree.scope? id with
  | none => exact along_throw _ _
  | some scope => exact along_pure rfl

lemma along_scopeOr (id : NodeId) (useSite : ScopeId) : T.Shared (scopeOr id useSite) := by
  refine along_get fun s r hsr => along_pure ?_
  rw [hsr.program_eq]
  rfl

/-- Here the places matter. -/
lemma isVisible_moved {start stop place} (hs : (move start stop).Sights place)
    (program : Program) (scope : ScopeId) (decl : DeclId) :
    isVisible ((move start stop).program program) (start place).offset scope decl =
      isVisible program place.offset scope decl := by
  unfold isVisible
  have hbinder : (program.owningBinding? decl).bind ((move start stop).tree program.tree).decl? =
      ((program.owningBinding? decl).bind program.tree.decl?).map fun decl =>
        ⟨(move start stop).declKind decl.kind, (move start stop).span decl.span⟩ := by
    cases program.owningBinding? decl with
    | none => rfl
    | some binding => exact decl?_tree _ _ _
  rw [owningBinding?_moved, tree_program, decl?_tree, decl?_tree, hbinder]
  cases program.tree.decl? scope with
  | some => rfl
  | none =>
    rcases program.tree.decl? decl with _ | ⟨kind, span⟩
    · rfl
    · cases kind with
      | var name =>
        cases (program.owningBinding? decl).bind program.tree.decl? with
        | none => exact decide_eq_decide.2 (hs span.stop).symm
        | some binder => exact decide_eq_decide.2 (hs binder.span.stop).symm
      | _ => rfl

lemma along_lookupValue (id : ExprId) (name : String) (useSite : ScopeId) : T.Shared (lookupValue id name useSite) := by
  refine (along_scopeOr id useSite).next fun scope => (along_expr id).bind ?_
  rintro ⟨kind, span⟩ _ ⟨rfl, -, hsights⟩
  refine (along_demandFrom scope).next fun _ => along_get fun s r hsr => along_pure ?_
  rw [hsr.program_eq]
  show _ = List.getLast? ((T.places.program s.program).findWhere name scope
    (isVisible (T.places.program s.program) (T.start span.start).offset))
  rw [findWhere_moved, funext₂ (isVisible_moved hsights s.program)]

end

/-! ### Findings -/

section

variable {T : Terms} {problem : Problem}

lemma along_report (h : T.told problem) (position : Position) :
    T.Along Eq (report ⟨problem, position⟩) (report ⟨problem, T.start position⟩) := by
  refine along_modify fun s r hsr => ⟨?_, T.spoiled_append _⟩
  cases hsr with
  | mk hfits =>
    exact @Terms.Apart.mk T { s with diagnostics := s.diagnostics ++ [⟨problem, position⟩] } _ _ _ _
      { hfits with reports := T.reports_append position hfits.reports h }

lemma along_reportAt (h : T.told problem) (id : NodeId) : T.Shared (reportAt problem id) := by
  refine along_tree fun tree _ => ?_
  rw [span?_tree]
  cases tree.span? id with
  | none => exact along_throw _ _
  | some span => exact along_report h span.start

lemma along_setVerdict {id good good'} (h : T.verdict id good good') : T.Along Eq
    (modify fun state => { state with verdicts := state.verdicts.insert id good })
    (modify fun state => { state with verdicts := state.verdicts.insert id good' }) := by
  refine along_modify fun s r hsr => ⟨?_, fun h => h⟩
  cases hsr with
  | @mk settings verdicts conformances diagnostics hfits =>
    refine @Terms.Apart.mk T { s with verdicts := s.verdicts.insert id good } settings
      (verdicts.insert id good') conformances diagnostics { hfits with verdicts := fun other => ?_ }
    rw [NodeMap.getElem?_insert, NodeMap.getElem?_insert]
    split
    · rename_i heq
      exact .some (heq ▸ h)
    · exact hfits.verdicts other

lemma grants_reportAt (problem : Problem) (id : NodeId) (s : State) : Grants (reportAt problem id) s
    fun _ s' => ∃ position, s' = { s with diagnostics := s.diagnostics ++ [⟨problem, position⟩] } := by
  refine grants_tree_bind ?_
  cases s.program.tree.span? id with
  | none => exact Grants.throw
  | some span =>
    intro _ s' h
    cases h
    exact ⟨span.start, rfl⟩

/-- Where the policies differ, the first one spoils everything if it is of any effect. -/
lemma along_settleFree {p p'} (hp : T.policy p p') (id : ExprId) (type : Ty) :
    T.Along Eq (settleFree p id type) (settleFree p' id type) := by
  have hreport : T.Shared (do reportAt (.ambiguousType type.describe) id; pure Ty.error) :=
    (along_reportAt (T.told_of_ne (by simp)) id).last
  unfold settleFree
  rcases hp with rfl | ⟨rfl, hspoiled⟩
  · split
    · exact hreport
    · exact along_pure rfl
  · cases type.hasVars with
    | false => exact along_pure rfl
    | true =>
      -- the partner is the state that the same report leads to
      intro s r hsr _ s' hrun
      obtain ⟨b, r', hsr', hanswer, hkeep, -⟩ := hreport s r hsr _ s' hrun
      refine ⟨b, r', hsr', hanswer, hkeep, .inl ?_⟩
      obtain ⟨_, _, hat, hrest⟩ := bind_eq_ok.1 hrun
      obtain ⟨_, rfl⟩ := grants_reportAt _ _ _ _ _ hat
      cases hrest
      exact hspoiled _ _

lemma grants_foundStmt (id : StmtId) (s : State) : Grants (stmt id) s fun _ s' => s' = s := by
  refine grants_tree_bind ?_
  cases s.program.tree.stmt? id with
  | none => exact Grants.throw
  | some found => exact grants_pure.2 rfl

lemma along_returnNothing {d d'} (hd : T.diagnose d d') (id : StmtId) (expected : Ty) :
    T.Along T.judged (returnNothing d id expected) (returnNothing d' id expected) := by
  unfold returnNothing
  rcases hd with ⟨rfl, htold⟩ | ⟨rfl, hjudged, hreports⟩
  · split
    next hmissing =>
      simp only [Bool.and_eq_true] at hmissing
      refine (along_stmt id).bind ?_
      rintro found _ rfl
      exact (along_report (htold hmissing.1.1) found.span.start).next fun _ => along_pure (T.judged_refl false)
    next => exact along_pure (T.judged_refl true)
  · split
    next =>
      intro s r hsr good s' hrun
      obtain ⟨found, s1, hstmt, hrest⟩ := bind_eq_ok.1 hrun
      rw [grants_foundStmt id s found s1 hstmt] at hrest
      cases hrest
      refine ⟨true, r, ?_, hjudged, T.spoiled_append _, .inr rfl⟩
      cases hsr with
      | mk hfits =>
        exact @Terms.Apart.mk T { s with diagnostics := s.diagnostics ++ [⟨.missingReturnValue,
          found.span.start⟩] } _ _ _ _ { hfits with reports := hreports _ _ _ hfits.reports }
    next => exact along_pure (T.judged_refl true)

end

/-! ### Slots -/

section

variable {T : Terms}

/-- Changes of one node that go together on what suits. -/
lemma along_update (id : NodeId) {f g} (h : ∀ node later, T.SuitsNode id node → f node = some later →
      g (T.places.node node) = some (T.places.node later) ∧ T.SuitsNode id later) :
    T.Along Eq (updateTree id fun tree => tree.update id f) (updateTree id fun tree => tree.update id g) := by
  refine along_tree fun tree hsuits => ?_
  dsimp only
  cases hset : tree.update id f with
  | none => exact along_throw _ _
  | some after =>
    obtain ⟨node, later, hn, hf, rfl⟩ := update_eq_some_iff.1 hset
    obtain ⟨hg, hlater⟩ := h node later (hsuits id node hn) hf
    have hother : (T.places.tree tree).update id g = some (T.places.tree (tree.put id later)) := by
      refine update_eq_some_iff.2 ⟨_, _, (node?_tree ..).trans (congrArg _ hn), hg, ?_⟩
      simp [put, Relabeling.tree, Array.map_setIfInBounds]
    rw [hother]
    refine along_modify fun s r hsr => ⟨hsr.setTree fun other found hfound => ?_, fun h => h⟩
    rw [node?_put (lt_size hn)] at hfound
    split at hfound
    next heq =>
      cases hfound
      exact heq ▸ hlater
    next => exact hsuits other found hfound

lemma along_updateExpr (id : ExprId) {f} (h : ∀ kind later, T.SuitsExpr kind → f kind = some later →
    T.SuitsExpr later) : T.Shared (updateTree id fun tree => tree.updateExpr id f) := by
  refine along_update id fun node later hnode hf => ?_
  cases node with
  | expr expr =>
    obtain ⟨kind, hkind, rfl⟩ := Option.map_eq_some_iff.1 hf
    exact ⟨by simp [node, hkind], h _ _ hnode.1 hkind, hnode.2⟩
  | _ => cases hf

lemma along_updateStmt (id : StmtId) (f : StmtKind → Option StmtKind) :
    T.Shared (updateTree id fun tree => tree.updateStmt id f) := by
  refine along_update id fun node later hnode hf => ?_
  cases node with
  | stmt stmt =>
    obtain ⟨kind, hkind, rfl⟩ := Option.map_eq_some_iff.1 hf
    exact ⟨by simp [node, hkind], trivial⟩
  | _ => cases hf

lemma along_updateCase (id : CaseId) (body : ExprId) :
    T.Shared (updateTree id fun tree => tree.updateCase id fun case => { case with body }) := by
  refine along_update id fun node later hnode hf => ?_
  cases node with
  | case case =>
    cases hf
    exact ⟨by simp [node], trivial⟩
  | _ => cases hf

lemma along_setInitializer (id : DeclId) (initializer : ExprId) :
    T.Shared (updateTree id fun tree => tree.updateDecl id (setInitializer initializer)) := by
  refine along_update id fun node later hnode hf => ?_
  cases node with
  | decl decl =>
    obtain ⟨kind, _⟩ := decl
    cases kind <;> cases hf <;> exact ⟨rfl, hnode⟩
  | _ => cases hf

lemma Suits.push {tree} (h : T.Suits tree) {node} (hnode : T.SuitsNode tree.size node) :
    T.Suits (tree.push node).2 := by
  intro id other hn
  rw [node?_push] at hn
  split at hn
  next heq =>
    cases hn
    exact heq ▸ hnode
  next => exact h id other hn

/-- A wrapper stands where the expression in it stands. -/
lemma along_wrap (id : ExprId) (expected : Ty) (useSite : ScopeId) : T.Shared (wrap id expected useSite) := by
  refine (along_expr id).bind ?_
  rintro ⟨kind, span⟩ _ ⟨rfl, -, hsights⟩
  refine (along_scopeOr id useSite).next fun scope => ?_
  refine Terms.Along.next (along_modifyGet fun s r hsr => ?_) fun wrapper =>
    (along_note fun state => { state with exprTypes := state.exprTypes.insert wrapper expected }).last
  cases hsr with
  | mk hfits =>
    have hnumber (node : Node) : ((T.places.tree s.program.tree).push node).1 = s.program.tree.size := size_tree _ _
    have hpush : ((T.places.tree s.program.tree).push
        (.expr ⟨.existential id expected.traitDecls, T.places.span span⟩)).2 = T.places.tree
        (s.program.tree.push (.expr ⟨.existential id expected.traitDecls, span⟩)).2 := by
      simpa [node] using congrArg Prod.snd
        (tree_push T.places s.program.tree (.expr ⟨.existential id expected.traitDecls, span⟩))
    refine ⟨(size_tree _ _).symm, ?_, fun h => h⟩
    have hstate := @Terms.Apart.mk T { s with
      program := (s.program.push (.expr ⟨.existential id expected.traitDecls,
        span⟩)).2.register s.program.tree.size scope } _ _ _ _
      { hfits with tree := Suits.push hfits.tree ⟨trivial, hsights⟩ }
    simp only [other, program, Program.push, Program.register, ← hpush] at hstate
    simp only [other, program, Program.push, Program.register, hnumber]
    exact hstate

end

end Check

end TraitLang
