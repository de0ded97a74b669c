import TraitLang.Proofs.Lockstep.Statements

/-! Declarations in lockstep, and with them whole programs. -/
namespace TraitLang.Check

open Terms Relabeling Query

section

variable {T : Terms} {ask : Answerer} (h : T.Steady ask)

include h

/-! ### Bindings and variables -/

variable (id : DeclId)

lemma along_checkInitializer (initializer : ExprId) (expected : Option Ty) (scope : ScopeId) :
    T.Shared (checkInitializer ask id initializer expected scope) := by
  refine along_get fun s r hsr => ?_
  refine (along_checkExpr h initializer expected scope hsr.fits.policy).next fun checked => ?_
  exact (along_setInitializer id checked.expr).last

lemma along_bindingType (decl : BindingDecl) (scope : ScopeId) : T.Along Eq
    (bindingType ask id decl scope) (bindingType ask id (T.places.binding decl) scope) := by
  obtain ⟨_, _, ascription, initializer⟩ := decl
  cases ascription with
  | none =>
    cases initializer with
    | none => exact along_refuse (by simp) id _
    | some initializer => exact (along_checkInitializer h id initializer none scope).last
  | some ascription =>
    cases initializer with
    | none => exact (along_resolveType scope ascription).last
    | some initializer =>
      refine (along_resolveType scope ascription).next fun type => ?_
      exact (along_checkInitializer h id initializer (some type) scope).last

lemma along_realizeBinding : T.Shared (realizeBinding ask id) := by
  refine along_get fun s r hsr => ?_
  rw [hsr.declTypes_eq]
  cases s.declTypes[id]? with
  | some known => exact along_pure rfl
  | none =>
    refine (along_decl id).bind ?_
    rintro ⟨kind, span⟩ _ ⟨rfl, -⟩
    cases kind with
    | binding decl =>
      have hpattern : (T.places.binding decl).pattern = decl.pattern := pattern_move T.start T.stop _
      refine along_get fun s r hsr => ?_
      rw [hsr.inProgress_eq, hpattern]
      split
      · have hname : T.Shared (decl.pattern.vars.head?.elim (pure "_") declName) := by
          cases decl.pattern.vars.head? with
          | none => exact along_pure rfl
          | some var => exact along_declName var
        exact hname.next fun name => along_refuse (by simp) id _
      · refine (along_note fun state => { state with inProgress := id :: state.inProgress }).next fun _ => ?_
        refine (along_enclosingScope id).next fun scope => ?_
        refine (along_bindingType h id decl scope).next fun found => ?_
        refine (along_bindPattern h scope id decl.pattern found.1).next fun bound => ?_
        refine (along_note fun state => { state with inProgress := state.inProgress.erase id }).next fun _ => ?_
        exact (along_setDeclType id _).last
    | _ => exact along_throw _ _

lemma along_realizeVar : T.Shared (realizeVar ask id) := by
  have hlate : T.Shared (do return (← get).declTypes.getD id .error) := by
    refine along_get fun s r hsr => along_pure ?_
    rw [hsr.declTypes_eq]
  refine along_get fun s r hsr => ?_
  rw [hsr.declTypes_eq]
  cases s.declTypes[id]? with
  | some known => exact along_pure rfl
  | none =>
    refine along_get fun s r hsr => ?_
    rw [hsr.program_eq]
    refine (along_demand (s.program.bindingOf id).toList).next fun _ => along_get fun s r hsr => ?_
    rw [hsr.program_eq, owningBinding?_moved]
    cases s.program.owningBinding? id with
    | none => exact hlate
    | some binding => exact (along_realizeBinding h binding).next fun _ => hlate

lemma along_realize : T.Shared (realize ask id) := by
  have hkeep (type : Ty) : T.Shared (do setDeclType id type; return type) :=
    (along_setDeclType id type).last
  refine along_get fun s r hsr => ?_
  rw [hsr.declTypes_eq]
  cases s.declTypes[id]? with
  | some known => exact along_pure rfl
  | none =>
    refine (along_decl id).bind ?_
    rintro ⟨kind, span⟩ _ ⟨rfl, -⟩
    cases kind with
    | function decl => exact (along_signatureOf h id).next fun signature => hkeep _
    | param name ascription =>
      refine (along_enclosingScope id).next fun scope => ?_
      exact (along_resolveType scope ascription).next hkeep
    | genericParam name => exact hkeep (.param id name)
    | binding decl => exact along_realizeBinding h id
    | var name => exact along_realizeVar h id
    | trait decl => exact hkeep (.trait id decl.name)
    | product decl => exact hkeep (.product id decl.name)
    | module => exact hkeep .error

/-! ### Verdicts -/

lemma along_verdicts (ids : List DeclId) : T.Along T.judged (verdicts ask ids) (verdicts ask ids) := by
  induction ids with
  | nil => exact along_pure (T.judged_refl true)
  | cons id ids ih =>
    refine (h.verdict id).bind fun good good' hgood => ?_
    exact ih.bind fun rest rest' hrest => along_pure (T.judged_and hgood.1 hrest)

lemma along_checkFunction (decl : FunctionDecl) : T.Along T.judged (checkFunction ask id decl)
    (checkFunction ask id (T.places.function decl)) := by
  have hbody : T.Along T.judged (decl.body.elim (pure true) (checkBody ask id))
      ((T.places.function decl).body.elim (pure true) (checkBody ask id)) := by
    rw [show (T.places.function decl).body = decl.body from option_id_move T.start T.stop _]
    cases decl.body with
    | none => exact along_pure (T.judged_refl true)
    | some stmt => exact along_checkBody h id stmt
  have hplain : ((T.places.function decl).genericParams.isEmpty && (T.places.function
      decl).whereClause.isEmpty) = (decl.genericParams.isEmpty && decl.whereClause.isEmpty) := by
    simp [function]
  refine (along_signatureOf h id).next fun signature => ?_
  rw [hplain]
  split
  · exact hbody.bind fun good good' hgood => along_pure (T.judged_and (T.judged_refl _) hgood)
  · refine (along_genericsOf id).next fun generics => ?_
    exact hbody.bind fun good good' hgood => along_pure (T.judged_and (T.judged_refl _) hgood)

lemma along_checkKind (kind : DeclKind) (hverdict : kind.isBinding = false →
    ∀ good good', T.judged good good' → T.verdict id good good') :
    T.Along (T.verdict id) (checkKind ask id kind) (checkKind ask id (T.places.declKind kind)) := by
  have htyped : T.Along (T.verdict id) (do return !(← realize ask id).hasErrors)
      (do return !(← realize ask id).hasErrors) :=
    (along_realize h id).next fun type => along_pure (T.verdict_refl id _)
  have hmembers {x y} (hxy : T.Along Eq x y) (members : List DeclId) : T.Along T.judged
      (do let first ← x; let rest ← verdicts ask members; return first && rest)
      (do let first ← y; let rest ← verdicts ask (members.map T.places.id); return first && rest) := by
    rw [map_id_move]
    refine hxy.next fun first => ?_
    exact (along_verdicts h members).bind fun rest rest' hrest =>
      along_pure (T.judged_and (T.judged_refl first) hrest)
  cases kind with
  | module name members =>
    rw [declKind, map_id_move]
    exact (along_verdicts h members).imp (hverdict rfl)
  | function decl => exact (along_checkFunction h id decl).imp (hverdict rfl)
  | param | binding | var => exact htyped
  | genericParam => exact along_pure (T.verdict_refl id true)
  | trait decl =>
    refine (along_enclosingScope id).next fun scope => ?_
    exact (hmembers (along_checkRefinements scope decl.refinements) decl.members).imp (hverdict rfl)
  | product decl => exact (hmembers (along_checkConformances h id) decl.members).imp (hverdict rfl)

lemma along_checkDeclaration : T.Along (T.verdict id) (checkDeclaration ask id) (checkDeclaration ask id) := by
  refine along_get fun s r hsr => ?_
  have hknown := hsr.fits.verdicts id
  generalize s.verdicts[id]? = known, r.verdicts[id]? = known' at hknown ⊢
  cases hknown with
  | some hgood => exact along_pure hgood
  | none =>
    refine (along_setVerdict (T.verdict_refl id true)).next fun _ => ?_
    refine (along_decl id).bind ?_
    rintro decl _ ⟨rfl, hverdict⟩
    refine (along_checkKind h id decl.kind hverdict).bind fun good good' hgood => ?_
    exact (along_setVerdict hgood).next fun _ => along_pure hgood

end

/-! ### Programs -/

section

variable (T : Terms)

lemma steady_answerWithin (depth : Nat) : T.Steady (answerWithin depth) := by
  induction depth with
  | zero => exact ⟨fun _ => along_throw _ _, fun _ => along_throw _ _, fun _ _ => along_throw _ _⟩
  | succ depth ih => exact ⟨along_checkDeclaration ih, along_realize ih, along_infer ih⟩

lemma steady_answer : T.Steady answer := by
  have hanswer {α : Type} {R} {query : Query α}
      (h : ∀ depth, T.Along R (answerWithin depth query) (answerWithin depth query)) :
      T.Along R (answer query) (answer query) := by
    intro s r hsr
    have hdepth : depthBound r.program = depthBound s.program := by
      simp only [depthBound, hsr.program_eq, tree_program, size_tree]
    unfold answer
    rw [hdepth]
    exact h _ s r hsr
  exact ⟨fun id => hanswer fun depth => (steady_answerWithin T depth).verdict id,
    fun id => hanswer fun depth => (steady_answerWithin T depth).declType id,
    fun id useSite => hanswer fun depth => (steady_answerWithin T depth).exprType id useSite⟩

variable {R : Bool → Bool → Prop}

lemma along_checkProgram (hR : ∀ {good good' ds ds'}, T.judged good good' → T.reports ds ds' → R
    (good && ds.isEmpty) (good' && ds'.isEmpty)) : T.Along R checkProgram checkProgram := by
  refine along_tree fun tree _ => ?_
  have hmodules : (T.places.tree tree).modules = tree.modules := map_id_move T.start T.stop _
  rw [hmodules]
  refine (along_verdicts (steady_answer T) tree.modules).bind fun good good' hgood => ?_
  exact along_get fun s r hsr => along_pure (hR hgood hsr.fits.reports)

lemma exists_checkProgram_along {program} (settings settings' : Settings)
    (htree : T.Suits program.tree) (hpolicy : T.policy settings.freePolicy settings'.freePolicy)
    (hdiagnose : T.diagnose settings.diagnoseMissingReturns settings'.diagnoseMissingReturns)
    (hclaims : T.claims ∅ ∅) (hreports : T.reports [] []) (hR : ∀ {good good' ds ds'},
    T.judged good good' → T.reports ds ds' → R (good && ds.isEmpty) (good' && ds'.isEmpty))
    {good s} (hrun : checkProgram (.new program settings) = .ok good s) :
    ∃ good' r, T.Apart s r ∧ R good good' ∧ (T.spoiled s.diagnostics ∨
      checkProgram (.new (T.places.program program) settings') = .ok good' r) := by
  have hstart := @Terms.Apart.mk T (.new program settings) settings' ∅ ∅ []
    ⟨htree, hpolicy, hdiagnose, fun _ => by simp [State.new], hclaims, hreports⟩
  obtain ⟨good', r, hsr, hgood, -, hright⟩ := along_checkProgram T hR _ _ hstart good s hrun
  exact ⟨good', r, hsr, hgood, hright⟩

variable {T}

/-- In a tree as it is read, only bindings stand among conditions. -/
lemma suits_of_rooted {tree root} (h : tree.Rooted root)
    (hsights : ∀ id expr, tree.expr? id = some expr → T.places.Sights expr.span.start)
    (hplain : ∀ id, tree.Declares DeclKind.isBinding id → T.plain id)
    (hother : ∀ id, ¬tree.Declares DeclKind.isBinding id → ∀ good good', T.judged good good' →
    T.verdict id good good') : T.Suits tree := by
  intro id node hn
  have hfits := (h.below hn).1
  cases node with
  | decl decl =>
    intro hkind
    refine hother id ?_
    rintro ⟨found, hfound, hbinding⟩
    rw [Tree.decl?_eq_some.2 hn] at hfound
    cases hfound
    simp [hkind] at hbinding
  | expr expr =>
    refine ⟨?_, hsights id expr (Tree.expr?_eq_some.2 hn)⟩
    obtain ⟨kind, _⟩ := expr
    cases kind with
    | cond condition success failure => exact fun d hd => hplain d (hfits.1 _ hd)
    | _ => trivial
  | stmt | case => trivial

end

end TraitLang.Check
