import TraitLang.Proofs.Lockstep.Written

/-! Expressions in lockstep: what their types are does not depend on the terms. -/
namespace TraitLang.Check

open Terms

lemma Role.mismatch_ne (role : Role) (expected received : Ty) :
    role.mismatch expected received ≠ .missingReturnValue := by
  cases role <;> simp [mismatch]

lemma keepType_eq (slot : ExprId) (type : Ty) (policy : FreePolicy) : keepType slot type policy = (do
    let type ← resolve type
    let type ← settleFree policy slot type
    setExprType slot type
    return ⟨slot, type⟩) := by
  refine congrArg (resolve type >>= ·) (funext fun type => ?_)
  unfold settleFree
  by_cases hfree : (type.hasVars && policy = FreePolicy.reject) = true
  · rw [if_pos hfree, if_pos hfree, bind_assoc]
  · rw [if_neg hfree, if_neg hfree]

variable {T : Terms} {α : Type}

/-! ### Steps -/

lemma along_refuse {problem} (h : problem ≠ .missingReturnValue) (id : NodeId) (answer : α) :
    T.Shared (do reportAt problem id; return answer) :=
  (along_reportAt (T.told_of_ne h) id).last

lemma along_setDeclType (id : DeclId) (type : Ty) : T.Shared (setDeclType id type) :=
  along_note fun state => { state with declTypes := state.declTypes.insert id type }

lemma along_setExprType (id : ExprId) (type : Ty) : T.Shared (setExprType id type) :=
  along_note fun state => { state with exprTypes := state.exprTypes.insert id type }

lemma along_expectType (id : ExprId) (actual expected : Ty) : T.Shared (expectType id actual expected) := by
  refine (along_unify actual expected).next fun fits => ?_
  cases fits with
  | true => exact along_pure rfl
  | false =>
    refine (along_resolve expected).next fun expected => ?_
    refine (along_resolve actual).next fun actual => ?_
    exact along_refuse (by simp) id false

lemma along_elementTypes (count : Nat) (type : Ty) : T.Shared (elementTypes count type) := by
  cases type with
  | var x =>
    refine (along_mapM (fun _ => along_fresh) (List.range count)).next fun types => ?_
    exact (along_unify _ _).last
  | _ => exact along_pure rfl

lemma along_boundsOf (param : DeclId) : T.Shared (boundsOf param) := by
  refine along_get fun s r hsr => ?_
  have hscope : (r.program.scopeOf param).bind r.program.tree.asDecl? =
      (s.program.scopeOf param).bind s.program.tree.asDecl? := by
    rw [hsr.program_eq]
    exact congrArg (Option.bind _) (funext fun id => Relabeling.asDecl?_moved T.start T.stop _ id)
  dsimp only
  rw [hscope]
  cases (s.program.scopeOf param).bind s.program.tree.asDecl? with
  | none => exact along_pure rfl
  | some function =>
    refine (along_genericsOf function).next fun generics => ?_
    cases generics <;> exact along_pure rfl

lemma along_reportCall (id callee : ExprId) (received : Nat) (type : Ty) :
    T.Shared (reportCall id callee received type) := by
  have hother : T.Shared (reportAt (.notCallable type.describe) callee) :=
    along_reportAt (T.told_of_ne (by simp)) callee
  cases type with
  | function params output =>
    dsimp only [reportCall]
    split <;> exact along_reportAt (T.told_of_ne (by simp)) id
  | error => exact along_pure rfl
  | _ => exact hother

lemma along_checkAssignee (id : ExprId) (useSite : ScopeId) : T.Shared (checkAssignee id useSite) := by
  refine (along_expr id).bind ?_
  rintro ⟨kind, span⟩ _ ⟨rfl, -⟩
  cases kind with
  | name name =>
    refine (along_lookupValue id name useSite).next fun found => ?_
    cases found with
    | none => exact along_pure rfl
    | some found =>
      refine along_get fun s r hsr => ?_
      rw [hsr.program_eq]
      refine (along_demand (found :: (s.program.bindingOf found).toList)).next fun _ => along_get fun s r hsr => ?_
      rw [hsr.program_eq, Relabeling.isAssignable_moved]
      cases isAssignable s.program found with
      | true => exact along_pure rfl
      | false => exact along_refuse (by simp) id false
  | member => exact along_pure rfl
  | _ => exact along_refuse (by simp) id false

section

variable {ask : Answerer} (h : T.Steady ask)

/-! ### Expected types -/

section

include h

lemma along_coerceProduct (id : ExprId) (product : DeclId) (actual expected : Ty)
    (useSite : ScopeId) : T.Shared (coerceProduct ask id product actual expected useSite) := by
  refine (along_checkConformances h product).next fun _ => ?_
  refine along_get fun s r hsr => ?_
  dsimp only
  rw [hsr.getD_conformances, Relabeling.supportFor_conformances]
  cases supportFor (s.conformances.getD product []) .sound expected.traitDecls with
  | absent => exact along_refuse (Role.mismatch_ne _ _ _) id _
  | broken => exact along_pure rfl
  | sound => exact (along_wrap id expected useSite).last

lemma along_coerce (id : ExprId) (expected : Ty) (useSite : ScopeId) (role : Role) :
    T.Shared (coerce ask id expected useSite role) := by
  refine (along_resolve expected).next fun expected => ?_
  refine (h.exprType id useSite).next fun type => ?_
  split
  · exact along_pure rfl
  refine (along_resolve type).next fun resolved => ?_
  have hother : T.Shared (do
      if ← unify type expected then return (id, ← resolve type)
      reportAt (role.mismatch expected resolved) id
      return (id, .error)) := by
    refine (along_unify type expected).next fun fits => ?_
    cases fits with
    | true => exact (along_resolve type).last
    | false => exact along_refuse (role.mismatch_ne _ _) id _
  cases resolved with
  | product product name =>
    cases expected with
    | existential traits => exact along_coerceProduct h id product _ _ useSite
    | _ => exact hother
  | _ => exact hother

lemma along_checkExpr (id : ExprId) (expected : Option Ty) (useSite : ScopeId) {p p'} (hp : T.policy p p') :
    T.Along Eq (checkExpr ask id expected useSite p) (checkExpr ask id expected useSite p') := by
  have hkeep (answer : ExprId × Ty) : T.Along Eq (keepType answer.1 answer.2 p) (keepType answer.1 answer.2 p') := by
    rw [keepType_eq, keepType_eq]
    refine (along_resolve answer.2).next fun type => ?_
    refine (along_settleFree hp answer.1 type).next fun type => ?_
    exact (along_setExprType answer.1 type).last
  rw [checkExpr_eq, checkExpr_eq]
  cases expected with
  | none => exact (h.exprType id useSite).last.next hkeep
  | some expected => exact (along_coerce h id expected useSite .value).next hkeep

end

mutual

lemma along_bindPattern (h : T.Steady ask) (scope : ScopeId) (place : NodeId) : ∀ pattern type,
    T.Shared (bindPattern ask scope place pattern type)
  | .name var, type => (along_setDeclType var type).last
  | .wildcard, _ => along_pure rfl
  | .expr id, type => (along_coerce h id type scope .value).last
  | .tuple elements, type => by
    refine (along_resolve type).next fun resolved => ?_
    refine (along_elementTypes elements.length resolved).next fun types => ?_
    cases types with
    | some types => exact along_bindPatterns h scope place elements types
    | none =>
      refine (along_reportAt (T.told_of_ne (by simp)) place).next fun _ => ?_
      exact (along_forM (fun var => along_setDeclType var .error) _).last

lemma along_bindPatterns (h : T.Steady ask) (scope : ScopeId) (place : NodeId) : ∀ patterns types,
    T.Shared (bindPatterns ask scope place patterns types)
  | [], _ => by
    exact along_pure rfl
  | _ :: _, [] => along_pure rfl
  | pattern :: patterns, type :: types => by
    refine (along_bindPattern h scope place pattern type).next fun good => ?_
    exact (along_bindPatterns h scope place patterns types).last

end

include h

/-! ### Names and members -/

lemma along_inferName (id : ExprId) (name : String) (useSite : ScopeId) : T.Shared (inferName ask id name useSite) := by
  refine (along_lookupValue id name useSite).next fun found => ?_
  cases found with
  | none => exact along_refuse (by simp) id _
  | some found =>
    refine (along_decl found).bind ?_
    rintro ⟨kind, span⟩ _ ⟨rfl, -⟩
    cases kind with
    | var | param | binding => exact h.declType found
    | function decl =>
      refine (along_signatureOf h found).next fun signature => ?_
      have hparams : (T.places.function decl).genericParams = decl.genericParams :=
        Relabeling.map_id_move T.start T.stop _
      rw [hparams]
      split
      · exact along_pure rfl
      refine (along_scopeOr id useSite).next fun scope => ?_
      refine (along_genericsOf found).next fun generics => ?_
      cases generics with
      | none => exact along_pure rfl
      | some generics => exact (along_instantiate generics _ scope).last
    | product decl =>
      dsimp only [Relabeling.declKind]
      rw [Relabeling.map_id_move]
      refine (along_demand decl.members).next fun _ => along_tree fun tree _ => ?_
      rw [Relabeling.propertyVars_moved]
      refine (along_mapM h.declType _).next fun params => ?_
      exact (h.declType found).last
    | trait | module | genericParam => exact along_refuse (by simp) id _

lemma along_memberType (name : String) (members : List DeclId) : T.Shared (memberType ask name members) := by
  induction members with
  | nil => exact along_pure rfl
  | cons member members ih =>
    refine (along_decl member).bind ?_
    rintro ⟨kind, span⟩ _ ⟨rfl, -⟩
    cases kind with
    | function decl =>
      show T.Along Eq (if decl.name = name then _ else _) (if decl.name = name then _ else _)
      split
      · exact (along_signatureOf h member).last
      · exact ih
    | binding decl =>
      have hpattern : (T.places.binding decl).pattern = decl.pattern := Relabeling.pattern_move T.start T.stop _
      dsimp only [Relabeling.declKind]
      rw [hpattern]
      refine (along_demand decl.pattern.vars).next fun _ => along_tree fun tree _ => ?_
      have hnamed : propertyNamed? (T.places.tree tree)
          (T.places.binding decl) name = propertyNamed? tree decl name := by
        simp only [propertyNamed?, hpattern, Relabeling.declName?_moved]
      rw [hnamed]
      cases propertyNamed? tree decl name with
      | none => exact ih
      | some var => exact (h.declType var).last
    | _ => exact ih

lemma along_requirementType (traits : List DeclId) (name : String) : T.Shared (requirementType ask traits name) := by
  refine along_get fun s r hsr => ?_
  rw [hsr.program_eq, Relabeling.requirement?_moved]
  cases s.program.requirement? traits name with
  | error halt => exact along_throw halt _
  | ok found =>
    cases found with
    | none => exact along_pure rfl
    | some requirement => exact (along_signatureOf h requirement).last

lemma along_inferMember (id : ExprId) (base : Ty) (name : String) : T.Shared (inferMember ask id base name) := by
  refine (along_resolve base).next fun base => ?_
  have hfound {x} {f : Option Ty → Check Ty} (hx : T.Shared x) (hsome : ∀ type, f (some type) = pure type)
      (hnone : f none = do reportAt (.unknownMember base.describe name) id; return .error) : T.Shared (x >>= f) := by
    refine hx.next fun found => ?_
    cases found with
    | some type => exact hsome type ▸ along_pure rfl
    | none => exact hnone ▸ along_refuse (by simp) id _
  cases base with
  | product product =>
    refine (along_membersOf product).next fun members => ?_
    exact hfound (along_memberType h name members) (fun _ => rfl) rfl
  | existential | trait => exact hfound (along_requirementType h _ name) (fun _ => rfl) rfl
  | param param =>
    refine (along_boundsOf param).next fun traits => ?_
    exact hfound (along_requirementType h traits name) (fun _ => rfl) rfl
  | _ => exact hfound (along_pure rfl) (fun _ => rfl) rfl

/-! ### Operators -/

lemma along_inferUnary (operator : UnaryOperator) (operand : ExprId) (useSite : ScopeId) :
    T.Shared (inferUnary ask operator operand useSite) := by
  refine (h.exprType operand useSite).next fun type => ?_
  exact (along_expectType operand type _).last

lemma along_inferBinary (operator : BinaryOperator) (left right : ExprId) (useSite : ScopeId) :
    T.Shared (inferBinary ask operator left right useSite) := by
  refine (h.exprType left useSite).next fun leftType => ?_
  refine (h.exprType right useSite).next fun rightType => ?_
  refine (along_resolve leftType).next fun known => ?_
  cases operatorTypes known operator with
  | some types =>
    refine (along_expectType left leftType types.1).next fun leftFits => ?_
    refine (along_expectType right rightType types.1).next fun rightFits => ?_
    refine (along_resolve leftType).next fun leftType => ?_
    exact (along_resolve rightType).last
  | none =>
    refine (along_expectType right rightType leftType).next fun equal => ?_
    exact (along_resolve leftType).last

/-! ### Calls and assignments -/

lemma along_checkArguments (id : ExprId) (useSite : ScopeId) (arguments : List ExprId) :
    ∀ (index : Nat) params, T.Shared (checkArguments ask id useSite index arguments params) := by
  induction arguments with
  | nil =>
    intro index params
    exact along_pure rfl
  | cons argument arguments ih =>
    intro index params
    cases params with
    | nil => exact along_pure rfl
    | cons param params =>
      refine (along_coerce h argument param useSite .argument).next fun checked => ?_
      refine (along_updateExpr id fun kind later hkind hset => ?_).next fun _ => ?_
      · cases kind with
        | call =>
          obtain ⟨_, -, rfl⟩ := Option.map_eq_some_iff.1 hset
          trivial
        | _ =>
          cases hset
          exact hkind
      · exact (ih (index + 1) params).last

lemma along_inferCall (id callee : ExprId) (arguments : List ExprId) (useSite : ScopeId) :
    T.Shared (inferCall ask id callee arguments useSite) := by
  refine (h.exprType callee useSite).next fun found => ?_
  refine (along_resolve found).next fun type => ?_
  have hrefuse : T.Shared (do
      reportCall id callee arguments.length type
      arguments.forM fun argument => do
        let _ ← ask (.exprType argument useSite)
      return Ty.error) := by
    refine (along_reportCall id callee _ type).next fun _ => ?_
    refine (along_forM (fun argument => ?_) arguments).last
    exact (h.exprType argument useSite).last
  cases type with
  | function params output =>
    dsimp only
    split
    · exact (along_checkArguments h id useSite arguments 0 params).last
    · exact hrefuse
  | _ => exact hrefuse

lemma along_inferAssign (id assignee value : ExprId) (useSite : ScopeId) :
    T.Shared (inferAssign ask id assignee value useSite) := by
  refine (along_checkAssignee assignee useSite).next fun assignable => ?_
  refine (h.exprType assignee useSite).next fun target => ?_
  refine (along_coerce h value target useSite .value).next fun checked => ?_
  refine (along_updateExpr id fun kind later hkind hset => ?_).last
  cases kind <;> cases hset <;> exact hkind

/-! ### Conditionals and matches -/

/-- Here verdicts on declarations enter into types. -/
lemma along_checkConditions (id : ExprId) (scope : ScopeId) (items : List ConditionItem) : ∀ index : Nat,
    (∀ d, .decl d ∈ items → T.plain d) → T.Shared (checkConditions ask id scope index items) := by
  induction items with
  | nil => exact fun _ _ => along_pure rfl
  | cons item items ih =>
    intro index hplain
    have hrest (good : Bool) : T.Shared (do let rest ← checkConditions ask id scope (index + 1) items; return good && rest) :=
      (ih (index + 1) fun d hd => hplain d (List.mem_cons_of_mem _ hd)).last
    cases item with
    | decl d =>
      refine (h.verdict d).bind fun good good' hgood => ?_
      rw [hgood.2 (hplain d (List.mem_cons_self ..))]
      exact hrest good'
    | expr test =>
      refine (along_coerce h test .bool scope .value).next fun checked => ?_
      refine (along_updateExpr id fun kind later hkind hset => ?_).next fun _ => hrest _
      cases kind with
      | cond condition =>
        obtain ⟨_, hslots, rfl⟩ := Option.map_eq_some_iff.1 hset
        obtain ⟨-, rfl⟩ := Tree.setSlot_eq_some_iff.1 hslots
        intro d hd
        refine hkind d ((List.mem_or_eq_of_mem_set hd).resolve_right ?_)
        simp
      | _ =>
        cases hset
        exact hkind

lemma along_inferCond (id : ExprId) {condition} (hplain : ∀ d, .decl d ∈ condition → T.plain d)
    (success failure : ExprId) (useSite : ScopeId) : T.Shared (inferCond ask id condition success failure useSite) := by
  refine (along_ownScope id).next fun scope => ?_
  refine (along_checkConditions h id scope condition 0 hplain).next fun tested => ?_
  refine (h.exprType success scope).next fun type => ?_
  refine (along_coerce h failure type useSite .value).next fun checked => ?_
  refine (along_updateExpr id fun kind later hkind hset => ?_).next fun _ => ?_
  · cases kind <;> cases hset <;> exact hkind
  · split
    · exact along_resolve type
    · exact along_pure rfl

lemma along_checkCases (subject result : Ty) (cases : List CaseId) :
    T.Shared (checkCases ask subject result cases) := by
  induction cases with
  | nil => exact along_pure rfl
  | cons id ids ih =>
    refine (along_case id).bind ?_
    rintro case _ rfl
    refine (along_ownScope id).next fun scope => ?_
    refine (along_bindPattern h scope id case.pattern subject).next fun bound => ?_
    refine (along_coerce h case.body result scope .value).next fun checked => ?_
    refine (along_updateCase id checked.1).next fun _ => ?_
    exact ih.last

lemma along_inferSelect (subject : ExprId) (cases : List CaseId) (useSite : ScopeId) :
    T.Shared (inferSelect ask subject cases useSite) := by
  refine (h.exprType subject useSite).next fun found => ?_
  refine along_fresh.next fun result => ?_
  have hrest : T.Shared (do
      let known := !(← resolve found).hasErrors
      let sound ← checkCases ask found result cases
      if known && sound then resolve result else return .error) := by
    refine (along_resolve found).next fun type => ?_
    refine (along_checkCases h found result cases).next fun sound => ?_
    split
    · exact along_resolve result
    · exact along_pure rfl
  split
  · exact (along_unify result .unit).next fun _ => hrest
  · exact hrest

/-! ### All expressions -/

lemma along_inferKind (id : ExprId) (useSite : ScopeId) {kind} (hkind : T.SuitsExpr kind) :
    T.Shared (inferKind ask id useSite kind) := by
  cases kind with
  | int | str | bool => exact along_pure rfl
  | name name => exact along_inferName h id name useSite
  | call callee arguments => exact along_inferCall h id callee arguments useSite
  | binary operator left right => exact along_inferBinary h operator left right useSite
  | unary operator operand => exact along_inferUnary h operator operand useSite
  | assign assignee value => exact along_inferAssign h id assignee value useSite
  | tuple elements => exact (along_mapM (fun element => h.exprType element useSite) elements).last
  | member base name => exact (h.exprType base useSite).next fun type => along_inferMember h id type name
  | cond condition success failure => exact along_inferCond h id hkind success failure useSite
  | select subject cases => exact along_inferSelect h subject cases useSite
  | existential _ traits =>
    refine (along_demand traits).next fun _ => along_get fun s r hsr => along_pure ?_
    rw [hsr.program_eq]
    simp only [Relabeling.declName_moved]

lemma along_infer (id : ExprId) (useSite : ScopeId) : T.Shared (infer ask id useSite) := by
  refine (along_expr id).bind ?_
  rintro expr _ ⟨rfl, hsuits, -⟩
  refine (along_inferKind h id useSite hsuits).next fun type => ?_
  exact (along_setExprType id type).last

end

end TraitLang.Check
