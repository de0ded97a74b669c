import TraitLang.Proofs.Lockstep.Terms

/-! What two checkings in lockstep read in the texts of a program: traits, types, generic functions
and the conformances of products. -/
namespace TraitLang.Check

open Terms Relabeling

variable {T : Terms} {α β : Type}

/-! ### Names and types -/

section

lemma along_resolveTrait (name : TraitName) (scope : ScopeId) : T.Along Eq (resolveTrait name scope)
    (resolveTrait (T.places.traitName name) scope) := by
  refine (along_demandFrom scope).next fun _ => along_get fun s r hsr => ?_
  simp only [hsr.program_eq, traitName, trait?_moved]
  split
  · exact (along_report (T.told_of_ne (by simp)) name.span.start).last
  · exact along_pure rfl

lemma along_resolveTypeName (name : String) (span : Span) (scope : ScopeId) : T.Along Eq
    (resolveTypeName name span scope) (resolveTypeName name (T.places.span span) scope) := by
  refine (along_demandFrom scope).next fun _ => along_get fun s r hsr => ?_
  simp only [hsr.program_eq, declaredType?_moved]
  cases (declaredType? s.program name scope).or (builtinType? name) with
  | some type => exact along_pure rfl
  | none => exact (along_report (T.told_of_ne (by simp)) span.start).last

lemma along_resolveTraits (scope : ScopeId) (names : List TraitName) : T.Along Eq
    (resolveTraits scope names) (resolveTraits scope (names.map T.places.traitName)) := by
  induction names with
  | nil => exact along_pure rfl
  | cons name names ih =>
    refine (along_resolveTrait name scope).next fun found => ?_
    cases found with
    | none => exact along_pure rfl
    | some id =>
      exact ih.last

mutual

lemma along_resolveType (scope : ScopeId) :
    ∀ type, T.Along Eq (resolveType scope type) (resolveType scope (T.places.type type))
  | .name name span => along_resolveTypeName name span scope
  | .tuple elements _ => (along_resolveTypes scope elements).bind fun types types' h => along_pure (congrArg Ty.tuple h)
  | .existential traits _ => by
    refine (along_resolveTraits scope traits).next fun types => ?_
    cases types <;> exact along_pure rfl

lemma along_resolveTypes (scope : ScopeId) : ∀ types, T.Along Eq (resolveTypes scope types)
    (resolveTypes scope (T.places.types types))
  | [] => along_pure rfl
  | type :: types => by
    refine (along_resolveType scope type).next fun first => ?_
    exact (along_resolveTypes scope types).last

end

lemma along_checkRefinements (scope : ScopeId) (names : List TraitName) : T.Along Eq
    (checkRefinements scope names) (checkRefinements scope (names.map T.places.traitName)) := by
  induction names with
  | nil => exact along_pure rfl
  | cons name names ih =>
    refine (along_resolveTrait name scope).next fun found => ?_
    exact ih.last

end

/-! ### Generic functions -/

section

lemma along_addRequirements (requirements : List Requirement) : ∀ generics, T.Along Eq
    (addRequirements generics requirements) (addRequirements generics (requirements.map T.places.requirement)) := by
  induction requirements with
  | nil => exact fun _ => along_pure rfl
  | cons requirement requirements ih =>
    intro generics
    have hparam : (T.places.requirement requirement).param = requirement.param := by
      cases requirement <;> rfl
    rw [List.map_cons]
    unfold addRequirements
    rw [hparam]
    cases generics.paramNamed? requirement.param with
    | none => exact along_pure rfl
    | some param =>
      cases requirement with
      | equality _ type =>
        refine (along_resolveType generics.scope type).next fun type => ?_
        cases generics.requireEqual param type with
        | error reason => exact along_pure rfl
        | ok generics => exact ih generics
      | conformance _ traits =>
        refine (along_demandFrom generics.scope).next fun _ => along_get fun s r hsr => ?_
        simp only [hsr.program_eq, addBounds_moved, pure_bind]
        cases addBounds s.program param generics traits with
        | error reason => exact along_pure rfl
        | ok generics => exact ih generics

lemma along_buildGenerics (id : DeclId) : T.Shared (buildGenerics id) := by
  refine (along_decl id).bind ?_
  rintro ⟨kind, span⟩ _ ⟨rfl, -⟩
  cases kind with
  | function decl =>
    refine along_get fun s r hsr => ?_
    simp only [hsr.program_eq, tree_program, scope?_tree, function, map_id_move,
      declName_moved]
    cases s.program.tree.scope? id with
    | none => exact along_pure rfl
    | some scope => exact (along_demand decl.genericParams).next fun _ => along_addRequirements decl.whereClause _
  | _ => exact along_pure rfl

lemma along_genericsOf (id : DeclId) : T.Shared (genericsOf id) := by
  have hkeep (found : Option Generics) : T.Shared (do modify fun state =>
      { state with generics := state.generics.insert id found }; return found) :=
    (along_note (fun state => { state with generics := state.generics.insert id found })).last
  refine along_get fun s r hsr => ?_
  rw [hsr.generics_eq]
  cases s.generics[id]? with
  | some known => exact along_pure rfl
  | none =>
    refine (along_buildGenerics id).next fun built => ?_
    cases built with
    | ok generics => exact hkeep (some generics)
    | error reason =>
      refine (along_declName id).next fun name => ?_
      exact (along_reportAt (T.told_of_ne (by simp)) id).next fun _ => hkeep none

lemma along_resolve (type : Ty) : T.Shared (resolve type) := by
  refine along_get fun s r hsr => along_pure ?_
  rw [hsr.solver_eq]

lemma along_solve (f : Program → Solver → α × Solver) (hf : ∀ program,
    f (T.places.program program) = f program) : T.Shared (modifyGet fun state : State =>
      ((f state.program state.solver).1, { state with solver := (f state.program state.solver).2 })) := by
  refine along_modifyGet fun s r hsr => ?_
  rw [hsr.program_eq, hf, hsr.solver_eq]
  refine ⟨rfl, ?_, fun h => h⟩
  cases hsr with
  | mk hfits =>
    exact @Terms.Apart.mk T { s with solver := (f s.program s.solver).2 } _ _ _ _
      { hfits with }

lemma along_fresh : T.Shared fresh := along_solve (fun _ => Solver.fresh) fun _ => rfl

lemma along_unify (first second : Ty) : T.Shared (unify first second) :=
  along_solve (fun _ solver => solver.unify first second) fun _ => rfl

lemma along_instantiate (generics : Generics) (type : Ty) (useSite : ScopeId) :
    T.Shared (instantiate generics type useSite) :=
  along_solve (fun program => generics.instantiate program type useSite) fun program =>
    funext fun solver => instantiate_program program T.places generics type useSite solver

/-- The function that a return statement leaves, with its signature. -/
def leaving (id : StmtId) : Check (DeclId × Signature) := do
  let program := (← get).program
  let some function := (program.scopeOf id).bind program.enclosingFunction?
    | throw (.defect (.returnOutsideFunction id))
  let some signature := (← get).signatures[function]?
    | throw (.defect (.unrealizedSignature function))
  return (function, signature)

lemma along_leaving (id : StmtId) : T.Shared (leaving id) := by
  refine along_get fun s r hsr => ?_
  have hfunction : (r.program.scopeOf id).bind r.program.enclosingFunction? =
      (s.program.scopeOf id).bind s.program.enclosingFunction? := by
    rw [hsr.program_eq]
    exact congrArg (s.program.scopeOf id).bind (funext (enclosingFunction?_moved T.start T.stop s.program))
  dsimp only
  rw [hfunction]
  cases (s.program.scopeOf id).bind s.program.enclosingFunction? with
  | none => exact along_throw _ _
  | some function =>
    refine along_get fun s r hsr => ?_
    rw [hsr.signatures_eq]
    cases s.signatures[function]? with
    | none => exact along_throw _ _
    | some signature => exact along_pure rfl

end

/-! ### Conformances -/

section

lemma along_mapM {f : α → Check β} (h : ∀ a, T.Shared (f a)) (xs : List α) : T.Shared (xs.mapM f) := by
  induction xs with
  | nil =>
    exact along_pure rfl
  | cons x xs ih =>
    rw [List.mapM_cons]
    refine (h x).next fun y => ?_
    exact ih.last

lemma along_forM {f g} (h : ∀ a, T.Along Eq (f a) (g a)) (xs : List α) : T.Along Eq (xs.forM f) (xs.forM g) := by
  induction xs with
  | nil => exact along_pure rfl
  | cons x xs ih => exact (h x).next fun _ => ih

lemma along_declaredConformances (scope : ScopeId) (names : List TraitName) : ∀ claimed, T.Along
    (fun cs cs' => cs' = cs.map T.places.conformance) (declaredConformances scope claimed names)
      (declaredConformances scope (claimed.map T.places.conformance)
      (names.map T.places.traitName)) := by
  induction names with
  | nil => exact fun _ => along_pure rfl
  | cons name names ih =>
    intro claimed
    refine (along_resolveTrait name scope).next fun found => ?_
    cases found with
    | none => exact ih claimed
    | some trait =>
      dsimp only
      rw [any_conformances]
      split
      · exact ih claimed
      · have hnew := ih (claimed ++ [.new trait (some name.span)])
        rw [List.map_append] at hnew
        exact hnew

lemma along_insertConformances (product : DeclId) (all : List Conformance) : T.Along Eq
    (modify fun state => { state with conformances := state.conformances.insert product all })
    (modify fun state =>
      { state with conformances := state.conformances.insert product (all.map T.places.conformance) }) := by
  refine along_modify fun s r hsr => ⟨?_, fun h => h⟩
  cases hsr with
  | @mk settings verdicts conformances diagnostics hfits =>
    exact @Terms.Apart.mk T { s with conformances := s.conformances.insert product all }
      settings verdicts (conformances.insert product (all.map T.places.conformance)) diagnostics
      { hfits with conformances := T.claims_insert product all hfits.conformances }

lemma along_eraseConformances (product : DeclId) : T.Shared (modify fun state =>
    { state with conformances := state.conformances.erase product }) := by
  refine along_modify fun s r hsr => ⟨?_, fun h => h⟩
  cases hsr with
  | @mk settings verdicts conformances diagnostics hfits =>
    exact @Terms.Apart.mk T { s with conformances := s.conformances.erase product }
      settings verdicts (conformances.erase product) diagnostics
      { hfits with conformances := T.claims_erase product hfits.conformances }

lemma along_ensureConformances (product : DeclId) : T.Shared (ensureConformances product) := by
  refine along_get fun s r hsr => ?_
  rw [T.claims_get product hsr.fits.conformances, Option.isSome_map]
  split
  · exact along_pure rfl
  · refine (along_decl product).bind ?_
    rintro ⟨kind, span⟩ _ ⟨rfl, -⟩
    cases kind with
    | product claims =>
      refine (along_enclosingScope product).next fun scope => ?_
      refine (along_declaredConformances scope claims.conformances []).bind ?_
      rintro declared _ rfl
      refine along_get fun s r hsr => ?_
      rw [hsr.program_eq, implied_moved]
      cases s.program.implied declared with
      | error halt => exact along_throw halt _
      | ok all => exact along_insertConformances product all
    | _ => exact along_pure rfl

variable {s s' : State}

lemma Terms.Apart.getD_conformances {r} (h : T.Apart s r) (product : DeclId) :
    r.conformances.getD product [] = (s.conformances.getD product []).map T.places.conformance := by
  rw [Std.TreeMap.getD_eq_getD_getElem?, Std.TreeMap.getD_eq_getD_getElem?, T.claims_get product h.fits.conformances]
  cases s.conformances[product]? <;> rfl

variable {ask : Answerer} (h : T.Steady ask)

include h

lemma along_signatureOf (id : DeclId) : T.Shared (signatureOf ask id) := by
  refine along_get fun s r hsr => ?_
  rw [hsr.signatures_eq]
  cases s.signatures[id]? with
  | some known => exact along_pure rfl
  | none =>
    refine (along_decl id).bind ?_
    rintro ⟨kind, span⟩ _ ⟨rfl, -⟩
    cases kind with
    | function decl =>
      refine (along_ownScope id).next fun scope => ?_
      have hparams : (T.places.function decl).params = decl.params := map_id_move T.start T.stop _
      rw [hparams]
      refine (along_mapM h.declType decl.params).next fun params => ?_
      have houtput : T.Along Eq (decl.output.elim (pure Ty.unit) (resolveType scope))
          ((decl.output.map T.places.type).elim (pure Ty.unit) (resolveType scope)) := by
        cases decl.output with
        | none => exact along_pure rfl
        | some type => exact along_resolveType scope type
      refine houtput.next fun output => ?_
      exact (along_note (fun state => { state with signatures := state.signatures.insert id ⟨params, output⟩ })).last
    | _ => exact along_throw _ _

lemma along_findImplementation (name : String) (required : Signature) (members : List DeclId) :
    T.Shared (findImplementation ask name required members) := by
  induction members with
  | nil => exact along_pure rfl
  | cons member members ih =>
    refine (along_demand [member]).next fun _ => along_get fun s r hsr => ?_
    simp only [hsr.program_eq, tree_program, isFunction_moved, declName_moved]
    split
    · refine (along_signatureOf h member).next fun signature => ?_
      split
      · exact along_pure rfl
      · exact ih
    · exact ih

lemma along_matchRequirements (members requirements : List DeclId) :
    T.Shared (matchRequirements ask members requirements) := by
  induction requirements with
  | nil => exact along_pure rfl
  | cons requirement requirements ih =>
    refine (along_declName requirement).next fun name => ?_
    refine (along_signatureOf h requirement).next fun required => ?_
    refine (along_findImplementation h name required members).next fun found => ?_
    refine ih.next ?_
    rintro ⟨entries, missing⟩
    cases found <;> exact along_pure rfl

omit h in
lemma along_membersOf (product : DeclId) : T.Shared (membersOf product) := by
  refine (along_demand [product]).next fun _ => along_tree fun tree _ => along_pure ?_
  rw [productMembers_moved]

omit h in
lemma along_requirementsOf (c : Conformance) :
    T.Along Eq (requirementsOf c) (requirementsOf (T.places.conformance c)) := by
  refine along_tree fun tree _ => ?_
  rw [children_tree]
  refine (along_demand (c.trait :: tree.children c.trait)).next fun _ => along_tree fun tree _ => along_pure ?_
  rw [requirements_moved]

lemma along_verifyConformance (product : DeclId) (c : Conformance) :
    T.Along (fun outcome outcome' => outcome' = T.places.outcome outcome)
    (verifyConformance ask product c) (verifyConformance ask product (T.places.conformance c)) := by
  refine (along_membersOf product).next fun members => (along_requirementsOf c).next fun requirements => ?_
  refine (along_matchRequirements h members requirements).next ?_
  rintro ⟨entries, missing⟩
  dsimp only
  split
  · exact (along_requirementsOf c).next fun _ => along_tree fun tree _ => along_pure (accept_moved ..)
  · refine (along_decl product).bind ?_
    rintro ⟨kind, span⟩ _ ⟨rfl, -⟩
    refine (along_declName product).next fun type => (along_demand [c.trait]).next fun _ => ?_
    refine along_tree fun tree _ => ?_
    have hposition : ((T.places.conformance c).span.getD (T.places.span span)).start = T.start
        (c.span.getD span).start := by
      show ((c.span.map T.places.span).getD _).start = _
      cases c.span <;> rfl
    have htrait : (T.places.conformance c).traitType (T.places.tree tree) = c.traitType tree := by
      simp only [Conformance.traitType, declName?_moved]
      rfl
    rw [hposition, htrait]
    refine (along_forM (fun requirement => ?_) missing).next fun _ => along_pure (transition_conformance _ c _)
    exact along_report (T.told_of_ne (by simp)) (c.span.getD span).start

lemma along_verifyEach (product : DeclId) (cs : List Conformance) :
    T.Along (fun cs cs' => cs' = cs.map T.places.conformance) (verifyEach ask product cs)
      (verifyEach ask product (cs.map T.places.conformance)) := by
  induction cs with
  | nil => exact along_pure rfl
  | cons c cs ih =>
    unfold verifyEach
    show T.Along _ _ (if c.state = .realized then _ else _)
    split
    · refine (along_verifyConformance h product c).bind ?_
      rintro outcome _ rfl
      cases outcome with
      | ok _ settled =>
        refine ih.bind ?_
        rintro rest _ rfl
        exact along_pure rfl
      | error defect left => exact along_throw _ _
    · refine ih.bind ?_
      rintro rest _ rfl
      exact along_pure rfl

lemma along_checkConformances (product : DeclId) : T.Shared (checkConformances ask product) := by
  refine Along.congr ?_ (fun _ _ _ => checkConformances_eq_ok) fun _ _ _ => checkConformances_eq_ok
  refine (along_ensureConformances product).next fun _ => ?_
  refine along_get fun s r hsr => ?_
  rw [hsr.getD_conformances]
  refine (along_eraseConformances product).next fun _ => ?_
  refine (along_verifyEach h product _).bind ?_
  rintro settled _ rfl
  refine (along_insertConformances product settled).next fun _ => along_pure ?_
  rw [List.all_map]
  rfl

end

end TraitLang.Check
