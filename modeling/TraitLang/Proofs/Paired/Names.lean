import TraitLang.Proofs.Conforming
import TraitLang.Proofs.Paired.Follows

/-! The checker with two answerers of questions side by side. The first one knows the nodes of the
program only, not those that are added while checking. This file is about names, written types, and
signatures. -/
namespace TraitLang.Check

open Program Generics TraitLang.Tree Follows List Grants

/-! ### Reading the state -/

section

variable {s : State}

lemma grants_decl (id : DeclId) : Grants (decl id) s fun found s' => s' = s ∧
    s.program.tree.decl? id = some found := by
  refine grants_tree_bind ?_
  cases s.program.tree.decl? id with
  | none => exact throw
  | some found => exact grants_pure.2 ⟨rfl, rfl⟩

lemma grants_expr (id : ExprId) : Grants (expr id) s fun found s' => s' = s ∧
    s.program.tree.expr? id = some found := by
  refine grants_tree_bind ?_
  cases s.program.tree.expr? id with
  | none => exact throw
  | some found => exact grants_pure.2 ⟨rfl, rfl⟩

lemma grants_case (id : CaseId) : Grants (case id) s fun found s' => s' = s ∧
    s.program.tree.case? id = some found := by
  refine grants_tree_bind ?_
  cases s.program.tree.case? id with
  | none => exact throw
  | some found => exact grants_pure.2 ⟨rfl, rfl⟩

lemma grants_enclosingScope (id : NodeId) :
    Grants (enclosingScope id) s fun scope s' => s' = s ∧ s.program.scopeOf id = some scope := by
  unfold enclosingScope Program.enclosingScope
  refine grants_get_bind.2 ?_
  cases s.program.scopeOf id with
  | none => exact throw
  | some scope => exact grants_pure.2 ⟨rfl, rfl⟩

lemma grants_need (demanded : Program → Except Halt Unit) : Grants (need demanded) s fun _ s' => s' = s := by
  refine grants_get_bind.2 ?_
  cases demanded s.program with
  | error halt => exact throw
  | ok => exact grants_pure.2 rfl

lemma grants_declName (id : DeclId) : Grants (declName id) s fun name s' => s' = s ∧
    s.program.declName id = name :=
  (grants_need _).bind <| by
    rintro _ _ rfl
    exact grants_get_bind.2 (grants_pure.2 ⟨rfl, rfl⟩)

lemma grants_membersOf (product : DeclId) : Grants (membersOf product) s fun members s' => s' = s ∧
    productMembers s.program.tree product = members :=
  (grants_need _).bind <| by
    rintro _ _ rfl
    exact grants_tree_bind (grants_pure.2 ⟨rfl, rfl⟩)

lemma grants_scopeOr (id : NodeId) (useSite : ScopeId) : Grants (scopeOr id useSite) s
    fun scope s' => s' = s ∧ (s.program.scopeOf id).getD useSite = scope :=
  grants_get_bind.2 (grants_pure.2 ⟨rfl, rfl⟩)

lemma grants_resolve (type : Ty) : Grants (resolve type) s fun answer s' => s' = s ∧
    s.solver.resolve type = answer :=
  grants_get_bind.2 (grants_pure.2 ⟨rfl, rfl⟩)

lemma grants_ownScope (id : NodeId) : Grants (ownScope id) s fun scope s' => s' = s ∧ id = scope := by
  refine grants_tree_bind ?_
  unfold scope?
  split
  next _ hscope => simp_all
  next => exact throw

end

variable {base : Program} {root : Nat} (hs : base.Surveyed root) {settings : Settings}
  {exempt : ExprId → Prop} {homes : List (Option DeclId)} {s : State}

lemma follows_need_bind {α : Type} {f g : PUnit → Check α} {inv post}
    {demanded : Program → Except Halt Unit} (h : Follows inv (f ⟨⟩) (g ⟨⟩) homes s post) :
    Follows inv (need demanded >>= f) (need demanded >>= g) homes s post :=
  read ((grants_need demanded).imp fun _ _ heq => ⟨heq, trivial⟩) fun _ _ => h

/-! ### Reporting -/

lemma follows_report (diagnostic : Diagnostic) : Keeps (Housed base settings exempt)
    (report diagnostic) homes s fun _ _ s' => s'.program = s.program :=
  follows_modify (fun h => { h with }) rfl

lemma follows_reportAt (problem : Problem) (id : NodeId) : Keeps (Housed base settings exempt)
    (reportAt problem id) homes s fun _ _ s' => s'.program = s.program := by
  refine follows_get_bind ?_
  cases s.program.tree.span? id with
  | none => exact follows_throw
  | some span => exact follows_report _

/-! ### Written types -/

/-- The ends of a written type: parameters of functions in the chain of a scope, of allowed
names. -/
def WrittenEnd (base : Program) (scope : ScopeId) (allowed : String → Prop) : Ty → Prop
  | .param param text => (∃ function ∈ base.chain scope, base.ParamOf param function) ∧
      allowed (base.declName param) ∧ text = base.declName param
  | .var _ => False
  | .existential types => ∀ type ∈ types, type.isTrait
  | _ => True

/-- Work that only reports keeps the invariant. -/
lemma follows_reported {α : Type} {work : Check α} {post : α → Prop}
    (h : base.Descends s.program → Ensures work s fun answer s' => Reported s s' ∧ post answer) :
    Keeps (Housed base settings exempt) work homes s fun answer _ _ => post answer := by
  intro hi answer s' hrun
  obtain ⟨_, _, hwork, ⟨_, -, rfl⟩, hpost⟩ := h hi.descends
  cases hrun.symm.trans hwork
  exact ⟨hrun, homes, prefix_refl _, { hi with }, hpost⟩

lemma follows_resolveTrait (name : TraitName) (scope : ScopeId) :
    Keeps (Housed base settings exempt) (resolveTrait name scope) homes s fun _ _ _ => True := by
  refine follows_need_bind (follows_get_bind (ite (fun _ => ?_) fun _ => follows_pure trivial))
  exact (follows_report _).last

lemma follows_updateTree {id change} (hd : ∀ tree, base.Descends s.program →
    change s.program.tree = some tree → base.Descends { s.program with tree }) :
    Keeps (Housed base settings exempt) (updateTree id change) homes s fun _ _ _ => True := by
  refine follows_get_bind ?_
  cases hset : change s.program.tree with
  | none => exact follows_throw
  | some tree => exact follows_modify (fun h => h.withProgram (hd tree h.descends hset)) trivial

include hs

variable {scope id : Nat} {name : String} {span : Span} {kind : DeclKind}

lemma follows_resolveType (hscope : scope ≤ root) (written : TypeExpr) :
    Keeps (Housed base settings exempt) (resolveType scope written) homes s
      fun type _ _ => type = base.reading scope written :=
  follows_reported fun hd => (ensures_resolveType hs hscope written hd).imp fun _ _ h => ⟨h.1, h.2.1⟩

lemma writtenEnd_of_name {type allowed}
    (hn : allowed name) (h : (declaredType? base name scope).or (builtinType? name) = some type) :
    WrittenEnd base scope allowed type := by
  rcases name_cases h with ⟨_, _, _, outer, hdecl, hm, hd, hname, rfl⟩ | ⟨_, _, _, -, rfl⟩ | h
  · refine ⟨⟨outer, hm, hs.paramOf_of_mem_decls hdecl hd⟩, ?_, ?_⟩
    · rwa [Program.declName, hname, Option.getD_some]
    · simp [Program.declName, declName?, hdecl, DeclKind.name?]
  · trivial
  · simp only [mem_cons, not_mem_nil, or_false] at h
    rcases h with rfl | rfl | rfl <;> trivial

lemma written_reading (scope : Nat) (written : TypeExpr) :
    (base.reading scope written).Over (WrittenEnd base scope fun text => written.names text) :=
  over_reading (fun _ _ => isTrait_of_traitTypes) written (fun _ hn _ => writtenEnd_of_name hs hn)
    fun _ => trivial

/-- A type that is written in a scope may come up there. -/
lemma ground_reading (hscope : scope ≤ root) (written : TypeExpr) :
    Ground base settings (base.enclosingFunction? scope) (base.reading scope written) := by
  refine (written_reading hs scope written).imp fun end_ he => ?_
  cases end_ with
  | param param name => exact fun _ => .inr ((hs.visible_iff hscope).2 he.1)
  | var id => exact he.elim
  | existential types => exact he
  | _ => trivial

lemma follows_writtenType (hscope : scope ≤ root) (written : TypeExpr) :
    Keeps (Housed base settings exempt) (resolveType scope written) homes s
      fun type _ _ => Ground base settings (base.enclosingFunction? scope) type :=
  (follows_resolveType hs hscope written).imp fun _ _ _ _ _ h => h ▸ ground_reading hs hscope written

/-- A type that agrees with what is written has no variables, if it is that of a parameter. -/
lemma agrees_resolve {id type} (h : base.Agrees id type) (solver : Solver) :
    base.Agrees id (solver.resolve type) := by
  intro declared hdeclared
  have hvars : type.hasVars = false := by
    rcases h declared hdeclared with rfl | rfl
    · by_contra hv
      unfold namedParamType? at hdeclared
      split at hdeclared
      next =>
        obtain ⟨_, -, hparam⟩ := Option.bind_eq_some_iff.1 hdeclared
        unfold paramType? at hparam
        split at hparam
        next written _ _ =>
          obtain ⟨scope, -, rfl⟩ := Option.map_eq_some_iff.1 hparam
          obtain ⟨_, hfalse⟩ := (written_reading hs scope written).var (fun _ h => h) (by simpa using hv)
          exact hfalse
        next => cases hparam
      next => cases hdeclared
    · rfl
  rw [Solver.resolve, resolveBy_of_not_hasVars _ hvars]
  exact h declared hdeclared

/-! ### Generic functions -/

/-- A type that a parameter is required to be may come up around the function. -/
lemma ground_of_requirement {decl} (hd : base.tree.decl? id = some ⟨.function decl, span⟩)
    {written place} (hr : .equality name written place ∈ decl.whereClause) :
    Ground base settings (base.level id) (base.reading id written) := by
  refine (written_reading hs id written).imp fun end_ he => ?_
  cases end_ with
  | param param text =>
    obtain ⟨⟨function, hm, hp⟩, hnames, -⟩ := he
    intro _
    rcases hs.visible_outside ⟨id, rfl, function, hm, hp⟩ with ⟨_, _, hd', hparam⟩ | hv
    · cases hd.symm.trans hd'
      exact .inl ⟨id, decl, span, hd, hparam, .inr ⟨name, written, place, hr, hnames⟩⟩
    · exact .inr hv
  | var id => exact he.elim
  | existential types => exact he
  | _ => trivial

lemma follows_buildGenerics (id : DeclId) : Keeps (Housed base settings exempt) (buildGenerics id) homes s
    fun result _ _ => ∀ generics, result = .ok generics → Abides base id (base.whereClause id) generics := by
  refine of_inv fun h => ?_
  by_cases hfunction : ∃ function span, base.tree.decl? id = some ⟨.function function, span⟩
  · obtain ⟨function, span, hd⟩ := hfunction
    refine follows_reported fun hdescends => (ensures_gathered hs hdescends hd).imp ?_
    rintro _ s' ⟨hreported, rfl, -⟩
    refine ⟨hreported, fun generics he => ?_⟩
    have hgathers := requireAll_new base id (function.genericParams.map fun param =>
      (param, base.declName param)) function.whereClause
    rw [he] at hgathers
    obtain ⟨hg, hc⟩ := hgathers
    rw [show base.whereClause id = function.whereClause by rw [whereClause, hd]]
    refine ⟨hg.scope_eq, ⟨function, span, hd, ?_⟩, fun ht => ?_, fun {name written span} hr => ?_⟩
    · rw [hg.params_eq]
      simp [new, Function.comp_def]
    · obtain ⟨name, written, span, hr, hp, htype⟩ := hg.equality.1 ht
      exact ⟨name, written, span, hr, hg.paramNamed?_eq name ▸ hp, htype⟩
    · obtain ⟨param, hp⟩ := hc.named _ hr
      exact ⟨param, (hg.paramNamed?_eq name).trans hp, hg.equality.2 ⟨name, written, span, hr, hp, rfl⟩⟩
  · refine read (grants_decl id) fun found hfound => ?_
    obtain ⟨kind, span⟩ := found
    cases kind with
    | function function => exact absurd ⟨_, _, h.descends.base_decl?_of_not_binding hfound rfl⟩ hfunction
    | _ => exact follows_pure (by simp)

lemma follows_genericsOf (id : DeclId) : Keeps (Housed base settings exempt) (genericsOf id) homes s
    fun found _ _ => ∀ generics, found = some generics → Abides base id (base.whereClause id) generics := by
  refine of_inv fun h => follows_get_bind ?_
  cases hg : s.generics[id]? with
  | some known => exact follows_pure fun generics he => h.generics (he ▸ hg)
  | none =>
    have hkeep {homes s} (found : Option Generics) (hfound : ∀ generics, found = some generics →
        Abides base id (base.whereClause id) generics) : Keeps (Housed base settings exempt)
          (do modify fun state => { state with generics := state.generics.insert id found }
              return found : Check (Option Generics)) homes s fun found _ _ =>
            ∀ generics, found = some generics → Abides base id (base.whereClause id) generics :=
      follows_modify_bind (fun h => { h with
        generics := fun {other generics} hs => by
          rw [NodeMap.getElem?_insert] at hs
          split at hs
          next heq => exact heq ▸ hfound generics (Option.some.inj hs)
          next => exact h.generics hs }) (follows_pure hfound)
    refine (follows_buildGenerics hs id).bind fun result homes1 s1 _ _ hresult => ?_
    cases result with
    | ok generics => exact hkeep (some generics) fun _ he => by cases he; exact hresult generics rfl
    | error reason =>
      exact read (grants_declName id) fun _ _ => (follows_reportAt _ id).next fun _ => hkeep none nofun

section

variable {id : Nat} {generics : Generics} (hg : Abides base id (base.whereClause id) generics) {type : Ty}
  (ht : Ground base settings (some id) type) {param : DeclId} {level : Option DeclId} {useSite : ScopeId}

include hg

lemma Abides.ground {required} (h : generics.equality? param = some required) :
    Ground base settings (base.level id) required := by
  obtain ⟨_, _, hd, -⟩ := hg.params_eq
  obtain ⟨_, _, _, hr, -, rfl⟩ := hg.sourced h
  rw [whereClause, hd] at hr
  exact ground_of_requirement hs hd hr

omit hs in
/-- The parameters of a function are the keys of a choice for them. -/
lemma Abides.exists_choice (hp : base.ParamOf param id) (inside : Bool) (solver : Solver) :
    ∃ value, (generics.chooseAll inside solver).1[param]? = some value := by
  obtain ⟨_, _, hd, hparams⟩ := hg.params_eq
  obtain ⟨_, _, hd', hmem⟩ := hp
  cases hd.symm.trans hd'
  rw [← hparams] at hmem
  obtain ⟨entry, hentry, rfl⟩ := mem_map.1 hmem
  obtain ⟨value, hvalue, -⟩ := generics.admits_chooseAll inside solver entry hentry
  exact ⟨value, hvalue⟩

omit hs in
lemma Abides.visible {entry} (he : entry ∈ generics.params) (hself : id ∈ base.chain id) :
    base.Visible (some id) entry.1 := by
  obtain ⟨decl, span, hd, hparams⟩ := hg.params_eq
  exact ⟨id, rfl, id, hself, decl, span, hd, hparams ▸ mem_map_of_mem he⟩

/-- Around a function and inside of it. -/
lemma Abides.visible_inside (hv : base.Visible (base.level id) param) : base.Visible (some id) param := by
  obtain ⟨_, _, hd, -⟩ := hg.params_eq
  have hf : base.tree.isFunction id := isFunction_iff.2 ⟨_, hd, rfl⟩
  have hle : id ≤ root := by have := lt_size (decl?_eq_some.1 hd); have := hs.rooted.size_eq; omega
  cases hscope : base.scopeOf id with
  | none =>
    rw [level, hscope] at hv
    exact absurd hv not_visible_none
  | some scope =>
    rw [Program.Surveyed.level_of_scopeOf hscope] at hv
    rw [← hs.enclosingFunction?_of_function hf]
    refine hs.visible_of_mem_chain hle ?_ hv
    rw [hs.chain_eq hle, hscope]
    exact mem_cons_of_mem _ mem_cons_self

/-- What the parameters stand for outside of their function comes up where they are used. -/
lemma Abides.chosen (h : Housed base settings exempt homes s)
    (hsee : ∀ param, base.Visible (base.level id) param → base.Visible level param) :
    (∀ (param : DeclId) value, (generics.chooseAll false s.solver).1[param]? = some value →
      Belongs base settings (homesUpTo homes level (generics.chooseAll false s.solver).2.next)
      level value) ∧ (generics.chooseAll false s.solver).2.bindings = s.solver.bindings ∧
      homes.length ≤ (generics.chooseAll false s.solver).2.next := by
  obtain ⟨hvalues, hbindings, hle, -⟩ := generics.chooseAll_spec false s.solver
    (P := fun next => Belongs base settings (homesUpTo homes level next) level)
    (fun hle h => h.mono (homesUpTo_mono homes level hle))
    (fun param type he => ((hg.ground hs he).mono hsee).belongs _) (fun h => by cases h)
    (fun _ var hvar => (Ty.over_end rfl).2 fun _ =>
      getElem?_homesUpTo level (h.next_eq ▸ hvar) (Nat.lt_succ_self var))
  exact ⟨hvalues, hbindings, h.next_eq ▸ hle⟩

include ht

/-- Inside of a generic function its parameters stand for themselves. -/
lemma follows_instantiate_inside (hin : base.isWithin useSite id) (hsite : useSite ≤ root) :
    Keeps (Housed base settings exempt) (instantiate generics type useSite) homes s
      fun answer _ _ => Ground base settings (some id) answer.1 := by
  obtain ⟨_, _, hd, -⟩ := hg.params_eq
  have hf : base.tree.isFunction id := isFunction_iff.2 ⟨_, hd, rfl⟩
  have hself := (Program.Surveyed.mem_chain_of_enclosingFunction? (hs.enclosingFunction?_of_function hf)).1
  obtain ⟨hvalues, -, -, hsame⟩ := generics.chooseAll_spec true s.solver
    (P := fun _ => Ground base settings (some id)) (fun _ h => h)
    (fun param type he => (hg.ground hs he).mono fun _ => hg.visible_inside hs) (fun _ entry he =>
    (Ty.over_end rfl).2 fun _ => .inr (hg.visible he hself)) (fun h => by cases h)
  refine of_inv fun h => ?_
  have hin : s.program.isWithin useSite generics.scope := by
    rw [hg.scope_eq, isWithin, hs.chain_eq_of_agree (fun other ho => h.descends.scopeOf_eq other ?_) hsite]
    · exact hin
    · have := hs.rooted.size_eq
      omega
  refine follows_modifyGet (prefix_refl _) (fun h => ?_) fun _ => ?_
  · simp only [Generics.instantiate, hin, hsame rfl]
    exact h
  · simp only [Generics.instantiate, hin]
    exact Ty.Over.substitute (traity_endAt _ _) hvalues ht

omit hg in
/-- A type of a function, with something for each of its parameters. -/
lemma Ground.belongs_substitute (hsee : ∀ param, base.Visible (base.level id) param →
    base.Visible level param) {values} (hvalues : ∀ (param : DeclId) value,
    values[param]? = some value → Belongs base settings homes level value)
    (hall : ∀ param, base.ParamOf param id → ∃ value, values[param]? = some value) :
    Belongs base settings homes level (type.substitute values) := by
  refine Ty.Over.substitute_ends (fun end_ hend hleaf => ?_) ht
  rcases (traity_endAt _ _).substitute_end values hend hleaf with he | ⟨param, name, rfl, he⟩
  · rw [he, Ty.over_end hend]
    cases end_ with
    | param param name =>
      intro hr
      rcases hleaf hr with hx | hv
      · exact .inl hx
      rcases hs.visible_outside hv with hp | hv
      · -- a parameter of the function itself is replaced by what was chosen for it
        obtain ⟨value, hvalue⟩ := hall param hp
        have hself : value = .param param name := by simpa [Ty.substitute, Ty.replace, hvalue] using he
        have hbelongs := hvalues param value hvalue
        rw [hself, Belongs, Ty.over_end rfl] at hbelongs
        exact hbelongs hr
      · exact .inr (hsee param hv)
    | var id => exact fun hr => (hleaf hr).elim
    | _ => exact hleaf
  · exact hvalues _ _ he

/-- From outside the parameters stand for required types and fresh variables. -/
lemma follows_instantiate_outside (hsee : ∀ param, base.Visible (base.level id) param →
    base.Visible level param) (hout : s.program.isWithin useSite generics.scope = false) :
    Keeps (Housed base settings exempt) (instantiate generics type useSite) homes s
      fun answer homes' _ => Belongs base settings homes' level answer.1 := by
  refine of_inv fun h => ?_
  obtain ⟨hvalues, hbindings, hle⟩ := hg.chosen hs h hsee
  have hp : homes <+: homesUpTo homes level (generics.chooseAll false s.solver).2.next := prefix_append _ _
  refine follows_modifyGet hp (fun h => ?_) fun _ => ?_
  · have hsolver : (generics.chooseAll false s.solver).2 =
        ⟨(generics.chooseAll false s.solver).2.next, s.solver.bindings⟩ := by rw [← hbindings]
    simp only [Generics.instantiate, hout]
    rw [hsolver]
    exact h.withNext hp (length_homesUpTo level hle).symm
  · simp only [Generics.instantiate, hout]
    exact Ground.belongs_substitute hs ht hsee hvalues fun param hp => hg.exists_choice hp false s.solver

/-- A type of a generic function is read at a place that can see the function. -/
lemma follows_instantiate (hsite : useSite ≤ root) (hsee : ∀ param,
    base.Visible (base.level id) param → base.Visible (base.enclosingFunction? useSite) param) :
    Keeps (Housed base settings exempt) (instantiate generics type useSite) homes s
      fun answer homes' _ =>
      Belongs base settings homes' (base.enclosingFunction? useSite) answer.1 := by
  refine of_inv fun h => ?_
  have hchain : s.program.chain useSite = base.chain useSite := hs.chain_eq_of_agree (fun other ho =>
    h.descends.scopeOf_eq other (by have := hs.rooted.size_eq; omega)) hsite
  cases hin : s.program.isWithin useSite generics.scope with
  | false => exact follows_instantiate_outside hs hg ht hsee hin
  | true =>
    rw [isWithin, hchain, hg.scope_eq] at hin
    obtain ⟨_, _, hd, -⟩ := hg.params_eq
    have hf : base.tree.isFunction id := isFunction_iff.2 ⟨_, hd, rfl⟩
    refine (follows_instantiate_inside hs hg ht hin hsite).imp fun answer homes' _ _ _ hground => ?_
    refine (hground.mono fun param hv => ?_).belongs homes'
    rw [← hs.enclosingFunction?_of_function hf] at hv
    exact hs.visible_of_mem_chain hsite (by simpa using hin) hv

end

/-! ### The two answerers -/

/-- Another answerer follows one that only knows the expressions of the program, if each of them is
asked about from its own scope. The types that they give belong to where the questions are about. -/
structure Consults (base : Program) (settings : Settings) (ask other : Answerer) : Prop where
  verdict : ∀ {exempt : ExprId → Prop} {homes : List (Option DeclId)} {s : State} (id : DeclId),
    Pairs base settings exempt ask other (· (.verdict id)) homes s fun _ _ _ => True
  declType : ∀ {exempt : ExprId → Prop} {homes : List (Option DeclId)} {s : State} (id : DeclId),
    Pairs base settings exempt ask other (· (.declType id)) homes s
      fun type homes' _ => Fitting base settings homes' id type
  exprType : ∀ {exempt : ExprId → Prop}
  {homes : List (Option DeclId)} {s : State} {id : ExprId} {useSite : ScopeId},
    (base.tree.HasExpr id → base.scopeOf id = some useSite ∧ (base.tree.Part id ∨ exempt id)) →
    Pairs base settings exempt ask other (· (.exprType id useSite)) homes s fun type homes' s' =>
      base.tree.HasExpr id ∧ Belongs base settings homes' (base.enclosingFunction? useSite) type ∧
        s'.exprTypes[id]? = some type

variable {ask other : Answerer} (hc : Consults base settings ask other)

omit hs in
/-- Work with two answerers, where one of them follows the other. -/
abbrev Consults.Pairs (_ : Consults base settings ask other) (exempt : ExprId → Prop) {α : Type}
    (work : Answerer → Check α) :=
  Check.Pairs base settings exempt ask other work

/-! ### Signatures -/

omit hs in
/-- The level of a declaration that is no function. -/
lemma declLevel_of_kind (hd : base.tree.decl? id = some ⟨kind, span⟩)
    (hk : kind.isFunction = false) : base.declLevel id = base.level id := by
  have hnot : ¬base.tree.isFunction id := by
    rw [isFunction_iff, declares_iff hd, hk]
    exact Bool.false_ne_true
  rw [declLevel, if_neg hnot]

/-- Only variables are introduced by cases. -/
lemma not_caseVar_of_kind (hd : base.tree.decl? id = some ⟨kind, span⟩) (hk : kind.isVar = false) :
    ¬base.tree.CaseVar id := by
  rintro ⟨case, node, hcase, hv⟩
  have hvar := (var_of_case hs.rooted hcase hv).2
  rw [declares_iff hd, hk] at hvar
  cases hvar

include hc

lemma follows_signatureOf (id : Nat) : hc.Pairs exempt (signatureOf · id) homes s
      fun signature _ _ => Ground base settings (some id) signature.toTy := by
  refine of_inv fun h => follows_get_bind ?_
  cases hknown : s.signatures[id]? with
  | some known => exact follows_pure (h.signatures hknown)
  | none =>
    refine read (grants_decl id) fun found hfound => ?_
    obtain ⟨kind, _⟩ := found
    cases kind with
    | function function =>
      have hd := h.descends.base_decl?_of_not_binding hfound rfl
      have hf : base.tree.isFunction id := isFunction_iff.2 ⟨_, hd, rfl⟩
      have hle : id ≤ root := by have := lt_size (decl?_eq_some.1 hd); have := hs.rooted.size_eq; omega
      refine read (grants_ownScope id) ?_
      rintro _ rfl
      have hparams : hc.Pairs exempt (fun ask => function.params.mapM
        fun param => ask (.declType param)) homes s
          fun types _ _ => ∀ type ∈ types, Ground base settings (some id) type := by
        refine follows_mapM (fun _ h => h) _ fun param hp homes' s' _ => ?_
        refine (hc.declType param).imp fun type homes'' _ _ _ htype => ?_
        obtain ⟨⟨kind, _⟩, hparam, hkind⟩ := (hs.rooted.below (decl?_eq_some.1 hd)).1.2.1 param hp
        have hlevel : base.declLevel param = some id := by
          rw [declLevel_of_kind hparam (by cases kind <;> first | rfl | cases hkind)]
          refine hs.level_of_function_child hf ?_
          rw [children_of_node? (decl?_eq_some.1 hd)]
          simp [Node.children, DeclKind.children, hp]
        exact hlevel ▸ htype.suits.2
          (not_caseVar_of_kind hs hparam (by cases kind <;> first | rfl | cases hkind))
      refine hparams.bind fun types homes1 s1 _ _ htypes => ?_
      have houtput : Keeps (Housed base settings exempt) (function.output.elim (pure Ty.unit)
          (resolveType id)) homes1 s1 fun type _ _ => Ground base settings (some id) type := by
        cases function.output with
        | none => exact follows_pure (ground_unit _)
        | some written =>
          rw [← hs.enclosingFunction?_of_function hf]
          exact follows_writtenType hs hle written
      refine houtput.bind fun output homes2 s2 _ _ hground => ?_
      have hsignature : Ground base settings (some id) (Signature.mk types output).toTy :=
        Ty.over_function.2 ⟨htypes, hground⟩
      exact follows_modify_bind (fun h => { h with signatures := fun hs => NodeMap.of_insert hs hsignature h.signatures }) (follows_pure hsignature)
    | _ => exact follows_throw

end TraitLang.Check
