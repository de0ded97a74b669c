import TraitLang.Proofs.Accounts
import TraitLang.Proofs.Levels
import TraitLang.Proofs.Steps

/-! Looking up names and written types. The work always ends well; what it finds is what the program
that checking began with says, and if it finds nothing then that is reported. -/
namespace TraitLang.Check

open Program List Option Generics TraitLang.Tree

variable {base : Program} {root : Nat} (hs : base.Surveyed root) {s : State}

/-! ### Reading the tree -/

section

omit hs

variable {id : Nat}

lemma ensures_decl {found} (h : s.program.tree.decl? id = some found) :
    Ensures (decl id) s fun answer s' => answer = found ∧ s' = s := by
  simp [decl, tree, h]

lemma ensures_expr {found} (h : s.program.tree.expr? id = some found) :
    Ensures (expr id) s fun answer s' => answer = found ∧ s' = s := by
  simp [expr, tree, h]

lemma ensures_case {found} (h : s.program.tree.case? id = some found) :
    Ensures (case id) s fun answer s' => answer = found ∧ s' = s := by
  simp [case, tree, h]

lemma ensures_demand_bind {α : Type} {f : PUnit → Check α} {post ids} (hd : base.Descends s.program)
    (hids : ∀ id ∈ ids, (base.tree.decl? id).isSome) : Ensures (demand ids >>= f) s post ↔
    Ensures (f ⟨⟩) s post :=
  ensures_need_bind (hd.demand_eq_ok hids)

lemma ensures_declName (hd : base.Descends s.program) (h : (base.tree.decl? id).isSome) :
    Ensures (declName id) s fun name s' => name = base.declName id ∧ s' = s :=
  (ensures_demand_bind hd (forall_mem_singleton.2 h)).2
    (ensures_get_bind.2 (ensures_pure.2 ⟨hd.declName_eq id, rfl⟩))

lemma ensures_ownScope (hd : base.Descends s.program) (hid : id < base.tree.size)
    (h : base.tree.isScope id) : Ensures (ownScope id) s fun answer s' => answer = id ∧ s' = s := by
  have : s.program.tree.scope? id = some id := by rw [hd.scope?_eq hid, scope?, if_pos h]
  simp [ownScope, tree, this]

end

include hs

variable {id : Nat} {found : Decl}

lemma ensures_demandFrom_bind {α : Type} {f : PUnit → Check α} {post} (hd : base.Descends s.program)
    (scope : ScopeId) : Ensures (demandFrom scope >>= f) s post ↔ Ensures (f ⟨⟩) s post :=
  ensures_need_bind (hd.demandFrom_eq_ok hs scope)

lemma ensures_enclosingScope (hd : base.Descends s.program) (hid : id < root) :
    Ensures (enclosingScope id) s fun answer s' => base.scopeOf id = some answer ∧ s' = s := by
  obtain ⟨scope, hscope⟩ := isSome_iff_exists.1 (hs.scopeOf_isSome hid)
  have hlt : id < base.tree.size := by have := hs.rooted.size_eq; omega
  have hfound : s.program.enclosingScope id = .ok scope := by
    rw [hd.enclosingScope_eq hlt, Program.enclosingScope, hscope]
  unfold enclosingScope
  simp only [ensures_get_bind, hfound]
  exact ensures_pure.2 ⟨hscope, rfl⟩

lemma ensures_scopeOr (hd : base.Descends s.program) (hid : id < root) (useSite : ScopeId) :
    Ensures (scopeOr id useSite) s fun answer s' => base.scopeOf id = some answer ∧ s' = s := by
  obtain ⟨_, hscope⟩ := isSome_iff_exists.1 (hs.scopeOf_isSome hid)
  have hlt : id < base.tree.size := by have := hs.rooted.size_eq; omega
  unfold scopeOr
  simp only [ensures_get_bind, hd.scopeOf_eq id hlt, hscope, getD_some]
  exact ensures_pure.2 ⟨rfl, rfl⟩

/-! ### Traits and written types -/

section

variable {scope : Nat} (hscope : scope ≤ root)

include hscope

lemma ensures_resolveTrait (hd : base.Descends s.program) (name : TraitName) :
    Ensures (resolveTrait name scope) s fun found s' =>
      Reported s s' ∧ found = base.trait? name.name scope ∧ (found = none → s'.diagnostics ≠ []) := by
  unfold resolveTrait
  refine (ensures_demandFrom_bind hs hd scope).2 ?_
  simp only [ensures_get_bind, hd.trait?_eq hs name.name hscope]
  cases base.trait? name.name scope with
  | some trait => simpa using Reported.refl s
  | none =>
    refine (ensures_report s).bind fun _ s' h => ?_
    simpa using h

lemma ensures_resolveTypeName (hd : base.Descends s.program) (name : String) (span : Span) :
    Ensures (resolveTypeName name span scope) s fun type s' =>
    Reported s s' ∧ type = base.reading scope (.name name span) ∧
      (s'.diagnostics = [] → base.meaning scope (.name name span) = some type) := by
  unfold resolveTypeName
  refine (ensures_demandFrom_bind hs hd scope).2 ?_
  simp only [ensures_get_bind, hd.declaredType?_eq hs name hscope, reading, meaning]
  cases (declaredType? base name scope).or (builtinType? name) with
  | some type => exact ensures_pure.2 ⟨.refl s, rfl, fun _ => rfl⟩
  | none =>
    refine (ensures_report s).bind fun _ s' h => ?_
    exact ensures_pure.2 ⟨h.1, rfl, fun hd => absurd hd h.2⟩

lemma ensures_resolveTraits (names : List TraitName) (hd : base.Descends s.program) :
    Ensures (resolveTraits scope names) s fun found s' => Reported s s' ∧
      found = meaning.traitTypes base scope names ∧ (found = none → s'.diagnostics ≠ []) := by
  induction names generalizing s with
  | nil => exact ensures_pure.2 ⟨.refl s, rfl, nofun⟩
  | cons name names ih =>
    refine (ensures_resolveTrait hs hscope hd name).bind ?_
    rintro _ s1 ⟨h1, rfl, hnone⟩
    rw [meaning.traitTypes]
    cases hf : base.trait? name.name scope with
    | none => exact ensures_pure.2 ⟨h1, rfl, fun _ => hnone hf⟩
    | some id =>
      refine (ih (h1.program_eq ▸ hd)).bind ?_
      rintro _ s2 ⟨h2, rfl, hnone⟩
      refine ensures_pure.2 ⟨h1.trans h2, ?_, fun hr => hnone (by simpa using hr)⟩
      cases meaning.traitTypes base scope names <;> rfl

end

section

omit hs

variable {scope : Nat}

mutual

/-- A written type is taken for what its names stand for, and what is unknown is reported. -/
lemma ensures_resolveType (hs : base.Surveyed root) (hscope : scope ≤ root) :
    ∀ written {s}, base.Descends s.program → Ensures (resolveType scope written) s fun type s' =>
    Reported s s' ∧ type = base.reading scope written ∧
      (s'.diagnostics = [] → base.meaning scope written = some type)
  | .name name span, s, hd => ensures_resolveTypeName hs hscope hd name span
  | .tuple elements span, s, hd => by
    refine (ensures_resolveTypes hs hscope elements hd).bind ?_
    rintro _ s' ⟨h, rfl, hmeaning⟩
    refine ensures_pure.2 ⟨h, rfl, fun hquiet => ?_⟩
    rw [meaning, hmeaning hquiet, map_some]
  | .existential traits span, s, hd => by
    refine (ensures_resolveTraits hs hscope traits hd).bind ?_
    rintro _ s' ⟨h, rfl, hnone⟩
    simp only [reading, meaning]
    cases hf : meaning.traitTypes base scope traits with
    | none => exact ensures_pure.2 ⟨h, rfl, fun hquiet => absurd hquiet (hnone hf)⟩
    | some types => exact ensures_pure.2 ⟨h, rfl, fun _ => rfl⟩

lemma ensures_resolveTypes (hs : base.Surveyed root) (hscope : scope ≤ root) : ∀ elements {s},
    base.Descends s.program → Ensures (resolveTypes scope elements) s fun types s' =>
    Reported s s' ∧ types = base.readings scope elements ∧
      (s'.diagnostics = [] → base.meanings scope elements = some types)
  | [], s, _ => ensures_pure.2 ⟨.refl s, rfl, fun _ => rfl⟩
  | element :: elements, s, hd => by
    refine (ensures_resolveType hs hscope element hd).bind ?_
    rintro _ s1 ⟨h1, rfl, hmeaning⟩
    refine (ensures_resolveTypes hs hscope elements (h1.program_eq ▸ hd)).bind ?_
    rintro _ s2 ⟨h2, rfl, hmeanings⟩
    refine ensures_pure.2 ⟨h1.trans h2, rfl, fun hquiet => ?_⟩
    simp [meanings, hmeaning (h2.diagnostics hquiet), hmeanings hquiet]

end

variable {leaf : Ty → Prop}

mutual

/-- What a written type is taken for consists of what its names stand for. -/
lemma over_reading (hexistential : ∀ traits types, meaning.traitTypes base scope traits = some types →
      leaf (.existential types)) : ∀ written, (∀ text, written.names text → ∀ type,
      (declaredType? base text scope).or (builtinType? text) = some type → leaf type) →
    (base.meaning scope written = none → leaf .error) → (base.reading scope written).Over leaf
  | .name name span, hn, he => by
    simp only [reading, meaning]
    cases hm : (declaredType? base name scope).or (builtinType? name) with
    | none => exact (Ty.over_end rfl).2 (he hm)
    | some type => exact (Ty.over_end (Ty.isEnd_of_isLeaf (isLeaf_of_name hm).1)).2 (hn name (by simp [TypeExpr.names]) type hm)
  | .tuple elements span, hn, he =>
    Ty.over_tuple.2 (over_readings hexistential elements hn fun hm => he (by rw [meaning, hm, map_none]))
  | .existential traits span, hn, he => by
    rw [meaning] at he
    simp only [reading, meaning]
    cases hm : meaning.traitTypes base scope traits with
    | none => exact (Ty.over_end rfl).2 (he (by rw [hm, map_none]))
    | some types => exact (Ty.over_end rfl).2 (hexistential traits types hm)

lemma over_readings (hexistential : ∀ traits types, meaning.traitTypes base scope traits = some types →
      leaf (.existential types)) : ∀ elements, (∀ text, TypeExpr.namesAny text elements → ∀ type,
      (declaredType? base text scope).or (builtinType? text) = some type → leaf type) →
    (base.meanings scope elements = none → leaf .error) → ∀ type ∈ base.readings scope elements, type.Over leaf
  | [], _, _ => forall_mem_nil _
  | element :: elements, hn, he => by
    simp only [TypeExpr.namesAny, Bool.or_eq_true] at hn
    rw [meanings] at he
    refine forall_mem_cons.2 ⟨over_reading hexistential element (fun text ht => hn text (.inl ht)) fun hm => ?_,
      over_readings hexistential elements (fun text ht => hn text (.inr ht)) fun hm => he ?_⟩
    · exact he (by rw [hm]; rfl)
    · cases base.meaning scope element <;> simp [hm]

end

variable {name : String} {faulty : Prop} {free : Nat → Prop}

/-- A name stands for a generic parameter around the scope, a product, or a type that needs no
declaration. -/
lemma name_cases {type} (h : (declaredType? base name scope).or (builtinType? name) = some type) :
    (∃ id text span outer, base.tree.decl? id = some ⟨.genericParam text, span⟩ ∧
    outer ∈ base.chain scope ∧ id ∈ base.decls outer ∧ base.tree.declName? id = some name ∧
      type = .param id text) ∨ (∃ id decl span, base.tree.decl? id = some ⟨.product decl, span⟩ ∧
    type = .product id decl.name) ∨ type ∈ [.int, .bool, .string] := by
  rcases or_eq_some_iff.1 h with h | ⟨-, h⟩
  · obtain ⟨id, hlast, hid⟩ := bind_eq_some_iff.1 h
    obtain ⟨outer, hm, hd, hname⟩ := mem_findWhere (mem_of_getLast? hlast)
    split at hid
    all_goals grind
  · simp only [builtinType?, lookup_cons, lookup_nil] at h
    grind

lemma end_of_name {type} (h : (declaredType? base name scope).or (builtinType? name) = some type) :
    End base faulty free type := by
  rcases name_cases h with ⟨_, _, _, _, -, -, -, -, rfl⟩ | ⟨_, _, _, hd, rfl⟩ | h
  · trivial
  · exact ⟨_, hd, rfl⟩
  · simp only [mem_cons, not_mem_nil, or_false] at h
    rcases h with rfl | rfl | rfl <;> trivial

lemma end_of_traitTypes : ∀ {traits types},
    meaning.traitTypes base scope traits = some types → End base faulty free (.existential types)
  | [], _, h => by
    cases h
    exact forall_mem_nil _
  | trait :: traits, _, h => by
    simp only [meaning.traitTypes, Option.bind_eq_bind, Option.bind_eq_some_iff, Option.pure_def,
      Option.some.injEq] at h
    obtain ⟨id, hid, types, ht, rfl⟩ := h
    obtain ⟨-, -, -, hname⟩ := mem_findWhere (mem_of_getLast? (Option.filter_eq_some_iff.1 hid).1)
    have hrest : End base faulty free (.existential types) := end_of_traitTypes ht
    exact forall_mem_cons.2 ⟨⟨id, trait.name, rfl, declares_of_trait? hid, hname⟩, hrest⟩

lemma plain_reading {written} (h : s.diagnostics = [] → (base.meaning scope written).isSome) :
    Plain base s (base.reading scope written) :=
  over_reading (fun _ _ => end_of_traitTypes) written (fun _ _ _ => end_of_name) fun hnone =>
    .inl fun hquiet => by simpa [hnone] using h hquiet

lemma ensures_writtenType (hs : base.Surveyed root) (hscope : scope ≤ root) (written : TypeExpr)
    (hc : Core base s) : Ensures (resolveType scope written) s fun type s' => Reported s s' ∧
    Plain base s' type ∧ (s'.diagnostics = [] → base.meaning scope written = some type) := by
  refine (ensures_resolveType hs hscope written hc.descends).imp ?_
  rintro _ s' ⟨h, rfl, hmeaning⟩
  exact ⟨h, plain_reading fun hquiet => by rw [hmeaning hquiet]; rfl, hmeaning⟩

end

/-! ### Values -/

omit hs in
lemma valueNamed_spec {found name} (h : base.valueNamed id name = some found) :
    ∃ scope outer, base.scopeOf id = some scope ∧ outer ∈ base.chain scope ∧
    found ∈ base.decls outer ∧ base.tree.declName? found = some name := by
  simp only [valueNamed, bind_eq_bind, bind_eq_some_iff] at h
  obtain ⟨scope, hscope, _, -, hlast⟩ := h
  obtain ⟨outer, hm, hd, hname⟩ := mem_findWhere (mem_of_getLast? hlast)
  exact ⟨scope, outer, hscope, hm, hd, hname⟩

lemma ensures_lookupValue (hd : base.Descends s.program) (he : base.tree.HasExpr id) (name : String)
    (useSite : ScopeId) : Ensures (lookupValue id name useSite) s fun found s' =>
      found = base.valueNamed id name ∧ s' = s := by
  obtain ⟨expr, hexpr⟩ := he
  obtain ⟨_, hexpr'⟩ := hd.exists_expr hexpr
  refine (ensures_scopeOr hs hd (hs.rooted.lt_root_of_expr ⟨expr, hexpr⟩) useSite).bind ?_
  rintro scope s ⟨hscope, rfl⟩
  refine (ensures_expr hexpr').read ((ensures_demandFrom_bind hs hd scope).2 ?_)
  have hvisible : isVisible s.program expr.span.start.offset = isVisible base expr.span.start.offset := by
    funext scope id
    exact hd.isVisible_eq _ _ _
  simp only [ensures_get_bind, hvisible, hd.findWhere_eq hs name (hs.le_root_of_scopeOf hscope)]
  exact ensures_pure.2 ⟨by simp [valueNamed, hscope, hexpr], rfl⟩

/-! ### Generic functions -/

omit hs in
lemma addBounds_congr {program other param} : ∀ {names generics},
    (∀ name, program.trait? name generics.scope = other.trait? name generics.scope) →
      addBounds program param generics names = addBounds other param generics names
  | [], _, _ => rfl
  | name :: names, generics, h => by
    unfold addBounds
    rw [h]
    cases other.trait? name.name generics.scope with
    | none => rfl
    | some trait => exact addBounds_congr h

lemma ensures_addRequirements :
    ∀ requirements {generics s}, generics.scope ≤ root → base.Descends s.program →
    Ensures (addRequirements generics requirements) s fun result s' => Reported s s' ∧
      result = requirements.foldlM (require base) generics ∧ ∀ extended, result = .ok extended →
      s'.diagnostics = [] → ∀ name written span, .equality name written span ∈ requirements →
          base.meaning generics.scope written = some (base.reading generics.scope written)
  | [], generics, s, _, _ => ensures_pure.2 ⟨.refl s, rfl, by simp⟩
  | requirement :: requirements, generics, s, hscope, hd => by
    unfold addRequirements
    rw [foldlM_cons, require]
    cases hp : generics.paramNamed? requirement.param with
    | none => exact ensures_pure.2 ⟨.refl s, rfl, nofun⟩
    | some param =>
      cases requirement with
      | equality name written span =>
        refine (ensures_resolveType hs hscope written hd).bind ?_
        rintro _ s1 ⟨h1, rfl, hmeaning⟩
        have hcases := generics.requireEqual_cases param (base.reading generics.scope written)
        refine ensures_pure_bind.2 ?_
        dsimp only
        cases he : generics.requireEqual param (base.reading generics.scope written) with
        | error reason => exact ensures_pure.2 ⟨h1, rfl, nofun⟩
        | ok extended =>
          rw [he] at hcases
          obtain ⟨equalities, rfl, -⟩ := hcases
          refine (@ensures_addRequirements requirements { generics with equalities } s1 hscope
            (h1.program_eq ▸ hd)).imp ?_
          rintro result s' ⟨h2, hresult, hrest⟩
          refine ⟨h1.trans h2, hresult, fun extended he hquiet name written span hr => ?_⟩
          rcases mem_cons.1 hr with hr | hr
          · cases hr
            exact hmeaning (h2.diagnostics hquiet)
          · exact hrest extended he hquiet name written span hr
      | conformance name traits span =>
        have hcases := addBounds_cases base param traits generics
        refine (ensures_demandFrom_bind hs hd _).2 (ensures_get_bind.2 (ensures_pure_bind.2 ?_))
        rw [addBounds_congr fun name => hd.trait?_eq hs name hscope]
        dsimp only
        cases he : addBounds base param generics traits with
        | error reason => exact ensures_pure.2 ⟨.refl s, rfl, nofun⟩
        | ok extended =>
          rw [he] at hcases
          obtain ⟨⟨conformances, rfl⟩, -⟩ := hcases
          refine (@ensures_addRequirements requirements { generics with conformances } s hscope hd).imp ?_
          rintro result s' ⟨h2, hresult, hrest⟩
          exact ⟨h2, hresult, fun extended he hquiet name written span hr =>
            hrest extended he hquiet name written span (by simpa using hr)⟩

omit hs in
open Generics in
lemma collects_of_gathers {program params requirements generics plain} {quiet : Prop}
    (h : Gathers program (new id id (params.map fun param => (param, program.declName param)))
    requirements generics) (hc : Consistent program (new id id (params.map fun param =>
    (param, program.declName param))) requirements) (hplain : ∀ name written span,
    .equality name written span ∈ requirements → plain (program.reading id written) ∧
      (quiet → program.meaning id written = some (program.reading id written))) :
    generics.Collects program plain quiet id params requirements := by
  refine ⟨h.scope_eq, h.params_eq, fun param type he => ?_, fun param type ht => ?_,
    fun hquiet requirement hr => ?_⟩
  · obtain ⟨name, written, span, hr, -, rfl⟩ := h.equality.1 he
    exact (hplain name written span hr).1
  · obtain ⟨_, _, _, -, -, trait, -, decl, hd, rfl⟩ := h.bounds.1 ht
    exact ⟨decl, trait.name, rfl, declares_of_trait? hd⟩
  · obtain ⟨param, hp⟩ := hc.named requirement hr
    have hparam := (h.paramNamed?_eq _).trans hp
    cases requirement with
    | equality name written span =>
      refine ⟨param, _, hparam, ?_, h.equality.2 ⟨name, written, span, hr, hp, rfl⟩⟩
      exact (congrArg (program.meaning · written) h.scope_eq).trans ((hplain name written span hr).2 hquiet)
    | conformance name traits span =>
      refine ⟨param, hparam, fun trait ht => ?_⟩
      obtain ⟨decl, hd⟩ := hc.traits name traits span hr trait ht
      exact ⟨decl, h.scope_eq ▸ hd, h.bounds.2 ⟨name, traits, span, hr, hp, trait, ht, decl, hd, rfl⟩⟩

lemma ensures_gathered (hd : base.Descends s.program) {function span}
    (hf : base.tree.decl? id = some ⟨.function function, span⟩) : Ensures (buildGenerics id) s
    fun result s' => Reported s s' ∧ result = function.whereClause.foldlM (require base)
        (.new id id (function.genericParams.map fun param => (param, base.declName param))) ∧
      ∀ extended, result = .ok extended → s'.diagnostics = [] →
      ∀ name written span, .equality name written span ∈ function.whereClause →
        base.meaning id written = some (base.reading id written) := by
  have hid : id < base.tree.size := lt_size (decl?_eq_some.1 hf)
  refine (ensures_decl (hd.decl?_of_not_binding hf rfl)).bind ?_
  rintro answer s ⟨rfl, rfl⟩
  have hscope : s.program.tree.scope? id = some id := by
    rw [hd.scope?_eq hid]
    simp [scope?, isScope, decl?_eq_some.1 hf, Node.isScope]
  have hle : id ≤ root := by have := hs.rooted.size_eq; omega
  have hparams := (hs.rooted.below (decl?_eq_some.1 hf)).1.1
  simp only [ensures_get_bind, hscope]
  refine (ensures_demand_bind hd fun param hp => (hparams param hp).isSome_decl?).2 ?_
  simp only [hd.declName_eq]
  exact ensures_addRequirements hs _ hle hd

lemma ensures_buildGenerics (hc : Core base s) (hd : base.tree.decl? id = some found) :
    Ensures (buildGenerics id) s fun result s' =>
      Reported s s' ∧ ∀ extended, result = .ok extended → Constrained base s' id (some extended) := by
  by_cases hfunction : ∃ function, found.kind = .function function
  · obtain ⟨_, span⟩ := found
    obtain ⟨function, rfl⟩ := hfunction
    refine (ensures_gathered hs hc.descends hd).imp ?_
    rintro _ s' ⟨h, rfl, hmeaning⟩
    refine ⟨h, fun extended he => ⟨function, span, hd, ?_⟩⟩
    have hgathers := requireAll_new base id (function.genericParams.map fun param =>
      (param, base.declName param)) function.whereClause
    rw [he] at hgathers
    refine collects_of_gathers hgathers.1 hgathers.2 fun name written span hr => ?_
    have hmeant (hquiet : s'.diagnostics = []) := hmeaning extended he hquiet name written span hr
    exact ⟨plain_reading fun hquiet => by rw [hmeant hquiet]; rfl, hmeant⟩
  · rcases hc.descends.decl?_cases id with heq | ⟨_, _, _, -, hcurrent⟩
    · refine (ensures_decl (heq.trans hd)).read ?_
      split
      next function hkind => exact absurd ⟨function, hkind⟩ hfunction
      next => exact ensures_pure.2 ⟨.refl s, by simp⟩
    · refine (ensures_decl hcurrent).read ?_
      exact ensures_pure.2 ⟨.refl s, by simp⟩

lemma note_generics (hc : Core base s) {generics} (hnew : s.generics[id]? = none)
    (hg : Constrained base s id generics) : Noted base s
    { s with generics := s.generics.insert id generics } := by
  have hn : Notes base s { s with generics := s.generics.insert id generics } :=
    { Notes.refl base s with generics := NodeMap.insert_mono hnew }
  refine ⟨⟨hn, hn.core hs.rooted hc { hc.toTables with generics := fun h => NodeMap.of_insert h hg hc.generics }, rfl⟩, rfl⟩

lemma ensures_genericsOf (hc : Core base s) (hd : base.tree.decl? id = some found) :
    Ensures (genericsOf id) s fun generics s' => Noted base s s' ∧ s'.generics[id]? = some generics := by
  unfold genericsOf
  simp only [ensures_get_bind]
  cases hg : s.generics[id]? with
  | some generics => exact ensures_pure.2 ⟨.refl hc, hg⟩
  | none =>
    have hnote {generics s1} (h1 : Reported s s1) (hg1 : Constrained base s1 id generics) :
        Noted base s { s1 with generics := s1.generics.insert id generics } ∧
          (s1.generics.insert id generics)[id]? = some generics := by
      have hn := h1.noted hs.rooted hc
      obtain ⟨more, -, rfl⟩ := h1
      exact ⟨hn.trans (note_generics hs hn.core hg hg1), by simp⟩
    refine (ensures_buildGenerics hs hc hd).bind ?_
    rintro result s1 ⟨h1, hresult⟩
    cases result with
    | ok generics => exact ensures_pure.2 (hnote h1 (hresult generics rfl))
    | error reason =>
      have hid : id < s1.program.tree.size := by
        obtain ⟨_, -, rfl⟩ := h1
        exact (lt_size (decl?_eq_some.1 hd)).trans_le hc.descends.size_le
      refine (ensures_declName (h1.program_eq ▸ hc.descends) (by simp [hd])).read
        ((ensures_reportAt hid).bind ?_)
      rintro _ s2 ⟨h2, hdiag⟩
      exact ensures_pure.2 (hnote (h1.trans h2) hdiag)

/-! ### Instances of generic functions -/

section

variable {id : Nat} {params : List DeclId} {requirements : List Requirement} {generics : Generics}
  (hg : generics.Collects base (Plain base s) (s.diagnostics = []) id params requirements)

include hg

lemma ensures_instantiate (hi : Inv base s) {type} (ht : Known base s type) (useSite : ScopeId) :
    Ensures (instantiate generics type useSite) s fun answer s' => Step base .nowhere s s' ∧
    Known base s' answer.1 ∧ generics.Admits answer.2 ∧ answer.1 = type.substitute answer.2 := by
  obtain ⟨hvalues, hbindings, hle, -⟩ :=
    generics.chooseAll_spec (s.program.isWithin useSite generics.scope) s.solver
    (P := fun next => Ty.Over (End base (s.Faulty base) (· < next)))
    (fun hle h => Ty.Over.imp h (End.imp (fun hf => hf) fun _ hid => hid.trans_le hle))
    (fun param type he => (hg.plain param type he).known) (fun _ _ _ => (Ty.over_end rfl).2 trivial)
    (fun _ id _ => (Ty.over_end rfl).2 (Nat.lt_succ_self id))
  have hrefines : s.solver.Refines
      (generics.chooseAll (s.program.isWithin useSite generics.scope) s.solver).2 :=
    ⟨hle, [], hbindings⟩
  have hstep := step_solver hs.rooted hi hrefines (hbindings ▸ hi.lawful) (hbindings ▸ hi.solver)
  exact ensures_modifyGet.2 ⟨hstep, Ty.Over.substitute (traity_end _ _) hvalues
    (ht.mono hstep.evolves.later), generics.admits_chooseAll _ _, rfl⟩

omit hs in
/-- Inside of the function nothing has to be inferred for that. -/
lemma ensures_instantiate_inside {type} (ht : Plain base s type) {useSite}
    (hin : s.program.isWithin useSite generics.scope) : Ensures (instantiate generics type useSite)
    s fun answer s' => s' = s ∧ answer.1 = generics.inside type ∧ Plain base s answer.1 := by
  obtain ⟨hvalues, -, -, hsame⟩ := generics.chooseAll_spec true s.solver
    (P := fun _ => Plain base s) (fun _ h => h) hg.plain (fun _ _ _ => (Ty.over_end rfl).2 trivial)
    (fun h => by cases h)
  refine ensures_modifyGet.2 ?_
  simp only [Generics.instantiate, hin]
  refine ⟨by rw [hsame rfl], ?_, Ty.Over.substitute (traity_end _ _) hvalues ht⟩
  rw [generics.chooseAll_inside s.solver]
  rfl

end

end TraitLang.Check
