import TraitLang.Proofs.Leftovers
import TraitLang.Proofs.Specialization

/-! What the equations of a where clause do. A parameter that is equated with a type becomes this
type as it is written, at every use of the function. The type is not looked into again: where it
mentions parameters of the same function they stay. Inside of the function the results are read in
this way, and the parameters are not. -/
namespace TraitLang

open List

/-- The where clause of a function equates a generic parameter with a type. A requirement is about
the first parameter of the name that it gives. -/
def Program.Equates (program : Program) (function : DeclId) (decl : FunctionDecl) (param : DeclId) (type : Ty) : Prop :=
  ∃ name written span, .equality name written span ∈ decl.whereClause ∧ decl.genericParams.find?
    (fun id => program.declName id = name) = some param ∧ type = program.reading function written

/-- What a generic parameter of a function becomes: the type that it is equated with, or else itself
inside of the function and a new variable outside. -/
inductive Program.Becomes (program : Program) (function : DeclId) (decl : FunctionDecl)
    (inside : Bool) (next : Nat) (param : DeclId) : Ty → Prop
  | required {type : Ty} : program.Equates function decl param type →
    Becomes program function decl inside next param type
  | rigid : (∀ type, ¬program.Equates function decl param type) → inside = true →
    Becomes program function decl inside next param (.param param (program.declName param))
  | fresh {id : Nat} : (∀ type, ¬program.Equates function decl param type) → inside = false →
    next ≤ id → Becomes program function decl inside next param (.var id)

namespace Ty

/-- A substitution changes nothing if the parameters that a type mentions stand for themselves. -/
lemma substitute_eq_self_iff {leaf} (ht : Traity leaf) {names : DeclId → String}
    (hnames : ∀ param text, leaf (.param param text) → text = names param) {substitution} {type : Ty}
    (h : type.Over leaf) : type.substitute substitution = type ↔ ∀ param, type.mentionsParam param →
      ∀ value, substitution[param]? = some value → value = .param param (names param) := by
  induction type using byEnds with
  | ends type he =>
    cases type with
    | param param text =>
      obtain rfl := hnames param text ((over_end he).1 h)
      cases hs : substitution[param]? <;> simp [substitute, replace, mentionsParam, any, hs]
    | _ =>
      have hend := (over_end he).1 h
      refine iff_of_true ((ht.substitute_end substitution he hend).resolve_right (by simp)) fun param hp => ?_
      obtain ⟨part, hm, hp⟩ := (any_iff.1 hp).resolve_left (by simp)
      have htrait := ht.isTrait he hend hm
      cases part with
      | trait => cases hp
      | _ => cases htrait
  | whole type he ih =>
    rcases substitute_cases substitution type with heq | ⟨_, _, rfl, -⟩
    · have hparts := (over_parts he).1 h
      rw [heq, mapParts_eq_self]
      refine ⟨fun hall param hp => ?_, fun hall part hm => (ih part hm (hparts part hm)).2 fun param hp =>
        hall param (any_of_part hm hp)⟩
      rcases any_iff.1 hp with hp | ⟨part, hm, hp⟩
      · cases type with
        | param => cases he
        | _ => cases hp
      · exact (ih part hm (hparts part hm)).1 (hall part hm) param hp
    · cases he

end Ty

/-- The generic parameters of a function, as they were prepared from its where clause. -/
structure Generics.Prepared (generics : Generics) (program : Program) (function : DeclId)
    (decl : FunctionDecl) : Prop where
  scope_eq : generics.scope = function
  params_eq : generics.params = decl.genericParams.map fun param => (param, program.declName param)
  equality?_iff : ∀ {param : DeclId} {type : Ty},
    generics.equality? param = some type ↔ program.Equates function decl param type
  exists_equates : ∀ {name : String} {written : TypeExpr} {span : Span},
  .equality name written span ∈ decl.whereClause →
    ∃ param ∈ decl.genericParams, program.declName param = name ∧
      program.Equates function decl param (program.reading function written)

namespace Generics.Prepared

variable {generics : Generics} {program : Program} {function : DeclId} {decl : FunctionDecl}
  (h : generics.Prepared program function decl)

include h

/-- The substitution for the parameters says what each of them becomes, and nothing else. -/
lemma becomes (inside : Bool) (solver : Solver) : (∀ param ∈ decl.genericParams,
    ∃ type, (generics.chooseAll inside solver).1[param]? = some type ∧
      program.Becomes function decl inside solver.next param type) ∧ ∀ (param : DeclId) type,
    (generics.chooseAll inside solver).1[param]? = some type → param ∈ decl.genericParams := by
  have hchosen := generics.chosen_chooseAll inside solver
  rw [h.params_eq] at hchosen
  have hnone {param} (hn : generics.equality? param = none) (type : Ty) :
      ¬program.Equates function decl param type := by
    rw [← h.equality?_iff, hn]
    nofun
  refine ⟨fun param hp => ?_, fun param type ht => ?_⟩
  · obtain ⟨type, ht⟩ := hchosen.exists_value _ (mem_map_of_mem hp)
    obtain ⟨_, he, heq, hstands⟩ := hchosen.stands ht
    obtain ⟨other, -, rfl⟩ := mem_map.1 he
    obtain rfl : other = param := heq
    refine ⟨type, ht, ?_⟩
    cases hstands with
    | required he => exact .required (h.equality?_iff.1 he)
    | rigid hn hin => exact .rigid (hnone hn) hin
    | fresh hn hout hle => exact .fresh (hnone hn) hout hle
  · obtain ⟨_, he, rfl, -⟩ := hchosen.stands ht
    obtain ⟨_, ho, rfl⟩ := mem_map.1 he
    exact ho

/-- A type that is written in the function stays as it is if its parameters do. -/
lemma substitute_eq_self_iff {root} (hs : program.Surveyed root)
    (scope : ScopeId) (written : TypeExpr) (inside : Bool) (solver : Solver) :
    (program.reading scope written).substitute (generics.chooseAll inside solver).1 =
      program.reading scope written ↔ ∀ param ∈ decl.genericParams,
      (program.reading scope written).mentionsParam param → (generics.chooseAll inside
        solver).1[param]? = some (.param param (program.declName param)) := by
  obtain ⟨hsome, hmem⟩ := h.becomes inside solver
  rw [Ty.substitute_eq_self_iff (fun _ h => h) (fun _ _ h => h.2.2) (Check.written_reading hs scope written)]
  grind

/-- Inside of its function a parameter stays as it is unless it is equated with something else. -/
lemma stays_iff {param} (hp : param ∈ decl.genericParams) (solver : Solver) :
    (generics.chooseAll true solver).1[param]? = some (.param param (program.declName param)) ↔
      ∀ type, program.Equates function decl param type → type = .param param (program.declName param) := by
  obtain ⟨value, hvalue, hbecomes⟩ := (h.becomes true solver).1 param hp
  rw [hvalue, Option.some.injEq]
  cases hbecomes with
  | required he =>
    refine ⟨?_, fun hall => hall value he⟩
    rintro rfl type ht
    exact Option.some.inj ((h.equality?_iff.2 ht).symm.trans (h.equality?_iff.2 he))
  | rigid hnone => exact iff_of_true rfl fun type ht => absurd ht (hnone type)
  | fresh _ hout => cases hout

end Generics.Prepared

namespace Check

variable {files : List SourceFile} {name : String} {program : Program} {settings : Settings}
  {good : Bool} {s : State}

lemma Checked.prepared (h : Checked files name settings program good s) {function decl span}
    (hd : program.tree.decl? function = some ⟨.function decl, span⟩) {generics}
    (hg : s.generics[function]? = some (some generics)) : generics.Prepared program function decl := by
  obtain ⟨_, _, -, hhoused⟩ := h.exists_housed
  obtain ⟨_, _, hdeclared, hcollects⟩ := h.inv.generics hg
  cases hd.symm.trans hdeclared
  have habides := hhoused.generics hg
  have hparams := hcollects.params_eq
  have hnamed (text : String) : generics.paramNamed? text =
      decl.genericParams.find? fun param => program.declName param = text := by
    rw [Generics.paramNamed?, hparams, find?_map, Option.map_map]
    simp [Function.comp_def]
  have hclause : program.whereClause function = decl.whereClause := by rw [Program.whereClause, hd]
  rw [hclause] at habides
  refine ⟨habides.scope_eq, hparams, fun {param type} => ⟨fun he => ?_, ?_⟩, fun {text written place} hr => ?_⟩
  · obtain ⟨text, written, place, hr, hp, rfl⟩ := habides.sourced he
    exact ⟨text, written, place, hr, hnamed text ▸ hp, rfl⟩
  · rintro ⟨text, written, place, hr, hp, rfl⟩
    obtain ⟨_, ho, he⟩ := habides.meets hr
    cases (hnamed text ▸ ho).symm.trans hp
    exact he
  · obtain ⟨param, hp, -⟩ := habides.meets hr
    rw [hnamed] at hp
    exact ⟨param, mem_of_find?_eq_some hp, by simpa using find?_some hp, text, written, place, hr, hp, rfl⟩

/-! ### Equations -/

/-- At every use of a generic function a parameter becomes what the where clause equates it with, as
it is written. With the parameters replaced in this type too the equation holds only if those that
the type mentions stay as they are. -/
theorem Checked.required_as_written
    (h : Checked files name settings program good s) {function : DeclId} {decl : FunctionDecl}
    {span : Span} (hd : program.tree.decl? function = some ⟨.function decl, span⟩)
    {generics : Generics} (hg : s.generics[function]? = some (some generics))
    (type : Ty) (useSite : ScopeId) (solver : Solver) : (∀ param ∈ decl.genericParams,
    ∃ value, (generics.instantiate program type useSite solver).1.2[param]? = some value ∧
      program.Becomes function decl (program.isWithin useSite function) solver.next param value) ∧
    ∀ text written place, .equality text written place ∈ decl.whereClause →
      ∃ param ∈ decl.genericParams, program.declName param = text ∧
        (generics.instantiate program type useSite solver).1.2[param]? = some
        (program.reading function written) ∧ ((program.reading function written).substitute
        (generics.instantiate program type useSite solver).1.2 = program.reading function written ↔
          ∀ own ∈ decl.genericParams, (program.reading function written).mentionsParam own →
            (generics.instantiate program type useSite solver).1.2[own]? = some
            (.param own (program.declName own))) := by
  obtain ⟨root, _, hs, -⟩ := h.exists_housed
  have hp := h.prepared hd hg
  simp only [Generics.instantiate, hp.scope_eq]
  refine ⟨(hp.becomes _ solver).1, fun text written place hr => ?_⟩
  obtain ⟨param, hmem, hname, hequates⟩ := hp.exists_equates hr
  refine ⟨param, hmem, hname, ?_, hp.substitute_eq_self_iff hs function written _ solver⟩
  obtain ⟨value, hvalue, hrequired⟩ := generics.admits_chooseAll (program.isWithin useSite function)
    solver (param, program.declName param) (hp.params_eq ▸ List.mem_map_of_mem hmem)
  rw [hvalue, hrequired _ (hp.equality?_iff.2 hequates)]

/-- A parameter that is equated with another one, which is equated with a type in turn. -/
def chained : List SourceFile :=
  [⟨"a", "fun f<T, U>(x: T) where T == U, U == Int {} fun main() { f(1); }"⟩]

lemma run_chained : (checked? chained "main" {}).any fun (program, good, s) => !good &&
    ((program.tree.decl? 4).any (fun decl => match decl.kind with
      | .function decl => decl.whereClause.any fun requirement => match requirement with
        | .equality text written _ => program.declName 0 == text && program.reading 4 written == .param 1 "U"
        | _ => false
      | _ => false) &&
    ((s.generics[4]?).any fun found => found.any fun generics =>
      (generics.instantiate program .unit 8 .empty).1.2[0]? == some (.param 1 "U") && (Ty.param 1
        "U").substitute (generics.instantiate program .unit 8 .empty).1.2 == .int)) := by
  decide +kernel

theorem required_as_written_chained : ∃ program s decl span generics, Checked chained "main"
    {} program false s ∧ program.tree.decl? 4 = some ⟨.function decl, span⟩ ∧
    s.generics[4]? = some (some generics) ∧ (∀ param ∈ decl.genericParams, ∃ value,
    (generics.instantiate program .unit 8 .empty).1.2[param]? = some value ∧ program.Becomes 4 decl
      (program.isWithin 8 4) Solver.empty.next param value) ∧ ∀ text written place,
    .equality text written place ∈ decl.whereClause → ∃ param ∈ decl.genericParams,
      program.declName param = text ∧ (generics.instantiate program .unit 8 .empty).1.2[param]? =
        some (program.reading 4 written) ∧ ((program.reading 4 written).substitute
        (generics.instantiate program .unit 8 .empty).1.2 = program.reading 4 written ↔
          ∀ own ∈ decl.genericParams, (program.reading 4 written).mentionsParam own →
            (generics.instantiate program .unit 8 .empty).1.2[own]? = some
            (.param own (program.declName own))) := by
  obtain ⟨program, good, s, hchecked, htest⟩ := Checked.exists_of_any run_chained
  simp only [Bool.and_eq_true, Bool.not_eq_true', Option.any_eq_true] at htest
  obtain ⟨rfl, ⟨⟨kind, span⟩, hd, hkind⟩, ⟨_, hg, generics, rfl, -⟩⟩ := htest
  cases kind with
  | function decl => exact ⟨program, s, decl, span, generics, hchecked, hd, hg,
      hchecked.required_as_written hd hg _ _ _⟩
  | _ => cases hkind

/-- The equation of the first parameter with the second is not met once the second one is
replaced. -/
theorem unsolved_chained : ∃ program s decl span generics text written place, Checked chained "main"
    {} program false s ∧ program.tree.decl? 4 = some ⟨.function decl, span⟩ ∧ s.generics[4]? = some
    (some generics) ∧ .equality text written place ∈ decl.whereClause ∧ program.declName 0 = text ∧
    (generics.instantiate program .unit 8 .empty).1.2[0]? = some (.param 1 "U") ∧ (program.reading 4
    written).substitute (generics.instantiate program .unit 8 .empty).1.2 = .int := by
  obtain ⟨program, good, s, hchecked, htest⟩ := Checked.exists_of_any run_chained
  simp only [Bool.and_eq_true, Bool.not_eq_true', Option.any_eq_true, beq_iff_eq] at htest
  obtain ⟨rfl, ⟨⟨kind, span⟩, hd, hkind⟩, ⟨_, hg, generics, rfl, hchosen, hint⟩⟩ := htest
  cases kind with
  | function decl => grind
  | _ => cases hkind

/-! ### Parameters -/

/-- The name of a parameter of a function stands for the type that is written, or an error. What is
read in the function's own terms, as results are, is another type if the where clause equates a
parameter in it with one. -/
theorem Checked.parameter_as_written (h : Checked files name settings program good s) {use : ExprId}
    {text : String} {span : Span} (he : program.tree.expr? use = some ⟨.name text, span⟩)
    {param function : DeclId} (hf : program.valueNamed use text = some param) {decl : FunctionDecl}
    {place : Span} (hd : program.tree.decl? function = some ⟨.function decl, place⟩)
    (hp : param ∈ decl.params) {label : String} {written : TypeExpr} {spot : Span}
    (hw : program.tree.decl? param = some ⟨.param label written, spot⟩) :
    ∃ scope, program.scopeOf use = some scope ∧
    program.isWithin scope function ∧ (∀ type, s.finish.exprTypes[use]? = some type →
      type = program.reading function written ∨ type = .error) ∧
      (good = true → s.finish.exprTypes[use]? = some (program.reading function written)) ∧
      ∀ generics, s.generics[function]? = some (some generics) →
      ∀ solver, (generics.instantiate program (program.reading function written) scope solver).1.1 =
          generics.inside (program.reading function written) ∧
        (generics.inside (program.reading function written) = program.reading function written ↔
          ∀ own ∈ decl.genericParams, (program.reading function written).mentionsParam own → ∀ type,
            program.Equates function decl own type → type = .param own (program.declName own)) := by
  obtain ⟨root, homes, hs, hhoused⟩ := h.exists_housed
  obtain ⟨scope, _, hscope, hchain, hdecls, -⟩ := valueNamed_spec hf
  have hparam : program.scopeOf param = some function :=
    hs.scopeOf_child (Tree.decl?_eq_some.1 hd) (by simp [Node.children, DeclKind.children, hp])
  cases hparam.symm.trans (hs.mem_decls hdecls).1
  have hnamed : program.namedParamType? use = some
      (program.reading function written) := by grind [Program.namedParamType?, Program.paramType?]
  have hin : program.isWithin scope function := by simpa [Program.isWithin] using hchain
  have htype (type : Ty) (ht : s.exprType? use = some type) :
      type = program.reading function written ∨ type = .error := by
    obtain ⟨stored, hstored, rfl⟩ := Option.map_eq_some_iff.1 ht
    exact agrees_resolve hs (hhoused.agrees hstored) s.solver _ hnamed
  refine ⟨scope, hscope, hin, fun type ht => htype type ((finish_exprTypes s use).symm.trans ht),
    ?_, fun generics hg solver => ?_⟩
  · rintro rfl
    obtain ⟨type, ht, -⟩ := h.exists_type_of_name he
    rcases htype type ht with rfl | rfl
    · exact (finish_exprTypes s use).trans ht
    · exact absurd ((h.inv.known (.inr (.inl ⟨use, ht⟩))).faulty rfl) h.not_faulty
  · have hprepared := h.prepared hd hg
    refine ⟨by simp only [Generics.instantiate, hprepared.scope_eq, hin,
      generics.chooseAll_inside solver, Generics.inside], ?_⟩
    rw [Generics.inside, hprepared.substitute_eq_self_iff hs]
    exact forall₂_congr fun own ho => imp_congr_right fun _ => hprepared.stays_iff ho .empty

/-- A parameter whose type is equated with another one. -/
def equated : List SourceFile := [⟨"a", "fun f<T>(x: T) where T == Int { let y = x; }"⟩]

lemma run_equated : (checked? equated "main" {}).any fun (program, good, _) => good &&
    ((program.tree.expr? 3).any (fun expr => match expr.kind with
      | .name text => text == "x"
      | _ => false) &&
    (program.valueNamed 3 "x" == some 1 &&
    ((program.tree.decl? 6).any (fun decl => match decl.kind with
      | .function decl => decl.params.contains 1
      | _ => false) &&
    (program.tree.decl? 1).any fun decl => match decl.kind with
      | .param _ written => program.reading 6 written == .param 0 "T"
      | _ => false))) := by
  decide +kernel

theorem parameter_as_written_equated : ∃ program s span decl place label written spot,
    Checked equated "main" {} program true s ∧ program.tree.expr? 3 = some ⟨.name "x", span⟩ ∧
    program.valueNamed 3 "x" = some 1 ∧ program.tree.decl? 6 = some ⟨.function decl, place⟩ ∧
    1 ∈ decl.params ∧ program.tree.decl? 1 = some ⟨.param label written, spot⟩ ∧
    ∃ scope, program.scopeOf 3 = some scope ∧ program.isWithin scope 6 ∧
      (∀ type, s.finish.exprTypes[3]? = some type → type = program.reading 6 written ∨
      type = .error) ∧ (true = true → s.finish.exprTypes[3]? = some (program.reading 6 written)) ∧
      ∀ generics, s.generics[6]? = some (some generics) →
      ∀ solver, (generics.instantiate program (program.reading 6 written) scope solver).1.1 =
          generics.inside (program.reading 6 written) ∧
        (generics.inside (program.reading 6 written) = program.reading 6 written ↔
          ∀ own ∈ decl.genericParams, (program.reading 6 written).mentionsParam own → ∀ type,
            program.Equates 6 decl own type → type = .param own (program.declName own)) := by
  obtain ⟨program, good, s, hchecked, htest⟩ := Checked.exists_of_any run_equated
  simp only [Bool.and_eq_true, Option.any_eq_true, beq_iff_eq] at htest
  obtain ⟨rfl, ⟨⟨use, span⟩, he, huse⟩, hf, ⟨⟨kind, place⟩, hd, hkind⟩, ⟨param, spot⟩, hw, hparam⟩ := htest
  cases use with
  | name text =>
    obtain rfl : text = "x" := eq_of_beq huse
    cases kind with
    | function decl =>
      have hp : 1 ∈ decl.params := by simpa using hkind
      cases param with
      | param label written =>
        exact ⟨program, s, span, decl, place, label, written, spot, hchecked, he, hf, hd, hp, hw,
          hchecked.parameter_as_written he hf hd hp hw⟩
      | _ => cases hparam
    | _ => cases hkind
  | _ => cases huse

/-- A parameter whose type is equated with another one cannot be returned. -/
def returned : List SourceFile := [⟨"a", "fun f<T>(x: T) -> T where T == Int { return x; }"⟩]

lemma run_returned : (checked? returned "main" {}).any fun (program, good, s) => !good &&
    (program.valueNamed 2 "x" == some 1 && (s.declType? 1 == some (.param 0 "T") &&
    (s.exprType? 2 == some .error && ((s.generics[5]?).any fun found => found.any fun generics =>
        (generics.instantiate program (.param 0 "T") 4 .empty).1.1 == .int)))) := by
  decide +kernel

theorem rejected_returned : ∃ program s generics, Checked returned "main" {} program false s ∧
    program.valueNamed 2 "x" = some 1 ∧ s.finish.declTypes[1]? = some (.param 0 "T") ∧
    s.generics[5]? = some (some generics) ∧ (generics.instantiate program (.param 0 "T") 4 .empty).1.1 = .int ∧
    s.finish.exprTypes[2]? = some .error := by
  obtain ⟨program, good, s, hchecked, htest⟩ := Checked.exists_of_any run_returned
  simp only [Bool.and_eq_true, Bool.not_eq_true', Option.any_eq_true, beq_iff_eq] at htest
  obtain ⟨rfl, hfound, hdecl, hexpr, _, hg, generics, rfl, hint⟩ := htest
  exact ⟨program, s, generics, hchecked, hfound, (finish_declTypes s 1).trans hdecl, hg, hint,
    (finish_exprTypes s 2).trans hexpr⟩

end Check

end TraitLang
