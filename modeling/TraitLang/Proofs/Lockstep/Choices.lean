import TraitLang.Proofs.Completion
import TraitLang.Proofs.Lockstep.Rules

/-! What the settings of a checking change. Reporting missing returns only adds reports, and a
program that is good when free variables are rejected is good in the same way when they are kept. -/
namespace TraitLang

namespace Relabeling

/-- Everything stays where it is. -/
abbrev stay : Relabeling := move (fun place => place) (fun place => place)

lemma map_traitName_stay (names : List TraitName) : names.map stay.traitName = names :=
  List.map_id' names

mutual

lemma type_stay : ∀ type, stay.type type = type
  | .name _ _ => rfl
  | .tuple elements span => congrArg (TypeExpr.tuple · span) (types_stay elements)
  | .existential traits span => congrArg (TypeExpr.existential · span) (map_traitName_stay traits)

lemma types_stay : ∀ types, stay.types types = types
  | [] => rfl
  | type :: types => by rw [Relabeling.types, type_stay type, types_stay types]

end

lemma requirement_stay (requirement : Requirement) : stay.requirement requirement = requirement := by
  cases requirement with
  | equality param type span => exact congrArg (Requirement.equality param · span) (type_stay type)
  | conformance param traits span => exact congrArg (Requirement.conformance param · span) (map_traitName_stay traits)

lemma declKind_stay (kind : DeclKind) : stay.declKind kind = kind := by
  have htype : stay.type = fun type => type := funext type_stay
  have hrequirement : stay.requirement = fun requirement => requirement := funext requirement_stay
  cases kind with
  | module name members => simp [declKind]
  | function decl => simp [declKind, function, htype, hrequirement]
  | param name ascription => exact congrArg (DeclKind.param name) (type_stay ascription)
  | genericParam name => rfl
  | binding decl => simp [declKind, binding, htype]
  | var name => rfl
  | trait decl | product decl => simp [declKind, map_traitName_stay]

lemma node_stay (node : Node) : stay.node node = node := by
  cases node with
  | decl decl => exact congrArg (fun kind => Node.decl ⟨kind, decl.span⟩) (declKind_stay decl.kind)
  | stmt stmt => simp only [Relabeling.node, stmtKind_move]; rfl
  | expr expr => simp only [Relabeling.node, exprKind_move]; rfl
  | case case => simp only [Relabeling.node, pattern_move]; rfl

lemma program_stay (program : Program) : stay.program program = program := by
  have hnode : stay.node = fun node => node := funext node_stay
  simp [Relabeling.program, Relabeling.tree, hnode]

lemma map_conformance_stay (conformances : List Conformance) : conformances.map stay.conformance = conformances := by
  have hconformance : stay.conformance = fun c => c := by
    funext c
    obtain ⟨_, span, _, _⟩ := c
    cases span <;> rfl
  rw [hconformance, List.map_id']

lemma sights_stay (place : Position) : stay.Sights place := fun _ => Iff.rfl

end Relabeling

namespace Check

section

variable {files : List SourceFile} {name : String} {tree : Tree}

/-- Checking has one outcome. -/
lemma Checked.unique {settings program program' good good' s s'}
    (h : Checked files name settings program good s) (h' : Checked files name settings program' good' s') :
    program = program' ∧ good = good' ∧ s = s' := by
  obtain ⟨_, hread, hprogram⟩ := h.read
  obtain ⟨_, hread', hprogram'⟩ := h'.read
  cases hread.symm.trans hread'
  cases hprogram.symm.trans hprogram'
  cases h.run.symm.trans h'.run
  exact ⟨rfl, rfl, rfl⟩

/-- Checkings at the same places find the same, up to reports. -/
lemma Terms.Apart.finish_stay {T : Terms} {s r} (h : T.Apart s r) (hplaces : T.places = .stay)
    (hclaims : r.conformances = s.conformances) : r.finish = { s.finish with diagnostics := r.diagnostics } := by
  rw [h.finish_eq, hplaces, Relabeling.program_stay, hclaims]
  rfl

/-! ### Missing returns -/

/-- With reports of missing returns and without. Verdicts get better without them, those on bindings
stay as they are. -/
def Terms.silent (tree : Tree) : Terms where
  start place := place
  stop place := place
  plain id := tree.Declares DeclKind.isBinding id
  judged good good' := good = true → good' = true
  judged_refl _ h := h
  judged_and h h' hgood := by grind
  told problem := problem ≠ .missingReturnValue
  told_of_ne h := h
  claims := Eq
  claims_get product h := by
    rw [h, show List.map Relabeling.stay.conformance = id
      from funext Relabeling.map_conformance_stay, Option.map_id, id]
  claims_insert product all h := by rw [h, Relabeling.map_conformance_stay]
  claims_erase product h := by rw [h]
  reports ds ds' := ds' = ds.filter (·.problem ≠ .missingReturnValue)
  reports_append position h htold := by
    rw [h, List.filter_append]
    simp [htold]
  spoiled _ := False
  spoiled_append _ h := h

lemma Terms.silent_diagnose (tree : Tree) : (Terms.silent tree).diagnose true false := by
  refine .inr ⟨rfl, fun _ => rfl, fun ds ds' position h => ?_⟩
  rw [show ds' = _ from h]
  show _ = List.filter _ (ds ++ _)
  simp

/-- Reporting missing returns has no other effect: without it the findings are the same except for
these reports. -/
theorem missing_returns_only_added (hread : Tree.ofFiles files name = .ok tree) (settings : Settings) : ∃ program good good' s s',
      Checked files name { settings with diagnoseMissingReturns := true } program good s ∧
      Checked files name { settings with diagnoseMissingReturns := false } program good' s' ∧
      s'.finish = { s.finish with diagnostics := s.finish.diagnostics.filter (·.problem ≠ .missingReturnValue) } ∧
      (good = true → good' = true) := by
  obtain ⟨root, hr⟩ := Tree.rooted_ofFiles hread
  obtain ⟨program, hprogram, htree, hs⟩ := Program.exists_ofTree hr
  obtain ⟨good, s, hrun, -⟩ := ensures_checkProgram { settings with diagnoseMissingReturns := true } hs
  have hsuits : (Terms.silent tree).Suits program.tree := by
    rw [htree]
    exact suits_of_rooted hr (fun _ expr _ => Relabeling.sights_stay expr.span.start) (fun _ h => h)
      fun _ hother _ _ h => ⟨h, fun hplain => absurd hplain hother⟩
  have hverdict {good good' : Bool} {ds ds' : List Diagnostic}
      (hgood : (Terms.silent tree).judged good good') (hds : (Terms.silent tree).reports ds ds') :
      (Terms.silent tree).judged (good && ds.isEmpty) (good' && ds'.isEmpty) := by
    intro h
    rw [Bool.and_eq_true, List.isEmpty_iff] at h
    obtain ⟨rfl, rfl⟩ := h
    rw [hgood rfl, show ds' = [] from hds]
    rfl
  obtain ⟨good', s', hapart, hgood, hright⟩ := exists_checkProgram_along (Terms.silent tree)
    { settings with diagnoseMissingReturns := true } { settings with diagnoseMissingReturns := false } hsuits (.inl rfl)
    (Terms.silent_diagnose tree) rfl rfl hverdict hrun
  have hright := hright.resolve_left fun h => h
  rw [show (Terms.silent tree).places.program program = program from Relabeling.program_stay program] at hright
  refine ⟨program, good, good', s, s', ⟨⟨tree, hread, hprogram⟩, hrun⟩, ⟨⟨tree, hread, hprogram⟩, hright⟩, ?_, hgood⟩
  rw [hapart.finish_stay rfl hapart.fits.conformances.symm]
  exact congrArg (fun ds => { s.finish with diagnostics := ds }) hapart.fits.reports

/-- Two functions with returns that give nothing, and a return of another type between them. -/
def bareReturns : List SourceFile :=
  [⟨"a", "fun f() -> Int \x7b let g = true; if g \x7b return; \x7d return g; \x7d fun h() -> Bool \x7b return; \x7d"⟩]

theorem missing_returns_only_added_bare : ∃ program good good' s s', Checked bareReturns "main"
    { diagnoseMissingReturns := true } program good s ∧ Checked bareReturns "main"
    { diagnoseMissingReturns := false } program good' s' ∧ s'.finish =
    { s.finish with diagnostics := s.finish.diagnostics.filter (·.problem ≠ .missingReturnValue) } ∧
    s.diagnostics.length = 3 ∧ s'.diagnostics.length = 1 := by
  have hmany : (checked? bareReturns "main" { diagnoseMissingReturns := true }).any
      fun found => found.2.2.diagnostics.length == 3 := by decide +kernel
  have hfew : (checked? bareReturns "main" { diagnoseMissingReturns := false }).any
      fun found => found.2.2.diagnostics.length == 1 := by decide +kernel
  obtain ⟨_, _, s, hon, hs⟩ := Checked.exists_of_any hmany
  obtain ⟨_, _, s', hoff, hs'⟩ := Checked.exists_of_any hfew
  obtain ⟨tree, hread, -⟩ := hon.read
  obtain ⟨program, good, good', t, t', hchecked, hchecked', hfound, -⟩ := missing_returns_only_added hread {}
  obtain ⟨rfl, rfl, rfl⟩ := hon.unique hchecked
  obtain ⟨rfl, rfl, rfl⟩ := hoff.unique hchecked'
  exact ⟨_, _, _, s, s', hchecked, hchecked', hfound, eq_of_beq hs, eq_of_beq hs'⟩

/-! ### Free variables -/

/-- Rejecting free variables and keeping them, as long as nothing is reported. -/
def Terms.lenient : Terms :=
  { Terms.silent .empty with
    plain := fun _ => True
    judged := Eq
    judged_refl := fun _ => rfl
    judged_and := Terms.and_congr
    told := fun _ => True
    told_of_ne := fun _ => trivial
    reports := Eq
    reports_append := fun _ h _ => by
      rw [h]
      rfl
    spoiled := fun ds => ds ≠ []
    spoiled_append := fun _ _ => by simp }

/-- A program that is good when free variables are rejected is good when they are kept, and the same
is found out about it. -/
theorem keeping_free_conservative (settings : Settings) {program : Program} {s : State}
    (h : Checked files name { settings with freePolicy := .reject } program true s) :
    ∃ s', Checked files name { settings with freePolicy := .keep } program true s' ∧ s'.finish = s.finish := by
  obtain ⟨tree, hread, hprogram⟩ := h.read
  obtain ⟨root, hr⟩ := Tree.rooted_ofFiles hread
  have htree : program.tree = tree := by
    obtain ⟨found, hfound, htree, -⟩ := Program.exists_ofTree hr
    rwa [Except.ok.inj (hprogram.symm.trans hfound)]
  have hsuits : Terms.lenient.Suits program.tree := by
    rw [htree]
    exact suits_of_rooted hr (fun _ expr _ => Relabeling.sights_stay expr.span.start) (fun _ _ =>
      trivial) fun _ _ _ _ h => ⟨h, fun _ => h⟩
  have hverdict {good good' : Bool} {ds ds' : List Diagnostic} (hgood : Terms.lenient.judged good good')
      (hds : Terms.lenient.reports ds ds') : (good && ds.isEmpty) = (good' && ds'.isEmpty) := by
    rw [show good = good' from hgood, show ds = ds' from hds]
  obtain ⟨_, s', hapart, rfl, hright⟩ := exists_checkProgram_along Terms.lenient { settings with freePolicy := .reject }
    { settings with freePolicy := .keep } hsuits (.inr ⟨rfl, fun ds d => by simp [Terms.lenient]⟩)
    (.inl ⟨rfl, fun _ => trivial⟩) rfl rfl hverdict h.run
  have hright := hright.resolve_left fun hspoiled => hspoiled h.sound.1
  rw [show Terms.lenient.places.program program = program from Relabeling.program_stay program] at hright
  refine ⟨s', ⟨⟨tree, hread, hprogram⟩, hright⟩, ?_⟩
  rw [hapart.finish_stay rfl hapart.fits.conformances.symm]
  exact congrArg (fun ds => { s.finish with diagnostics := ds }) hapart.fits.reports.symm

/-- A generic function, used at two types that are found by inference. -/
def usedTwice : List SourceFile :=
  [⟨"a", "fun same<T>(x: T) -> T \x7b return x; \x7d"⟩,
    ⟨"b", "fun f() -> Int \x7b let a = same((1, true)); return if let (n, _) = a \x7b same(n) \x7d else \x7b 0 \x7d; \x7d"⟩]

theorem keeping_free_conservative_usedTwice : ∃ program s s', Checked usedTwice "main"
    { freePolicy := .reject } program true s ∧ Checked usedTwice "main"
    { freePolicy := .keep } program true s' ∧ s'.finish = s.finish := by
  have hgood : (checked? usedTwice "main" {}).any fun found => found.2.1 := by decide +kernel
  obtain ⟨program, good, s, hchecked, htrue⟩ := Checked.exists_of_any hgood
  obtain rfl : good = true := htrue
  obtain ⟨s', hkept, hfound⟩ := keeping_free_conservative {} hchecked
  exact ⟨program, s, s', hchecked, hkept, hfound⟩

end

end Check

end TraitLang
