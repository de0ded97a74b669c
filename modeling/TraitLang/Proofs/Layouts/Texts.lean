import TraitLang.Proofs.Completion
import TraitLang.Proofs.Lockstep.Rules
import TraitLang.Proofs.Parsing.Ranks

/-! Layout does not matter. Two texts with the same lexemes, whatever blanks and comments stand
between these and however their strings are spelled, are read and checked alike: what is found out
about them differs in places only. -/
namespace TraitLang

open Relabeling Token Program List

/-! ### Up to places -/

namespace Relabeling

section

variable (start stop : Position → Position)

lemma map_traitName_nowhere (names : List TraitName) : (names.map
    (move start stop).traitName).map nowhere.traitName = names.map nowhere.traitName := by
  rw [map_map]
  rfl

mutual

lemma type_nowhere : ∀ type, nowhere.type ((move start stop).type type) = nowhere.type type
  | .name _ _ => rfl
  | .tuple elements span => congrArg (TypeExpr.tuple · (nowhere.span span)) (types_nowhere elements)
  | .existential traits span =>
    congrArg (TypeExpr.existential · (nowhere.span span)) (map_traitName_nowhere start stop traits)

lemma types_nowhere : ∀ types, nowhere.types ((move start stop).types types) = nowhere.types types
  | [] => rfl
  | type :: types => by
    rw [Relabeling.types, Relabeling.types, Relabeling.types, type_nowhere type, types_nowhere types]

end

lemma requirement_nowhere (requirement : Requirement) : nowhere.requirement
    ((move start stop).requirement requirement) = nowhere.requirement requirement := by
  cases requirement with
  | equality param type span =>
    exact congrArg (Requirement.equality param · (nowhere.span span)) (type_nowhere start stop type)
  | conformance param traits span =>
    exact congrArg (Requirement.conformance param · (nowhere.span span))
      (map_traitName_nowhere start stop traits)

lemma declKind_nowhere (kind : DeclKind) :
    nowhere.declKind ((move start stop).declKind kind) = nowhere.declKind kind := by
  have htype : nowhere.type ∘ (move start stop).type = nowhere.type := funext (type_nowhere start stop)
  have hrequirement : nowhere.requirement ∘ (move start stop).requirement = nowhere.requirement :=
    funext (requirement_nowhere start stop)
  cases kind with
  | module name members => simp [declKind, nowhere]
  | function decl =>
    simp only [declKind, function, Option.map_map, map_map, htype, hrequirement]
    rfl
  | param name ascription => exact congrArg (DeclKind.param name) (type_nowhere start stop ascription)
  | genericParam name => rfl
  | binding decl =>
    simp only [declKind, binding, Option.map_map, htype, pattern_move]
    rfl
  | var name => rfl
  | trait decl | product decl =>
    simp only [declKind, map_traitName_nowhere]
    simp [nowhere]

lemma node_nowhere (node : Node) : nowhere.node ((move start stop).node node) = nowhere.node node := by
  cases node with
  | decl decl => exact congrArg (fun kind => Node.decl ⟨kind, nowhere.span decl.span⟩) (declKind_nowhere start stop decl.kind)
  | stmt stmt => simp only [node, stmtKind_move]; rfl
  | expr expr => simp only [node, exprKind_move]; rfl
  | case case => simp only [node, pattern_move]; rfl

lemma tree_nowhere (tree : Tree) : nowhere.tree ((move start stop).tree tree) = nowhere.tree tree := by
  have hnode : nowhere.node ∘ (move start stop).node = nowhere.node := funext (node_nowhere start stop)
  simp only [Relabeling.tree, Array.map_map, hnode, map_id_move]

lemma map_conformance_nowhere (conformances : List Conformance) :
    (conformances.map (move start stop).conformance).map nowhere.conformance =
    conformances.map nowhere.conformance := by
  rw [map_map]
  congr 1
  funext c
  obtain ⟨_, span, _, _⟩ := c
  cases span <;> rfl

end

end Relabeling

namespace Check

/-- The same findings, up to places. -/
structure Findings.Alike (f f' : Findings) : Prop where
  program : nowhere.program f.program = nowhere.program f'.program
  declTypes : f.declTypes = f'.declTypes
  exprTypes : f.exprTypes = f'.exprTypes
  returns : f.returns = f'.returns
  conformances : ∀ product : DeclId, f.conformances[product]?.map (List.map nowhere.conformance) =
    f'.conformances[product]?.map (List.map nowhere.conformance)
  diagnostics : f.diagnostics.map Diagnostic.problem = f'.diagnostics.map Diagnostic.problem

lemma Findings.Alike.symm {f f' : Findings} (h : f.Alike f') : f'.Alike f :=
  ⟨h.program.symm, h.declTypes.symm, h.exprTypes.symm, h.returns.symm,
    fun product => (h.conformances product).symm, h.diagnostics.symm⟩

lemma Findings.Alike.trans {f f' f'' : Findings} (h : f.Alike f') (h' : f'.Alike f'') : f.Alike f'' :=
  ⟨h.program.trans h'.program, h.declTypes.trans h'.declTypes, h.exprTypes.trans h'.exprTypes,
    h.returns.trans h'.returns, fun product => (h.conformances product).trans
    (h'.conformances product), h.diagnostics.trans h'.diagnostics⟩

/-- The terms on which a program is checked at other places. -/
def Terms.moved (start stop : Position → Position) : Terms where
  start := start
  stop := stop
  plain _ := True
  judged := Eq
  judged_refl _ := rfl
  judged_and := Terms.and_congr
  told _ := True
  told_of_ne _ := trivial
  claims cs cs' := ∀ product : DeclId,
  cs'[product]? = cs[product]?.map (List.map (move start stop).conformance)
  claims_get product h := h product
  claims_insert product all h other := by grind
  claims_erase product h other := by grind
  reports ds ds' := ds' = ds.map (move start stop).diagnostic
  reports_append position h _ := by
    rw [h, map_append]
    rfl
  spoiled _ := False
  spoiled_append _ h := h

lemma Terms.Apart.findings {start stop s r} (h : (Terms.moved start stop).Apart s r) :
    s.finish.Alike r.finish := by
  rw [h.finish_eq]
  refine ⟨?_, rfl, rfl, rfl, fun product => ?_, ?_⟩
  · show nowhere.program s.program = nowhere.program ((move start stop).program s.program)
    simp only [program, tree_nowhere]
  · show s.conformances[product]?.map _ = r.conformances[product]?.map _
    rw [h.fits.conformances product]
    cases s.conformances[product]? with
    | none => rfl
    | some conformances => exact congrArg some (map_conformance_nowhere start stop conformances).symm
  · have hreports : r.diagnostics = s.diagnostics.map (move start stop).diagnostic := h.fits.reports
    show s.diagnostics.map _ = r.diagnostics.map Diagnostic.problem
    rw [hreports, map_map]
    rfl

variable {tokens : List Token} {tree : Tree}

/-- Ranks tell what is visible in a text. -/
lemma sights_ranked (h : tree.Placed tokens) {id expr} (he : tree.expr? id = some expr) :
    (ranked tokens).Sights expr.span.start := by
  intro position
  obtain ⟨token, ht, hstart⟩ := h id (.expr expr) (Tree.expr?_eq_some.1 he) rfl
  have hstart : token.span.start = expr.span.start := hstart
  rw [← hstart]
  exact le_start_iff ht position

/-- A program is checked at other places as it is where it is. -/
lemma exists_checkProgram_moved {start stop root} (hr : tree.Rooted root)
    (hsights : ∀ id expr, tree.expr? id = some expr → (move start stop).Sights expr.span.start)
    (settings : Settings) : ∃ program good s t,
    ofTree tree = .ok program ∧ checkProgram (.new program settings) = .ok good s ∧
      ofTree ((move start stop).tree tree) = .ok ((move start stop).program program) ∧
      checkProgram (.new ((move start stop).program program) settings) = .ok good t ∧
      (Terms.moved start stop).Apart s t := by
  obtain ⟨program, hprogram, htree, hs⟩ := exists_ofTree hr
  obtain ⟨good, s, hrun, -⟩ := ensures_checkProgram settings hs
  have hmoved := ofTree_moved start stop hr.spanned hprogram
  have hsuits : (Terms.moved start stop).Suits program.tree := by
    rw [htree]
    exact suits_of_rooted hr hsights (fun _ _ => trivial) fun _ _ _ _ h => ⟨h, fun _ => h⟩
  obtain ⟨good', t, hst, rfl, hright⟩ := exists_checkProgram_along _ settings settings
    (R := Eq) hsuits (.inl rfl) (.inl ⟨rfl, fun _ => trivial⟩) (fun product => by simp) rfl
    (fun {good good' ds ds'} hgood hds => by
      rw [show good = good' from hgood, show ds' = _ from hds, isEmpty_map]) hrun
  exact ⟨program, good, s, t, hprogram, hrun, hmoved, hright.resolve_left fun h => h, hst⟩

/-- A text is checked like its tokens alone would be, each at the place of its number. -/
lemma exists_checkProgram_ranked {file text name} (h : scan file text = .ok tokens)
    (hread : Tree.ofFiles [⟨file, text⟩] name = .ok tree) (settings : Settings) :
    ∃ program good s t, ofTree tree = .ok program ∧ checkProgram (.new program settings) =
    .ok good s ∧ ofTree ((ranked tokens).tree tree) = .ok ((ranked tokens).program program) ∧
      checkProgram (.new ((ranked tokens).program program) settings) = .ok good t ∧
      s.finish.Alike t.finish := by
  obtain ⟨_, hr⟩ := Tree.rooted_ofFiles hread
  obtain ⟨program, good, s, t, hprogram, hrun, hmoved, hright, hst⟩ := exists_checkProgram_moved hr
    (fun _ _ => sights_ranked (Tree.placed_ofFiles h hread)) settings
  exact ⟨program, good, s, t, hprogram, hrun, hmoved, hright, hst.findings⟩

end Check

namespace Check

section

variable {file file' text text' : String} {tokens tokens' : List Token}

/-- Two texts with the same lexemes are refused for the same reason at the same token. Or they have
the same tree, the same scopes and the same verdict, and checking them finds the same, up to
places. -/
theorem layout_irrelevant (h : scan file text = .ok tokens) (h' : scan file' text' = .ok tokens')
    (hlex : tokens.map lexeme = tokens'.map lexeme) (name : String) (settings : Settings) :
    (∃ (problem : Problem) (index : Nat) (token token' : Token), tokens[index]? = some token ∧
    tokens'[index]? = some token' ∧
      Tree.ofFiles [⟨file, text⟩] name = .error (.diagnostic ⟨problem, token.span.start⟩) ∧
      Tree.ofFiles [⟨file', text'⟩] name = .error (.diagnostic ⟨problem, token'.span.start⟩)) ∨
    ∃ tree tree' program program' good s s', Tree.ofFiles [⟨file, text⟩] name = .ok tree ∧
      Tree.ofFiles [⟨file', text'⟩] name = .ok tree' ∧ nowhere.tree tree = nowhere.tree tree' ∧
      ofTree tree = .ok program ∧ ofTree tree' = .ok program' ∧
      program.nodeScopes = program'.nodeScopes ∧ program.scopeDecls = program'.scopeDecls ∧
      program.varBindings = program'.varBindings ∧ checkProgram (.new program settings) = .ok good
      s ∧ checkProgram (.new program' settings) = .ok good s' ∧ s.finish.Alike s'.finish := by
  refine (Tree.ofFiles_ranked h h' hlex name).imp_right ?_
  rintro ⟨tree, tree', hread, hread', htree⟩
  obtain ⟨program, good, s, t, hprogram, hrun, hranked, hright, halike⟩ :=
    exists_checkProgram_ranked h hread settings
  obtain ⟨program', good', s', t', hprogram', hrun', hranked', hright', halike'⟩ :=
    exists_checkProgram_ranked h' hread' settings
  have hsame : (ranked tokens).program program = (ranked tokens').program program' := by grind
  rw [hsame] at hright
  obtain ⟨rfl, rfl⟩ := EStateM.Result.ok.inj (hright.symm.trans hright')
  have hnowhere : nowhere.tree tree = nowhere.tree tree' := by
    have hboth := congrArg nowhere.tree htree
    unfold ranked at hboth
    rwa [tree_nowhere, tree_nowhere] at hboth
  obtain ⟨-, hscopes, hdecls, hbindings⟩ := mk.inj hsame
  exact ⟨tree, tree', program, program', good, s, s', hread, hread', hnowhere, hprogram, hprogram',
    hscopes, hdecls, hbindings, hrun, hrun', halike.trans halike'.symm⟩

end

/-- A program without blanks, and the same with blanks, comments and another spelling of its
string. -/
def tight : String := "let a=\"\t\";fun f()->Int\x7blet b=a;return b;\x7d"

def roomy : String := "let a = \"\\t\"; // a tab\nfun f() -> Int \x7b\n  let b = a; // seen from here on\n  return b;\n\x7d\n"

theorem layout_irrelevant_roomy : ∃ tokens tokens', scan "a" tight = .ok tokens ∧
    scan "b" roomy = .ok tokens' ∧ tokens.map lexeme = tokens'.map lexeme ∧ tokens ≠ tokens' ∧
    ∃ program program' s s', Checked [⟨"a", tight⟩] "main" {} program false s ∧ Checked
    [⟨"b", roomy⟩] "main" {} program' false s' ∧ s.finish.Alike s'.finish := by
  have hscan : ((scan "a" tight).bind fun tokens => (scan "b" roomy).map fun tokens' =>
    decide (tokens.map lexeme = tokens'.map lexeme ∧
      tokens ≠ tokens')).toOption = some true := by decide +kernel
  have hread : (checked? [⟨"a", tight⟩] "main" {}).any fun found => !found.2.1 := by decide +kernel
  obtain ⟨program, good, s, hchecked, hgood⟩ := Checked.exists_of_any hread
  obtain rfl : good = false := by simpa using hgood
  obtain ⟨tree, htree, hprogram⟩ := hchecked.read
  cases h : scan "a" tight with
  | error failure =>
    rw [h] at hscan
    cases hscan
  | ok tokens =>
    cases h' : scan "b" roomy with
    | error failure =>
      rw [h, h'] at hscan
      cases hscan
    | ok tokens' =>
      rw [h, h'] at hscan
      obtain ⟨hlex, hne⟩ := of_decide_eq_true (Option.some.inj hscan)
      refine ⟨tokens, tokens', rfl, rfl, hlex, hne, ?_⟩
      obtain ⟨_, _, _, _, -, -, hfail, -⟩ | ⟨_, tree', _, program', good, _, s', hagain, htree', -,
        hprogram1, hprogram', -, -, -, hrun, hrun', halike⟩ := layout_irrelevant h h' hlex "main" {}
      · cases htree.symm.trans hfail
      · cases htree.symm.trans hagain
        cases hprogram.symm.trans hprogram1
        cases hchecked.run.symm.trans hrun
        exact ⟨program, program', s, s', hchecked, ⟨⟨tree', htree', hprogram'⟩, hrun'⟩, halike⟩

end Check

end TraitLang
