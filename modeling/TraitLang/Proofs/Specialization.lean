import TraitLang.Proofs.Soundness

/-! Generic functions where they are named. The types for the parameters are those that the where
clause equates them with, and else what checking infers. No bound of the where clause is asked of
them. -/
namespace TraitLang

variable {generics : Generics}

/-- Types for parameters under what is known about variables. -/
lemma Generics.Admits.resolveBy {substitution} (h : generics.Admits substitution)
    (bindings : List (Nat × Ty)) (hequal : ∀ param type,
    generics.equality? param = some type → Solver.resolveBy bindings type = type) :
    generics.Admits (substitution.map fun _ => Solver.resolveBy bindings) := by
  intro param hp
  obtain ⟨type, ht, hrequired⟩ := h param hp
  refine ⟨Solver.resolveBy bindings type, by simp [ht], fun required hr => ?_⟩
  rw [hrequired required hr, hequal _ _ hr]

lemma Generics.mem_of_paramNamed? {name param} (h : generics.paramNamed? name = some param) :
    (param, name) ∈ generics.params := by
  obtain ⟨⟨_, text⟩, hfound, rfl⟩ := Option.map_eq_some_iff.1 h
  obtain rfl : text = name := by simpa using List.find?_some hfound
  exact List.mem_of_find?_eq_some hfound

namespace Check

variable {files : List SourceFile} {name : String} {program : Program} {settings : Settings}
  {good : Bool} {s : State}

/-- A signature has no variables, so an instance of it is one for the final types of the
parameters. -/
lemma Inv.exists_instance (hi : Inv program s) {id type} (h : s.Instance id type) :
    ∃ signature generics substitution, s.signatures[id]? = some signature ∧ s.generics[id]? = some (some generics) ∧
      generics.Admits substitution ∧ type = signature.toTy.substitute substitution := by
  obtain ⟨signature, generics, _, hsignature, hgenerics, hadmits, rfl⟩ := h
  obtain ⟨hparams, houtput, -⟩ := hi.signatures hsignature
  obtain ⟨_, _, -, hcollects⟩ := hi.generics hgenerics
  have hplain : Plain program s signature.toTy := Ty.over_function.2 ⟨hparams, houtput⟩
  refine ⟨signature, generics, _, hsignature, hgenerics, hadmits.resolveBy s.solver.bindings
    fun param type he => ?_, Solver.resolveBy_substitute _ _ hplain.hasVars⟩
  exact (hcollects.plain param type he).resolveBy _

/-- After a good verdict a name has a type, which is an instance of the signature if it is that of a
generic function. -/
lemma Checked.exists_type_of_name (h : Checked files name settings program true s)
    {use text span} (he : program.tree.expr? use = some ⟨.name text, span⟩) :
    ∃ type, s.exprType? use = some type ∧ ∀ found, program.valueNamed use text = some found →
      program.tree.Declares DeclKind.isGeneric found → s.Instance found type := by
  have hnode := Tree.expr?_eq_some.1 he
  obtain ⟨node, hn, hrule⟩ := (h.sound.2 use (Tree.lt_size hnode)).rule
  -- a name has no slots, so it is still there
  cases h.inv.descends.patched _ (Tree.lt_size hnode) _ _ hnode hn with
  | expr hkind =>
    cases hkind
    obtain ⟨type, ht, hname⟩ := hrule
    exact ⟨type, ht, fun found hf => (hname found hf).2⟩

/-- After a good verdict the name of a generic function has a type of its signature, with types for
all parameters that are as the equations of the where clause require. The bounds of the where clause
name parameters and traits. -/
theorem Checked.equations_hold (h : Checked files name settings program true s) {use : ExprId}
    {text : String} {span : Span} (he : program.tree.expr? use = some ⟨.name text, span⟩)
    {found : DeclId} (hf : program.valueNamed use text = some found) {function : FunctionDecl}
    {place : Span} (hd : program.tree.decl? found = some ⟨.function function, place⟩)
    (hg : function.genericParams ≠ []) : ∃ signature substitution, s.signatures[found]? =
    some signature ∧ s.finish.exprTypes[use]? = some (signature.toTy.substitute substitution) ∧
      (∀ param ∈ function.genericParams, ∃ type, substitution[param]? = some type) ∧
      (∀ param written span, .equality param written span ∈ function.whereClause →
        ∃ id ∈ function.genericParams, ∃ type, program.declName id = param ∧
          program.meaning found written = some type ∧ substitution[id]? = some type) ∧
      ∀ param traits span, .conformance param traits span ∈ function.whereClause →
        ∃ id ∈ function.genericParams, program.declName id = param ∧ ∀ trait ∈ traits, ∃ decl,
          program.trait? trait.name found = some decl := by
  have hi := h.inv
  obtain ⟨type, ht, hinstance⟩ := h.exists_type_of_name he
  obtain ⟨signature, generics, substitution, hsignature, hgenerics, hadmits, rfl⟩ :=
    hi.exists_instance (hinstance found hf ⟨_, hd, by simpa [DeclKind.isGeneric] using hg⟩)
  obtain ⟨declared, _, hdeclared, hcollects⟩ := hi.generics hgenerics
  cases hd.symm.trans hdeclared
  -- the parameters that were taken down are those of the function, with their names
  have hparam {id : DeclId} {param : String} (hp : generics.paramNamed? param = some id) :
      id ∈ function.genericParams ∧ program.declName id = param := by
    have hmem := Generics.mem_of_paramNamed? hp
    rw [hcollects.params_eq] at hmem
    obtain ⟨other, ho, heq⟩ := List.mem_map.1 hmem
    cases heq
    exact ⟨ho, rfl⟩
  have hmeets := hcollects.meets h.sound.1
  refine ⟨signature, substitution, hsignature, (finish_exprTypes s use).trans ht,
    fun param hp => ?_, fun param written span hr => ?_, fun param traits span hr => ?_⟩
  · obtain ⟨type, htype, -⟩ := hadmits (param, program.declName param)
      (hcollects.params_eq ▸ List.mem_map.2 ⟨param, hp, rfl⟩)
    exact ⟨type, htype⟩
  · obtain ⟨id, required, hp, hmeaning, hequal⟩ := hmeets _ hr
    obtain ⟨type, htype, hrequired⟩ := hadmits _ (Generics.mem_of_paramNamed? hp)
    obtain ⟨hmem, hname⟩ := hparam hp
    exact ⟨id, hmem, required, hname, hcollects.scope_eq ▸ hmeaning, hrequired required hequal ▸ htype⟩
  · obtain ⟨id, hp, htraits⟩ := hmeets _ hr
    obtain ⟨hmem, hname⟩ := hparam hp
    refine ⟨id, hmem, hname, fun trait ht => ?_⟩
    obtain ⟨decl, hdecl, -⟩ := htraits trait ht
    exact ⟨decl, hcollects.scope_eq ▸ hdecl⟩

/-- A program that names a function with a bound and an equation in its where clause. -/
def bounded : List SourceFile :=
  [⟨"a", "trait T { fun f(); } type A {} fun g<P, Q>(x: P, y: Q) where P: T, Q == Int { x.f(); } fun main() { g(A(), 1); }"⟩]

lemma run_bounded : (checked? bounded "main" {}).any fun (program, good, s) =>
    good && (program.tree.expr? 12 == some ⟨.name "g", ⟨⟨100, "a"⟩, ⟨101, "a"⟩⟩⟩ &&
      (program.valueNamed 12 "g" == some 11 && ((program.tree.decl? 11).any (fun decl =>
      decl.kind.isGeneric) && (s.signatures[11]? == some ⟨[.param 3 "P", .param 4 "Q"], .unit⟩ &&
          (s.exprType? 12 == some (.function [.product 2 "A", .int] .unit) && ((s.generics[11]?).any
            (fun found => found.any fun generics => generics.bounds 3 == [.trait 1 "T"]) &&
              (s.conformances[2]?).any List.isEmpty)))))) := by
  decide +kernel

theorem equations_hold_bounded : ∃ program s function place, Checked bounded "main"
    {} program true s ∧ program.tree.expr? 12 = some ⟨.name "g", ⟨⟨100, "a"⟩, ⟨101, "a"⟩⟩⟩ ∧
    program.valueNamed 12 "g" = some 11 ∧ program.tree.decl? 11 = some ⟨.function function, place⟩ ∧
    function.genericParams ≠ [] ∧ ∃ signature substitution, s.signatures[11]? = some signature ∧
      s.finish.exprTypes[12]? = some (signature.toTy.substitute substitution) ∧
      (∀ param ∈ function.genericParams, ∃ type, substitution[param]? = some type) ∧
      (∀ param written span, .equality param written span ∈ function.whereClause →
        ∃ id ∈ function.genericParams, ∃ type, program.declName id = param ∧
          program.meaning 11 written = some type ∧ substitution[id]? = some type) ∧
      ∀ param traits span, .conformance param traits span ∈ function.whereClause →
        ∃ id ∈ function.genericParams, program.declName id = param ∧ ∀ trait ∈ traits, ∃ decl,
          program.trait? trait.name 11 = some decl := by
  obtain ⟨program, good, s, hchecked, htest⟩ := Checked.exists_of_any run_bounded
  simp only [Bool.and_eq_true, beq_iff_eq, Option.any_eq_true] at htest
  obtain ⟨rfl, huse, hfound, ⟨⟨kind, place⟩, hdecl, hgeneric⟩, -⟩ := htest
  cases kind with
  | function function =>
    have hparams : function.genericParams ≠ [] := by simpa [DeclKind.isGeneric] using hgeneric
    exact ⟨program, s, function, place, hchecked, huse, hfound, hdecl, hparams,
      hchecked.equations_hold huse hfound hdecl hparams⟩
  | _ => cases hgeneric

/-- The type for a bounded parameter need not conform to anything. -/
theorem unmet_bounded : ∃ program s generics, Checked bounded "main" {} program true s ∧
    program.valueNamed 12 "g" = some 11 ∧ s.generics[11]? = some (some generics) ∧
    generics.bounds 3 = [.trait 1 "T"] ∧ s.signatures[11]? = some ⟨[.param 3 "P", .param 4 "Q"],
    .unit⟩ ∧ s.finish.exprTypes[12]? = some (.function [.product 2 "A", .int] .unit) ∧
    s.conformances[2]? = some [] := by
  obtain ⟨program, good, s, hchecked, htest⟩ := Checked.exists_of_any run_bounded
  simp only [Bool.and_eq_true, beq_iff_eq, Option.any_eq_true] at htest
  obtain ⟨rfl, -, hfound, -, hsignature, htype, ⟨_, hgenerics, generics, rfl, hbounds⟩, list, hlist, hnone⟩ := htest
  rw [List.isEmpty_iff] at hnone
  exact ⟨program, s, generics, hchecked, hfound, hgenerics, hbounds, hsignature,
    (finish_exprTypes s 12).trans htype, hnone ▸ hlist⟩

end Check

end TraitLang
