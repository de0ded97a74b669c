import TraitLang.Proofs.Paired.Whole
import TraitLang.Proofs.Soundness

/-! What the types at the end may mention, if variables that are still free are rejected. Free
variables are left only inside of values that are complete, and generic parameters are seen only
from inside of their functions, unless the functions expose them. -/
namespace TraitLang

def Ty.mentionsParam (type : Ty) (param : DeclId) : Bool :=
  type.any fun
    | .param other _ => other = param
    | _ => false

lemma Ty.Over.mentionsParam {leaf} (ht : Ty.Traity leaf) {type : Ty} (h : type.Over leaf) {param}
    (hm : type.mentionsParam param) : ∃ name, leaf (.param param name) := by
  obtain ⟨end_, htest, hleaf⟩ := h.of_any ht hm
  cases end_ with
  | param other name => grind
  | _ => cases htest

instance (program : Program) (param function : DeclId) : Decidable (program.ParamOf param function) :=
  decidable_of_iff ((program.tree.decl? function).any fun decl =>
    match decl.kind with
    | .function function => function.genericParams.contains param
    | _ => false) (by
      rcases hd : program.tree.decl? function with _ | ⟨kind, _⟩
      · simp [Program.ParamOf, hd]
      · cases kind <;> simp [Program.ParamOf, hd])

/-- A generic parameter belongs to one function. -/
lemma Program.ParamOf.unique {program : Program} {root} (hr : program.tree.Rooted root) {param function other}
    (h : program.ParamOf param function) (h' : program.ParamOf param other) : function = other := by
  have hchild {function} (h : program.ParamOf param function) : param ∈ program.tree.children function := by
    obtain ⟨_, _, hd, hm⟩ := h
    rw [Tree.children_of_node? (Tree.decl?_eq_some.1 hd)]
    simp [Node.children, DeclKind.children, hm]
  exact hr.parent_unique (hchild h) (hchild h')

namespace Check

variable {files : List SourceFile} {name : String} {program : Program} {settings : Settings}
  {good : Bool} {s : State}

/-- At the end all types are where they belong. -/
lemma Checked.exists_housed (h : Checked files name settings program good s) :
    ∃ root homes, program.Surveyed root ∧ Housed program settings (fun _ => False) homes s := by
  obtain ⟨_, hread, hprogram⟩ := h.read
  obtain ⟨_, root, hprogram', hs⟩ := exists_surveyed hread
  cases hprogram.symm.trans hprogram'
  obtain ⟨_, _, homes, hhoused, hall⟩ := TraitLang.Check.exists_housed hs settings
  have hrun := h.run
  rw [checkProgram_new hs settings, hall _ (faithful_answerWithin program)] at hrun
  cases hrun
  exact ⟨root, homes, hs, hhoused⟩

/-! ### Free variables -/

/-- Variables are left free only in the types of the parts of values, and of the variables of match
cases. -/
theorem Checked.hasVars_eq_false (h : Checked files name settings program good s)
    (hr : settings.freePolicy = .reject) : (∀ (id : Nat) type, s.finish.declTypes[id]? = some type →
    ¬program.tree.CaseVar id → type.hasVars = false) ∧ ∀ (id : Nat) type,
      s.finish.exprTypes[id]? = some type → ¬program.tree.Part id → type.hasVars = false := by
  obtain ⟨root, homes, -, hhoused⟩ := h.exists_housed
  refine ⟨fun id type ht hcase => ?_, fun id type ht hpart => ?_⟩
  · rw [finish_declTypes] at ht
    obtain ⟨stored, hstored, rfl⟩ := Option.map_eq_some_iff.1 ht
    exact (hhoused.resolve_ground ((hhoused.declTypes hstored).suits.2 hcase)).hasVars hr
  · rw [finish_exprTypes] at ht
    obtain ⟨stored, hstored, rfl⟩ := Option.map_eq_some_iff.1 ht
    exact (hhoused.exprTypes hstored).2 hr hpart not_false

/-- A match on a value whose type is never known. -/
def guessing : List SourceFile :=
  [⟨"a", "fun mk<T>() -> T { return mk(); } fun main() { match mk() { case let z { 1 } }; }"⟩]

lemma run_guessing : (checked? guessing "main" {}).any fun (_, good, s) =>
    good && (s.exprType? 7 == some (.var 0) && s.declType? 8 == some (.var 0)) := by
  decide +kernel

theorem hasVars_eq_false_guessing : ∃ program s, Checked guessing "main" {} program true s ∧
    (∀ (id : Nat) type, s.finish.declTypes[id]? = some type → ¬program.tree.CaseVar id →
    type.hasVars = false) ∧ ∀ (id : Nat) type, s.finish.exprTypes[id]? = some type →
    ¬program.tree.Part id → type.hasVars = false := by
  obtain ⟨program, good, s, hchecked, htest⟩ := Checked.exists_of_any run_guessing
  obtain ⟨rfl, -⟩ := Bool.and_eq_true_iff.1 htest
  exact ⟨program, s, hchecked, hchecked.hasVars_eq_false rfl⟩

/-- A good verdict does not mean that no variables are left. -/
theorem free_guessing : ∃ program s, Checked guessing "main" {} program true s ∧
    s.finish.exprTypes[7]? = some (.var 0) ∧ s.finish.declTypes[8]? = some (.var 0) := by
  obtain ⟨program, good, s, hchecked, htest⟩ := Checked.exists_of_any run_guessing
  obtain ⟨rfl, htypes⟩ := Bool.and_eq_true_iff.1 htest
  obtain ⟨hexpr, hdecl⟩ := Bool.and_eq_true_iff.1 htypes
  refine ⟨program, s, hchecked, ?_, ?_⟩
  · rw [finish_exprTypes]
    exact eq_of_beq hexpr
  · rw [finish_declTypes]
    exact eq_of_beq hdecl

/-! ### Generic parameters -/

/-- The type of an expression mentions the generic parameters of the functions around it only, and
those that are exposed: members of products and traits expose their own, and so does a function that
requires another of its parameters to be a type with them. -/
theorem Checked.isWithin_or_exposed
    (h : Checked files name settings program good s) (hr : settings.freePolicy = .reject)
    {id : Nat} {type : Ty} (ht : s.finish.exprTypes[id]? = some type) {param function : Nat}
    (hp : program.ParamOf param function) (hm : type.mentionsParam param) : (∃ scope,
    program.scopeOf id = some scope ∧ program.isWithin scope function) ∨ program.Exposed param := by
  obtain ⟨root, homes, hs, hhoused⟩ := h.exists_housed
  rw [finish_exprTypes] at ht
  obtain ⟨stored, hstored, rfl⟩ := Option.map_eq_some_iff.1 ht
  obtain ⟨name, hend⟩ := Ty.Over.mentionsParam (traity_endAt _ _) (hhoused.resolve (hhoused.exprTypes hstored).1) hm
  rcases hend hr with hexposed | hvisible
  · exact .inr hexposed
  · cases hscope : program.scopeOf id with
    | none =>
      rw [Program.level, hscope] at hvisible
      exact absurd hvisible Program.not_visible_none
    | some scope =>
      rw [Program.Surveyed.level_of_scopeOf hscope, hs.visible_iff (hs.le_root_of_scopeOf hscope)] at hvisible
      obtain ⟨other, hchain, hother⟩ := hvisible
      obtain rfl := hp.unique hs.rooted hother
      exact .inl ⟨scope, rfl, by simpa [Program.isWithin] using hchain⟩

/-- A method with a generic parameter that is used from elsewhere. -/
def borrowing : List SourceFile :=
  [⟨"a", "type A { fun m<T>(x: T) -> T { return x; } } fun main() { A().m; }"⟩]

lemma run_borrowing : (checked? borrowing "main" {}).any fun (program, good, s) =>
    good && (decide (program.ParamOf 0 5) && (s.exprType? 9 == some (.function [.param 0 "T"]
      (.param 0 "T")) && (program.scopeOf 9 == some 10 && !program.isWithin 10 5))) := by
  decide +kernel

theorem isWithin_or_exposed_borrowing : ∃ program s type, Checked borrowing "main" {} program true s ∧
    s.finish.exprTypes[9]? = some type ∧ program.ParamOf 0 5 ∧ type.mentionsParam 0 ∧
    ((∃ scope, program.scopeOf 9 = some scope ∧ program.isWithin scope 5) ∨ program.Exposed 0) := by
  obtain ⟨program, good, s, hchecked, htest⟩ := Checked.exists_of_any run_borrowing
  obtain ⟨rfl, hrest⟩ := Bool.and_eq_true_iff.1 htest
  obtain ⟨hparam, hrest⟩ := Bool.and_eq_true_iff.1 hrest
  obtain ⟨htype, -⟩ := Bool.and_eq_true_iff.1 hrest
  have htype := (finish_exprTypes s 9).trans (eq_of_beq htype)
  have hparam := of_decide_eq_true hparam
  exact ⟨program, s, _, hchecked, htype, hparam, by decide,
    hchecked.isWithin_or_exposed rfl htype hparam (by decide)⟩

/-- The parameter of a method is seen from outside of the method. -/
theorem outside_borrowing : ∃ program s, Checked borrowing "main" {} program true s ∧
    program.ParamOf 0 5 ∧ s.finish.exprTypes[9]? = some (.function [.param 0 "T"] (.param 0 "T")) ∧
    ¬∃ scope, program.scopeOf 9 = some scope ∧ program.isWithin scope 5 := by
  obtain ⟨program, good, s, hchecked, htest⟩ := Checked.exists_of_any run_borrowing
  obtain ⟨rfl, hrest⟩ := Bool.and_eq_true_iff.1 htest
  obtain ⟨hparam, hrest⟩ := Bool.and_eq_true_iff.1 hrest
  obtain ⟨htype, hrest⟩ := Bool.and_eq_true_iff.1 hrest
  obtain ⟨hscope, hout⟩ := Bool.and_eq_true_iff.1 hrest
  refine ⟨program, s, hchecked, of_decide_eq_true hparam, (finish_exprTypes s 9).trans (eq_of_beq htype), ?_⟩
  rintro ⟨scope, hs, hin⟩
  cases (eq_of_beq hscope).symm.trans hs
  simp [hin] at hout

end Check

end TraitLang
