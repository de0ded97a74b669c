import TraitLang.Proofs.Completion
import TraitLang.Proofs.SourceOrder

/-! Return records. After checking, the records of a function are those of the return statements
that leave it, each once, in the order of the text, with the type that the function returns. -/
namespace TraitLang

open List

namespace Tree

instance (tree : Tree) (outer inner : Nat) : Decidable (tree.Encloses outer inner) :=
  inferInstanceAs (Decidable (_ ∧ _))

def isReturn (tree : Tree) (id : NodeId) : Bool :=
  match tree.stmt? id with
  | some ⟨.ret _, _⟩ => true
  | _ => false

/-- The innermost function around a node. What encloses a node has a higher number the further out
it is. -/
def innermostFunction? (tree : Tree) (id : NodeId) : Option DeclId :=
  (range tree.size).find? fun function => tree.isFunction function && decide (tree.Encloses function id)

variable {tree : Tree}

lemma isReturn_iff {id} : tree.isReturn id ↔ tree.IsReturn id := by
  unfold isReturn
  constructor
  · intro h
    split at h
    next value span hn => exact ⟨value, span, hn⟩
    next => cases h
  · rintro ⟨value, span, hn⟩
    rw [hn]

lemma innermostFunction?_eq_some {function id} :
    tree.innermostFunction? id = some function ↔ tree.InFunction function id := by
  simp only [innermostFunction?, find?_range_eq_some, Bool.and_eq_true, decide_eq_true_eq, isFunction_iff]
  constructor
  · rintro ⟨⟨hf, he⟩, -, hleast⟩
    refine ⟨hf, he, fun other ho hother => Nat.le_of_not_lt fun hlt => ?_⟩
    simpa [isFunction_iff.2 ho, hother] using hleast other hlt
  · intro h
    refine ⟨⟨h.declares, h.encloses⟩, mem_range.2 h.declares.lt_size, fun other hlt => ?_⟩
    rw [Bool.not_eq_true', ← Bool.not_eq_true, Bool.and_eq_true, decide_eq_true_eq, isFunction_iff]
    exact fun hboth => absurd (h.least other hboth.1 hboth.2) (Nat.not_le_of_lt hlt)

/-- In a listing each node stands before those that have higher numbers, and before those below
it. -/
lemma Forest.pairwise_lists {first last roots listing} (h : Forest tree first roots last)
    (hl : tree.Lists roots listing) : listing.Pairwise fun (x y : Nat) => x < y ∨ tree.Encloses x y := by
  induction h generalizing listing with
  | nil =>
    cases hl
    exact .nil
  | @cons first root _ _ _ hn _ hc hr ih1 ih2 =>
    cases hl with
    | @cons _ _ below rest _ hn' hbelow hrest =>
      cases hn.symm.trans hn'
      have hin (id : Nat) (hid : id ∈ below) : first ≤ id ∧ id < root := by
        have hmem := (hc.perm_of_lists hbelow).mem_iff.1 hid
        rw [mem_range'_1] at hmem
        omega
      have hafter (id : Nat) (hid : id ∈ rest) : root < id := by
        have hmem := (hr.perm_of_lists hrest).mem_iff.1 hid
        rw [mem_range'_1] at hmem
        omega
      refine pairwise_cons.2 ⟨fun id hid => ?_, pairwise_append.2 ⟨ih1 hbelow, ih2 hrest, fun x hx y hy => ?_⟩⟩
      · rcases mem_append.1 hid with hid | hid
        · exact .inr ⟨(first_eq hn hc).trans_le (hin id hid).1, (hin id hid).2⟩
        · exact .inl (hafter id hid)
      · exact .inl ((hin x hx).2.trans (hafter y hy))

/-- Return statements do not stand inside of each other, so they come in the order of their
numbers. -/
lemma Rooted.pairwise_returns {root} (h : tree.Rooted root) {test} (htest : ∀ id, test id →
    tree.IsReturn id) : (tree.preorder.filter test).Pairwise fun (x y : Nat) => x < y := by
  have hlists := h.lists_preorder
  rw [h.modules_eq] at hlists
  refine Pairwise.imp_of_mem ?_ ((h.forest.pairwise_lists hlists).filter _)
  rintro x y hx hy (hlt | hin)
  · exact hlt
  · obtain ⟨_, _, hn⟩ := htest x (mem_filter.1 hx).2
    obtain ⟨child, hc, hi⟩ := h.exists_child (Tree.lt_size (stmt?_eq_some.1 hn)) hin
    rw [children_of_node? (stmt?_eq_some.1 hn)] at hc
    have hvalue : tree.HasExpr child := (h.below (stmt?_eq_some.1 hn)).1 child (Option.mem_toList.1 hc)
    exact absurd (h.inner_of_inside (.inl hvalue) hi) (Rooted.not_inner_of_stmt (htest y (mem_filter.1 hy).2).hasStmt)

end Tree

namespace Check

variable {files : List SourceFile} {name : String} {settings : Settings} {program : Program}
  {good : Bool} {s : State}

lemma Checked.collected (h : Checked files name settings program good s) {function}
    (hf : program.tree.Declares DeclKind.isFunction function) :
    Collected program s function (fun _ => True) (s.returns.getD function []) := by
  obtain ⟨_, _, hs, hjudged, -⟩ := h.exists_judged
  have hlt := hf.lt_size
  have hsize := hs.rooted.size_eq
  exact (hjudged.accounted function ⟨hs.rooted.first_root ▸ Nat.zero_le _, by omega⟩).returns hf

/-- After checking, the records of a function belong to the return statements that have no other
function around them that is further inside, one record to each, in the order in which the program
is read. They name the function and have the type that it returns: the output of its signature, as
it is read inside of the function if it mentions parameters, or an error if the constraints on the
parameters cannot be met. A function without a body has no records. -/
theorem Checked.return_records_exact
    (h : Checked files name settings program good s) {function : DeclId} {decl : FunctionDecl}
    {span : Span} (hd : program.tree.decl? function = some ⟨.function decl, span⟩) :
    ((s.finish.returns.getD function []).map ReturnRecord.stmt = program.tree.preorder.filter
    fun id =>
      program.tree.isReturn id && program.tree.innermostFunction? id == some function) ∧
    (∀ file, files = [file] → ((s.finish.returns.getD function []).map ReturnRecord.stmt).Pairwise fun x y =>
      program.tree.offset x ≤ program.tree.offset y) ∧
    (∀ record ∈ s.finish.returns.getD function [], record.function = function ∧
      s.returnType? function = some record.expected) ∧
    (decl.body = none → s.finish.returns.getD function [] = []) := by
  obtain ⟨root, -, hs, -, -⟩ := h.exists_judged
  have hcollected := h.collected ⟨_, hd, rfl⟩
  have htest (id : NodeId) : (program.tree.isReturn id && program.tree.innermostFunction? id == some function) ↔
      program.tree.IsReturn id ∧ program.tree.InFunction function id := by
    rw [Bool.and_eq_true, beq_iff_eq, Tree.isReturn_iff, Tree.innermostFunction?_eq_some]
  have hrecords : (s.returns.getD function []).map ReturnRecord.stmt = program.tree.preorder.filter fun id =>
      program.tree.isReturn id && program.tree.innermostFunction? id == some function := by
    have hsorted := hs.rooted.pairwise_returns fun id hid => ((htest id).1 hid).1
    refine Perm.eq_of_pairwise (fun x y _ _ hxy hyx => ?_) hcollected.ordered hsorted ?_
    · exact absurd hxy (Nat.lt_asymm hyx)
    · refine (perm_ext_iff_of_nodup (hcollected.ordered.imp Nat.ne_of_lt) (hsorted.imp Nat.ne_of_lt)).2 fun id => ?_
      rw [hcollected.mem_iff, mem_filter, htest, hs.rooted.perm_preorder.mem_iff, mem_range]
      have hlt : program.tree.InFunction function id → id < program.tree.size :=
        fun hin => hin.encloses.2.trans hin.declares.lt_size
      tauto
  refine ⟨hrecords, ?_, hcollected.owned, fun hbody => ?_⟩
  · rintro file rfl
    obtain ⟨tree, hread, hprogram⟩ := h.read
    obtain ⟨found, hfound, htree, -⟩ := Program.exists_ofTree (Tree.rooted_ofFiles hread).choose_spec
    cases hprogram.symm.trans hfound
    subst htree
    rw [show s.finish.returns = s.returns from rfl, hrecords]
    exact (Tree.sorted_ofFiles hread).filter _
  · rw [← map_eq_nil_iff, show s.finish.returns = s.returns from rfl, eq_nil_iff_forall_not_mem]
    intro id hid
    obtain ⟨hreturn, hin, -⟩ := (hcollected.mem_iff id).1 hid
    obtain ⟨body, hb, -⟩ := hin.inside_body hs.rooted hd hreturn
    simp [hbody] at hb

/-- Return statements in a function and in one inside of it, and one with constraints that cannot be
met. -/
def manyReturns : List SourceFile :=
  [⟨"a", "fun f<T>(x: T) -> T \x7b fun g() -> Int \x7b do \x7b return 1; \x7d while true; return; \x7d if true \x7b return x; \x7d else \x7b while true \x7b return x; \x7d \x7d return x; \x7d fun h<T>() -> T where T == Int, T == Bool \x7b return 1; \x7d"⟩]

lemma run_manyReturns : (checked? manyReturns "main" {}).any fun (program, good, s) => !good &&
    (program.tree.isFunction 24 && (program.tree.isFunction 29 && ((program.tree.preorder.filter fun id =>
      program.tree.isReturn id && program.tree.innermostFunction? id == some 24) == [12, 16, 22] &&
      s.returnType? 29 == some .error))) := by
  decide +kernel

theorem return_records_exact_manyReturns : ∃ program s, Checked manyReturns "main"
    {} program false s ∧ (s.finish.returns.getD 24 []).map ReturnRecord.stmt = [12, 16, 22] ∧
    ∀ record ∈ s.finish.returns.getD 29 [], record.function = 29 ∧ record.expected = .error := by
  obtain ⟨program, good, s, hchecked, htest⟩ := Checked.exists_of_any run_manyReturns
  simp only [Bool.and_eq_true, Bool.not_eq_true', beq_iff_eq, Tree.isFunction_iff] at htest
  obtain ⟨rfl, ⟨⟨kind, span⟩, hd, hkind⟩, ⟨⟨kind', span'⟩, hd', hkind'⟩, hreturns, htype⟩ := htest
  cases kind <;> cases hkind
  cases kind' <;> cases hkind'
  refine ⟨program, s, hchecked, ?_, fun record hrecord => ?_⟩
  · exact (hchecked.return_records_exact hd).1.trans hreturns
  · obtain ⟨-, -, howned, -⟩ := hchecked.return_records_exact hd'
    obtain ⟨hfunction, hexpected⟩ := howned record hrecord
    exact ⟨hfunction, (Option.some.inj (htype.symm.trans hexpected)).symm⟩

end Check

end TraitLang
