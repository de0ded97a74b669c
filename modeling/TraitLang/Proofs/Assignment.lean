import TraitLang.Proofs.Soundness

/-! What programs assign to. A name on the left of an assignment stands for a variable that a `var`
introduces. Nothing is asked of a member but that the value has it: properties that a `let`
introduces can be assigned to through a value, and so can functions. -/
namespace TraitLang

/-- Checking leaves the left sides of assignments as they were. -/
lemma Program.Descends.exists_assign {base program} (hd : Descends base program)
    {id assignee value span} (h : program.tree.expr? id = some ⟨.assign assignee value, span⟩) :
    id < base.tree.size ∧ ∃ initial,
    base.tree.expr? id = some ⟨.assign assignee initial, span⟩ := by
  have ha := Tree.expr?_eq_some.1 h
  by_cases hlt : id < base.tree.size
  · obtain ⟨before, hb⟩ := Tree.exists_node? hlt
    refine ⟨hlt, ?_⟩
    cases hd.patched id hlt before _ hb ha with
    | expr hkind =>
      cases hkind with
      | same => exact ⟨value, Tree.expr?_eq_some.2 hb⟩
      | assign hpacks => exact ⟨_, Tree.expr?_eq_some.2 hb⟩
  · obtain ⟨_, _, _, -, hpacked, -⟩ := hd.added id (Nat.not_lt.1 hlt) (Tree.lt_size ha)
    cases h.symm.trans hpacked

namespace Check

variable {files : List SourceFile} {name : String} {program : Program}
  {settings : Settings} {s : State}

/-- After a good verdict, each assignment is to a variable that a `var` introduces or to a member of
a value. -/
theorem Checked.assigns
    (h : Checked files name settings program true s) {id assignee value : ExprId}
    {span : Span} (hassign : s.finish.program.tree.expr? id = some ⟨.assign assignee value, span⟩) :
    (∃ target place var, program.tree.expr? assignee = some ⟨.name target, place⟩ ∧
      program.valueNamed assignee target = some var ∧ program.IntroducedByVar var) ∨
    ∃ owner member place type found, program.tree.expr? assignee = some ⟨.member owner member,
    place⟩ ∧ s.finish.exprTypes[owner]? = some type ∧ s.Member program member type found := by
  obtain ⟨hid, initial, hbase⟩ := h.inv.descends.exists_assign hassign
  have hsound {expr : ExprId} {found : Expr} (he : program.tree.expr? expr = some found) : Sound program [] s expr :=
    h.sound.2 expr (Tree.lt_size (Tree.expr?_eq_some.1 he))
  cases (hsound hbase).meant.assign hbase with
  | name hname hvar =>
    obtain ⟨var, hfound⟩ := (hsound hname).meant.name hname
    exact .inl ⟨_, _, var, hname, hfound, hvar var hfound⟩
  | member hmember =>
    obtain ⟨type, found, htype, hfound⟩ := (hsound hmember).meant.member hmember
    exact .inr ⟨_, _, _, type, found, hmember, (finish_exprTypes s _).trans htype, hfound⟩

/-- A program that assigns to a variable, to a property and to a function. -/
def storing : List SourceFile :=
  [⟨"a", "type A { let x: Int; fun m() {} } fun f(a: A) { var n = 0; n = 1; a.x = n; a.m = a.m; }"⟩]

lemma run_storing : (checked? storing "main" {}).any fun (program, good, s) =>
    good && (s.program.tree.expr? 11 == some ⟨.assign 9 10, ⟨⟨59, "a"⟩, ⟨64, "a"⟩⟩⟩ &&
      (s.program.tree.expr? 15 == some ⟨.assign 13 14, ⟨⟨66, "a"⟩, ⟨73, "a"⟩⟩⟩ &&
      (s.program.tree.expr? 20 == some ⟨.assign 17 19, ⟨⟨75, "a"⟩, ⟨84, "a"⟩⟩⟩ &&
      (program.tree.expr? 9 == some ⟨.name "n", ⟨⟨59, "a"⟩, ⟨60, "a"⟩⟩⟩ &&
      (program.tree.expr? 13 == some ⟨.member 12 "x", ⟨⟨66, "a"⟩, ⟨69, "a"⟩⟩⟩ &&
      (program.tree.expr? 17 == some ⟨.member 16 "m", ⟨⟨75, "a"⟩, ⟨78, "a"⟩⟩⟩ &&
      (s.exprType? 12 == some (.product 4 "A") && (s.exprType? 16 == some (.product 4 "A") &&
      ((productMembers program.tree 4).findSome? (program.memberIn? "x") == some 0 &&
      ((productMembers program.tree 4).findSome? (program.memberIn? "m") == some 3 &&
      (!isAssignable program 0 && program.tree.isFunction 3))))))))))) := by
  decide +kernel

theorem assigns_storing : ∃ program s span place, Checked storing "main" {} program true s ∧
    s.finish.program.tree.expr? 11 = some ⟨.assign 9 10, span⟩ ∧
    program.tree.expr? 9 = some ⟨.name "n", place⟩ ∧
    ∃ var, program.valueNamed 9 "n" = some var ∧ program.IntroducedByVar var := by
  obtain ⟨program, good, s, hchecked, htest⟩ := Checked.exists_of_any run_storing
  simp only [Bool.and_eq_true, beq_iff_eq] at htest
  obtain ⟨rfl, hassign, -, -, hname, -⟩ := htest
  refine ⟨program, s, _, _, hchecked, hassign, hname, ?_⟩
  obtain ⟨target, place, var, hname', hfound⟩ | ⟨owner, member, place, -, -, hmember, -⟩ :=
    hchecked.assigns hassign
  · cases hname.symm.trans hname'
    exact ⟨var, hfound⟩
  · cases hname.symm.trans hmember

/-- Through a value of a product, assignments go to properties that no `var` introduces, and to
functions. -/
theorem constant_storing : ∃ program s, Checked storing "main"
    {} program true s ∧ (∃ span place, s.finish.program.tree.expr? 15 = some ⟨.assign 13 14, span⟩ ∧
      program.tree.expr? 13 = some ⟨.member 12 "x", place⟩ ∧ s.finish.exprTypes[12]? = some
      (.product 4 "A") ∧ s.Member program "x" (.product 4 "A") 0 ∧ ¬program.IntroducedByVar 0) ∧
    ∃ span place, s.finish.program.tree.expr? 20 = some ⟨.assign 17 19, span⟩ ∧
      program.tree.expr? 17 = some ⟨.member 16 "m", place⟩ ∧ s.finish.exprTypes[16]? = some
      (.product 4 "A") ∧ s.Member program "m" (.product 4 "A") 3 ∧ program.tree.isFunction 3 := by
  obtain ⟨program, good, s, hchecked, htest⟩ := Checked.exists_of_any run_storing
  simp only [Bool.and_eq_true, beq_iff_eq, Bool.not_eq_true'] at htest
  obtain ⟨rfl, -, hproperty, hfunction, -, hx, hm, hvalue, hvalue', hfound, hfound', hconstant,
    hisFunction⟩ := htest
  obtain ⟨root, -, hs, -, -⟩ := hchecked.exists_judged
  refine ⟨program,
    s, hchecked, ⟨_, _, hproperty, hx, (finish_exprTypes s 12).trans hvalue, .product hfound, ?_⟩,
    _, _, hfunction, hm, (finish_exprTypes s 16).trans hvalue', .product hfound', hisFunction⟩
  rw [← hs.isAssignable_iff, hconstant]
  decide

end Check

end TraitLang
