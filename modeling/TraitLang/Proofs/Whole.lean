import TraitLang.Proofs.Verdicts

/-! Whole programs. Checking starts with nothing recorded and ends with a verdict on the module that
all else stands in. If that is good then every node was checked and found good, bindings
included. -/
namespace TraitLang.Check

open State TraitLang.Tree Query

variable {base : Program} {root : Nat}

/-! ### The start -/

section

variable (settings : Settings)

lemma fresh_new (base : Program) (region : Region) : FreshIn base region (.new base settings) :=
  ⟨fun _ _ => ⟨rfl, by simp [new], fun _ => by simp [new]⟩, fun _ _ => by simp [new]⟩

lemma inv_new (hr : base.tree.Rooted root) : Inv base (.new base settings) where
  descends := .refl base
  lawful := by simp [new, Solver.empty, Solver.Lawful]
  solver := by simp [new, Solver.empty]
  declTypes := fun h => by simp [new] at h
  exprTypes := fun h => by simp [new] at h
  signatures := fun h => by simp [new] at h
  generics := fun h => by simp [new] at h
  returns := fun h => by simp [new] at h
  untouched := fun _ _ => fresh_new settings base _
  typed := fun _ h => by simp [new] at h
  conformances := fun h => by simp [new] at h
  packed := fun h => ((hr.below (expr?_eq_some.1 h)).1).elim
  balanced := balanced_new base settings

lemma ready_new (hr : base.tree.Rooted root) : Ready base (.new base settings) root := by
  have houtside {outer} (hlt : outer < base.tree.size) : ¬base.tree.Encloses outer root := by
    rintro ⟨-, hout⟩
    have := hr.size_eq
    omega
  refine ⟨inv_new settings hr, fresh_new settings base _, fun binding hb => ?_, fun case node hc hin => ?_⟩
  · obtain ⟨hbinding, hin, -⟩ := owner_eq_some.1 hb
    exact absurd hin (houtside (isBinding_iff.1 hbinding).lt_size)
  · exact absurd hin (houtside (lt_size (case?_eq_some.1 hc)))

/-- The depth that questions are answered to is enough. -/
lemma affords_new (base : Program) : Affords base (.new base settings) 0 (depthBound base) := by
  have hfilter (p : Nat → Prop) [DecidablePred p] : ((Finset.range base.tree.size).filter p).card ≤ base.tree.size :=
    (Finset.card_filter_le _ _).trans (Finset.card_range _).le
  have hpending : (new base settings).pending base ≤ base.tree.size + base.tree.size :=
    Nat.add_le_add (hfilter _) (hfilter _)
  exact Nat.mul_lt_mul_of_lt_of_le (show _ < 2 * base.tree.size + 2 by omega)
    (show _ ≤ 2 * base.tree.size + 4 by omega) (Nat.succ_pos _)

/-- Checking a program comes to an end, with the verdict on its module. -/
lemma ensures_checkProgram (hs : base.Surveyed root) : Ensures checkProgram (.new base settings) fun good s' =>
      ∃ verdict, Judged base [] (.new base settings) s' root verdict ∧ good = (verdict && s'.diagnostics.isEmpty) := by
  have hmodule : base.tree.Declares (fun kind => kind.isItem || kind.isModule) root :=
    hs.rooted.declares.imp fun decl hd => ⟨hd.1, by simp [hd.2]⟩
  obtain ⟨depth, hdepth⟩ : ∃ depth, depthBound base = depth + 1 :=
    Nat.exists_eq_succ_of_ne_zero (Nat.ne_of_gt ((Nat.zero_le _).trans_lt (affords_new settings base)))
  have hafford := affords_new settings base
  rw [hdepth] at hafford
  have hverdict : Ensures (answer (.verdict root)) (.new base settings) fun good s' =>
      Judged base [] (.new base settings) s' root good := by
    have hanswer : answer (.verdict root) (.new base settings) =
        checkDeclaration (answerWithin depth) root (.new base settings) := by
      show answerWithin (depthBound base) (.verdict root) (.new base settings) = _
      rw [hdepth]
      rfl
    unfold Ensures
    rw [hanswer]
    exact ensures_checkDeclaration hs (answers_answerWithin hs depth) (ready_new settings hs.rooted) hmodule hafford
  have hmodules : (new base settings).program.tree.modules = [root] := hs.rooted.modules_eq
  unfold checkProgram
  simp only [tree, bind_assoc, pure_bind, ensures_get_bind, hmodules, verdicts]
  exact hverdict.bind fun verdict s' h => ensures_get_bind.2 (ensures_pure.2 ⟨verdict, h, by simp⟩)

end

/-! ### The end -/

section

variable (hr : base.tree.Rooted root) {start s : State}

include hr

/-- After a good verdict on the module all nodes are good, since those in bindings were checked with
them. -/
lemma Judged.sound (h : Judged base [] start s root true) (hdiag : s.diagnostics = []) {id}
    (hid : id < base.tree.size) : Sound base [] s id := by
  have hsize := hr.size_eq
  have hbinding : base.tree.isBinding root = false := isBinding_of_declares hr.declares fun _ => rfl
  have hdone := (h.cleared hdiag rfl).1 hbinding
  have hunit : base.tree.unit root = none := by
    rw [unit_of_not_binding hbinding, owner_eq_none]
    rintro other hother ⟨-, hout⟩
    have := (isBinding_iff.1 hother).lt_size
    omega
  -- by induction from the root downwards, a binding being below the node that vouches for its type
  have hall : ∀ gap id, id + gap = root → Sound base [] s id ∧ (base.tree.isBinding id → Done base [] s id) := by
    intro gap
    induction gap using Nat.strong_induction_on with
    | _ gap ih =>
      intro id hgap
      rcases Nat.eq_zero_or_pos gap with rfl | hpos
      · obtain rfl : id = root := hgap
        exact ⟨hdone id (hr.inside_self (by omega)) rfl, fun hb => by simp [hbinding] at hb⟩
      cases hb : base.tree.isBinding id with
      | true =>
        obtain ⟨parent, hparent⟩ := hr.exists_parent (show id < root by omega)
        obtain ⟨hsize, hlt, -, -⟩ := hr.child hparent
        obtain ⟨_, ht, hgood⟩ := (ih (root - parent) (by omega) parent (by omega)).1.bindings id hparent hb
        have hdone := (h.step.inv.typed hb ht).2.2 hdiag hgood
        exact ⟨hdone id (hr.inside_self (hlt.trans hsize)) rfl, fun _ => hdone⟩
      | false =>
        refine ⟨?_, nofun⟩
        cases hu : base.tree.unit id with
        | none => exact hdone id ⟨hr.first_root ▸ Nat.zero_le id, by omega⟩ (hu.trans hunit.symm)
        | some binding =>
          have hisBinding := isBinding_of_unit hu
          rw [unit_of_not_binding hb] at hu
          obtain ⟨-, hin, -⟩ := owner_eq_some.1 hu
          have hbound := (isBinding_iff.1 hisBinding).lt_size
          have hlater : id < binding := hin.2
          refine (ih (root - binding) (by omega) binding (by omega)).2 hisBinding id ⟨hin.1, hlater.le⟩ ?_
          rw [unit_of_not_binding hb, hu, unit_of_binding hisBinding]
  exact (hall (root - id) id (by omega)).1

end

end TraitLang.Check
