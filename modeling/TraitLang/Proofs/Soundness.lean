import TraitLang.Proofs.Completion

/-! Soundness. When checking finds nothing wrong, the types that it gives out satisfy the typing
rules, in the tree that it gives out. -/
namespace TraitLang.Check

/-- The types that checking gives out, for names as they were looked up in a program and generic
functions with the instances that they have. -/
def Findings.typing (program : Program) (instances : DeclId → Ty → Prop) (findings : Findings) : Typing where
  tree := findings.program.tree
  program := program
  declType id := findings.declTypes[id]?
  exprType id := findings.exprTypes[id]?
  returnType id type := ∃ function, ⟨id, function, type⟩ ∈ findings.returns.getD function []
  instanceOf := instances

@[simp]
lemma finish_exprTypes (s : State) (id : Nat) : s.finish.exprTypes[id]? = s.exprType? id :=
  Std.TreeMap.getElem?_map

@[simp]
lemma finish_declTypes (s : State) (id : Nat) : s.finish.declTypes[id]? = s.declType? id :=
  Std.TreeMap.getElem?_map

section

variable {base : Program} {root : Nat} {files : List SourceFile} {name : String} {program : Program}
  {settings : Settings} {s : State} {id : Nat}

/-- The rule of a node that is good holds for what checking gives out. Without faults there are no
error types, so that it is not only the lax rule that holds. -/
lemma Sound.finish (hi : Inv base s) (hf : ¬s.Faulty base) (h : Sound base [] s id) :
    (s.finish.typing base s.Instance).Rule False id := by
  have hgood {type} (ht : Known base s type) : type.hasErrors = false := by
    by_contra herror
    exact hf (ht.faulty (by simpa using herror))
  have hreturned (type : Ty) : (s.typing base []).returnType id type →
      (s.finish.typing base s.Instance).returnType id type := by
    rintro ⟨function, expected, hrecord, rfl⟩
    have hrecord := hrecord.resolve_left List.not_mem_nil
    have hplain : s.solver.resolve expected = expected := (hi.returns hrecord).resolveBy s.solver.bindings
    exact ⟨function, hplain.symm ▸ hrecord⟩
  have hclean : (s.typing base []).Clean id := by
    refine ⟨fun slot type ht => hgood (hi.known (.inr (.inl ⟨slot, ht⟩))), fun decl type ht => hgood
      (hi.known (.inl ⟨decl, ht⟩)), fun type ht => ?_, fun witness traits span he actual ha => ?_⟩
    · obtain ⟨_, hrecord⟩ := hreturned type ht
      exact hgood (hi.returns hrecord).known
    · obtain ⟨product, name, _, hproduct, -⟩ := (hi.packed he).product hf
      exact ⟨product, name, Option.some.inj (ha.symm.trans hproduct)⟩
  exact Typing.Rule.refine (.inr hclean) [] (show (s.finish.typing base s.Instance).program =
    (s.typing base []).program from rfl) rfl (fun type ht =>
    (finish_exprTypes s id).trans ht) (fun slot _ type ht => (finish_exprTypes s slot).trans ht)
    (fun _ _ case hc => ⟨hc, fun type ht => (finish_exprTypes s case.body).trans ht⟩)
    (fun decl type ht => (finish_declTypes s decl).trans ht) (fun _ _ ht => ht) hreturned h.rule

/-- Packed values have the type that they were packed into. -/
lemma Inv.rule_packed (hi : Inv base s) (hf : ¬s.Faulty base) {witness traits span}
    (he : s.program.tree.expr? id = some ⟨.existential witness traits, span⟩) :
    (s.finish.typing base s.Instance).Rule False id := by
  obtain ⟨⟨types, ht, htraits, hdecls⟩, -, hproduct⟩ := hi.packed he
  obtain ⟨product, name, _, hw, -⟩ := hproduct hf
  exact ⟨_, Tree.expr?_eq_some.1 he, _, (finish_exprTypes s id).trans ht, ⟨types, rfl, htraits,
    hdecls⟩, _, (finish_exprTypes s witness).trans hw, fun _ => ⟨product, name, rfl⟩⟩

/-- After a good verdict all expressions, variables, parameters and bindings have types, and all
nodes of the tree that checking leaves keep the typing rules. -/
theorem Checked.wellTyped (h : Checked files name settings program true s) :
    (∀ id, program.tree.HasExpr id → ∃ type, s.finish.exprTypes[id]? = some type) ∧
      (∀ id, program.tree.Declares (fun kind => kind.isVar || kind.isParam || kind.isBinding) id →
        ∃ type, s.finish.declTypes[id]? = some type) ∧
      ∀ id < s.finish.program.tree.size, (s.finish.typing program s.Instance).Rule False id := by
  have hi := h.inv
  have hrule (id : Nat) (hid : id < program.tree.size) : (s.finish.typing program s.Instance).Rule False id :=
    (h.sound.2 id hid).finish hi h.not_faulty
  refine ⟨?_, ?_, fun id hid => ?_⟩
  · rintro id ⟨expr, he⟩
    obtain ⟨node, hn, hnode⟩ := hrule id (Tree.lt_size (Tree.expr?_eq_some.1 he))
    obtain ⟨kind, hkind⟩ := hi.descends.exists_expr he
    cases hn.symm.trans (Tree.expr?_eq_some.1 hkind)
    exact hnode.imp fun _ ht => ht.1
  · intro id hd
    obtain ⟨node, hn, hnode⟩ := hrule id hd.lt_size
    obtain ⟨⟨kind, span⟩, hd, hk⟩ := hd
    cases kind with
    | var _ | param _ _ =>
      cases hn.symm.trans (Tree.decl?_eq_some.1 (hi.descends.decl?_of_not_binding hd rfl))
      exact hnode
    | binding decl =>
      obtain ⟨slot, hcurrent⟩ := exists_binding hi.descends hd
      cases hn.symm.trans (Tree.decl?_eq_some.1 hcurrent)
      exact hnode.imp fun _ ht => ht.1
    | _ => cases hk
  · by_cases hlt : id < program.tree.size
    · exact hrule id hlt
    · obtain ⟨witness, traits, expr, -, he, -⟩ := hi.descends.added id (Nat.not_lt.1 hlt) hid
      exact hi.rule_packed h.not_faulty he

/-- A program that packs a value for a call. -/
def packing : List SourceFile :=
  [⟨"a", "trait T { fun f(); } type A: T { fun f() {} } fun g(x: any T) { x.f(); } fun main() { g(A()); }"⟩]

lemma run_packing : (checked? packing "main" {}).any fun (program, good, s) =>
    good && (s.program.tree.expr? 18 == some ⟨.existential 13 [1], ⟨⟨88, "a"⟩, ⟨91, "a"⟩⟩⟩ &&
      (s.exprType? 13 == some (.product 4 "A") && (s.program.requirement? [1] "f" == .ok (some 0) &&
        (List.range program.tree.size).all fun id => (program.tree.case? id).isNone))) := by
  decide +kernel

theorem wellTyped_packing : ∃ program s, Checked packing "main" {} program true s ∧
    (∀ id, program.tree.HasExpr id → ∃ type, s.finish.exprTypes[id]? = some type) ∧
    (∀ id, program.tree.Declares (fun kind => kind.isVar || kind.isParam || kind.isBinding) id →
      ∃ type, s.finish.declTypes[id]? = some type) ∧
    ∀ id < s.finish.program.tree.size, (s.finish.typing program s.Instance).Rule False id := by
  obtain ⟨program, good, s, hchecked, htest⟩ := Checked.exists_of_any run_packing
  obtain ⟨rfl, -⟩ := Bool.and_eq_true_iff.1 htest
  exact ⟨program, s, hchecked, hchecked.wellTyped⟩

end

end TraitLang.Check
