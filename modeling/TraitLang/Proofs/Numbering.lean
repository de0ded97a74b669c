import TraitLang.Proofs.Values

/-! The numbers of variables. All types that a state has for nodes mention variables below its
counter only, and what is read from the text mentions none. So where a generic function is named,
the variables for its parameters are new. -/
namespace TraitLang

/-- A type mentions only variables with numbers below a bound. -/
def Ty.VarsBelow (bound : Nat) (type : Ty) : Prop := ∀ id, type.mentions id → id < bound

namespace Check

/-- The variables of a state have numbers below its counter, and there are none in signatures and
where clauses. -/
structure State.Numbered (s : State) : Prop where
  bindings : ∀ binding ∈ s.solver.bindings, binding.1 < s.solver.next ∧ binding.2.VarsBelow s.solver.next
  declTypes : ∀ (id : Nat) type, s.declTypes[id]? = some type → type.VarsBelow s.solver.next
  exprTypes : ∀ (id : Nat) type, s.exprTypes[id]? = some type → type.VarsBelow s.solver.next
  signatures : ∀ (id : Nat) signature, s.signatures[id]? = some signature →
  signature.toTy.hasVars = false
  generics : ∀ (id : Nat) generics, s.generics[id]? = some (some generics) → ∀ param,
    (∀ type, generics.equality? param = some type → type.hasVars = false) ∧
      ∀ type ∈ generics.bounds param, type.hasVars = false

/-- The type of a name of a generic function is recorded, and mentions no variable from before the
question. -/
def Query.Renews (program : Program) (s s' : State) {α : Type} : Query α → α → Prop
  | .exprType id _, type => ∀ name span found, program.tree.expr? id = some ⟨.name name, span⟩ →
    program.valueNamed id name = some found → program.tree.Declares DeclKind.isGeneric found →
      s'.exprTypes[id]? = some type ∧ ∀ var, type.mentions var → s.solver.next ≤ var
  | .verdict _, _ | .declType _, _ => True

/-- What holds of the numbers of variables from a question to its answer. -/
structure Query.Numbers (program : Program) {α : Type} (query : Query α) (s : State) (answer : α)
    (s' : State) : Prop where
  before : s.Numbered
  after : s'.Numbered
  next_le : s.solver.next ≤ s'.solver.next
  renews : query.Renews program s s' answer

variable {base : Program} {s : State}

lemma Known.below {type} (h : Known base s type) : type.VarsBelow s.solver.next :=
  fun _ hm => Ty.Over.mentions (traity_end _ _) h hm

lemma Core.numbered (h : Core base s) : s.Numbered where
  bindings := fun binding hm => ⟨(h.solver binding hm).1, (h.solver binding hm).2.below⟩
  declTypes := fun _ _ hd => (h.declTypes hd).1.below
  exprTypes := fun _ _ he => (h.exprTypes he).1.below
  signatures := fun _ _ hsignature => (plain_signature h hsignature).hasVars
  generics := fun _ _ hg param => by
    obtain ⟨_, _, -, hcollects⟩ := h.generics hg
    refine ⟨fun type he => (hcollects.plain param type he).hasVars, fun type hm => ?_⟩
    obtain ⟨_, _, rfl, -⟩ := hcollects.traits param type hm
    rfl

lemma mentions_instantiate {id : Nat} {params requirements} {generics : Generics}
    (hg : generics.Collects base (Plain base s) (s.diagnostics = []) id params requirements) {type}
    (ht : Plain base s type) (useSite : ScopeId) :
    Ensures (instantiate generics type useSite) s fun answer _ =>
      ∀ var, answer.1.mentions var → s.solver.next ≤ var := by
  obtain ⟨hvalues, -⟩ := generics.chooseAll_spec (s.program.isWithin useSite generics.scope)
    s.solver (P := fun _ => Ty.Over (End base (s.Faulty base) (s.solver.next ≤ ·))) (fun _ h => h)
    (fun param type he => (hg.plain param type he).imp (End.imp (fun hf => hf) fun _ => False.elim))
    (fun _ _ _ => (Ty.over_end rfl).2 trivial) (fun _ _ hle => (Ty.over_end rfl).2 hle)
  refine ensures_modifyGet.2 fun var hm => ?_
  have htype : Ty.Over (End base (s.Faulty base) (s.solver.next ≤ ·)) type :=
    ht.imp (End.imp (fun hf => hf) fun _ => False.elim)
  exact (htype.substitute (traity_end _ _) hvalues).mentions (traity_end _ _) hm

/-- A generic function is instantiated by variables that were not there before. -/
lemma ensures_renews {root : Nat} (hs : base.Surveyed root) {depth : Nat} {ask : Answerer}
    (ha : Answers base depth ask) (hdepth : 0 < depth) (hc : Core base s) {id : Nat}
    {name : String} {span} {found : Nat} (he : base.tree.expr? id = some ⟨.name name, span⟩)
    (hfound : base.valueNamed id name = some found)
    (hd : base.tree.Declares DeclKind.isGeneric found) (useSite : ScopeId) :
    Ensures (infer ask id useSite) s fun type s' => s'.exprTypes[id]? = some type ∧
      ∀ var, type.mentions var → s.solver.next ≤ var := by
  obtain ⟨⟨kind, _⟩, hdecl, hk⟩ := hd
  have hcurrent : s.program.tree.expr? id = some ⟨.name name, span⟩ := by
    obtain ⟨_, hafter, hpatched⟩ := hc.descends.exists_patched (Tree.expr?_eq_some.1 he)
    cases hpatched with
    | expr hkind =>
      cases hkind
      exact Tree.expr?_eq_some.2 hafter
  unfold infer
  refine (ensures_expr hcurrent).read ?_
  suffices Ensures (inferName ask id name useSite) s fun type _ =>
    ∀ var, type.mentions var → s.solver.next ≤ var from this.bind fun type s' h =>
    ensures_modify_bind.2 (ensures_pure.2 ⟨NodeMap.getElem?_insert_self .., h⟩)
  refine (ensures_lookupValue hs hc.descends ⟨_, he⟩ name useSite).read ?_
  rw [hfound]
  cases kind with
  | function function =>
    refine (ensures_decl (hc.descends.decl?_of_not_binding hdecl rfl)).read ?_
    refine (ensures_signatureOf hs ha hdepth hc ⟨_, hdecl, rfl⟩).bind ?_
    rintro signature s1 ⟨h1, hsignature⟩
    rw [if_neg (by simpa [DeclKind.isGeneric] using hk)]
    refine (ensures_scopeOr hs h1.core.descends (hs.rooted.lt_root_of_expr ⟨_, he⟩) useSite).bind ?_
    rintro scope s1 ⟨-, rfl⟩
    refine (ensures_genericsOf hs h1.core hdecl).bind ?_
    rintro generics s2 ⟨h2, hg⟩
    cases generics with
    | none => exact ensures_pure.2 fun var hm => by cases hm
    | some generics =>
      obtain ⟨_, _, -, hcollects⟩ := h2.core.generics hg
      refine (mentions_instantiate hcollects (plain_signature h2.core (h2.signatures hsignature))
        scope).bind fun answer _ h3 => ?_
      rw [h2.solver_eq, h1.solver_eq] at h3
      exact ensures_pure.2 h3
  | _ => cases hk

end Check

end TraitLang
