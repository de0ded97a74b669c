import TraitLang.Proofs.Evolution

/-! Accounts of declarations. The account of a function has one entry for each return statement that
leaves the function, in the order of the text, with the type that the function returns. That of a
product is the list of its conformances. -/
namespace TraitLang

open List DeclKind TraitLang.Tree Option

/-- A type as it is read inside of the function that has the parameters. -/
def Generics.inside (generics : Generics) (type : Ty) : Ty :=
  type.substitute (generics.chooseAll true .empty).1

/-- Inside of a function no variables are made for its parameters. -/
lemma Generics.chooseAll_inside (generics : Generics) (solver : Solver) :
    generics.chooseAll true solver = ((generics.chooseAll true .empty).1, solver) := by
  have hchoose (current : Solver) (param : DeclId × String) : generics.choose true current param =
      ((generics.choose true .empty param).1, current) := by grind [choose]
  have hfold (params : List (DeclId × String)) : ∀ (substitution : Substitution) (current other : Solver),
      params.foldl (fun (acc : Substitution × Solver) param =>
        (acc.1.insert param.1 (generics.choose true acc.2 param).1, (generics.choose true acc.2 param).2))
        (substitution, current) =
      ((params.foldl (fun (acc : Substitution × Solver) param =>
        (acc.1.insert param.1 (generics.choose true acc.2 param).1, (generics.choose true acc.2 param).2))
        (substitution, other)).1, current) := by
    induction params with
    | nil => exact fun _ _ _ => rfl
    | cons param params ih => grind
  exact hfold generics.params ∅ solver .empty

namespace Tree

def IsReturn (tree : Tree) (id : Nat) : Prop :=
  ∃ value span, tree.stmt? id = some ⟨.ret value, span⟩

variable {tree : Tree} {id root function top : Nat} {span : Span}

lemma Inner.lt_size (h : tree.Inner id) : id < tree.size := by
  rcases h with ⟨_, he⟩ | ⟨_, hc⟩ | hd | hd
  · exact Tree.lt_size (expr?_eq_some.1 he)
  · exact Tree.lt_size (case?_eq_some.1 hc)
  · exact hd.lt_size
  · exact hd.lt_size

lemma not_isReturn {kind} (h : tree.stmt? id = some ⟨kind, span⟩)
    (hk : ∀ value, kind ≠ .ret value) : ¬tree.IsReturn id := by
  rintro ⟨value, span', hr⟩
  rw [h] at hr
  cases hr
  exact hk value rfl

lemma IsReturn.hasStmt (h : tree.IsReturn id) : tree.HasStmt id := by
  obtain ⟨_, _, h⟩ := h
  exact ⟨_, h⟩

namespace Rooted

variable {tree : Tree} {root : Nat} (h : tree.Rooted root)

include h

lemma inner_of_inside {top id} (ht : tree.Inner top) (hi : tree.Inside top id) : tree.Inner id := by
  rcases Nat.lt_or_eq_of_le hi.2 with hid | rfl
  · exact h.inner_of_encloses ht ⟨hi.1, hid⟩ ht.lt_size
  · exact ht

/-- Functions do not stand inside of bindings. -/
lemma owner_of_function {function} (hf : tree.Declares DeclKind.isFunction function) :
    tree.owner function = none := by
  rw [owner_eq_none]
  intro binding hb hin
  have hbinding := isBinding_iff.1 hb
  exact not_inner_of_function hf
    (h.inner_of_encloses (.inr (.inr (.inl hbinding))) hin hbinding.lt_size)

end Rooted

/-- No return statement inside of a node leaves the function. -/
def NoReturn (tree : Tree) (function top : Nat) : Prop :=
  ∀ id, tree.IsReturn id → tree.InFunction function id → ¬tree.Inside top id

lemma Inner.noReturn (h : tree.Inner top) (hr : tree.Rooted root) : tree.NoReturn function top :=
  fun _ hreturn _ hi => Rooted.not_inner_of_stmt hreturn.hasStmt (hr.inner_of_inside h hi)

/-- Return statements inside of a local declaration leave functions that stand inside of it. -/
lemma InFunction.noReturn (hr : tree.Rooted root) (h : tree.InFunction function top)
    (hl : tree.Declares isLocal top) : tree.NoReturn function top := by
  obtain ⟨decl, hd, hlocal⟩ := hl
  rcases Bool.or_eq_true_iff.1 hlocal with hf | hb
  · intro id hreturn hin hi
    have hne : id ≠ top := by
      rintro rfl
      exact (decl_only hd).2.1 hreturn.hasStmt
    have hle := hin.least top ⟨decl, hd, hf⟩ ⟨hi.1, lt_of_le_of_ne hi.2 hne⟩
    exact absurd h.encloses.2 (Nat.not_lt_of_le hle)
  · exact Inner.noReturn (.inr (.inr (.inl ⟨decl, hd, hb⟩))) hr

/-- The return statements that leave a function are inside of its body. -/
lemma InFunction.inside_body {decl} (h : tree.InFunction function id) (hr : tree.Rooted root)
    (hd : tree.decl? function = some ⟨.function decl, span⟩) (hreturn : tree.IsReturn id) :
    ∃ body ∈ decl.body, tree.Inside body id := by
  have hn := decl?_eq_some.1 hd
  obtain ⟨hgeneric, hparams, -⟩ := (hr.below hn).1
  -- parameters have nothing inside of them
  have hleaf {test param} (hp : tree.Declares test param)
      (htest : ∀ kind, test kind = true → kind.children = []) : ¬tree.Inside param id := by
    obtain ⟨_, hfound, hk⟩ := hp
    intro hi
    rcases hr.inside_cases (lt_size (decl?_eq_some.1 hfound)) hi with rfl | ⟨child, hc, -⟩
    · exact (decl_only hfound).2.1 hreturn.hasStmt
    · rw [children_of_node? (decl?_eq_some.1 hfound), Node.children, htest _ hk] at hc
      cases hc
  obtain ⟨child, hc, hi⟩ := hr.exists_child (lt_size hn) h.encloses
  rw [children_of_node? hn] at hc
  rcases mem_append.1 hc with hc | hc
  · rcases mem_append.1 hc with hc | hc
    · exact absurd hi (hleaf (hgeneric child hc) fun kind hk => by cases kind <;> first | rfl | cases hk)
    · exact absurd hi (hleaf (hparams child hc) fun kind hk => by cases kind <;> first | rfl | cases hk)
  · exact ⟨child, mem_toList.1 hc, hi⟩

end Tree

namespace Check

/-- The type that is expected of what a function returns. -/
def State.returnType? (s : State) (function : DeclId) : Option Ty :=
  s.signatures[function]?.bind fun signature =>
    if signature.output.hasParams then
      s.generics[function]?.map fun found => found.elim .error fun generics => generics.inside signature.output
    else some signature.output

/-- Entries for the return statements of a function that are in some place. -/
structure Collected (base : Program) (s : State) (function : Nat) (place : Nat → Prop)
    (records : List ReturnRecord) : Prop where
  ordered : (records.map ReturnRecord.stmt).Pairwise fun (x y : Nat) => x < y
  mem_iff : ∀ id, id ∈ records.map ReturnRecord.stmt ↔ base.tree.IsReturn id ∧
  base.tree.InFunction function id ∧ place id
  owned : ∀ record ∈ records, record.function = function ∧
  s.returnType? function = some record.expected

/-- The account of a declaration is complete. -/
structure Reckoned (base : Program) (s : State) (id : Nat) : Prop where
  returns : base.tree.Declares isFunction id → Collected base s id (fun _ => True)
    (s.returns.getD id [])
  conformances : base.tree.Declares isProduct id → (s.conformances[id]?).isSome

/-- The accounts of all declarations inside of a node are complete. -/
def Accounted (base : Program) (s : State) (top : Nat) : Prop :=
  ∀ id, base.tree.Inside top id → Reckoned base s id

section

variable {base : Program} {region : Region} {s s' : State} {function : Nat}
  {place other : Nat → Prop} {records more : List ReturnRecord}

lemma Evolves.returnType? (he : Evolves base region s s') {type}
    (h : s.returnType? function = some type) : s'.returnType? function = some type := by
  unfold State.returnType? at h ⊢
  cases hs : s.signatures[function]? with
  | none => simp [hs] at h
  | some signature =>
    rw [hs] at h
    rw [he.signatures hs]
    dsimp only [bind_some] at h ⊢
    split at h
    next hparams =>
      rw [if_pos hparams]
      cases hg : s.generics[function]? with
      | none => simp [hg] at h
      | some found =>
        rw [hg] at h
        rwa [he.generics hg]
    next hparams => rwa [if_neg hparams]

lemma Collected.evolves (h : Collected base s function place records)
    (he : Evolves base region s s') : Collected base s' function place records :=
  ⟨h.ordered, h.mem_iff, fun record hr => (h.owned record hr).imp_right he.returnType?⟩

lemma Collected.congr (h : Collected base s function place records)
    (hp : ∀ id, base.tree.IsReturn id → base.tree.InFunction function id → (place id ↔ other id)) :
    Collected base s function other records := by
  refine ⟨h.ordered, fun id => (h.mem_iff id).trans ?_, h.owned⟩
  exact and_congr_right fun hr => and_congr_right fun hf => hp id hr hf

lemma collected_nil (hp : ∀ id, base.tree.IsReturn id → base.tree.InFunction function id →
    ¬place id) : Collected base s function place [] :=
  ⟨.nil, fun id => ⟨fun h => by simp at h, fun ⟨hr, hf, hid⟩ => absurd hid (hp id hr hf)⟩, by simp⟩

/-- The entry for a return statement. There are no others inside of it. -/
lemma collected_return {root id expected} (hr : base.tree.Rooted root)
    (hreturn : base.tree.IsReturn id) (hin : base.tree.InFunction function id)
    (htype : s.returnType? function = some expected) : Collected base s function
    (fun inner => ∃ node ∈ [id], base.tree.Inside node inner) [⟨id, function, expected⟩] := by
  refine ⟨pairwise_singleton _ _, fun inner => ?_, by simpa using htype⟩
  simp only [map_singleton, mem_singleton, exists_eq_left]
  constructor
  · rintro rfl
    exact ⟨hreturn, hin, hr.inside_self (hin.encloses.2.trans hin.declares.lt_size)⟩
  · rintro ⟨hinner, -, hi⟩
    obtain ⟨_, _, hn⟩ := hreturn
    rcases hr.inside_cases (lt_size (stmt?_eq_some.1 hn)) hi with rfl | ⟨child, hc, hi⟩
    · rfl
    · have hvalue : base.tree.HasExpr child := by
        rw [children_of_node? (stmt?_eq_some.1 hn)] at hc
        exact (hr.below (stmt?_eq_some.1 hn)).1 child (mem_toList.1 hc)
      exact absurd (hr.inner_of_inside (.inl hvalue) hi) (Tree.Rooted.not_inner_of_stmt hinner.hasStmt)

/-- The places of some entries come before those of others. -/
lemma Collected.append (h1 : Collected base s function place records)
    (h2 : Collected base s function other more) (hlt : ∀ x y, place x → other y → x < y) :
    Collected base s function (fun id => place id ∨ other id) (records ++ more) := by
  refine ⟨?_, fun id => ?_, ?_⟩
  · rw [map_append, pairwise_append]
    refine ⟨h1.ordered, h2.ordered, fun x hx y hy => ?_⟩
    exact hlt x y ((h1.mem_iff x).1 hx).2.2 ((h2.mem_iff y).1 hy).2.2
  · rw [map_append, mem_append, h1.mem_iff, h2.mem_iff]
    tauto
  · exact forall_mem_append.2 ⟨h1.owned, h2.owned⟩

end

section

variable {base : Program} {root : Nat} (hr : base.tree.Rooted root) {region : Region}
  {s s' : State} {top : Nat}

include hr

omit hr in
lemma reckoned_of_other
    (h : ¬base.tree.Declares (fun kind => kind.isFunction || kind.isProduct) top) :
    Reckoned base s top :=
  ⟨fun ⟨decl, hd, hk⟩ => absurd ⟨decl, hd, by simp [hk]⟩ h, fun ⟨decl, hd, hk⟩ =>
    absurd ⟨decl, hd, by simp [hk]⟩ h⟩

/-- There are no functions and products inside of values. -/
lemma accounted_of_inner (ht : base.tree.Inner top) : Accounted base s top := by
  refine fun id hi => reckoned_of_other fun hd => not_inner_of_declares hd (fun kind hk => ?_)
    (hr.inner_of_inside ht hi)
  cases kind <;> first | exact ⟨rfl, rfl⟩ | cases hk

/-- The account of a function stays while work is done elsewhere. -/
lemma Evolves.returns_eq (he : Evolves base region s s') {function}
    (hf : base.tree.Declares isFunction function) (hn : ¬region.HasVerdict base function) :
    s'.returns[function]? = s.returns[function]? := by
  rcases he.judged function hf.lt_size with hv | hent | hsame
  · exact absurd hv hn
  · rw [hr.owner_of_function hf] at hent
    obtain ⟨_, hnone, -⟩ := hent
    cases hnone
  · exact hsame.2

lemma Accounted.after (h : Accounted base s top) (he : Evolves base region s s')
    (hm : region.Misses base top) (hc : s.conformances.Grows s'.conformances) :
    Accounted base s' top := by
  refine fun function hi => ⟨fun hf => ?_, fun hp => ?_⟩
  swap
  · obtain ⟨list, hl⟩ := isSome_iff_exists.1 ((h function hi).conformances hp)
    exact isSome_iff_exists.2 ⟨list, hc hl⟩
  have hsame : s'.returns.getD function [] = s.returns.getD function [] := by
    rw [Std.TreeMap.getD_eq_getD_getElem?, Std.TreeMap.getD_eq_getD_getElem?, he.returns_eq hr hf ?_]
    rintro ⟨-, h1, h2⟩
    obtain ⟨h3, h4⟩ := hi
    unfold Region.Misses at hm
    omega
  rw [hsame]
  exact ((h function hi).returns hf).evolves he

/-- The declarations inside of a node are the node itself and those inside of its children. -/
lemma accounted_of_children (ht : top < base.tree.size) (hself : Reckoned base s top)
    (hchildren : ∀ child ∈ base.tree.children top, Accounted base s child) :
    Accounted base s top := by
  intro id hi
  rcases hr.inside_cases ht hi with rfl | ⟨child, hc, hin⟩
  · exact hself
  · exact hchildren child hc id hin

end

end Check

end TraitLang
