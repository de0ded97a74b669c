import TraitLang.Proofs.Asking

/-! A node whose children are checked one after the other. Those that were checked stay so, and
those that wait stay fresh, while the next one is checked and while the node itself is worked on. -/
namespace TraitLang.Check

open List TraitLang.Tree DeclKind

variable {base : Program} {root : Nat} (hr : base.tree.Rooted root) {region : Region}
  {start s s' : State} {records : List ReturnRecord} {good good' : Prop} {id : Nat} {node : Node}
  {done rest ahead : List Nat}

/-- The part of a node from a number on. -/
def Region.since (base : Program) (id low : Nat) : Region := ⟨base.tree.unit id, low, id⟩

/-- Since work on a node started, some of its children were checked; the others wait. Expressions at
the end may have been checked ahead of their turn. -/
structure Underway (base : Program) (records : List ReturnRecord) (good : Prop) (start s : State)
    (id : Nat) (node : Node) (done rest : List Nat) (ahead : List Nat := []) : Prop where
  lt_size : id < base.tree.size
  move : Move base (.since base id (base.tree.first id)) start s
  layout : base.tree.children id = done ++ (rest ++ ahead)
  late : ∀ child ∈ ahead, base.tree.HasExpr child
  current : s.program.tree.node? id = some node
  blank : s.exprTypes[id]? = none
  isOpen : s.Open (base.tree.unit id)
  context : Context base s id
  fresh : ∀ child ∈ rest, FreshIn base (.below base child) s
  typed : ∀ var : Nat, var ∈ done → base.tree.Declares isVar var → (s.declTypes[var]?).isSome
  cleared : s.diagnostics = [] → good → ∀ child ∈ done ++ ahead, Cleared base records s child
  accounted : ∀ child ∈ done, Accounted base s child

/-- A node between two of its children, with everything in its slot. -/
structure Midway (base : Program) (records : List ReturnRecord) (good : Prop) (start s : State)
    (id : Nat) (node : Node) (done rest : List Nat) (ahead : List Nat := []) : Prop extends
    Underway base records good start s id node done rest ahead where
  loose : ∀ {slot : Nat}, Loose base.tree s.program.tree slot → Loose base.tree start.program.tree slot

/-- A node after one of its children, when the slot of the child is still to be written. -/
structure Handed (base : Program) (records : List ReturnRecord) (good : Prop) (start s : State)
    (id : Nat) (node : Node) (done rest : List Nat) (slot : Nat) (ahead : List Nat := []) :
    Prop extends Underway base records good start s id node done rest ahead where
  loose : ∀ {other : Nat}, Loose base.tree s.program.tree other → other = slot ∨
    Loose base.tree start.program.tree other

/-- What checking some of the children of a node leads to, with a verdict on them. -/
structure Passed (base : Program) (records : List ReturnRecord) (good : Prop) (start s s' : State)
    (id : Nat) (region : Region) (node : Node) (done rest : List Nat) (sound : Bool)
    (ahead : List Nat := []) : Prop where
  midway : Midway base records (good ∧ sound = true) start s' id node done rest ahead
  move : Move base region s s'
  bad : sound = false → s'.Faulty base

include hr

variable {child low : Nat} (htyped : base.tree.Declares isVar child → (s'.declTypes[child]?).isSome)
  (hcleared : s'.diagnostics = [] → good' → good ∧ Cleared base records s' child)
  (haccounted : Accounted base s' child)

lemma Move.ofChild (h : Move base (.below base child) s s') (hc : child ∈ base.tree.children id)
    (hlow : low ≤ base.tree.first child) : Move base (.since base id low) s s' :=
  h.weaken (.inr ⟨hr.owner_child hc, hlow, (hr.child hc).2.1.le⟩)

omit hr in
lemma Move.ofSelf (h : Move base (.single base id) s s') (hlow : low ≤ id) : Move base (.since base id low) s s' :=
  h.weaken (.inr ⟨rfl, hlow, le_rfl⟩)

omit hr in
lemma Move.since {high} (h : Move base (.since base id high) s s') (hle : low ≤ high) :
    Move base (.since base id low) s s' :=
  h.weaken (.inr ⟨rfl, hle, le_rfl⟩)

lemma Inv.midway (hi : Inv base s) (hn : base.tree.node? id = some node)
    (hfresh : FreshIn base (.since base id (base.tree.first id)) s)
    (ho : s.Open (base.tree.unit id)) (hcontext : Context base s id) :
    Midway base records good s s id node [] (base.tree.children id) := by
  have hself := hfresh.node id ⟨rfl, hr.first_le (lt_size hn), le_rfl⟩
  refine ⟨⟨lt_size hn, .refl hi, by simp, by simp, hself.node_eq.trans hn, hself.expr_eq, ho, hcontext, ?_, by simp,
    by simp, by simp⟩, fun hl => hl⟩
  intro child hc
  obtain ⟨-, hlt, -, hfirst⟩ := hr.child hc
  exact hfresh.within (.inr ⟨hr.owner_child hc, hfirst, hlt.le⟩)

lemma Ready.midway (h : Ready base s id) (hn : base.tree.node? id = some node)
    (hb : base.tree.isBinding id = false) : Midway base records good s s id node [] (base.tree.children id) := by
  have hu := unit_of_not_binding hb
  exact h.inv.midway hr hn (h.fresh.within (.inr ⟨hu, le_rfl, le_rfl⟩)) (hu ▸ h.isOpen) h.context

namespace Underway

omit hr in
lemma inv (h : Underway base records good start s id node done rest ahead) : Inv base s := h.move.inv

omit hr in
lemma children (h : Underway base records good start s id node done rest) : base.tree.children id = done ++ rest := by
  simpa using h.layout

lemma child_lt (h : base.tree.children id = done ++ child :: rest) : (∀ other ∈ done,
    other < base.tree.first child) ∧ ∀ other ∈ rest, child < base.tree.first other := by
  have hp := hr.pairwise_children id
  rw [h, pairwise_append, pairwise_cons] at hp
  exact ⟨fun other ho => hp.2.2 other ho child (by simp), hp.2.1.1⟩

lemma child_lt_size (h : Underway base records good start s id node done rest ahead)
    (hc : child ∈ done) : child < s.program.tree.size := by
  obtain ⟨hid, hlt, -, -⟩ := hr.child (show child ∈ base.tree.children id by simp [h.layout, hc])
  exact (hlt.trans hid).trans_le h.inv.descends.size_le

lemma child_apart {other} (hc : child ∈ base.tree.children id) (ho : other ∈ base.tree.children id)
    (hne : other ≠ child) : child < base.tree.first other ∨ other < base.tree.first child := by
  have : Std.Symm fun x y : Nat => x < base.tree.first y ∨ y < base.tree.first x := ⟨fun _ _ => Or.symm⟩
  have hpairwise : (base.tree.children id).Pairwise fun x y : Nat => x < base.tree.first y ∨ y < base.tree.first x :=
    (hr.pairwise_children id).imp Or.inl
  exact hpairwise.forall hc ho hne.symm

/-- A child that waits may be checked, given what is known about variables if the node is a match
case. -/
lemma readyChild (h : Underway base records good start s id node done rest ahead)
    (hc : child ∈ rest) (hown : ∀ node, base.tree.case? id = some node →
    ∀ var : Nat, var ∈ node.pattern.vars → (var < child → (s.declTypes[var]?).isSome) ∧ (child
    < var → s.declTypes[var]? = none)) : Ready base s child := by
  have hmem : child ∈ base.tree.children id := by simp [h.layout, hc]
  exact ⟨h.inv, h.fresh child hc, hr.owner_child hmem ▸ h.isOpen, h.context.child hr hmem h.isOpen hown⟩

lemma ready (h : Underway base records good start s id node done (child :: rest) ahead) : Ready base s child := by
  have hc : child ∈ base.tree.children id := by simp [h.layout]
  obtain ⟨hdone, hrest⟩ := child_lt hr h.layout
  have hle := (hr.child hc).2.2.1
  refine h.readyChild hr (by simp) fun case hcase var hv => ?_
  obtain ⟨hmem, hvar⟩ := var_of_case hr hcase hv
  rw [h.layout] at hmem
  rcases mem_append.1 hmem with hm | hm
  · have := hdone var hm
    exact ⟨fun _ => h.typed var hm hvar, fun hlt => by omega⟩
  have hm : var ∈ child :: rest := by
    refine (mem_append.1 hm).resolve_right fun hm => ?_
    obtain ⟨_, hd, -⟩ := hvar
    exact (decl_only hd).1 (h.late var hm)
  refine ⟨fun hlt => ?_, fun hlt => ?_⟩
  · rcases mem_cons.1 hm with rfl | hm
    · omega
    · have := hrest var (mem_append_left _ hm)
      have := hr.first_le hvar.lt_size
      omega
  · have hself := (h.fresh var hm).node var ⟨unit_of_not_binding
      (isBinding_of_declares hvar fun _ => rfl), hr.first_le hvar.lt_size, le_rfl⟩
    exact hself.var_eq hvar

include htyped hcleared haccounted

lemma afterChild
    {done' rest' ahead'} (h : Underway base records good start s id node done rest ahead)
    (hc : child ∈ base.tree.children id) (hs : Move base (.below base child) s s')
    (hlayout : base.tree.children id = done' ++ (rest' ++ ahead')) (hdone : ∀ other ∈ done',
    other ∈ done ∨ other = child) (hrest : ∀ other ∈ rest', other ∈ rest ∧ other ≠ child)
    (hahead : ∀ other ∈ ahead', other ∈ ahead ∨ other = child ∧ base.tree.HasExpr child) :
    Underway base records good' start s' id node done' rest' ahead' := by
  obtain ⟨hid, hlt, -, -⟩ := hr.child hc
  have hsame : Same base s s' id := by
    refine hs.evolves.same hid (fun hn => ?_) fun binding hb hu => hu.2 (h.isOpen binding hb)
    have : id ≤ child := hn.2.2
    omega
  have hlate (other : Nat) (ho : other ∈ ahead') : base.tree.HasExpr other := by
    rcases hahead other ho with ho | ⟨rfl, he⟩
    · exact h.late other ho
    · exact he
  have hmisses {other} (ho : other ∈ base.tree.children id) (hne : other ≠ child) :
      (Region.below base child).Misses base other := by
    rcases child_apart hr hc ho hne with hlt | hlt
    · exact .inr (.inl hlt)
    · exact .inr (.inr hlt)
  refine ⟨hid, h.move.trans (hs.ofChild hr hc (hr.child hc).2.2.2), hlayout, hlate,
    hsame.node_eq.trans h.current, ?_, hs.evolves.openUnit h.isOpen,
    h.context.evolves hr hs.evolves ?_, ?_, ?_, ?_, ?_⟩
  · have := hsame.expr_eq
    rw [h.blank] at this
    simpa [State.exprType?] using this
  · rintro var hvar ⟨-, -, hle⟩
    have hle : var ≤ child := hle
    omega
  · intro other ho
    obtain ⟨ho, hne⟩ := hrest other ho
    have hother : other ∈ base.tree.children id := by simp [h.layout, ho]
    have howner : s.Open (base.tree.owner other) := hr.owner_child hother ▸ h.isOpen
    refine (h.fresh other ho).evolves hs.evolves ((hr.child hother).2.1.trans hid) ?_ howner.not_entered
    rcases child_apart hr hc hother hne with hlt | hlt
    · exact .inr (.inr (.inl hlt))
    · exact .inr (.inl hlt)
  · intro var hv hvar
    rcases hdone var hv with hv | rfl
    · exact hs.evolves.isSome_declTypes (h.typed var hv hvar)
    · exact htyped hvar
  · intro hdiag hgood other ho
    obtain ⟨hgood, hnew⟩ := hcleared hdiag hgood
    by_cases hne : other = child
    · exact hne ▸ hnew
    have hin : other ∈ done ++ ahead := by grind
    have hother : other ∈ base.tree.children id := by grind
    exact (h.cleared (hs.evolves.diagnostics hdiag) hgood other hin).after hr h.inv.toCore hs.evolves
      ((hr.child hother).2.1.trans hid) (hr.owner_child hother ▸ h.isOpen) (hmisses hother hne)
  · intro other ho
    by_cases hne : other = child
    · exact hne ▸ haccounted
    have hin := (hdone other ho).resolve_right hne
    exact (h.accounted other hin).after hr hs.evolves (hmisses (by simp [h.layout, hin]) hne) hs.conformances

lemma next (h : Underway base records good start s id node done (child :: rest) ahead)
    (hs : Move base (.below base child) s s') :
    Underway base records good' start s' id node (done ++ [child]) rest ahead := by
  refine h.afterChild hr htyped hcleared haccounted (by simp [h.layout]) hs (by simp [h.layout])
    (fun other ho => by simpa using ho) (fun other ho => ⟨mem_cons_of_mem _ ho, ?_⟩) fun other ho => .inl ho
  rintro rfl
  have hnodup := hr.nodup_children id
  rw [h.layout, nodup_append, cons_append, nodup_cons] at hnodup
  exact hnodup.2.1.1 (mem_append_left _ ho)

omit htyped hcleared haccounted

lemma last (h : Underway base records good start s id node done (rest ++ [child]))
    (he : base.tree.HasExpr child) (hs : Move base (.below base child) s s')
    (hcleared : s'.diagnostics = [] → good' → good ∧ Done base records s' child) :
    Underway base records good' start s' id node done rest [child] := by
  have hb := isBinding_of_expr he
  refine h.afterChild hr ?_ ?_ (accounted_of_inner hr (.inl he))
    (by simp [h.layout]) hs (by simp [h.layout]) (fun other ho => .inl ho) (fun other ho =>
    ⟨mem_append_left _ ho, ?_⟩) fun other ho => .inr ⟨by simpa using ho, he⟩
  · rintro ⟨decl, hd, -⟩
    exact absurd he (decl_only hd).1
  · intro hdiag hgood
    obtain ⟨hgood, hdone⟩ := hcleared hdiag hgood
    exact ⟨hgood, fun _ => hdone, fun hb' => by simp [hb] at hb'⟩
  · rintro rfl
    have hnodup := hr.nodup_children id
    rw [h.children, nodup_append, nodup_append] at hnodup
    exact hnodup.2.1.2.2 other ho other (by simp) rfl

lemma self {node'} (h : Underway base records good start s id node done rest ahead)
    (hs : Move base (.single base id) s s') (hn : s'.program.tree.node? id = some node')
    (hblank : s'.exprTypes[id]? = none) : Underway base records good start s' id node' done rest ahead := by
  have hchild {child} (hc : child ∈ done ++ (rest ++ ahead)) :
      child < base.tree.size ∧ child < id ∧ s.Open (base.tree.owner child) := by
    rw [← h.layout] at hc
    obtain ⟨hid, hlt, -, -⟩ := hr.child hc
    exact ⟨hlt.trans hid, hlt, hr.owner_child hc ▸ h.isOpen⟩
  refine ⟨h.lt_size, h.move.trans (hs.ofSelf (hr.first_le h.lt_size)), h.layout, h.late, hn, hblank,
    hs.evolves.openUnit h.isOpen, h.context.evolves hr hs.evolves ?_, ?_, ?_, ?_, ?_⟩
  · rintro var hvar ⟨-, -, hle⟩
    have hle : var ≤ id := hle
    omega
  · intro child hc
    obtain ⟨hsize, hlt, ho⟩ := hchild (mem_append_right _ (mem_append_left _ hc))
    exact (h.fresh child hc).evolves hs.evolves hsize (.inr (.inl hlt)) ho.not_entered
  · exact fun var hv hvar => hs.evolves.isSome_declTypes (h.typed var hv hvar)
  · intro hdiag hgood child hc
    have hmem : child ∈ done ++ (rest ++ ahead) := by grind
    obtain ⟨hsize, hlt, ho⟩ := hchild hmem
    exact (h.cleared (hs.evolves.diagnostics hdiag) hgood child hc).after hr h.inv.toCore hs.evolves
      hsize ho (.inr (.inr hlt))
  · intro child hc
    exact (h.accounted child hc).after hr hs.evolves (.inr (.inr (hchild (mem_append_left _ hc)).2.1)) hs.conformances

omit hr in
lemma imp (h : Underway base records good start s id node done rest ahead) (hg : good' → good) :
    Underway base records good' start s id node done rest ahead :=
  { h with cleared := fun hd hgood => h.cleared hd (hg hgood) }

end Underway

namespace Midway

include htyped hcleared haccounted in
lemma next (h : Midway base records good start s id node done (child :: rest) ahead)
    (hs : Step base (.below base child) s s') :
    Midway base records good' start s' id node (done ++ [child]) rest ahead :=
  ⟨h.toUnderway.next hr htyped hcleared haccounted hs.toMove, fun hl => h.loose (hs.loose hl)⟩

/-- Something was found out that is not about nodes. -/
lemma quiet (h : Midway base records good start s id node done rest ahead)
    (hs : Step base .nowhere s s') : Midway base records good start s' id node done rest ahead := by
  have hsame : Same base s s' id := by
    exact hs.evolves.same h.lt_size (Region.not_hasNode_nowhere id) fun binding hb hu => hu.2 (h.isOpen binding hb)
  refine ⟨h.self hr (hs.toMove.anywhere _) (hsame.node_eq.trans h.current) ?_, fun hl => h.loose (hs.loose hl)⟩
  have := hsame.expr_eq
  rw [h.blank] at this
  simpa [State.exprType?] using this

omit hr in
lemma imp (h : Midway base records good start s id node done rest ahead) (hg : good' → good) :
    Midway base records good' start s id node done rest ahead :=
  ⟨h.toUnderway.imp hg, h.loose⟩

omit hr in
lemma both {first second} (h : Midway base records
    ((good ∧ first = true) ∧ second = true) start s id node done rest ahead) :
    Midway base records (good ∧ (first && second) = true) start s id node done rest ahead :=
  h.imp fun hgood => by simpa [and_assoc] using hgood

end Midway

omit hr in
lemma Passed.trans {s1 others node' done' rest' ahead' first second}
    (h1 : Passed base records good start s s1 id region node done rest first ahead) (h2 : Passed
    base others (good ∧ first = true) start s1 s' id region node' done' rest' second ahead') :
    Passed base others good start s s' id region node' done' rest' (first && second) ahead' := by
  refine ⟨h2.midway.both, h1.move.trans h2.move, fun hwrong => ?_⟩
  rcases Bool.and_eq_false_iff.1 hwrong with hwrong | hwrong
  · exact h2.move.evolves.faulty (h1.bad hwrong)
  · exact h2.bad hwrong

/-! ### What later work keeps -/

/-- What stands in the slot of a node stays while work is done elsewhere. -/
lemma Evolves.slot {child slot} (h : Evolves base region s s') (hd : base.Descends s.program)
    (ho : s.Open (base.tree.unit child)) (hc : child < base.tree.size) (hn : ¬region.HasNode base child)
    (hp : s.program.tree.Packs child slot) : Same base s s' slot := by
  rcases hp with rfl | ⟨_, _, he⟩
  · exact h.same hc hn fun binding hb hu => hu.2 (ho binding hb)
  · obtain ⟨hge, hlt⟩ := hd.size_le_of_packed hr he
    exact h.added slot hge hlt

lemma Evolves.packs {slot} (h : Evolves base region s s') (hd : base.Descends s.program)
    (hp : s.program.tree.Packs child slot) : s'.program.tree.Packs child slot := by
  rcases hp with rfl | ⟨traits, span, he⟩
  · exact .inl rfl
  · obtain ⟨hge, hlt⟩ := hd.size_le_of_packed hr he
    refine .inr ⟨traits, span, ?_⟩
    rw [expr?_eq_some] at he ⊢
    rw [(h.added slot hge hlt).node_eq, he]

namespace Underway

variable {child slot : Nat}

variable (h : Underway base records good start s id node done rest ahead)

include h

/-- What stands in the slot of a child that was checked stays while work is done elsewhere. -/
lemma same (hc : child ∈ done) (hb : base.tree.isBinding child = false)
    (hs : Evolves base region s s') (hn : ¬region.HasNode base child)
    (hp : s.program.tree.Packs child slot) : Same base s s' slot := by
  have hc : child ∈ base.tree.children id := by simp [h.layout, hc]
  obtain ⟨hid, hlt, -, -⟩ := hr.child hc
  exact hs.slot hr h.inv.descends (hr.unit_child hc hb ▸ h.isOpen) (hlt.trans hid) hn hp

/-- The type recorded for a child stays while work is done elsewhere. -/
lemma keeps_records {type} (hc : child ∈ done) (he : base.tree.HasExpr child) (hs : Evolves base region s s')
    (hn : ¬region.HasNode base child) (ht : Records s child type) : Records s' child type :=
  ht.evolves h.inv.toCore hs (h.same hr hc (isBinding_of_expr he) hs hn (.inl rfl))

/-- The type of what stands in the slot of a child stays while work is done elsewhere. -/
lemma keeps_holds {type} (hc : child ∈ done)
    (he : base.tree.HasExpr child) (hs : Evolves base region s s') (hn : ¬region.HasNode base child)
    (hp : s.program.tree.Packs child slot) (ht : Holds s slot type) : Holds s' slot type :=
  ht.evolves h.inv.toCore hs (h.same hr hc (isBinding_of_expr he) hs hn hp)

end Underway

namespace Handed

variable {slot : Nat} {child : Nat}

lemma patch {before after front back} (h : Handed base records good start s id node done rest slot ahead)
    (hb : base.tree.node? id = some before) (hp : before.Patched s.program.tree.Packs after)
    (hc : child ∈ base.tree.children id) (hfront : node.children = front ++ child :: back)
    (hback : after.children = front ++ slot :: back) : Move base (.single base id) s (s.put id after) ∧
      Midway base records good start (s.put id after) id after done rest ahead := by
  have hmove := move_put hr h.inv hb hp h.isOpen
  obtain ⟨hid, hlt, -, -⟩ := hr.child hc
  refine ⟨hmove, h.self hr hmove ?_ h.blank, fun hl => ?_⟩
  · exact (node?_put (lt_size h.current) after id).trans (if_pos rfl)
  · obtain ⟨hne, hl⟩ := loose_put hr h.inv hb h.current hp hfront hback (hlt.trans hid) hl
    exact (h.loose hl).resolve_left hne

/-- The slot of an expression in a pattern stays as it is. -/
lemma drop (h : Handed base records good start s id node (done ++ [child]) rest slot ahead)
    (hp : s.program.tree.Packs child slot) (hin : base.tree.InPattern child) :
    Midway base records good start s id node (done ++ [child]) rest ahead := by
  obtain ⟨hid, hlt, -, -⟩ := hr.child (show child ∈ base.tree.children id by simp [h.layout])
  refine ⟨h.toUnderway, fun hl => (h.loose hl).resolve_left ?_⟩
  rintro rfl
  obtain ⟨⟨_, _, _, he, hout⟩, -⟩ := hl
  rcases hp with rfl | ⟨_, _, he'⟩
  · have := (h.inv.descends.size_le_of_packed hr he).1
    omega
  · rw [he] at he'
    cases he'
    exact hout hin

end Handed

namespace Midway

omit hr in
lemma below (h : Midway base records good start s id node done rest)
    (hb : base.tree.isBinding id = false) : Step base (.below base id) start s :=
  ⟨h.move.weaken (.inr ⟨unit_of_not_binding hb, le_rfl, le_rfl⟩), h.loose⟩

lemma finished (h : Midway base records good start s id node done [] ahead)
    (hd : s.diagnostics = []) (hg : good) (hrule : (s.typing base records).Rule True id)
    (hmeant : Meant base s id) : Done base records s id := by
  refine .node hr h.lt_size hrule hmeant fun child hc => h.cleared hd hg child ?_
  simpa [h.layout] using hc

lemma judged {depth rank child ask} (ha : Answers base depth ask)
    (h : Midway base records good start s id node done (child :: rest))
    (hitem : base.tree.Declares isItem child) (hafford : Affords base s rank depth) :
    Ensures (ask (.verdict child)) s fun answer s' => Step base (.below base child) s s' ∧
      Passed base records good start s s' id (.since base id (base.tree.first child))
      node (done ++ [child]) rest answer := by
  refine (ha.verdict (h.ready hr) hitem (hafford.mono (Nat.zero_le rank))).imp fun answer s' hjudged => ?_
  refine ⟨hjudged.step, h.next hr ?_ ?_ hjudged.accounted hjudged.step,
    hjudged.step.toMove.ofChild hr (by simp [h.children]) le_rfl, hjudged.bad⟩
  · rintro ⟨⟨kind, span⟩, hd, hk⟩
    obtain ⟨decl, hd', hitem⟩ := hitem
    obtain rfl : decl = ⟨kind, span⟩ := by simpa [hd] using hd'.symm
    cases kind <;> cases hk
    cases hitem
  · exact fun hdiag hgood => ⟨hgood.1, (hjudged.cleared hdiag hgood.2).records_subset (nil_subset _)⟩

end Midway

end TraitLang.Check
