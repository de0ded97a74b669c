import TraitLang.Proofs.Printing.RoundTrip

/-! Operands with operators between them. An operator takes what was read before it as its left
operand as long as no looser one waits for it, so that of all the ways to group a row of operands
the tighter operators are grouped first, and operators of one power from the left. -/
namespace TraitLang

open Parse Grammar List Power

namespace Grammar

/-- The token of a literal or a name. -/
structure Operand where
  token : Token
  kind : ExprKind
  leaf_eq : leaf? token.lexeme = some kind

/-- The token of an operator. -/
structure Sign where
  token : Token
  operator : Operator
  kind_eq : token.kind = operator.kind

def Sign.power (sign : Sign) : Power := ofToken sign.token.kind

/-- An operator and the operand behind it. -/
abbrev Link := Sign × Operand

/-- The tokens of operators and the operands behind them. -/
def row (links : List Link) : List Token := links.flatMap fun link => [link.1.token, link.2.token]

/-- Whether an operator binds more tightly than a floor. -/
def tighter (floor : Power) (link : Link) : Bool := floor.rank < link.1.power.rank

lemma tighter_iff {floor} {link : Link} : tighter floor link ↔ floor.rank < link.1.power.rank :=
  decide_eq_true_iff

end Grammar

/-- Operands that are grouped by operators. -/
inductive Grouping where
  | leaf (operand : Operand)
  | join (sign : Sign) (left right : Grouping)

namespace Grouping

/-- From left to right, a grouping is its first operand and then operators, each with the operand
behind it. -/
def first : Grouping → Operand
  | .leaf operand => operand
  | .join _ left _ => left.first

def links : Grouping → List Link
  | .leaf _ => []
  | .join sign left right => left.links ++ (sign, right.first) :: right.links

def root? : Grouping → Option Sign
  | .leaf _ => none
  | .join sign _ _ => some sign

/-- A left operand does not bind more loosely than the operator that it is an operand of, and a
right operand binds more tightly. -/
def Ordered : Grouping → Prop
  | .leaf _ => True
  | .join sign left right => left.Ordered ∧ right.Ordered ∧ (∀ root ∈ left.root?,
      sign.power.rank ≤ root.power.rank) ∧ ∀ root ∈ right.root?, sign.power.rank < root.power.rank

/-- Operands grouped from the left. -/
def leftmost (left : Grouping) (links : List Link) : Grouping :=
  links.foldl (fun left link => .join link.1 left (.leaf link.2)) left

variable {g left right other : Grouping} {link link' : Link}
  {before after before' after' : List Link}

lemma exists_root {root} (h : root ∈ g.root?) : ∃ operand, (root, operand) ∈ g.links := by
  cases g with
  | leaf => cases h
  | join _ _ right =>
    cases h
    exact ⟨right.first, by simp [links]⟩

/-- No operator of an ordered grouping binds more loosely than its root. -/
lemma Ordered.le_rank {n} (h : g.Ordered) (hn : ∀ root ∈ g.root?, n ≤ root.power.rank) :
    ∀ link ∈ g.links, n ≤ link.1.power.rank := by
  induction g generalizing n with
  | leaf => exact forall_mem_nil _
  | join sign left right ihl ihr =>
    obtain ⟨hl, hr, hleft, hright⟩ := h
    have hsign := hn sign rfl
    exact forall_mem_append.2 ⟨ihl hl fun root hm => hsign.trans (hleft root hm),
      forall_mem_cons.2 ⟨hsign, ihr hr fun root hm => hsign.trans (hright root hm).le⟩⟩

/-- The last one of the loosest operators of a row is where it is divided. -/
lemma before_eq_of_append_eq (h : before ++ link :: after = before' ++ link' :: after')
    (hb : ∀ l ∈ before', link'.1.power.rank ≤ l.1.power.rank) (ha : ∀ l ∈ after, link.1.power.rank < l.1.power.rank)
    (hle : before.length ≤ before'.length) : before = before' := by
  obtain ⟨middle, rfl, heq⟩ | ⟨middle, rfl, heq⟩ := append_eq_append_iff.1 h
  · cases middle with
    | nil => simp
    | cons l middle => grind
  · simp_all

lemma Ordered.eq (hg : g.Ordered) (ho : other.Ordered) (hf : other.first = g.first)
    (hs : other.links = g.links) : other = g := by
  induction g generalizing other with
  | leaf =>
    cases other with
    | leaf => exact congrArg leaf hf
    | join => simp [links] at hs
  | join sign left right ihl ihr =>
    cases other with
    | leaf => simp [links] at hs
    | join sign' left' right' =>
      obtain ⟨hgl, hgr, hleft, hright⟩ := hg
      obtain ⟨hol, hor, hleft', hright'⟩ := ho
      have heq : left'.links = left.links := by
        rcases Nat.le_total left'.links.length left.links.length with hle | hle
        · exact before_eq_of_append_eq hs (hgl.le_rank hleft) (hor.le_rank hright') hle
        · exact (before_eq_of_append_eq hs.symm (hol.le_rank hleft') (hgr.le_rank hright) hle).symm
      rw [links, links, heq, append_cancel_left_eq, List.cons.injEq, Prod.mk.injEq] at hs
      obtain ⟨⟨rfl, hfirst⟩, hlinks⟩ := hs
      rw [ihl hgl hol hf heq, ihr hgr hor hfirst hlinks]

lemma leftmost_spec {rank : Nat} {links} : ∀ {left}, left.Ordered →
    (∀ root ∈ left.root?, root.power.rank = rank) → (∀ link ∈ links, link.1.power.rank = rank) →
    (leftmost left links).Ordered ∧ (leftmost left links).first = left.first ∧
      (leftmost left links).links = left.links ++ links := by
  induction links with
  | nil => exact fun h _ _ => ⟨h, rfl, (append_nil _).symm⟩
  | cons link links ih =>
    intro left h hroot hlinks
    obtain ⟨hlink, hlinks⟩ := forall_mem_cons.1 hlinks
    have hjoin : (join link.1 left (.leaf link.2)).Ordered :=
      ⟨h, trivial, fun root hm => by rw [hlink, hroot root hm], fun root hm => by cases hm⟩
    obtain ⟨hordered, hfirst, hrow⟩ := ih hjoin (by rintro _ ⟨⟩; exact hlink) hlinks
    exact ⟨hordered, hfirst, hrow.trans (by simp [Grouping.links, first])⟩

end Grouping

/-! ### Reading a row -/

/-- The expression of a tree with a given number is grouped so. -/
def Tree.Groups (tree : Tree) : Grouping → ExprId → Prop
  | .leaf operand, id => ∃ span, tree.expr? id = some ⟨operand.kind, span⟩
  | .join sign left right, id => ∃ l r span, tree.expr? id = some ⟨sign.operator.node l r, span⟩ ∧
      tree.Groups left l ∧ tree.Groups right r

lemma Tree.Groups.mono {small large : Tree} (he : small.Extends large) {g} :
    ∀ {id : ExprId}, small.Groups g id → large.Groups g id := by
  induction g with
  | leaf =>
    rintro id ⟨span, hx⟩
    exact ⟨span, he.expr?_of_some hx⟩
  | join _ _ _ ihl ihr =>
    rintro id ⟨l, r, span, hx, hl, hr⟩
    exact ⟨l, r, span, he.expr?_of_some hx, ihl hl, ihr hr⟩

namespace Grammar

/-- What is read at a floor goes on where a higher one stops. -/
lemma takeWhile_tighter {floor power} (h : floor.rank < power.rank) (links : List Link) :
    links.takeWhile (tighter floor) = links.takeWhile (tighter power) ++ (links.dropWhile
    (tighter power)).takeWhile (tighter floor) := by
  have hpos : ∀ link ∈ links.takeWhile (tighter power), tighter floor link := fun link hm =>
    tighter_iff.2 (h.trans (tighter_iff.1 (mem_takeWhile_imp hm)))
  rw [← takeWhile_append_of_pos hpos, takeWhile_append_dropWhile]

lemma row_append (before after : List Link) : row (before ++ after) = row before ++ row after :=
  flatMap_append

lemma row_divide (power : Power) (before links : List Link) : row (before ++ links) =
    row (before ++ links.takeWhile (tighter power)) ++ row (links.dropWhile (tighter power)) := by
  rw [← row_append, append_assoc, takeWhile_append_dropWhile]

lemma length_le_row (links : List Link) : links.length ≤ (row links).length := by
  have hlength : (row links).length = links.length * 2 := by simp [row, length_flatMap]
  omega

/-- What was read before is grouped with the operands up to the first operator that does not bind
more tightly than a floor. -/
def Grouped (floor : Power) (c : Cursor) (done : List Token) (left : Grouping) (links : List Link)
    (id : ExprId) (c' : Cursor) : Prop :=
  ∃ g : Grouping, c.Gives (done ++ row (links.takeWhile (tighter floor))) (·.Groups g) id c' ∧
    g.Ordered ∧ g.first = left.first ∧ g.links = left.links ++ links.takeWhile (tighter floor)

/-- A reader that groups rows of fewer operators than a limit. -/
def Orders (read : Reader) (limit : Nat) : Prop :=
  ∀ ⦃floor : Power⦄ ⦃c : Cursor⦄ ⦃first : Operand⦄ ⦃links : List Link⦄ ⦃next : Token⦄
    ⦃rest : List Token⦄, links.length < limit → Token.Forward (first.token :: row links) →
    c.tokens = first.token :: row links ++ next :: rest → ofToken next.kind = .default →
      Ensures (read (.expr floor)) c (Grouped floor c [first.token] (.leaf first) links)

variable {read : Reader} {limit : Nat} (hread : Orders read limit) {floor : Power} {c c' : Cursor}
  {next : Token} {rest : List Token} (hn : ofToken next.kind = .default)

include hread hn

/-- What was read before an operator becomes its left operand. -/
lemma ensures_join {sign : Sign} {operand done links left l}
    (hl : links.length < limit) (hleft : c.Gives done (·.Groups left) l c')
    (hf : Token.Forward (done ++ row ((sign, operand) :: links)))
    (hc : c'.tokens = row ((sign, operand) :: links) ++ next :: rest) :
    Ensures (extend read l sign.power) c' fun id c2 => ∃ right : Grouping,
      c.Gives (done ++ row ((sign, operand) :: links.takeWhile (tighter sign.power)))
      (·.Groups (.join sign left right)) id c2 ∧
      right.Ordered ∧ right.first = operand ∧ right.links = links.takeWhile (tighter sign.power) := by
  refine ensures_extend sign.kind_eq hc (by simp) fun c1 h1 => ?_
  have hf1 : Token.Forward (operand.token :: row links) := hf.right.sublist (sublist_cons_self ..)
  refine (hread hl hf1 (h1.tokens_eq_of hc) hn).bind ?_
  rintro r c2 ⟨right, h2, hordered, hfirst, hlinks⟩
  have hpasses := h1.trans h2.toPasses
  have hf2 : Token.Forward (done ++ row ((sign, operand) :: links.takeWhile (tighter sign.power))) := by
    rw [show row ((sign, operand) :: links) = _ from row_divide sign.power [_] links, ← append_assoc] at hf
    exact hf.left
  refine (ensures_close_left hleft hpasses hf2 fun hextends hx => ?_).imp fun id c3 h3 =>
    ⟨right, h3, hordered, hfirst, hlinks⟩
  exact ⟨l, r, _, hx, hleft.denotes.mono (hpasses.extends_.trans hextends), h2.denotes.mono hextends⟩

/-- What was read so far binds no more loosely than the operator ahead, so that it can become the
left operand. -/
lemma ensures_climb {bound : Nat} : ∀ {done links left l c'},
    links.length < bound → links.length ≤ limit → c.Gives done (·.Groups left) l c' → left.Ordered →
      (∀ link ∈ links.head?, ∀ root ∈ left.root?, link.1.power.rank ≤ root.power.rank) →
      Token.Forward (done ++ row links) → c'.tokens = row links ++ next :: rest →
        Ensures (climbWithin read floor bound l) c' (Grouped floor c done left links) := by
  induction bound with
  | zero => exact fun hb => absurd hb (Nat.not_lt_zero _)
  | succ bound ih =>
    intro done links left l c' hb hl hleft hordered hahead hf hc
    have hstop (h : links.takeWhile (tighter floor) = []) : Grouped floor c done left links l c' := by
      rw [Grouped, h]
      exact ⟨left, by rwa [row, flatMap_nil, append_nil], hordered, rfl, (append_nil _).symm⟩
    cases links with
    | nil => exact ensures_climb_stop hc (by simp [hn, rank]) (hstop rfl)
    | cons link links =>
      obtain ⟨sign, operand⟩ := link
      by_cases htight : tighter floor (sign, operand)
      · refine ensures_kind_bind.2 ?_
        have hrank : ¬(ofToken sign.token.kind).rank ≤ floor.rank := Nat.not_le.2 (tighter_iff.1 htight)
        dsimp only
        rw [Cursor.current_eq hc, if_neg hrank]
        refine (ensures_join hread hn hl hleft hf hc).bind ?_
        rintro id c2 ⟨right, h2, hright, rfl, hlinks⟩
        have hjoin : (Grouping.join sign left right).Ordered := by
          refine ⟨hordered, hright, hahead _ rfl, fun root hm => ?_⟩
          obtain ⟨_, hlink⟩ := Grouping.exists_root hm
          exact tighter_iff.1 (mem_takeWhile_imp (hlinks ▸ hlink))
        have hahead' : ∀ link ∈ (links.dropWhile (tighter sign.power)).head?,
            ∀ root ∈ (Grouping.join sign left right).root?, link.1.power.rank ≤ root.power.rank := by
          rintro link hm _ ⟨⟩
          have hnot := head?_dropWhile_not (tighter sign.power) links
          rw [hm] at hnot
          exact Nat.not_lt.1 (mt tighter_iff.2 (Bool.not_eq_true _ ▸ hnot))
        have hlength := (dropWhile_sublist (l := links) (tighter sign.power)).length_le
        rw [length_cons] at hb hl
        have hrow : row ((sign, right.first) :: links) = row ((sign, right.first) :: links.takeWhile
            (tighter sign.power)) ++ row (links.dropWhile (tighter sign.power)) :=
            row_divide sign.power [_] links
        rw [hrow] at hf hc
        have hc2 : c2.tokens = row (links.dropWhile (tighter sign.power)) ++ next :: rest := by
          refine h2.tokens_eq_of (hleft.tokens_eq.trans ?_)
          rw [hc]
          simp
        refine (ih (by omega) (by omega) h2 hjoin hahead' (by rwa [append_assoc]) hc2).imp ?_
        rintro id' c3 ⟨g, h3, hg, hfirst, hglinks⟩
        have htake := takeWhile_tighter (tighter_iff.1 htight) links
        refine ⟨g, ?_, hg, hfirst, ?_⟩
        · rw [takeWhile_cons_of_pos htight, htake, ← cons_append, row_append, ← append_assoc]
          exact h3
        · rw [hglinks, Grouping.links, hlinks, takeWhile_cons_of_pos htight, htake]
          simp
      · have hrank : (ofToken sign.token.kind).rank ≤ floor.rank := Nat.not_lt.1 fun hlt => htight (tighter_iff.2 hlt)
        exact ensures_climb_stop hc hrank (hstop (takeWhile_cons_of_neg htight))

omit hn in
lemma orders_rule : Orders (Phrase.rule read) (limit + 1) := by
  intro floor c first links next rest hl hf hc hn
  obtain ⟨second, more, hmore⟩ : ∃ second more, row links ++ next :: rest = second :: more :=
    exists_cons_of_ne_nil (by simp)
  have hoperand : Ensures (operand read) c (c.Gives [first.token] (·.Groups (.leaf first))) :=
    ensures_leaf first.leaf_eq rfl (hc.trans (congrArg (first.token :: ·) hmore)) fun hx => ⟨_, hx⟩
  refine hoperand.bind fun l c1 h1 => ensures_get_bind.2 ?_
  have hc1 := h1.tokens_eq_of hc
  exact ensures_climb hread hn ((length_le_row links).trans_lt (Cursor.length_lt hc1))
    (Nat.le_of_lt_succ hl) h1 trivial (fun _ _ _ h => by cases h) hf hc1

omit hread hn in
lemma orders_readWithin (depth : Nat) : Orders (Phrase.readWithin depth) depth := by
  induction depth with
  | zero => exact fun _ _ _ _ _ _ hl => absurd hl (Nat.not_lt_zero _)
  | succ depth ih => exact orders_rule ih

end Grammar

/-- Reading a row of operands at a floor. The operands before the first operator that does not bind
more tightly are read, and no more, and of all the ways to group them the only ordered one is found.
Operators of one power are grouped from the left. -/
theorem Phrase.read_row {first : Operand} {links : List Link} {next : Token} {rest : List Token}
    {c : Cursor} (hf : Token.Forward (first.token :: row links)) (hn : ofToken next.kind = .default)
    (hc : c.tokens = first.token :: row links ++ next :: rest) (floor : Power) : ∃ id c' g,
    Phrase.read (.expr floor) c = .ok id c' ∧ c'.tokens = row (links.dropWhile (tighter floor)) ++
    next :: rest ∧ c.tree.Extends c'.tree ∧ c'.tree.Groups g id ∧ g.Ordered ∧ g.first = first ∧
      g.links = links.takeWhile (tighter floor) ∧ (∀ other : Grouping, other.Ordered →
      other.first = first → other.links = links.takeWhile (tighter floor) → other = g) ∧
      ∀ rank, (∀ link ∈ links.takeWhile (tighter floor), link.1.power.rank = rank) →
        g = .leftmost (.leaf first) (links.takeWhile (tighter floor)) := by
  have hlength : links.length < 2 * c.remaining + 2 := by
    have := length_le_row links
    have := Cursor.length_lt hc
    rw [length_cons] at this
    omega
  obtain ⟨id, c', hread, g, h, hg, rfl, hlinks⟩ := orders_readWithin _ hlength hf hc hn
  have hunique : ∀ other : Grouping, other.Ordered → other.first = g.first →
      other.links = links.takeWhile (tighter floor) → other = g := fun other ho hfirst hs =>
      hg.eq ho hfirst (hs.trans hlinks.symm)
  refine ⟨id, c', g, hread, h.tokens_eq_of ?_, h.extends_, h.denotes, hg, rfl, hlinks, hunique, fun rank hrank => ?_⟩
  · rw [hc, ← nil_append links, row_divide floor]
    simp
  · obtain ⟨hordered, hfirst, hrow⟩ :=
      @Grouping.leftmost_spec rank _ (.leaf g.first) trivial (fun _ h => by cases h) hrank
    exact (hunique _ hordered hfirst hrow).symm

namespace Grammar

def variableAt (offset : Nat) (name : String) : Operand :=
  ⟨⟨.identifier, name, ⟨⟨offset, "a"⟩, ⟨offset + 1, "a"⟩⟩⟩, .name name, rfl⟩

def signAt (offset : Nat) (operator : Operator) : Sign :=
  ⟨⟨operator.kind, "", ⟨⟨offset, "a"⟩, ⟨offset + 1, "a"⟩⟩⟩, operator, rfl⟩

/-- The operands of `x = y = a - b * c`. Assignments are grouped from the left, and the difference
and the product inside the right one. -/
def chain : Grouping :=
  .join (signAt 3 .assign) (.join (signAt 1 .assign) (.leaf (variableAt 0 "x"))
    (.leaf (variableAt 2 "y"))) (.join (signAt 5 (.binary .sub)) (.leaf (variableAt 4 "a"))
      (.join (signAt 7 (.binary .mul)) (.leaf (variableAt 6 "b")) (.leaf (variableAt 8 "c"))))

end Grammar

theorem Phrase.read_row_chain : ∃ id c', Phrase.read (.expr .default) (Cursor.ofTokens "a"
    (chain.first.token :: row chain.links ++ [Token.endOfText ⟨9, "a"⟩])) = .ok id c' ∧
      c'.tokens = [Token.endOfText ⟨9, "a"⟩] ∧ c'.tree.Groups chain id := by
  have hordered : chain.Ordered := by
    simp [chain, Grouping.Ordered, Grouping.root?, signAt, Sign.power, Operator.kind,
      BinaryOperator.kind, ofToken, rank]
  obtain ⟨id, c', g, hread, hrest, -, hgroups, -, -, -, hunique, -⟩ :=
    @Phrase.read_row chain.first chain.links (Token.endOfText ⟨9, "a"⟩) []
      (.ofTokens "a" (chain.first.token :: row chain.links ++ [Token.endOfText ⟨9, "a"⟩]))
      ⟨by decide, by decide⟩ rfl rfl .default
  cases hunique chain hordered rfl rfl
  exact ⟨id, c', hread, hrest, hgroups⟩

end TraitLang
