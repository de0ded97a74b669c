import Mathlib.Data.List.Forall2
import TraitLang.Proofs.Printing.Steps

/-! Reading a printed term gives the term back. Whatever stands in parentheses is read on its own,
and a term in parentheses is extended by what follows it at most once, by the operator that it was
printed with. -/
namespace TraitLang

open Lexeme Parse List Power Cursor Nat

namespace Grammar

variable {c c' c'' : Cursor} {tokens xs ys rest : List Token} {token next : Token} {term : Term}
  {ls rs : List Lexeme} {lexeme : Lexeme} {limit : Nat}

/-! ### Tokens of texts -/

/-- What the text of a term can begin with. -/
def starters : List TokenKind :=
  [.number, .string, .identifier, .trueWord, .falseWord, .dash, .not, .openParen, .ifWord]

lemma exists_starter (h : term.Written ls) : ∃ first more, ls = first :: more ∧ first.1 ∈ starters := by
  cases h with
  | @unary operator =>
    refine ⟨_, _, rfl, ?_⟩
    cases operator <;> decide
  | _ => exact ⟨_, _, rfl, by simp [starters]⟩

/-- The tokens of a text ahead of a cursor, no more than a limit of them, and a token behind
them. -/
structure Ahead (limit : Nat) (ls : List Lexeme) (c : Cursor) (tokens : List Token) (next : Token)
    (rest : List Token) : Prop where
  text : tokens.map Token.lexeme = ls
  forward : Token.Forward tokens
  length_le : tokens.length ≤ limit
  tokens_eq : c.tokens = tokens ++ next :: rest

namespace Ahead

lemma mono {more} (h : Ahead limit ls c tokens next rest) (hl : limit ≤ more) : Ahead more ls c tokens next rest :=
  { h with length_le := h.length_le.trans hl }

lemma behind (h : Ahead limit ls c tokens next rest) (hp : c.Passes tokens c') : c'.tokens = next :: rest :=
  hp.tokens_eq_of h.tokens_eq

/-- Behind the first token of a text the limit is one lower. -/
lemma tail (h : Ahead limit (lexeme :: ls) c (token :: xs) next rest) (hp : c.Passes [token] c') :
    Ahead (limit - 1) ls c' xs next rest :=
  ⟨(cons.inj h.text).2, h.forward.sublist (sublist_cons_self token xs),
    le_sub_one_of_lt h.length_le, hp.tokens_eq_of h.tokens_eq⟩

lemma exists_cons (h : Ahead limit (lexeme :: ls) c tokens next rest) :
    ∃ token xs, tokens = token :: xs ∧ token.lexeme = lexeme := by
  obtain ⟨token, xs, rfl, htoken, -⟩ := map_eq_cons_iff.1 h.text
  exact ⟨token, xs, rfl, htoken⟩

lemma left (h : Ahead limit (ls ++ rs) c (xs ++ token :: ys) next rest)
    (hxs : xs.map Token.lexeme = ls) : Ahead limit ls c xs token (ys ++ next :: rest) :=
  ⟨hxs, h.forward.left, (length_append ▸ le_add_right ..).trans h.length_le, h.tokens_eq.trans (append_assoc ..)⟩

lemma exists_append (h : Ahead limit (ls ++ lexeme :: rs) c tokens next rest) :
    ∃ xs token ys, tokens = xs ++ token :: ys ∧
    token.lexeme = lexeme ∧ Ahead limit ls c xs token (ys ++ next :: rest) ∧
      ∀ {c'}, c.Passes xs c' → Ahead limit (lexeme :: rs) c' (token :: ys) next rest := by
  obtain ⟨xs, _, rfl, hxs, hmore⟩ := map_eq_append_iff.1 h.text
  obtain ⟨token, ys, rfl, htoken, -⟩ := map_eq_cons_iff.1 hmore
  have hl := length_append ▸ h.length_le
  refine ⟨xs, token, ys, rfl, htoken, h.left hxs, fun hp => ⟨hmore, h.forward.right, by omega, ?_⟩⟩
  exact hp.tokens_eq_of (h.tokens_eq.trans (append_assoc ..))

lemma exists_enclosed {first last} (h : Ahead limit (enclosed first last ls) c tokens next rest) :
    ∃ token xs other, tokens = token :: (xs ++ [other]) ∧ token.kind = first.1 ∧ other.kind =
    last.1 ∧ ∀ {c'}, c.Passes [token] c' → Ahead (limit - 1) ls c' xs other (next :: rest) := by
  obtain ⟨token, _, rfl, rfl⟩ := h.exists_cons
  obtain ⟨xs, _, rfl, hxs, hothers⟩ := map_eq_append_iff.1 (cons.inj h.text).2
  obtain ⟨other, rfl, rfl⟩ := map_eq_singleton_iff.1 hothers
  exact ⟨token, xs, other, rfl, rfl, rfl, fun hp => (h.tail hp).left hxs⟩

lemma kind_eq (h : Ahead limit (lexeme :: ls) c tokens next rest) : c.current.kind = lexeme.1 := by
  obtain ⟨_, _, rfl, rfl⟩ := h.exists_cons
  rw [current_eq h.tokens_eq]
  rfl

lemma kind_mem_starters (h : Ahead limit ls c tokens next rest) (hw : term.Written ls) : c.current.kind ∈ starters := by
  obtain ⟨_, _, rfl, _⟩ := exists_starter hw
  rwa [h.kind_eq]

end Ahead

/-! ### Readers of lists -/

/-- A reader of items from their texts, where one of some tokens stands behind. What is made of an
item stays so behind more tokens and in a larger tree. -/
structure Makes {α τ : Type} (item : Parse α) (limit : Nat) (follow : TokenKind → Prop)
    (written : τ → List Lexeme → Prop) (made : List Token → Tree → τ → α → Prop) : Prop where
  run : ∀ ⦃t ls c tokens rest next⦄, written t ls → Ahead limit ls c tokens next rest →
    follow next.kind → Ensures item c fun a c' => c.Passes tokens c' ∧ made tokens c'.tree t a
  mono : ∀ ⦃t a xs ys small large⦄, made xs small t a → xs ⊆ ys → small.Extends large →
  made ys large t a
  start : ∀ ⦃t ls⦄, written t ls → ∃ first more, ls = first :: more ∧ first.1 ≠ .closeParen

section

variable {α β τ : Type} {item : Parse α} {follow : TokenKind → Prop}
  {written : τ → List Lexeme → Prop} {made : List Token → Tree → τ → α → Prop}
  (hitem : Makes item limit follow written made)

include hitem

section

variable {t : τ} (hw : written t ls) {f : α → Bool → Parse β} {post : β → Cursor → Prop}

include hw

lemma ensures_next (h : Ahead limit (ls ++ lexeme :: rs) c tokens next rest)
    (hs : follow lexeme.1) (he : lexeme.1 ≠ .eof) (hf : ∀ {a c' ys}, ys.length < tokens.length →
    ys ⊆ tokens → Ahead limit rs c' ys next rest → made tokens c'.tree t a →
      (∀ {c''}, c'.Passes ys c'' → c.Passes tokens c'') → Ensures (f a true) c' post) :
    Ensures (do let a ← item; let more ← eat lexeme.1; f a more) c post := by
  obtain ⟨xs, token, ys, rfl, rfl, hxs, hys⟩ := h.exists_append
  refine (hitem.run hw hxs hs).bind ?_
  rintro a c1 ⟨h1, ha⟩
  refine ensures_eat_bind (hxs.behind h1) (by simp) rfl he fun c2 h2 => ?_
  refine hf ?_ (subset_append_of_subset_right xs (subset_cons_self token ys))
    (((hys h1).tail h2).mono (sub_le ..)) (hitem.mono ha (subset_append_left ..) h2.extends_)
    fun h3 => h1.trans (h2.trans h3)
  rw [length_append, length_cons]
  omega

lemma ensures_last (h : Ahead limit ls c tokens next rest)
    (hn : follow next.kind) {separator} (hk : next.kind ≠ separator)
    (hf : ∀ {a c'}, c.Passes tokens c' → made tokens c'.tree t a → Ensures (f a false) c' post) :
    Ensures (do let a ← item; let more ← eat separator; f a more) c post := by
  refine (hitem.run hw h hn).bind ?_
  rintro a c1 ⟨h1, ha⟩
  exact ensures_eat_bind_of_ne (h.behind h1) hk (hf h1 ha)

end

variable {ts : List τ} {rs : List (List Lexeme)} (hw : Forall₂ written ts rs) {extra : Bool}

include hw

lemma ensures_commaListWithin (hk : next.kind = .closeParen) (hcomma : follow .comma)
    (hclose : follow .closeParen) : ∀ {extra trailing bound c tokens}, (ts = [] → extra = false) →
      Ahead limit (commas rs ++ if extra then [comma] else []) c tokens next rest → tokens.length <
      bound → Ensures (commaListWithin .closeParen item bound trailing) c fun a c' =>
          c.Passes tokens c' ∧ Forall₂ (made tokens c'.tree) ts a.1 ∧ a.2 = (if ts = [] then trailing else extra) := by
  induction hw with
  | nil =>
    intro extra trailing bound c tokens he h hb
    obtain ⟨bound, rfl⟩ := exists_eq_add_one.2 (zero_lt_of_lt hb)
    cases he rfl
    obtain rfl := map_eq_nil_iff.1 h.text
    refine ensures_kind_bind.2 ?_
    rw [if_pos (by rw [current_eq h.tokens_eq, hk])]
    exact ensures_pure.2 ⟨.refl c, .nil, rfl⟩
  | @cons t ls ts rs ht hts ih =>
    intro extra trailing bound c tokens he h hb
    obtain ⟨bound, rfl⟩ := exists_eq_add_one.2 (zero_lt_of_lt hb)
    have hopen {ls'} (h : Ahead limit (ls ++ ls') c tokens next rest) : c.current.kind ≠ .closeParen := by
      obtain ⟨first, _, rfl, hfirst⟩ := hitem.start ht
      rwa [h.kind_eq]
    -- behind the first item there is a comma, unless the list ends with it
    have hmore (extra' : Bool) (h : Ahead limit
        (ls ++ comma :: (commas rs ++ if extra' then [comma] else [])) c tokens next rest)
        (he' : ts = [] → extra' = false) (heq : (if ts = [] then true else extra') = extra) :
        Ensures (commaListWithin .closeParen item (bound + 1) trailing) c fun a c' =>
          c.Passes tokens c' ∧ Forall₂ (made tokens c'.tree) (t :: ts) a.1 ∧ a.2 = extra := by
      refine ensures_kind_bind.2 ?_
      rw [if_neg (hopen h)]
      refine ensures_next hitem ht h hcomma (by decide) fun {a c1 ys} hlt hsub hys ha hpasses => ?_
      refine (ih he' hys (by omega)).bind ?_
      rintro ⟨items, trailing'⟩ c2 ⟨h2, hitems, htrailing⟩
      refine ensures_pure.2 ⟨hpasses h2, .cons (hitem.mono ha (fun _ => id) h2.extends_) ?_, htrailing.trans heq⟩
      exact hitems.imp fun _ _ h => hitem.mono h hsub (.refl _)
    cases hts with
    | nil =>
      cases extra with
      | false =>
        refine ensures_kind_bind.2 ?_
        rw [if_neg (hopen h)]
        refine ensures_last hitem ht (append_nil ls ▸ h) (hk ▸ hclose) (by simp [hk]) fun h1 ha => ?_
        exact ensures_pure.2 ⟨h1, .cons ha .nil, rfl⟩
      | true => exact hmore false h (fun _ => rfl) rfl
    | cons hnext hts =>
      refine hmore extra ?_ (fun hnil => by cases hnil) rfl
      simpa [commas] using h

lemma ensures_list_bind (hcomma : follow .comma) (hclose : follow .closeParen)
    (he : ts = [] → extra = false)
    (h : Ahead (limit + 1) (parens (commas rs ++ if extra then [comma] else [])) c tokens next rest)
    {f : Token → List α × Bool → Parse β} {post} (hpost : ∀ first items c',
    first ∈ tokens → c.Passes tokens c' → Forall₂ (made tokens c'.tree) ts items →
      Ensures (f first (items, extra)) c' post) : Ensures (do
      let first ← advance
      let found ← commaList .closeParen item
      let _ ← expect .closeParen
      f first found) c post := by
  obtain ⟨token, _, _, rfl, hk, hk', hinside⟩ := h.exists_enclosed
  refine ensures_advance_bind h.tokens_eq (by simp) (by simp [hk]) fun c1 h1 => ?_
  have hxs := hinside h1
  refine (ensures_get_bind.2
    (ensures_commaListWithin hitem hw hk' hcomma hclose he hxs (length_lt hxs.tokens_eq))).bind ?_
  rintro ⟨items, trailing⟩ c2 ⟨h2, hitems, htrailing⟩
  obtain rfl : trailing = extra := by grind
  refine ensures_expect_bind (hxs.behind h2) (by simp) hk' (by decide) fun c3 h3 => ?_
  refine hpost token items c3 mem_cons_self (h1.trans (h2.trans h3)) (hitems.imp fun _ _ h => ?_)
  exact hitem.mono h (fun t ht => mem_cons_of_mem token (mem_append_left _ ht)) h3.extends_

lemma ensures_separatedWithin (hn : follow next.kind)
    (hs : follow lexeme.1) (he : lexeme.1 ≠ .eof) (hk : next.kind ≠ lexeme.1) :
    ∀ {bound c tokens}, ts ≠ [] → Ahead limit ([lexeme].intercalate rs) c tokens next rest →
      tokens.length < bound → Ensures (separatedWithin lexeme.1 item bound) c fun items c' =>
        c.Passes tokens c' ∧ Forall₂ (made tokens c'.tree) ts items := by
  induction hw with
  | nil => exact fun hne => absurd rfl hne
  | @cons _ _ _ _ ht hts ih =>
    intro bound c tokens _ h hb
    obtain ⟨_, rfl⟩ := exists_eq_add_one.2 (zero_lt_of_lt hb)
    cases hts with
    | nil =>
      rw [intercalate_singleton] at h
      exact ensures_last hitem ht h hn hk fun h1 ha => ensures_pure.2 ⟨h1, .cons ha .nil⟩
    | cons hnext hts =>
      refine ensures_next hitem ht h hs he fun {a c1 ys} hlt hsub hys ha hpasses => ?_
      refine (ih (by simp) hys (by omega)).bind ?_
      rintro items c2 ⟨h2, hitems⟩
      refine ensures_pure.2 ⟨hpasses h2, .cons (hitem.mono ha (fun _ => id) h2.extends_) ?_⟩
      exact hitems.imp fun _ _ h => hitem.mono h hsub (.refl _)

end

lemma commas_eq (rs : List (List Lexeme)) : commas rs = [comma].intercalate rs := by
  fun_induction commas rs with
  | case1 => rfl
  | case2 ls => exact intercalate_singleton.symm
  | case3 ls more hne ih =>
    obtain ⟨_, _, rfl⟩ := exists_cons_of_ne_nil hne
    simp_all

/-! ### Readers of terms -/

/-- A term and a text from which it is read at a floor: any text of it where nothing may be left for
what follows, and a text in parentheses anywhere. -/
inductive Fits : Power → Term → List Lexeme → Prop
  | whole {term : Term} {ls : List Lexeme} : term.Written ls → Fits .default term ls
  | group {floor : Power} {term : Term} {ls : List Lexeme} : term.Written ls → Fits floor term (parens ls)

/-- A reader that reads terms from texts up to a length. -/
def Able (read : Reader) (limit : Nat) : Prop :=
  ∀ ⦃floor : Power⦄ ⦃term : Term⦄ ⦃ls : List Lexeme⦄ ⦃c : Cursor⦄ ⦃tokens rest : List Token⦄
    ⦃next : Token⦄, Fits floor term ls → Ahead limit ls c tokens next rest →
    (ofToken next.kind).rank ≤ floor.rank → Ensures (read (.expr floor)) c (c.Yields tokens term)

/-- What is made of the expression that is a term. -/
def Shown {α : Type} (make : ExprId → α) (tokens : List Token) (tree : Tree) (term : Term) (a : α) : Prop :=
  ∃ x, a = make x ∧ tree.Denotes term x ∧ tree.StartsAt tokens x

lemma exists_denotesAll {α : Type} {make : ExprId → α} {tree terms items}
    (h : Forall₂ (Shown make tokens tree) terms items) : ∃ ids, items = ids.map make ∧ tree.DenotesAll terms ids := by
  induction h with
  | nil => exact ⟨[], rfl, rfl⟩
  | cons hterm _ ih =>
    obtain ⟨x, rfl, hx, -⟩ := hterm
    obtain ⟨ids, rfl, hids⟩ := ih
    exact ⟨x :: ids, rfl, x, ids, rfl, hx, hids⟩

variable {read : Reader} (hread : Able read limit) {terms clauses : List Term}
  {rs : List (List Lexeme)} {clause left right : Term} {floor power : Power} {extra : Bool}

include hread

lemma makes_of {α : Type} {item} {make : ExprId → α} (h : ∀ {c}, c.current.kind ∈ starters →
    ∀ {post}, Ensures (make <$> read (.expr .default)) c post → Ensures item c post) :
    Makes item limit (ofToken · = .default) Term.Written (Shown make) where
  run term ls c tokens rest next hw hahead hn := by
    refine h (hahead.kind_mem_starters hw) ?_
    refine (hread (.whole hw) hahead (by rw [hn])).bind fun x c1 h1 => ?_
    exact ensures_pure.2 ⟨h1.toPasses, x, rfl, h1.denotes, h1.starts⟩
  mono := by
    rintro term _ xs ys small large ⟨x, rfl, hx, hstart⟩ hs he
    exact ⟨x, rfl, hx.mono he, hstart.mono hs he⟩
  start term ls hw := by
    obtain ⟨first, more, rfl, hfirst⟩ := exists_starter hw
    exact ⟨first, more, rfl, fun hclose => by simp [hclose, starters] at hfirst⟩

lemma makes_term : Makes (read (.expr .default)) limit (ofToken · = .default) Term.Written (Shown id) := by
  refine makes_of hread fun _ post h => ?_
  rwa [id_map] at h

lemma makes_conditionItem : Makes (conditionItem read) limit (ofToken · = .default) Term.Written (Shown .expr) := by
  refine makes_of hread fun {c} hkind post h => ensures_kind_bind.2 ?_
  split
  next hlet => simp [hlet, starters] at hkind
  next hvar => simp [hvar, starters] at hkind
  next => exact h

/-! ### Operands -/

lemma ensures_braced (hw : term.Written ls) (h : Ahead limit (braces ls) c tokens next rest) :
    Ensures (braced read) c fun id c' => c.Passes tokens c' ∧ c'.tree.Denotes term id := by
  obtain ⟨_, _, _, rfl, hk, hk', hinside⟩ := h.exists_enclosed
  refine ensures_expect_bind h.tokens_eq (by simp) hk (by decide) fun c1 h1 => ?_
  have hxs := (hinside h1).mono (sub_le ..)
  refine (hread (.whole hw) hxs (by rw [hk']; decide)).bind fun x c2 h2 => ?_
  refine ensures_expect_bind (hxs.behind h2.toPasses) (by simp) hk' (by decide) fun c3 h3 => ?_
  exact ensures_pure.2 ⟨h1.trans (h2.toPasses.trans h3), h2.denotes.mono h3.extends_⟩

/-- Parentheses around one term leave no trace. -/
lemma ensures_group (hw : term.Written ls) (h : Ahead (limit + 1) (parens ls) c tokens next rest) :
    Ensures (operand read) c (c.Yields tokens term) := by
  refine ensures_kind_bind.2 ?_
  rw [h.kind_eq]
  have hterms : Forall₂ Term.Written [term] [ls] := .cons hw .nil
  have hlist : Ahead (limit + 1) (parens (commas [ls] ++ if false then [comma] else [])) c tokens next rest := by
    simpa [commas] using h
  refine ensures_list_bind (makes_term hread) hterms rfl rfl (by simp) hlist ?_
  rintro first _ c' - h' (_ | ⟨⟨x, rfl, hx, hstart⟩, _ | _⟩)
  exact ensures_pure.2 ⟨h', hx, hstart⟩

lemma ensures_tuple (hw : Forall₂ Term.Written terms rs) (he : terms.length = 1 ↔ extra = true)
    (h : Ahead (limit + 1) (parens (commas rs ++ if extra then [comma] else []))
    c tokens next rest) : Ensures (operand read) c (c.Yields tokens (.tuple terms)) := by
  refine ensures_kind_bind.2 ?_
  rw [h.kind_eq]
  have hnil : terms = [] → extra = false := by
    rintro rfl
    simpa using he
  refine ensures_list_bind (makes_term hread) hw rfl rfl hnil h fun first items c' hfirst h' hitems => ?_
  have hlength := hitems.length_eq
  obtain ⟨ids, rfl, hids⟩ := exists_denotesAll hitems
  rw [map_id] at hlength ⊢
  split
  next hone hlast => grind
  next => exact ensures_close h' h.forward hfirst rfl fun hextends hx => ⟨ids, _, hx, hids.mono hextends⟩

lemma ensures_unary {operator} (hw : term.Written ls) (h : Ahead (limit + 1)
    (operator.lexeme :: parens ls) c tokens next rest) (hn : ofToken next.kind = .default) :
    Ensures (operand read) c (c.Yields tokens (.unary operator term)) := by
  obtain ⟨token, xs, rfl, htoken⟩ := h.exists_cons
  have hk : token.kind = operator.lexeme.1 := congrArg Prod.fst htoken
  have hunary : Ensures (unary read) c (c.Yields (token :: xs) (.unary operator term)) := by
    refine ensures_advance_bind h.tokens_eq (by simp)
      (by cases operator <;> simp [hk, UnaryOperator.lexeme]) fun c1 h1 => ?_
    have hoperator : (if token.kind = .not then UnaryOperator.not else .neg) = operator := by
      cases operator <;> simp [hk, UnaryOperator.lexeme]
    rw [hoperator]
    refine (hread (.group hw) (h.tail h1) (by simp [hn, rank])).bind fun x c2 h2 => ?_
    refine ensures_close (h1.trans h2.toPasses) h.forward mem_cons_self rfl fun hextends hx => ?_
    exact ⟨x, _, hx, h2.denotes.mono hextends⟩
  refine ensures_kind_bind.2 ?_
  rw [h.kind_eq]
  cases operator with
  | neg => exact hunary
  | not => exact hunary

lemma ensures_conditional {success failure ls'} (hcs : Forall₂ Term.Written (clause :: clauses) rs)
    (hs : success.Written ls) (hfail : failure.Written ls') (h : Ahead (limit + 1) ((.ifWord,
    "if") :: (commas rs ++ (braces ls ++ (.elseWord, "else") :: braces ls'))) c tokens next rest) :
      Ensures (operand read) c (c.Yields tokens (.cond clause clauses success failure)) := by
  obtain ⟨token, _, rfl, htoken⟩ := h.exists_cons
  have hk : token.kind = .ifWord := congrArg Prod.fst htoken
  refine ensures_kind_bind.2 ?_
  rw [h.kind_eq]
  refine ensures_advance_bind h.tokens_eq (by simp) (by simp [hk]) fun c1 h1 => ?_
  obtain ⟨xs, brace, _, rfl, hbrace, hxs, hmore⟩ := (h.tail h1).exists_append
  have hcurly : brace.kind = .openCurly := congrArg Prod.fst hbrace
  rw [commas_eq] at hxs
  have hcurly' : ofToken brace.kind = .default := by rw [hcurly]; rfl
  refine (ensures_get_bind.2 (ensures_separatedWithin (makes_conditionItem hread) hcs hcurly' rfl
    (by decide) (by simp [hcurly, comma]) (cons_ne_nil _ _) hxs (length_lt hxs.tokens_eq))).bind ?_
  rintro _ c2 ⟨h2, hitems⟩
  obtain ⟨_, rfl, hids⟩ := exists_denotesAll hitems
  obtain ⟨_, other, _, heq, hother, hys, hmore⟩ :=
    (show Ahead limit (braces ls ++ _ :: _) _ _ _ _ from hmore h2).exists_append
  have hk' : other.kind = .elseWord := congrArg Prod.fst hother
  refine (ensures_braced hread hs hys).bind ?_
  rintro y c3 ⟨h3, hy⟩
  refine ensures_expectFor_bind (hys.behind h3) (by simp) hk' (by decide) fun c4 h4 => ?_
  have hzs := ((hmore h3).tail h4).mono (sub_le ..)
  refine ensures_kind_bind.2 ?_
  rw [if_neg (by rw [hzs.kind_eq]; decide)]
  refine (ensures_braced hread hfail hzs).bind ?_
  rintro z c5 ⟨h5, hz⟩
  have hpasses := h1.trans (h2.trans (h3.trans (h4.trans h5)))
  rw [singleton_append, singleton_append, ← heq] at hpasses
  refine ensures_close hpasses h.forward mem_cons_self rfl fun hextends hnode => ?_
  have he3 := h4.extends_.trans (h5.extends_.trans hextends)
  obtain ⟨x, xs, rfl, hx, hxs⟩ := hids.mono (h3.extends_.trans he3)
  exact ⟨x, xs, y, z, _, hnode, hx, hxs, hy.mono he3, hz.mono hextends⟩

/-- The expression that a lexeme makes up alone. -/
def leaf? : Lexeme → Option ExprKind
  | (.number, digits) =>
    let value := decimal digits.toList
    if value ≤ maxInteger then some (.int value) else none
  | (.identifier, name) => some (.name name)
  | (.string, value) => some (.str value)
  | (.trueWord, _) => some (.bool true)
  | (.falseWord, _) => some (.bool false)
  | _ => none

omit hread in
lemma ensures_leaf {kind holds} (hk : leaf? lexeme = some kind)
    (ht : tokens.map Token.lexeme = [lexeme]) (hc : c.tokens = tokens ++ next :: rest)
    (hd : ∀ {id tree span}, tree.expr? id = some ⟨kind, span⟩ → holds tree id) :
    Ensures (operand read) c (c.Gives tokens holds) := by
  obtain ⟨token, rfl, rfl⟩ := map_eq_singleton_iff.1 ht
  -- the token is passed, and then its node is made
  have hinsert (hne : token.kind ≠ .eof) :
      Ensures (do let _ ← advance; insertExpr kind token.span) c (c.Gives [token] holds) :=
    ensures_advance_bind hc (by simp) hne fun c1 h1 => ensures_insert h1 mem_cons_self rfl fun _ => hd
  have hcurrent : c.current = token := current_eq hc
  have hprimary : Ensures primary c (c.Gives [token] holds) := by
    refine ensures_current_bind.2 ?_
    rw [hcurrent]
    obtain ⟨tokenKind, value, span⟩ := token
    cases tokenKind with
    | number =>
      simp_all [leaf?, Token.lexeme]
    | identifier | string | trueWord | falseWord =>
      cases hk
      exact hinsert (by simp)
    | _ => cases hk
  refine ensures_kind_bind.2 ?_
  rw [hcurrent]
  obtain ⟨tokenKind, _, _⟩ := token
  cases tokenKind with
  | number | identifier | string | trueWord | falseWord => exact hprimary
  | _ => cases hk

/-! ### Operators -/

inductive Operator where
  | binary (operator : BinaryOperator)
  | assign

namespace Operator

def kind : Operator → TokenKind
  | .binary operator => operator.kind
  | .assign => .assignment

def node : Operator → ExprId → ExprId → ExprKind
  | .binary operator, left, right => .binary operator left right
  | .assign, left, right => .assign left right

end Operator

omit hread in
/-- What is behind an operator is its right operand. -/
lemma ensures_extend {operator : Operator} {l post} (hk : token.kind = operator.kind)
    (hc : c.tokens = token :: xs) (hne : xs ≠ []) (h : ∀ c1, c.Passes [token] c1 → Ensures (do
      let r ← read (.expr power)
      let start ← exprStart l
      insertExpr (operator.node l r) (← spanFrom start)) c1 post) : Ensures (extend read l power) c post := by
  refine ensures_kind_bind.2 ?_
  rw [current_eq hc, hk]
  cases operator with
  | assign => exact ensures_advance_bind hc hne (by rw [hk]; decide) h
  | binary operator =>
    have hbinary : Ensures (binary read l power) c post := by
      refine ensures_advance_bind hc hne
        (by cases operator <;> simp [hk, Operator.kind, BinaryOperator.kind]) fun c1 h1 => ?_
      have hoperator : BinaryOperator.ofToken? token.kind = some operator := by
        rw [hk]
        cases operator <;> rfl
      rw [hoperator]
      exact h c1 h1
    cases operator <;> exact hbinary

/-! ### Whole expressions -/

omit hread in
lemma ensures_climb_stop {bound id post} (hc : c.tokens = next :: rest)
    (hn : (ofToken next.kind).rank ≤ floor.rank) (h : post id c) :
    Ensures (climbWithin read floor (bound + 1) id) c post := by
  refine ensures_kind_bind.2 ?_
  rw [current_eq hc, if_pos hn]
  exact ensures_pure.2 h

omit hread in
lemma ensures_expr_of_operand (ho : Ensures (operand read) c (c.Yields tokens term))
    (hc : c.tokens = tokens ++ next :: rest) (hn : (ofToken next.kind).rank ≤ floor.rank) :
    Ensures (expr read floor) c (c.Yields tokens term) := by
  refine ho.bind fun id c1 h1 => ensures_get_bind.2 ?_
  exact ensures_climb_stop (h1.tokens_eq_of hc) hn h1

/-- An expression that is an operand in parentheses and what extends it once. -/
lemma ensures_expr_of_extend {ls rs}
    (hw : left.Written ls) (h : Ahead (limit + 1) (parens ls ++ lexeme :: rs) c tokens next rest)
    (hk : ofToken lexeme.1 ≠ .default) (hn : ofToken next.kind = .default)
    (hextend : ∀ xs token ys id c1, tokens = xs ++ token :: ys → token.lexeme = lexeme →
      c.Yields xs left id c1 → Ahead (limit + 1) (lexeme :: rs) c1 (token :: ys) next rest →
        Ensures (extend read id (ofToken lexeme.1)) c1 (c.Yields tokens term)) :
    Ensures (expr read .default) c (c.Yields tokens term) := by
  obtain ⟨xs, token, ys, rfl, htoken, hxs, hmore⟩ := h.exists_append
  refine (ensures_group hread hw hxs).bind fun left c1 h1 => ensures_get_bind.2 (ensures_kind_bind.2 ?_)
  have hrank : ¬(ofToken lexeme.1).rank ≤ default.rank := by
    intro hle
    exact hk (rank_injective (le_zero.1 hle))
  rw [(hmore h1.toPasses).kind_eq, if_neg hrank]
  refine (hextend xs token ys left c1 rfl htoken h1 (hmore h1.toPasses)).bind fun id c2 h2 => ?_
  exact ensures_climb_stop (h.behind h2.toPasses) (by rw [hn]) h2

lemma ensures_operator {operator : Operator} {l rs lexeme} (hk : lexeme.1 = operator.kind)
    (hw : right.Written rs) (hl : c.Yields xs left l c')
    (h : Ahead (limit + 1) (lexeme :: parens rs) c' (token :: ys) next rest)
    (hf : Token.Forward (xs ++ token :: ys)) (hn : ofToken next.kind = .default)
    (hd : ∀ {tree : Tree} {id span r}, tree.expr? id = some ⟨operator.node l r, span⟩ →
      tree.Denotes left l → tree.Denotes right r → tree.Denotes term id) :
    Ensures (extend read l power) c' (c.Yields (xs ++ token :: ys) term) := by
  have hkind : token.kind = operator.kind := (congrArg Prod.fst (cons.inj h.text).1).trans hk
  refine ensures_extend hkind h.tokens_eq (by simp) fun c1 h1 => ?_
  refine (hread (.group hw) (h.tail h1) (by simp [hn, rank])).bind fun r c2 h2 => ?_
  have hpasses := h1.trans h2.toPasses
  refine ensures_close_left hl hpasses hf fun hextends hx => ?_
  exact hd hx (hl.denotes.mono (hpasses.extends_.trans hextends)) (h2.denotes.mono hextends)

lemma ensures_call {l} (hw : Forall₂ Term.Written terms rs) (hl : c.Yields xs left l c')
    (h : Ahead (limit + 1) (parens (commas rs)) c' ys next rest) (hf : Token.Forward (xs ++ ys)) :
    Ensures (extend read l power) c' (c.Yields (xs ++ ys) (.call left terms)) := by
  refine ensures_kind_bind.2 ?_
  rw [h.kind_eq]
  have hlist : Ahead (limit + 1)
      (parens (commas rs ++ if false then [comma] else [])) c' ys next rest := by simpa using h
  refine ensures_list_bind (makes_term hread) hw rfl rfl (fun _ => rfl) hlist fun first items c1 _ h1 hitems => ?_
  obtain ⟨ids, rfl, hids⟩ := exists_denotesAll hitems
  rw [map_id]
  refine ensures_close_left hl h1 hf fun hextends hx => ⟨l, ids, _, hx, ?_, hids.mono hextends⟩
  exact hl.denotes.mono (h1.extends_.trans hextends)

omit hread in
lemma ensures_member {name l} (hl : c.Yields xs left l c') (h : Ahead limit [(.dot, "."),
    (.identifier, name.text)] c' ys next rest) (hf : Token.Forward (xs ++ ys)) :
    Ensures (extend read l power) c' (c.Yields (xs ++ ys) (.member left name)) := by
  obtain ⟨token, _, rfl, htoken⟩ := h.exists_cons
  have hk : token.kind = .dot := congrArg Prod.fst htoken
  refine ensures_kind_bind.2 ?_
  rw [h.kind_eq]
  refine ensures_advance_bind h.tokens_eq (by simp) (by simp [hk]) fun c1 h1 => ?_
  obtain ⟨other, rfl, hother⟩ := map_eq_singleton_iff.1 (h.tail h1).text
  have hk' : other.kind = .identifier := congrArg Prod.fst hother
  have hvalue : other.value = name.text := congrArg Prod.snd hother
  refine ensures_expectFor_bind (h.tail h1).tokens_eq (by simp) hk' (by decide) fun c2 h2 => ?_
  rw [hvalue]
  refine ensures_close_left hl (h1.trans h2) hf fun hextends hx => ⟨l, _, hx, ?_⟩
  exact hl.denotes.mono ((h1.trans h2).extends_.trans hextends)

omit hread in
lemma decimal_toString (n : Nat) : decimal (toString n).toList = n := by
  rw [toString_eq_ofList_toDigits, String.toList_ofList, decimal]
  refine Eq.trans ?_ (@Nat.ofDigitChars_ten_toDigits n)
  rw [ofDigitChars_eq_foldl]
  simp only [mul_comm]

lemma able_rule : Able (Phrase.rule read) (limit + 1) := by
  intro floor term ls c tokens rest next hfits h hn
  have hc := h.tokens_eq
  cases hfits with
  | group hw => exact ensures_expr_of_operand (ensures_group hread hw h) hc hn
  | whole hw =>
    have hnext : ofToken next.kind = .default := rank_injective (le_zero.1 hn)
    cases hw with
    | int value =>
      refine ensures_expr_of_operand (ensures_leaf ?_ h.text hc fun hx => ⟨_, hx⟩) hc hn
      rw [leaf?, decimal_toString]
      exact if_pos (le_of_lt_succ value.isLt)
    | str | true | false | name => exact ensures_expr_of_operand (ensures_leaf rfl h.text hc fun hx => ⟨_, hx⟩) hc hn
    | group hw => exact ensures_expr_of_operand (ensures_group hread hw h) hc hn
    | call hw hxs =>
      refine ensures_expr_of_extend hread hw h (by decide) hnext ?_
      rintro xs token ys l c1 rfl - h1 hys
      exact ensures_call hread hxs h1 hys h.forward
    | @binary operator _ _ _ _ hw hr =>
      refine ensures_expr_of_extend hread hw h (by cases operator <;> decide) hnext ?_
      rintro xs token ys l c1 rfl - h1 hys
      refine @ensures_operator _ _ _ _ _ _ _ _ _ _ hread _ _ _ (.binary operator) _ _ _ rfl hr h1 hys h.forward hnext ?_
      exact fun hx hl hr => ⟨l, _, _, hx, hl, hr⟩
    | unary hw => exact ensures_expr_of_operand (ensures_unary hread hw h hnext) hc hn
    | assign hw hr =>
      refine ensures_expr_of_extend hread hw h (by decide) hnext ?_
      rintro xs token ys l c1 rfl - h1 hys
      refine @ensures_operator _ _ _ _ _ _ _ _ _ _ hread _ _ _ .assign _ _ _ rfl hr h1 hys h.forward hnext ?_
      exact fun hx hl hr => ⟨l, _, _, hx, hl, hr⟩
    | tuple hmany hxs =>
      refine ensures_expr_of_operand ?_ hc hn
      exact @ensures_tuple _ _ _ _ _ _ hread _ _ false hxs (by simpa using hmany) (by simpa using h)
    | single hw =>
      refine ensures_expr_of_operand ?_ hc hn
      exact @ensures_tuple _ _ _ _ _ _ hread _ _ true (.cons hw .nil) (by simp) (by simpa [commas] using h)
    | member hw =>
      refine ensures_expr_of_extend hread hw h (by decide) hnext ?_
      rintro xs token ys l c1 rfl - h1 hys
      exact ensures_member h1 hys h.forward
    | cond hcs hs hfail => exact ensures_expr_of_operand (ensures_conditional hread hcs hs hfail h) hc hn

omit hread in
lemma able_readWithin (depth : Nat) : Able (Phrase.readWithin depth) depth := by
  induction depth with
  | zero =>
    intro floor term ls c tokens rest next hfits h
    obtain rfl := length_eq_zero_iff.1 (le_zero.1 h.length_le)
    have ht := h.text
    cases hfits with
    | whole hw =>
      obtain ⟨_, _, rfl, -⟩ := exists_starter hw
      cases ht
    | group hw => cases ht
  | succ depth ih => exact able_rule ih

end Grammar

/-- Reading what was printed. Every term has a text, and the tokens of any text of it, whatever
follows them that does not extend an expression, are read as this term: the tokens are passed, no
other ones are, and the tree gets an expression that is the term. -/
theorem Term.read_written (term : Term) : term.Written term.print ∧ ∀ lexemes, term.Written lexemes → ∀ file : String,
    ∃ tokens, Token.scan file (String.ofList (Lexeme.spaced lexemes)) =
        .ok (tokens ++ [Token.endOfText ⟨Text.byteLength (Lexeme.spaced lexemes), file⟩]) ∧
      ∀ (c : Cursor) (next : Token) (rest : List Token), c.tokens = tokens ++ next :: rest →
        ofToken next.kind = .default → ∃ id c', Phrase.read (.expr .default) c = .ok id c' ∧
          c'.tokens = next :: rest ∧ c.tree.Extends c'.tree ∧ c'.tree.Denotes term id := by
  refine ⟨term.written_print, fun lexemes h file => ?_⟩
  obtain ⟨pieces, hcut, hpieces⟩ := Lexeme.cut_spaced lexemes (legible_written h)
  obtain ⟨tokens, hscan, hlexemes, hforward⟩ := Token.scan_of_cut (by rwa [String.toList_ofList]) file
  rw [Text.utf8ByteSize_eq, String.toList_ofList] at hscan
  refine ⟨tokens, hscan, fun c next rest hc hn => ?_⟩
  have hlength : tokens.length ≤ 2 * c.remaining + 2 := by
    have := length_lt hc
    omega
  obtain ⟨id, c', hread, hyields⟩ := Grammar.able_readWithin _ (.whole h) ⟨hlexemes.trans hpieces,
    hforward, hlength, hc⟩ (by rw [hn])
  exact ⟨id, c', hread, hyields.tokens_eq_of hc, hyields.extends_, hyields.denotes⟩

/-- A difference of a negative number and a tuple of one text. -/
def Term.difference : Term := .binary .sub (.unary .neg (.int 7)) (.tuple [.str "a\"\n"])

theorem Term.read_written_difference : ∃ tokens, Token.scan "a"
    "( - ( 7 ) ) - ( ( ( \"a\\\"\\n\" ) , ) )" = .ok (tokens ++ [Token.endOfText ⟨35, "a"⟩]) ∧
      ∃ id c', Phrase.read (.expr .default) (ofTokens "a" (tokens ++ [Token.endOfText ⟨35, "a"⟩])) =
      .ok id c' ∧ c'.tokens = [Token.endOfText ⟨35, "a"⟩] ∧ c'.tree.Denotes difference id := by
  obtain ⟨hprint, hread⟩ := difference.read_written
  obtain ⟨tokens, hscan, hparse⟩ := hread _ hprint "a"
  have htext : String.ofList (Lexeme.spaced difference.print) = "( - ( 7 ) ) - ( ( ( \"a\\\"\\n\" ) , ) )" := by
    decide +kernel
  have hsize : Text.byteLength (Lexeme.spaced difference.print) = 35 := by decide +kernel
  have htokens : (ofTokens "a" (tokens ++ [Token.endOfText ⟨35, "a"⟩])).tokens = tokens ++
      Token.endOfText ⟨35, "a"⟩ :: [] := by
    cases tokens <;> rfl
  obtain ⟨id, c', hrun, hrest, -, hdenotes⟩ := hparse _ _ _ htokens rfl
  exact ⟨tokens, hscan, id, c', hrun, hrest, hdenotes⟩

end TraitLang
