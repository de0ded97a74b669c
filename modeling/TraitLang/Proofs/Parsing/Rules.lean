import TraitLang.Proofs.Parsing.Similar
import TraitLang.Proofs.Parsing.Taking

/-! What every rule of the grammar reads. A rule leaves the nodes that were there as they are and
adds the trees of what it answers, in the order of the text and with every slot well filled. Over
the tokens of one text it passes at least one token and answers parts that say the words of the
tokens it passed, or it fails with a diagnostic. The bounds on depth and length are never met there,
because what is inside of a phrase is read after a token of it was passed. -/
namespace TraitLang

open DeclKind Phrase List Token Grammar Pattern Nat Function

/-- What a phrase is made up of. -/
def Phrase.crop : {α : Type} → Phrase α → Crop α
  | _, .expr _ | _, .conditional => .expr
  | _, .typeExpr => .words TypeExpr.parts
  | _, .bindingPattern => .plain
  | _, .casePattern => .pattern
  | _, .block => .node Tree.HasBlock
  | _, .branch => .node Tree.HasBranch

/-- The token that must be in hand where a phrase is read. -/
def Phrase.opener? : {α : Type} → Phrase α → Option TokenKind
  | _, .conditional | _, .branch => some .ifWord
  | _, _ => none

/-- A reader that reads every phrase from cursors with few enough tokens left. -/
def Reader.Able (feed : Feed) (limit : Nat) (read : Reader) : Prop :=
  ∀ ⦃α : Type⦄ (phrase : Phrase α) (c : Cursor), (∀ kind ∈ phrase.opener?, c.current.kind = kind) →
    c.Ready feed limit → Parse.Leads feed (read phrase) c (phrase.crop.Taken feed c)

variable {feed : Feed}

lemma Reader.Able.phrase {limit} {read : Reader} (h : read.Able feed limit) {α : Type} (phrase : Phrase α)
    (hp : phrase.opener? = none) : Parse.Able feed limit (read phrase) phrase.crop :=
  fun c => h phrase c (by simp [hp])

namespace Grammar

open Parse

variable {feed : Feed} {limit : Nat} {c : Cursor}

/-! ### Names and literals -/

lemma able_traitName : Able feed limit traitName (.words TraitName.parts) :=
  fun c hc => (able_name c hc).result (fun _ => rfl) fun _ _ h => h

lemma mild_traits {separator} (hs : separator.isMark) : Mild feed limit
    (separated separator traitName) (.words fun traits => traits.flatMap TraitName.parts) :=
  fun c hc => (able_separated able_traitName hs c hc).imp fun _ _ ht => ht.read.imp rfl fun _ _ => trivial

lemma mild_traitList : Mild feed limit traitList (.words fun traits => traits.flatMap TraitName.parts) :=
  mild_eat rfl rfl (fun _ => trivial) fun _ => .last (mild_traits rfl)

lemma able_var : Able feed limit var (.decl isVar) := by
  intro c hc
  refine (hits_expectFor _ _ feed c).bind ?_
  rintro _ _ ⟨hk, rfl, rfl⟩
  exact leads_leaf hc (by simp [word?, hk]) rfl rfl (fun _ => trivial) fun _ _ hn => ⟨_, Tree.decl?_eq_some.2 hn, rfl⟩

lemma able_genericParam : Able feed limit genericParam (.decl isGenericParam) := by
  intro c hc
  refine (hits_expectFor _ _ feed c).bind ?_
  rintro _ _ ⟨hk, rfl, rfl⟩
  exact leads_leaf hc (by simp [word?, hk]) rfl rfl (fun _ => trivial) fun _ _ hn => ⟨_, Tree.decl?_eq_some.2 hn, rfl⟩

lemma mild_genericParams : Mild feed limit genericParams (Crop.decl isGenericParam).list := by
  refine mild_eat rfl rfl (by simp) fun _ => .bind (able_separated able_genericParam rfl).mild fun params => ?_
  exact .expect rfl fun _ => .pure rfl fun _ hk => hk.2

lemma able_primary : Able feed limit primary .expr := by
  intro c hc
  refine leads_current_bind.2 ?_
  dsimp only [pure_bind]
  have leaf (kind : ExprKind) (w : Word) (hw : c.current.word? = some w)
      (hparts : kind.parts = [.word w]) (hfits : ∀ tree, kind.Fits tree) :
      Leads feed (do let _ ← advance; insertExpr kind c.current.span) c (Crop.expr.Taken feed c) :=
    leads_leaf hc hw hparts rfl hfits fun _ _ hn => ⟨_, Tree.expr?_eq_some.2 hn⟩
  split
  next hk =>
    split
    · refine leaf _ (.int (integer c.current.value)) (by simp [word?, hk]) ?_ fun _ => trivial
      rw [decimal_eq]
      rfl
    · exact leads_fail
  next hk => exact leaf _ _ (by simp [word?, hk]) rfl fun _ => trivial
  next hk => exact leaf _ _ (by simp [word?, hk]) rfl fun _ => trivial
  next hk => exact leaf _ _ (by simp [word?, hk]) rfl fun _ => trivial
  next hk => exact leaf _ _ (by simp [word?, hk]) rfl fun _ => trivial
  next => exact leads_unexpected

/-! ### Types and patterns -/

/-- Work that passes tokens, with a mark ahead, from every cursor with few enough tokens left. -/
def Opens (feed : Feed) (limit : Nat) {α : Type} (work : Parse α) (crop : Crop α) : Prop :=
  ∀ c, c.Ready feed (limit + 1) → c.current.kind.isMark → Leads feed work c (crop.Taken feed c)

lemma Opens.widen {work test wider} (h : Opens feed limit work (.decl test))
    (ht : ∀ kind, test kind → wider kind) : Opens feed limit work (.decl wider) :=
  fun c hc hk => (h c hc hk).weaken fun _ _ hd => hd.imp fun _ => And.imp_right (ht _)

section

variable {read : Reader} (h : read.Able feed limit)

include h

lemma able_typeExpr : Able feed (limit + 1) (typeExpr read) (.words TypeExpr.parts) := by
  intro c hc
  refine leads_current_bind.2 ?_
  split
  next hk => exact taken_word hc (by simp [word?, hk]) rfl fun _ => trivial
  next hk =>
    refine .advance hc (hk ▸ rfl) (.bind (mild_commaList (h.phrase .typeExpr rfl) _) ?_)
    rintro ⟨elements, trailing⟩
    refine .expect rfl fun _ => .span fun span => .pure ?_ fun _ _ => trivial
    simp [TypeExpr.parts, TypeExpr.partsAll_eq, crop]
  next hk =>
    refine .advance hc (hk ▸ rfl) (.words (mild_traits rfl) fun traits => .span fun span => ?_)
    exact .pure rfl fun _ _ => trivial
  next => exact leads_unexpected

lemma able_bindingPattern : Able feed (limit + 1) (bindingPattern read) .plain := by
  intro c hc
  refine leads_kind_bind.2 ?_
  split
  next hk =>
    refine .advance hc (hk ▸ rfl) (.pure rfl ?_)
    simp [Pattern.Fits, vars, exprs]
  next hk =>
    refine .advance hc (hk ▸ rfl) (.bind (mild_commaList (h.phrase .bindingPattern rfl) _) ?_)
    rintro ⟨elements, trailing⟩
    refine .expect rfl fun _ => .pure ?_ fun tree hk => ?_
    · simp [crop, nodes, nodesAll_eq, map_flatMap]
    · exact ⟨fits_tuple.2 fun element he => (hk.2 element he).1, by
        simpa [exprs, exprsAll_eq] using fun element he => (hk.2 element he).2⟩
  next =>
    refine (able_var c hc).result (fun _ => rfl) fun tree var hvar => ?_
    simpa [Pattern.Fits, vars, exprs] using hvar

lemma opens_binding : Opens feed limit (binding read) (.decl isBinding) := by
  intro c hc hk
  refine .advance hc hk (.bind (h.phrase .bindingPattern rfl).mild fun pattern => ?_)
  refine .ifEaten rfl (h.phrase .typeExpr rfl).mild.some mild_none fun ascription => ?_
  refine .ifEaten rfl (h.phrase (.expr .default) rfl).mild.some mild_none fun initializer => ?_
  refine .close hc (fun _ => ?_) (fun _ => rfl) (fun _ tree hk => ?_) fun _ _ _ hn => ⟨_, Tree.decl?_eq_some.2 hn, rfl⟩
  · simp [Node.parts, parts, crop, map_eq_flatMap]
  · exact ⟨hk.1.1.2.1, hk.1.1.2.2, hk.2⟩

lemma able_conditionItem : Able feed limit (conditionItem read) .item := by
  intro c hc
  have hc' := hc.mono (le_succ limit)
  refine leads_kind_bind.2 ?_
  split
  next hk => exact (opens_binding h _ hc' (hk ▸ rfl)).result (fun _ => rfl) fun _ _ hb => hb
  next hk => exact (opens_binding h _ hc' (hk ▸ rfl)).result (fun _ => rfl) fun _ _ hb => hb
  next => exact (h.phrase (.expr .default) rfl c hc).result (fun _ => rfl) fun _ _ he => he

lemma able_conditions : Able feed limit (conditions read) Crop.item.list :=
  able_separated (able_conditionItem h) rfl

/-! ### Expressions -/

lemma opens_unary : Opens feed limit (unary read) .expr :=
  fun _ hc hk => .advance hc hk (.bind (h.phrase (.expr .unary) rfl).mild fun _ => .closeExpr hc rfl fun _ hk => hk.2)

lemma opens_grouping : Opens feed limit (grouping read) .expr := by
  intro c hc hk
  refine .advance hc hk (.bind (mild_commaList (h.phrase (.expr .default) rfl) _) ?_)
  rintro ⟨elements, trailing⟩
  refine .expect rfl fun _ => ?_
  split
  next => exact .pure (by simp [crop]) fun _ hk => hk.2 _ (by simp)
  next =>
    refine .closeExpr hc ?_ fun _ hk => hk.2
    simp [ExprKind.parts, ExprKind.children, crop, map_eq_flatMap]

lemma able_braced : Able feed limit (braced read) .expr :=
  fun _ hc => .mark (hits_expect _) rfl (hc.mono (le_succ limit)) (.bind (h.phrase (.expr .default) rfl).mild fun _ =>
    .expect rfl fun _ => .pure rfl fun _ hk => hk.2)

lemma opens_conditional : Opens feed limit (conditional read) .expr := by
  intro c hc hk
  refine .advance hc hk (.bind (able_conditions h).mild fun condition => .bind (able_braced h).mild fun success => ?_)
  refine .expectFor rfl fun _ => .ifKind (fun c' hk hc => ?_) (able_braced h).mild fun failure => ?_
  · exact (h .conditional c' (by simp [opener?, hk]) hc).imp fun _ _ ht => ht.read
  · refine .closeExpr hc ?_ fun _ hk => ⟨hk.1.1.2, hk.1.2, hk.2⟩
    simp [ExprKind.parts, ExprKind.children, ← map_eq_flatMap, comp_def]

/-- The expression of a pattern is read where the pattern is. -/
lemma able_casePattern (he : Able feed (limit + 1) (read (.expr .default)) .expr) :
    Able feed (limit + 1) (casePattern read) .pattern := by
  intro c hc
  refine leads_kind_bind.2 ?_
  split
  next hk =>
    refine .advance hc (hk ▸ rfl) (.bind able_var.mild fun var => .pure rfl fun tree hk => ?_)
    simpa [Pattern.Fits, vars, exprs] using hk.2
  next hk =>
    refine .advance hc (hk ▸ rfl) (.pure rfl ?_)
    simp [Pattern.Fits, vars, exprs]
  next hk =>
    refine .advance hc (hk ▸ rfl) (.bind (mild_commaList (h.phrase .casePattern rfl) _) ?_)
    rintro ⟨elements, trailing⟩
    refine .expect rfl fun _ => ?_
    split
    · exact .pure (by simp [crop]) fun _ hk => hk.2 _ (by simp)
    · refine .pure ?_ fun _ hk => fits_tuple.2 hk.2
      simp [crop, nodes, nodesAll_eq, map_flatMap]
  next =>
    refine (he c hc).result (fun _ => rfl) fun tree id hid => ?_
    simpa [Pattern.Fits, vars, exprs] using hid

lemma able_matchCase : Able feed limit (matchCase read) (.node Tree.HasCase) := by
  intro c hc
  have hc := hc.mono (le_succ limit)
  refine .mark (hits_expectFor _ _) rfl hc (.bind (h.phrase .casePattern rfl).mild fun pattern => ?_)
  refine .bind (able_braced h).mild fun body => ?_
  refine .close hc (fun _ => ?_) (fun _ => rfl) (fun _ _ hk => ⟨hk.1.2, hk.2⟩) fun _ _ _ hn =>
    ⟨_, Tree.case?_eq_some.2 hn⟩
  simp [Node.parts, crop]

lemma opens_selection : Opens feed limit (selection read) .expr := by
  intro c hc hk
  refine .advance hc hk (.bind (h.phrase (.expr .default) rfl).mild fun subject => .expect rfl fun _ => ?_)
  refine .bind (mild_untilClosed (able_matchCase h) _) fun cases => .expect rfl fun _ => ?_
  refine .closeExpr hc ?_ fun _ hk => ⟨hk.1.2, hk.2⟩
  simp [ExprKind.parts, ExprKind.children, crop, map_eq_flatMap]

lemma able_operand : Able feed (limit + 1) (operand read) .expr := by
  intro c hc
  refine leads_kind_bind.2 ?_
  split
  all_goals first
    | exact able_primary c hc
    | exact leads_unexpected
    | (rename_i hk; exact opens_unary h _ hc (hk ▸ rfl))
    | (rename_i hk; exact opens_grouping h _ hc (hk ▸ rfl))
    | (rename_i hk; exact opens_conditional h _ hc (hk ▸ rfl))
    | (rename_i hk; exact opens_selection h _ hc (hk ▸ rfl))

/-! An expression is continued behind its first operand. -/

/-- From its first token on an expression was read that goes further than another one. -/
def Longer (feed : Feed) (first c : Cursor) (id : ExprId) (d : Cursor) : Prop :=
  Crop.expr.Read feed first id d ∧ (feed.plain → d.remaining < c.remaining)

section

variable {first : Cursor} {left : ExprId} (hl : Crop.expr.Read feed first left c)
  (hc : c.Ready feed (limit + 1)) (hk : c.current.kind.isMark)

include hl hc hk

variable (power : Power)

lemma leads_binary : Leads feed (binary read left power) c (Longer feed first c) := by
  refine .advance hc hk ?_
  split
  · exact fun _ _ _ => leads_fail
  · exact .bind (h.phrase (.expr power) rfl).mild fun right => .closeLeft hl rfl fun _ hleft hk => ⟨hleft, hk.2⟩

lemma leads_assignment : Leads feed (assignment read left power) c (Longer feed first c) :=
  .advance hc hk (.bind (h.phrase (.expr power) rfl).mild fun _ => .closeLeft hl rfl fun _ hleft hk => ⟨hleft, hk.2⟩)

lemma leads_call : Leads feed (call read left) c (Longer feed first c) := by
  refine .advance hc hk (.bind (mild_commaList (h.phrase (.expr .default) rfl) _) ?_)
  rintro ⟨arguments, trailing⟩
  refine .expect rfl fun _ => .closeLeft hl ?_ fun _ hleft hk => ⟨hleft, hk.2⟩
  simp [ExprKind.parts, ExprKind.children, crop, ← map_eq_flatMap]

omit h in
lemma leads_member : Leads feed (member left) c (Longer feed first c) :=
  .advance hc hk (.name fun _ => .closeLeft hl rfl fun _ hleft _ => hleft)

lemma leads_extend : Leads feed (extend read left power) c (Longer feed first c) := by
  refine leads_kind_bind.2 ?_
  split
  · exact leads_assignment h hl hc hk power
  · exact leads_call h hl hc hk
  · exact leads_member hl hc hk
  · exact leads_binary h hl hc hk power

end

omit h in
/-- What binds more tightly than something is a mark. -/
lemma isMark_of_lt_rank {kind} {floor : Power} (hr : floor.rank < (Power.ofToken kind).rank) : kind.isMark := by
  cases kind <;> first | rfl | exact absurd hr (not_lt_zero _)

lemma leads_climbWithin {first} (floor : Power) (hf : first.Ready feed (limit + 1)) (bound : Nat) :
    ∀ {c left}, Crop.expr.Taken feed first left c → (feed.plain → c.remaining < bound) →
      Leads feed (climbWithin read floor bound left) c (Crop.expr.Taken feed first) := by
  induction bound with
  | zero => exact fun _ hb hp => absurd (hb hp) (not_lt_zero _)
  | succ bound ih =>
    intro c left ht hb
    refine leads_kind_bind.2 ?_
    dsimp only
    split
    · exact ht
    next hr =>
      have hc : c.Ready feed (limit + 1) := fun hp => ⟨(ht.read.reads hp).proper, (ht.lt hp).le.trans (hf hp).2⟩
      refine (leads_extend h ht.read hc (isMark_of_lt_rank (not_le.1 hr)) _).bind ?_
      rintro longer d ⟨hread, hlt⟩
      refine ih ⟨hread, fun hp => (hlt hp).trans (ht.lt hp)⟩ fun hp => ?_
      have := hlt hp
      have := hb hp
      omega

lemma able_expr (floor : Power) : Able feed (limit + 1) (expr read floor) .expr := by
  intro c hc
  refine (able_operand h c hc).bind fun left c1 ht => ?_
  exact leads_get_bind.2 (leads_climbWithin h floor hc _ ht fun _ => lt_succ_self _)

/-! ### Functions and statements -/

lemma able_param : Able feed limit (param read) (.decl isParam) := by
  intro c hc
  have hc := hc.mono (le_succ limit)
  exact .name hc (.expect rfl fun _ => .bind (h.phrase .typeExpr rfl).mild fun _ =>
    .closeDecl hc rfl (fun _ _ => trivial) rfl)

lemma able_requirement : Able feed limit (requirement read) (.words Requirement.parts) := by
  intro c hc
  refine .name (hc.mono (le_succ limit)) (.eat rfl ?_ ?_)
  · exact .bind (h.phrase .typeExpr rfl).mild fun _ => .span fun _ => .pure rfl fun _ _ => trivial
  · exact .expectFor rfl fun _ => .words (mild_traits rfl) fun _ => .span fun _ => .pure rfl fun _ _ => trivial

lemma mild_whereClause : Mild feed limit (whereClause read) (Crop.words Requirement.parts).list :=
  mild_eat rfl rfl (by simp) fun _ => .last (able_separated (able_requirement h) rfl).mild

lemma opens_function : Opens feed limit (function read) (.decl isFunction) := by
  intro c hc hk
  refine .advance hc hk (.name fun name => .bind mild_genericParams fun generics => .expect rfl fun _ => ?_)
  refine .bind (mild_commaList (able_param h) _) ?_
  rintro ⟨params, trailing⟩
  refine .expect rfl fun _ => .ifEaten rfl (h.phrase .typeExpr rfl).mild.some mild_none fun output => ?_
  refine .bind (mild_whereClause h) fun requirements => ?_
  refine .ifEaten rfl mild_none (h.phrase .block rfl).mild.some fun body => .closeDecl hc ?_ (fun _ hk => ?_) rfl
  · simp [parts, crop, map_eq_flatMap]
  · exact ⟨hk.1.1.1.1.2, hk.1.1.1.2, hk.2⟩

lemma opens_bindingItem : Opens feed limit (bindingItem read) (.decl isBinding) :=
  fun _ hc hk => (opens_binding h _ hc hk).ended rfl (fun _ => rfl) fun _ _ hd => hd

lemma opens_returnStmt : Opens feed limit (returnStmt read) (.node Tree.HasStmt) := by
  intro c hc hk
  refine .advance hc hk (.ifKind (fun c' _ => mild_none c') (h.phrase (.expr .default) rfl).mild.some fun value => ?_)
  refine .expect rfl fun _ => .closeStmt hc ?_ (fun _ hk => hk.2) fun _ _ _ hs => ⟨_, hs⟩
  simp [StmtKind.children, crop, map_eq_flatMap]

lemma opens_branch : Opens feed limit (branch read) (.node Tree.HasBranch) := by
  intro c hc hk
  refine .advance hc hk (.bind (able_conditions h).mild fun condition =>
    .bind (h.phrase .block rfl).mild fun success => ?_)
  have finish (failure : Option StmtId) : Goes feed limit c
      ([] ++ Crop.item.list.parts condition ++ [.node success] ++ (Crop.node Tree.HasBranch).option.parts failure)
      (fun tree => ((True ∧ ∀ item ∈ condition, item.Fits tree) ∧ tree.HasBlock success) ∧ ∀ id ∈ failure, tree.HasBranch id)
      (do insertStmt (.cond condition success failure) (← spanFrom c.current.span.start))
      ((Crop.node Tree.HasBranch).Taken feed c) := by
    refine .closeStmt hc ?_ (fun _ hk => ⟨hk.1.1.2, hk.1.2, hk.2⟩) fun _ _ _ hs => ⟨_, hs, rfl⟩
    simp [StmtKind.children, ← map_eq_flatMap, comp_def]
  have hblock : Able feed limit (read .block) (.node Tree.HasBranch) :=
    fun c hc => (h.phrase .block rfl c hc).weaken fun _ _ hb => hb.hasBranch
  refine .eat rfl (.ifKind (fun c' hk hc => Leads.some ?_) hblock.mild.some finish) (.bind mild_none finish)
  exact (h .branch c' (by simp [opener?, hk]) hc).imp fun _ _ ht => ht.read

lemma opens_whileLoop : Opens feed limit (whileLoop read) (.node Tree.HasStmt) := by
  intro c hc hk
  refine .advance hc hk (.bind (able_conditions h).mild fun condition =>
    .bind (h.phrase .block rfl).mild fun body => ?_)
  refine .closeStmt hc ?_ (fun _ hk => ⟨hk.1.2, hk.2⟩) fun _ _ _ hs => ⟨_, hs⟩
  simp [StmtKind.children, crop, ← map_eq_flatMap, comp_def]

lemma opens_doWhile : Opens feed limit (doWhile read) (.node Tree.HasStmt) := by
  intro c hc hk
  refine .advance hc hk (.bind (h.phrase .block rfl).mild fun body => .expectFor rfl fun _ => ?_)
  refine .bind (h.phrase (.expr .default) rfl).mild fun condition => .expect rfl fun _ => ?_
  exact .closeStmt hc rfl (fun _ hk => ⟨hk.1.2, hk.2⟩) fun _ _ _ hs => ⟨_, hs⟩

lemma able_stmt : Able feed limit (stmt read) .member := by
  intro c hc
  have hc' := hc.mono (le_succ limit)
  have decl {work test} (hw : Leads feed work c ((Crop.decl test).Taken feed c))
      (ht : ∀ kind, test kind → kind.isLocal) : Leads feed (do return .decl (← work)) c (Crop.member.Taken feed c) :=
    hw.result (fun _ => rfl) fun _ _ hd => hd.imp fun _ => And.imp_right (ht _)
  have stmt {work role} (hw : Leads feed work c ((Crop.node role).Taken feed c))
      (hr : ∀ tree id, role tree id → tree.HasStmt id) :
      Leads feed (do return .stmt (← work)) c (Crop.member.Taken feed c) :=
    hw.result (fun _ => rfl) hr
  refine leads_kind_bind.2 ?_
  split
  next hk => exact decl (opens_bindingItem h _ hc' (hk ▸ rfl)) (by simp_all [isLocal])
  next hk => exact decl (opens_bindingItem h _ hc' (hk ▸ rfl)) (by simp_all [isLocal])
  next hk => exact decl (opens_function h _ hc' (hk ▸ rfl)) (by simp_all [isLocal])
  next hk => exact stmt (h.phrase .block rfl c hc) fun _ _ hb => hb.hasStmt
  next hk => exact stmt (opens_returnStmt h _ hc' (hk ▸ rfl)) fun _ _ hs => hs
  next hk => exact stmt (opens_branch h _ hc' (hk ▸ rfl)) fun _ _ hb => hb.hasStmt
  next hk => exact stmt (opens_whileLoop h _ hc' (hk ▸ rfl)) fun _ _ hs => hs
  next hk => exact stmt (opens_doWhile h _ hc' (hk ▸ rfl)) fun _ _ hs => hs
  next => exact (h.phrase (.expr .default) rfl c hc).ended rfl (fun _ => rfl) fun _ _ he => he

lemma able_blockMember : Able feed limit (blockMember read) .member := by
  intro c hc
  show Leads feed (if decide (c.current.kind ≠ .eof) = true then stmt read else _) c _
  split
  · exact able_stmt h c hc
  · exact leads_unexpectedFor

lemma able_block : Able feed (limit + 1) (block read) (.node Tree.HasBlock) := by
  intro c hc
  refine .mark (hits_expect _) rfl hc (.bind (mild_untilClosed (able_blockMember h) _)
    fun members => .expect rfl fun _ => ?_)
  refine .closeStmt hc ?_ (fun _ hk => hk.2) fun _ _ _ hs => ⟨_, _, hs⟩
  simp [StmtKind.children, ← map_eq_flatMap, comp_def]

/-! ### Traits, types and items -/

lemma able_traitMember : Able feed limit (traitMember read) (.decl isFunction) := by
  intro c hc
  refine leads_kind_bind.2 ?_
  split
  next hk => exact opens_function h _ (hc.mono (le_succ limit)) (hk ▸ rfl)
  next => exact leads_unexpectedFor

lemma able_productMember : Able feed limit (productMember read) (.decl isLocal) := by
  intro c hc
  have hc := hc.mono (le_succ limit)
  refine leads_kind_bind.2 ?_
  split
  next hk => exact (opens_function h).widen (by simp_all [isLocal]) _ hc (hk ▸ rfl)
  next hk => exact (opens_bindingItem h).widen (by simp_all [isLocal]) _ hc (hk ▸ rfl)
  next hk => exact (opens_bindingItem h).widen (by simp_all [isLocal]) _ hc (hk ▸ rfl)
  next => exact leads_unexpectedFor

omit h in
lemma opens_members {member inner outer} (hmember : Able feed limit member (.decl inner))
    (message : String) (build : String → List TraitName → List DeclId → DeclKind)
    (hbuild : ∀ name traits members, (build name traits members).parts = .name name ::
      (traits.flatMap TraitName.parts ++ members.map .node)) (hfits : ∀ name traits members tree,
    (∀ id ∈ members, tree.Declares inner id) → (build name traits members).Fits tree)
    (ht : ∀ name traits members, outer (build name traits members)) :
    Opens feed limit (membered member message build) (.decl outer) := by
  intro c hc hk
  refine .advance hc hk (.name fun name => .words mild_traitList fun traits => .expect rfl fun _ => ?_)
  refine .bind (mild_untilClosed hmember _) fun members => .expect rfl fun _ => ?_
  refine .closeDecl hc ?_ (fun tree hk => hfits _ _ _ tree hk.2) (ht _ _ _)
  simp [hbuild, map_eq_flatMap]

lemma opens_trait : Opens feed limit (trait read) (.decl isTrait) :=
  opens_members (able_traitMember h) _ (fun name refinements members =>
    .trait ⟨name, refinements, members⟩) (fun _ _ _ => rfl) (fun _ _ _ _ hm => hm) fun _ _ _ => rfl

lemma opens_product : Opens feed limit (product read) (.decl isProduct) :=
  opens_members (able_productMember h) _ (fun name conformances members => .product ⟨name,
    conformances, members⟩) (fun _ _ _ => rfl) (fun _ _ _ _ hm => hm) fun _ _ _ => rfl

lemma able_item : Able feed limit (item read) (.decl isItem) := by
  intro c hc
  have hc := hc.mono (le_succ limit)
  refine leads_kind_bind.2 ?_
  split
  next hk => exact (opens_function h).widen (by simp_all [isItem, isLocal]) _ hc (hk ▸ rfl)
  next hk => exact (opens_trait h).widen (by simp_all [isItem]) _ hc (hk ▸ rfl)
  next hk => exact (opens_product h).widen (by simp_all [isItem]) _ hc (hk ▸ rfl)
  next hk => exact (opens_bindingItem h).widen (by simp_all [isItem, isLocal]) _ hc (hk ▸ rfl)
  next hk => exact (opens_bindingItem h).widen (by simp_all [isItem, isLocal]) _ hc (hk ▸ rfl)
  next => exact leads_unexpectedFor

end

end Grammar

/-! ### Readers -/

namespace Phrase

variable {feed : Feed}

/-- The number of phrases that can be inside each other at one token, from this one on. -/
def height : {α : Type} → Phrase α → Nat
  | _, .casePattern => 2
  | _, _ => 1

lemma height_le {α : Type} (phrase : Phrase α) : 1 ≤ phrase.height ∧ phrase.height ≤ 2 := by
  cases phrase <;> simp [height]

lemma leads_rule {read limit} (h : read.Able feed limit) {α : Type} (phrase : Phrase α)
    (he : phrase.height = 2 → Parse.Able feed (limit + 1) (read (.expr .default)) .expr) {c}
    (ho : ∀ kind ∈ phrase.opener?, c.current.kind = kind) (hc : c.Ready feed (limit + 1)) :
    Parse.Leads feed (rule read phrase) c (phrase.crop.Taken feed c) := by
  cases phrase with
  | expr floor => exact able_expr h floor c hc
  | conditional => exact opens_conditional h _ hc (by rw [ho .ifWord rfl]; rfl)
  | typeExpr => exact able_typeExpr h c hc
  | bindingPattern => exact able_bindingPattern h c hc
  | casePattern => exact able_casePattern h (he rfl) c hc
  | block => exact able_block h c hc
  | branch => exact opens_branch h _ hc (by rw [ho .ifWord rfl]; rfl)

lemma leads_readWithin (depth : Nat) : ∀ (limit : Nat) {α} (phrase : Phrase α) (c : Cursor),
    (feed.plain → 2 * limit + phrase.height ≤ depth) →
    (∀ kind ∈ phrase.opener?, c.current.kind = kind) → c.Ready feed limit →
      Parse.Leads feed (readWithin depth phrase) c (phrase.crop.Taken feed c) := by
  induction depth with
  | zero =>
    intro limit α phrase c hd _ _ hp
    have := hd hp
    have := phrase.height_le
    omega
  | succ depth ih =>
    intro limit α phrase c hd ho hc
    have hpos (hp : feed.plain) : 0 < limit := lt_of_lt_of_le (succ_pos _) (hc hp).2
    have hheight := phrase.height_le
    have hinner : Reader.Able feed (limit - 1) (readWithin depth) := by
      intro β inner c' ho' hc'
      refine ih _ inner c' (fun hp => ?_) ho' hc'
      have := hd hp
      have := hpos hp
      have := inner.height_le
      omega
    refine leads_rule hinner phrase (fun hheight c' hc' => ?_) ho (hc.mono (by omega))
    refine ih limit (.expr .default) c' (fun hp => ?_) (by simp [opener?]) fun hp => ⟨(hc' hp).1, ?_⟩
    · have := hd hp
      simp only [height]
      omega
    · have := (hc' hp).2
      have := hpos hp
      omega

/-- The depth to which phrases are read is enough. -/
lemma able_read (limit : Nat) : Reader.Able feed limit read := by
  intro α phrase c ho hc
  have := phrase.height_le
  have hruns := leads_readWithin (2 * c.remaining + 2) c.remaining phrase c (fun _ => by omega) ho hc.least
  unfold Parse.Leads read at *
  exact hruns

end Phrase

lemma Grammar.leads_items {c} (hc : feed.plain → c.Proper feed.file feed.size) :
    Parse.Leads feed items c fun members c' => c.Gains feed c' (members.map .node) (fun tree =>
      ∀ member ∈ members, tree.Declares isItem member) ∧ c'.current.kind = .eof := by
  have hitems := Parse.mild_untilClosed (able_item (able_read c.remaining)) .eof c fun hp => ⟨hc hp, le_rfl⟩
  refine (hitems.and (Parse.grants_untilClosed .eof)).imp ?_
  rintro members c' ⟨hread, hk⟩
  exact ⟨hread.imp (by simp [map_eq_flatMap]) fun _ h => h, hk⟩

end TraitLang
