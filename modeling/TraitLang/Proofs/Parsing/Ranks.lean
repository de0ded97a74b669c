import TraitLang.Proofs.Lexing.Spelling
import TraitLang.Proofs.Parsing.Moving

/-! Texts with the same tokens in another layout. If every place of a text is moved to the number of
tokens that start before it, then such texts are read alike, token by token. That a reading goes
along with all moves of its tokens also shows that it answers no other places than those of its
tokens. -/
namespace TraitLang

open List Cursor Token Grammar EStateM.Result

namespace Token

/-- The number of tokens that start before a place. -/
def rank (tokens : List Token) (position : Position) : Position :=
  ⟨tokens.countP fun token => token.span.start.offset < position.offset, ""⟩

/-- Tokens that are not empty, apart from the last one, and follow each other. -/
def Ordered (tokens : List Token) : Prop :=
  tokens.Pairwise fun first second =>
    first.span.start.offset < first.span.stop.offset ∧ first.span.stop.offset ≤ second.span.start.offset

lemma rank_append {before after position} (hb : ∀ token ∈ before, token.span.start.offset < position.offset)
    (ha : ∀ token ∈ after, position.offset ≤ token.span.start.offset) :
    rank (before ++ after) position = ⟨before.length, ""⟩ := by
  have hbefore : before.countP (fun token => token.span.start.offset < position.offset) = before.length :=
    countP_eq_length.2 fun token ht => by simpa using hb token ht
  have hafter : after.countP (fun token => token.span.start.offset < position.offset) = 0 :=
    countP_eq_zero.2 fun token ht => by simpa using ha token ht
  rw [rank, countP_append, hbefore, hafter, Nat.add_zero]

variable {tokens : List Token}

lemma rank_mono {first second} (h : first.offset ≤ second.offset) :
    (rank tokens first).offset ≤ (rank tokens second).offset := by
  refine countP_mono_left fun token _ ht => ?_
  simp only [decide_eq_true_eq] at ht ⊢
  omega

section

variable {before after : List Token} {token : Token} (h : Ordered (before ++ token :: after))

include h

lemma Ordered.rank_start : rank (before ++ token :: after) token.span.start = ⟨before.length, ""⟩ := by
  obtain ⟨-, hafter, hcross⟩ := pairwise_append.1 h
  refine rank_append (fun other ho => ?_) (forall_mem_cons.2 ⟨le_rfl, fun other ho => ?_⟩)
  · have := hcross other ho token mem_cons_self
    omega
  · have := (pairwise_cons.1 hafter).1 other ho
    omega

lemma Ordered.rank_stop (hne : after ≠ []) :
    rank (before ++ token :: after) token.span.stop = ⟨before.length + 1, ""⟩ := by
  obtain ⟨-, hafter, hcross⟩ := pairwise_append.1 h
  have htoken := (pairwise_cons.1 hafter).1
  obtain ⟨next, _, rfl⟩ := exists_cons_of_ne_nil hne
  have hlt := (htoken next mem_cons_self).1
  rw [← singleton_append, ← append_assoc, rank_append, length_append, length_singleton]
  · grind
  · exact fun other ho => (htoken other ho).2

end

/-- The tokens of a text, up to its end. -/
lemma exists_ordered {file text} (h : scan file text = .ok tokens) : ∃ body,
    tokens = body ++ [endOfText ⟨text.utf8ByteSize, file⟩] ∧ (∀ token ∈ body, token.kind ≠ .eof) ∧
      (∀ token ∈ body, token.span.start.offset < text.utf8ByteSize) ∧ Ordered tokens := by
  obtain ⟨_, rfl, hpieces, hdescribes, -⟩ := exists_pieces h
  obtain ⟨body, htokens, hbody, hpairwise, -⟩ := exists_body h hpieces hdescribes
  refine ⟨body, htokens, fun token ht => (hbody token ht).1, fun token ht => ?_, ?_⟩
  · have hinside := (hbody token ht).2
    exact hinside.lt.trans_le hinside.le
  · rw [htokens]
    refine pairwise_append.2 ⟨hpairwise.imp_of_mem fun ha _ hle => ⟨(hbody _ ha).2.lt, hle⟩,
      pairwise_singleton _ _, fun token ht last hlast => ?_⟩
    obtain rfl := mem_singleton.1 hlast
    exact ⟨(hbody token ht).2.lt, (hbody token ht).2.le⟩

end Token

/-! ### One reading for all layouts -/

/-- A lexeme as the token of an index. Each token takes one place, and the end of the text takes
none. -/
def Lexeme.placed (index : Nat) (lexeme : Lexeme) : Token :=
  ⟨lexeme.1, lexeme.2, ⟨⟨index, ""⟩, ⟨if lexeme.1 = .eof then index else index + 1, ""⟩⟩⟩

namespace Relabeling

/-- Every place goes to its rank among some tokens. -/
def ranked (tokens : List Token) : Relabeling := move (rank tokens) (rank tokens)

lemma forward_ranked (tokens : List Token) : (ranked tokens).Forward := fun _ _ => rank_mono

variable {file text : String} {tokens : List Token} (h : scan file text = .ok tokens)

include h

lemma token_ranked {token index} (ht : tokens[index]? = some token) :
    (ranked tokens).token token = token.lexeme.placed index := by
  obtain ⟨body, hbody, heof, -, hordered⟩ := Token.exists_ordered h
  obtain ⟨hlt, rfl⟩ := List.getElem?_eq_some_iff.1 ht
  have hsplit : tokens = tokens.take index ++ tokens[index] :: tokens.drop (index + 1) := by simp_all
  have hlength : (tokens.take index).length = index := List.length_take_of_le hlt.le
  generalize tokens[index] = token at hsplit
  generalize tokens.take index = before at hsplit hlength
  generalize tokens.drop (index + 1) = after at hsplit
  subst hlength
  rw [hsplit] at hordered ⊢
  have hstart := hordered.rank_start
  have hstop : Token.rank (before ++ token :: after) token.span.stop =
      ⟨if token.kind = .eof then before.length else before.length + 1, ""⟩ := by
    -- only the last token is the end of the text
    rcases List.eq_nil_or_concat after with rfl | ⟨_, _, rfl⟩
    · obtain ⟨-, hlast⟩ := List.append_inj' (hsplit.symm.trans hbody) rfl
      obtain rfl := List.singleton_inj.1 hlast
      exact hstart
    · have hmem : token ∈ body := by grind
      rw [if_neg (heof token hmem)]
      exact hordered.rank_stop (by simp)
  exact congrArg₂ (fun start stop => Token.mk token.kind token.value ⟨start, stop⟩) hstart hstop

/-- Where tokens come to stand is a matter of the lexemes only. -/
lemma map_token_ranked : tokens.map (ranked tokens).token = (tokens.map lexeme).mapIdx Lexeme.placed := by
  refine ext_getElem? fun index => ?_
  rw [getElem?_map, getElem?_mapIdx, getElem?_map]
  cases ht : tokens[index]? with
  | none => rfl
  | some token => exact congrArg some (token_ranked h ht)

lemma span_ranked : (ranked tokens).span (Tree.moduleSpan [⟨file, text⟩]) = ⟨⟨0, ""⟩, ⟨tokens.length - 1, ""⟩⟩ := by
  obtain ⟨body, rfl, -, hlt, -⟩ := exists_ordered h
  have hstart : rank (body ++ [endOfText ⟨text.utf8ByteSize, file⟩]) ⟨0, file⟩ = ⟨0, ""⟩ := by
    simp [rank]
  have hstop : rank (body ++ [endOfText ⟨text.utf8ByteSize, file⟩]) ⟨text.utf8ByteSize, file⟩ = ⟨body.length, ""⟩ :=
    rank_append hlt (by simp [endOfText])
  rw [length_append, length_singleton, Nat.add_sub_cancel]
  exact congrArg₂ Span.mk hstart hstop

end Relabeling

/-- What reading comes to with tokens elsewhere. -/
def Relabeling.result (r : Relabeling) : EStateM.Result Failure Cursor (List DeclId) →
    EStateM.Result Failure Cursor (List DeclId)
  | .ok members c => .ok members (r.cursor c)
  | .error failure c => .error (r.failure failure) (r.cursor c)

lemma Grammar.items_error {file text tokens} (h : scan file text = .ok tokens)
    {failure c} (herror : items (ofTokens file tokens) = .error failure c) :
    ∃ diagnostic, failure = .diagnostic diagnostic := by
  have hruns := leads_items fun _ : (Feed.text file text.utf8ByteSize).plain => proper_ofTokens file (fill_scan h)
  unfold Parse.Leads at hruns
  rw [herror] at hruns
  exact hruns trivial

lemma Grammar.items_moved {start stop}
    (hr : (Relabeling.move start stop).Forward) {file text tokens} (h : scan file text = .ok tokens)
    (hfirst : ∀ first ∈ tokens.head?, start first.span.start = stop first.span.start) :
    items (ofTokens "" (tokens.map (Relabeling.move start stop).token)) =
      (Relabeling.move start stop).result (items (ofTokens file tokens)) := by
  have hfill := fill_scan h
  cases tokens with
  | nil => exact hfill.elim
  | cons first rest =>
    have hmoved := (Relabeling.moving hr).rel_items (ofTokens file (first :: rest)) fun _ => hfirst first rfl
    have hcursor : (Relabeling.move start stop).cursor (ofTokens file (first :: rest)) =
        ofTokens "" ((first :: rest).map (Relabeling.move start stop).token) := by
      simp [Relabeling.cursor, ofTokens, Relabeling.tree, Tree.empty]
    rw [hcursor] at hmoved
    cases hitems : items (ofTokens file (first :: rest)) with
    | ok members c =>
      rw [hitems] at hmoved
      have hid : members.map (Relabeling.move start stop).id = members := map_id' _
      exact hmoved.1.trans (by rw [hid]; rfl)
    | error failure c =>
      obtain ⟨_, rfl⟩ := items_error h hitems
      rw [hitems] at hmoved
      exact hmoved (by simp)

/-! ### Places of tokens -/

namespace Relabeling

variable (good : Position → Prop) [DecidablePred good]

/-- Gives starts at places that are not good the name of another file. -/
def marking : Relabeling :=
  move (fun start => if good start then start else ⟨start.offset, start.file ++ "!"⟩) fun stop => stop

lemma offset_marking (position : Position) : ((marking good).start position).offset = position.offset := by
  show (ite _ _ _ : Position).offset = _
  split <;> rfl

lemma forward_marking : (marking good).Forward :=
  fun start _ hle => (offset_marking good start).trans_le hle

variable {good}

lemma start_marking_iff {position} : (marking good).start position = position ↔ good position := by
  constructor
  · intro h
    by_contra hgood
    have hlength := congrArg (fun position => position.file.length) ((if_neg hgood).symm.trans h)
    simp [String.length_append] at hlength
  · exact fun h => if_pos h

end Relabeling

section

variable {good : Position → Prop} [DecidablePred good] {file : String} {tokens : List Token}

/-- Reading fails at a place where a token starts, if not for a fault, and all nodes start at such
places. -/
lemma Grammar.items_marking (hend : tokens = [] → good ⟨0, file⟩) (htokens : ∀ token ∈ tokens, good token.span.start) :
    match items (ofTokens file tokens) with
    | .ok _ c => (Relabeling.marking good).tree c.tree = c.tree
    | .error failure _ => ∀ diagnostic, failure = .diagnostic diagnostic → good diagnostic.position := by
  -- the tokens are the same with all other places moved, and so is what is read
  have htoken (token : Token) (ht : good token.span.start) : (Relabeling.marking good).token token = token :=
    congrArg (fun start => { token with span := ⟨start, token.span.stop⟩ }) (Relabeling.start_marking_iff.2 ht)
  obtain ⟨hcursor, hbegun⟩ : (Relabeling.marking good).cursor (ofTokens file tokens) = ofTokens file tokens ∧
      good (ofTokens file tokens).current.span.start := by
    cases tokens with
    | nil => simp [Relabeling.cursor, ofTokens, Relabeling.tree, Tree.empty, endOfText, htoken, hend rfl]
    | cons first rest =>
      have hrest : rest.map (Relabeling.marking good).token = rest :=
        (map_congr_left fun token ht => htoken token (htokens token (mem_cons_of_mem _ ht))).trans (map_id _)
      have hfirst := htokens first mem_cons_self
      simp [Relabeling.cursor, ofTokens, Relabeling.tree, Tree.empty, htoken, hfirst, hrest]
  have hmoved := (Relabeling.moving (Relabeling.forward_marking good)).rel_items (ofTokens file tokens) fun _ =>
    Relabeling.start_marking_iff.2 hbegun
  rw [show (Relabeling.move _ _).cursor _ = _ from hcursor] at hmoved
  cases hitems : items (ofTokens file tokens) with
  | ok members c =>
    rw [hitems] at hmoved
    exact (congrArg Cursor.tree (ok.inj hmoved.1).2).symm
  | error failure c =>
    rw [hitems] at hmoved
    rintro diagnostic rfl
    have hfailure := (error.inj (hmoved (by simp))).1
    exact Relabeling.start_marking_iff.1 (congrArg Diagnostic.position (Failure.diagnostic.inj hfailure)).symm

lemma Relabeling.good_of_tree {tree} (h : (marking good).tree tree = tree) {id node}
    (hn : tree.node? id = some node) : good node.span.start := by
  have hnode := congrArg (fun tree => Tree.node? tree id) h
  simp only [node?_tree, hn, Option.map_some, Option.some.injEq] at hnode
  have hspan := congrArg (fun node => node.span.start) hnode
  refine start_marking_iff.1 ?_
  cases node <;> exact hspan

/-- Reading a text fails at one of its tokens, or all nodes start with tokens. -/
lemma Grammar.items_placed {text} (h : scan file text = .ok tokens) : (∃ members c,
    items (ofTokens file tokens) = .ok members c ∧ ∀ id node, c.tree.node? id = some node →
      ∃ token ∈ tokens, token.span.start = node.span.start) ∨ ∃ problem c, ∃ token ∈ tokens,
      items (ofTokens file tokens) = .error (.diagnostic ⟨problem, token.span.start⟩) c := by
  classical
  have hmarking := @items_marking (fun position => ∃ token ∈ tokens, token.span.start = position)
    _ file tokens (by rintro rfl; exact (fill_scan h).elim) fun token ht => ⟨token, ht, rfl⟩
  cases hitems : items (ofTokens file tokens) with
  | ok members c =>
    rw [hitems] at hmarking
    exact .inl ⟨members, c, rfl, fun _ _ => Relabeling.good_of_tree hmarking⟩
  | error failure c =>
    obtain ⟨⟨problem, position⟩, rfl⟩ := items_error h hitems
    rw [hitems] at hmarking
    obtain ⟨token, ht, rfl⟩ := hmarking _ rfl
    exact .inr ⟨problem, c, token, ht, rfl⟩

end

namespace Token

variable {tokens : List Token} {token : Token}

/-- A token starts after fewer tokens than any place after its start. -/
lemma rank_lt (ht : token ∈ tokens) {position} (h : token.span.start.offset < position.offset) :
    (rank tokens token.span.start).offset < (rank tokens position).offset := by
  obtain ⟨before, after, rfl⟩ := append_of_mem ht
  have hmono (tokens : List Token) :
      (rank tokens token.span.start).offset ≤ (rank tokens position).offset := rank_mono h.le
  have hbefore := hmono before
  have hafter := hmono after
  simp only [rank] at hbefore hafter ⊢
  grind

/-- Ranks tell whether a token starts at or after a place. -/
lemma le_start_iff (ht : token ∈ tokens) (position : Position) :
    position.offset ≤ token.span.start.offset ↔
    (rank tokens position).offset ≤ (rank tokens token.span.start).offset := by
  refine ⟨rank_mono, fun hle => ?_⟩
  by_contra hlt
  exact absurd (rank_lt ht (Nat.lt_of_not_le hlt)) (Nat.not_lt_of_le hle)

end Token

/-! ### Two layouts of one text -/

lemma Relabeling.tree_addModule (r : Relabeling) (tree : Tree) (node : Node) (id : DeclId) :
    r.tree ((tree.push node).2.addModule id) = ((r.tree tree).push (r.node node)).2.addModule (r.id id) := by
  simp [Relabeling.tree, Tree.push, Tree.addModule]

namespace Tree

/-- All nodes but the modules start with tokens. -/
def Placed (tokens : List Token) (tree : Tree) : Prop :=
  ∀ id node, tree.node? id = some node → node.isModule = false → ∃ token ∈ tokens, token.span.start = node.span.start

/-- What a text is read as once its tokens are known. -/
lemma ofFiles_of_scan {file text tokens} (h : scan file text = .ok tokens) (name : String) : ofFiles
    [⟨file, text⟩] name =
      match items (ofTokens file tokens) with
      | .ok members c =>
        .ok ((c.tree.push (.decl ⟨.module name members, moduleSpan [⟨file, text⟩]⟩)).2.addModule c.tree.size)
      | .error failure _ => .error failure := by
  simp only [ofFiles, tokensOf, h, moduleSpan, module, bind, EStateM.bind]
  cases items (ofTokens file tokens) <;> rfl

section

variable {file file' text text' : String} {tokens tokens' : List Token}
  (h : scan file text = .ok tokens) (h' : scan file' text' = .ok tokens')
  (hlex : tokens.map lexeme = tokens'.map lexeme)

include h h' hlex

/-- Both texts are read alike once places are turned into ranks. -/
lemma items_ranked : (Relabeling.ranked tokens).result (items (ofTokens file tokens)) =
    (Relabeling.ranked tokens').result (items (ofTokens file' tokens')) := by
  have htokens : tokens.map (Relabeling.ranked tokens).token = tokens'.map
      (Relabeling.ranked tokens').token := by grind [Relabeling.map_token_ranked]
  exact (items_moved (Relabeling.forward_ranked tokens) h fun _ _ => rfl).symm.trans
    ((congrArg (fun tokens => items (ofTokens "" tokens)) htokens).trans
      (items_moved (Relabeling.forward_ranked tokens') h' fun _ _ => rfl))

omit h' hlex in
lemma placed_ofFiles {name tree} (hread : ofFiles [⟨file, text⟩] name = .ok tree) : tree.Placed tokens := by
  rw [ofFiles_of_scan h] at hread
  obtain ⟨_, c, hitems, hplaced⟩ | ⟨_, c, _, -, hitems⟩ := items_placed h
  · rw [hitems] at hread
    obtain rfl := Except.ok.inj hread
    intro id node hn hmodule
    change (c.tree.push _).2.node? id = some node at hn
    rw [node?_push] at hn
    split at hn
    · cases hn
      cases hmodule
    · exact hplaced id node hn
  · rw [hitems] at hread
    cases hread

/-- Two texts with the same lexemes cannot be read, for the same reason and at the same token, or
have trees that only differ in where the nodes stand. -/
lemma ofFiles_ranked (name : String) : (∃ (problem : Problem) (index : Nat) (token token' : Token),
    tokens[index]? = some token ∧ tokens'[index]? = some token' ∧
      ofFiles [⟨file, text⟩] name = .error (.diagnostic ⟨problem, token.span.start⟩) ∧
      ofFiles [⟨file', text'⟩] name = .error (.diagnostic ⟨problem, token'.span.start⟩)) ∨
    ∃ tree tree', ofFiles [⟨file, text⟩] name = .ok tree ∧ ofFiles [⟨file', text'⟩] name =
    .ok tree' ∧ (Relabeling.ranked tokens).tree tree = (Relabeling.ranked tokens').tree tree' := by
  have hranked := items_ranked h h' hlex
  rcases hitems : items (ofTokens file tokens) with ⟨members, c⟩ | ⟨_, c⟩ <;>
    rcases hitems' : items (ofTokens file' tokens') with ⟨_, c'⟩ | ⟨_, c'⟩ <;> rw [hitems, hitems'] at hranked
  · obtain ⟨rfl, hcursor⟩ := ok.inj hranked
    refine .inr ⟨_, _, by rw [ofFiles_of_scan h, hitems], by rw [ofFiles_of_scan h', hitems'], ?_⟩
    have htree : (Relabeling.ranked tokens).tree c.tree = (Relabeling.ranked tokens').tree c'.tree :=
      congrArg tree hcursor
    have hsize : c.tree.size = c'.tree.size := by grind [Relabeling.size_tree]
    have hlength : tokens.length = tokens'.length := by
      simpa using congrArg List.length hlex
    have hspan : (Relabeling.ranked tokens).span (moduleSpan [⟨file, text⟩]) = (Relabeling.ranked
        tokens').span (moduleSpan [⟨file', text'⟩]) := by grind [Relabeling.span_ranked]
    rw [Relabeling.tree_addModule, Relabeling.tree_addModule, htree, hsize]
    exact congrArg (fun span => (((Relabeling.ranked tokens').tree c'.tree).push
      (.decl ⟨.module name (members.map fun id => id), span⟩)).2.addModule c'.tree.size) hspan
  · cases hranked
  · cases hranked
  · refine .inl ?_
    obtain ⟨⟨problem, _⟩, rfl⟩ := items_error h hitems
    obtain ⟨⟨_, _⟩, rfl⟩ := items_error h' hitems'
    obtain ⟨rfl, hrank⟩ := Diagnostic.mk.inj (Failure.diagnostic.inj (error.inj hranked).1)
    obtain ⟨_, _, hagain, -⟩ | ⟨_, _, token, ht, hagain⟩ := items_placed h
    · cases hitems.symm.trans hagain
    obtain ⟨_, _, hagain', -⟩ | ⟨_, _, token', ht', hagain'⟩ := items_placed h'
    · cases hitems'.symm.trans hagain'
    cases hitems.symm.trans hagain
    cases hitems'.symm.trans hagain'
    -- both tokens have as many tokens before them
    obtain ⟨index, hindex⟩ := mem_iff_getElem?.1 ht
    obtain ⟨index', hindex'⟩ := mem_iff_getElem?.1 ht'
    have hstart := congrArg (fun token => token.span.start.offset) (Relabeling.token_ranked h hindex)
    have hstart' := congrArg (fun token => token.span.start.offset) (Relabeling.token_ranked h' hindex')
    have hoffset := congrArg Position.offset hrank
    obtain rfl : index = index' := hstart.symm.trans (hoffset.trans hstart')
    exact ⟨problem, index, token, token', hindex, hindex', by rw [ofFiles_of_scan h, hitems],
      by rw [ofFiles_of_scan h', hitems']⟩

end

end Tree

end TraitLang
