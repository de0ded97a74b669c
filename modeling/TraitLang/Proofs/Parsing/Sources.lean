import TraitLang.Proofs.Reading

/-! The tree of one text. Reading a text ends in a tree or in a diagnostic. In the tree the spans of
children follow each other inside of those of their parents, and the words of the tree are those of
the text. -/
namespace TraitLang

open Token Cursor Grammar

/-! ### Outcomes of reading a text -/

variable {file : String} {tokens : List Token}

lemma Cursor.proper_ofTokens {size} (name : String) (h : Token.Fill file size 0 tokens) :
    (ofTokens name tokens).Proper file size := by
  cases tokens with
  | nil => cases h
  | cons token tokens =>
    obtain ⟨-, hfill⟩ := h
    refine ⟨⟨le_rfl, hfill⟩, ?_, ?_, fun id node hn => by simp [ofTokens, Tree.empty, Tree.node?] at hn⟩
    · split at hfill
      · exact hfill.1
      · exact hfill.1.start_file
    · split at hfill
      · exact hfill.2.1
      · exact hfill.1.lt.le.trans hfill.1.le

lemma Cursor.tokens_ofTokens {size} (name : String) (h : Token.Fill file size 0 tokens) :
    (ofTokens name tokens).tokens = tokens := by
  cases tokens with
  | nil => cases h
  | cons token tokens => rfl

namespace Tree

/-- The tree of a text is the node of a module over its items, which say the words of all tokens. -/
structure Parsed (text file : String) (tree : Tree) (members : List DeclId) (c : Cursor)
    (tokens : List Token) : Prop where
  scan : scan file text = .ok tokens
  items : items (ofTokens file tokens) = .ok members c
  reads : (ofTokens file tokens).Reads file text.utf8ByteSize c (members.map .node)
  grows : (ofTokens file tokens).Grows c members
  ended : c.current.kind = .eof
  tree_eq : tree = (c.tree.push (.decl ⟨.module "main" members,
  moduleSpan [⟨file, text⟩]⟩)).2.addModule c.tree.size

lemma ofSource_cases (text file : String) :
    (∃ diagnostic, ofSource text file = .error (.diagnostic diagnostic)) ∨ ∃ tree members c tokens,
    ofSource text file = .ok tree ∧ Parsed text file tree members c tokens := by
  unfold ofSource ofFiles
  cases hscan : scan file text with
  | error diagnostic => exact .inl ⟨diagnostic, by simp [tokensOf, hscan]⟩
  | ok tokens =>
    have hproper := proper_ofTokens file (fill_scan hscan)
    have hruns := leads_items fun _ : (Feed.text file text.utf8ByteSize).plain => hproper
    unfold Parse.Leads at hruns
    cases hitems : items (ofTokens file tokens) with
    | error failure c =>
      rw [hitems] at hruns
      obtain ⟨diagnostic, rfl⟩ := hruns trivial
      refine .inl ⟨diagnostic, ?_⟩
      simp only [tokensOf, hscan, moduleSpan, module, bind, EStateM.bind, hitems]
    | ok members c =>
      rw [hitems] at hruns
      obtain ⟨hgains, hend⟩ := hruns
      have hgrows := hgains.grows
      rw [Part.filterMap_map_node] at hgrows
      refine .inr ⟨_, members, c, tokens, ?_, hscan, hitems, hgains.reads trivial, hgrows, hend, rfl⟩
      simp only [tokensOf, hscan, moduleSpan, module, bind, EStateM.bind, hitems]
      rfl

variable {text file : String} {tree : Tree} {low high : Nat} {roots : List NodeId}

lemma Parsed.of_ofSource (h : ofSource text file = .ok tree) :
    ∃ members c tokens, Parsed text file tree members c tokens := by
  obtain ⟨_, he⟩ | ⟨_, members, c, tokens, he, hp⟩ := ofSource_cases text file
  · rw [h] at he
    cases he
  · grind

/-! ### Spans -/

lemma span?_of_node? {id node} (hn : tree.node? id = some node) : tree.span? id = some node.span := by
  simp [span?, hn]

/-- The spans of children are in the span of their parent, and none of them starts before the one
before it has ended. -/
structure Encased (tree : Tree) (span : Span) (children : List NodeId) : Prop where
  within : ∀ child ∈ children, ∃ inner, tree.span? child = some inner ∧
    span.start.offset ≤ inner.start.offset ∧ inner.stop.offset ≤ span.stop.offset
  apart : children.Pairwise fun x y => ∃ first second, tree.span? x = some first ∧
  tree.span? y = some second ∧
    first.start.offset < first.stop.offset ∧ first.stop.offset ≤ second.start.offset

/-- Every span is one of a text of a given size, and children are encased in their parents. -/
def SpansNest (file : String) (size : Nat) (tree : Tree) : Prop :=
  ∀ id node, tree.node? id = some node → node.span.start.file = file ∧ node.span.stop.file = file ∧
    node.span.start.offset ≤ node.span.stop.offset ∧ node.span.stop.offset ≤ size ∧ tree.Encased node.span node.children

lemma Row.exists_node? (h : tree.Row low roots high) : ∀ id ∈ roots, ∃ node, tree.node? id = some node := by
  induction h with
  | nil => simp
  | cons hn _ _ _ _ ih => exact List.forall_mem_cons.2 ⟨⟨_, hn⟩, ih⟩

lemma Row.within (h : tree.Row low roots high) : ∀ root ∈ roots,
    ∃ span, tree.span? root = some span ∧ low ≤ span.start.offset ∧ span.stop.offset ≤ high := by
  induction h with
  | nil => simp
  | cons hn hlow hle hhigh _ ih =>
    refine List.forall_mem_cons.2 ⟨⟨_, span?_of_node? hn, hlow, hhigh⟩, fun root hr => ?_⟩
    obtain ⟨span, hs, hlow', hhigh'⟩ := ih root hr
    exact ⟨span, hs, by omega, hhigh'⟩

lemma Row.encased {span} (hne : ∀ id ∈ roots,
    ∀ node, tree.node? id = some node → node.span.start.offset < node.span.stop.offset)
    (h : tree.Row span.start.offset roots span.stop.offset) : tree.Encased span roots := by
  refine ⟨h.within, ?_⟩
  generalize span.start.offset = low, span.stop.offset = high at h
  induction h with
  | nil => exact .nil
  | cons hn _ _ _ hrest ih =>
    obtain ⟨hfirst, hne⟩ := List.forall_mem_cons.1 hne
    refine List.pairwise_cons.2 ⟨fun child hc => ?_, ih hne⟩
    obtain ⟨inner, hs, hlow, -⟩ := hrest.within child hc
    exact ⟨_, inner, span?_of_node? hn, hs, hfirst _ hn, hlow⟩

lemma Parsed.spansNest {members c tokens} (h : Parsed text file tree members c tokens) :
    tree.SpansNest file text.utf8ByteSize := by
  obtain ⟨hscan, -, hreads, hgrows, -, rfl⟩ := h
  have hlays := hgrows.lays (orderly_ofTokens _ (inOrder_scan hscan))
  have hproper := hreads.proper
  have hextends := Extends.push c.tree (.decl ⟨.module "main" members, moduleSpan [⟨file, text⟩]⟩)
  -- what is in a row under the module still is when the module is there
  have encased {span ids} (hrow : c.tree.Row span.start.offset ids span.stop.offset) :
      ((c.tree.push (.decl ⟨.module "main" members,
      moduleSpan [⟨file, text⟩]⟩)).2.addModule c.tree.size).Encased span ids := by
    refine Row.encased (fun id hid node hn => ?_) ((hrow.mono hextends).addModule _)
    obtain ⟨_, hfound⟩ := hrow.exists_node? id hid
    cases (hextends.node?_of_some hfound).symm.trans hn
    exact (hproper.nodes id _ hfound).lt
  intro id node hn
  change (c.tree.push _).2.node? id = some node at hn
  rw [node?_push] at hn
  split at hn
  · cases hn
    exact ⟨rfl, rfl, Nat.zero_le _, le_rfl, encased (hlays.row.weaken (Nat.zero_le _) hproper.stop_le)⟩
  · have hinside := hproper.nodes id node hn
    exact ⟨hinside.start_file, hinside.stop_file, hinside.lt.le, hinside.le.trans hproper.stop_le,
      encased (hlays.orderly.neat id node hn)⟩

/-- Reading a text never asks for a span that ends before it starts, neither for a token, also of a
text with an error in it, nor for a node. It ends in a diagnostic, or in a tree whose spans lie in
the text, those of children one after the other in that of their parent. -/
theorem spansNest_ofSource
    (text file : String) : (∀ token ∈ ofPieces file 0 (Piece.cut text.toList).1,
      Span.between token.span.start token.span.stop = .ok token.span ∧ token.span.stop.offset ≤
      text.utf8ByteSize) ∧ ((∃ diagnostic, ofSource text file = .error (.diagnostic diagnostic)) ∨
      ∃ tree, ofSource text file = .ok tree ∧ tree.SpansNest file text.utf8ByteSize) := by
  refine ⟨fun token ht => ?_, ?_⟩
  · obtain ⟨hle, hsize⟩ := (fill_cut file text).span_le token ht
    exact ⟨by rw [Span.between, if_pos hle], hsize⟩
  · obtain hd | ⟨tree, members, c, tokens, he, hp⟩ := ofSource_cases text file
    · exact .inl hd
    · exact .inr ⟨tree, he, hp.spansNest⟩

/-! ### Words -/

/-- The words of the tree of a text are those of its tokens, each once and in order. -/
theorem words_ofSource {text file : String} {tree : Tree} (h : ofSource text file = .ok tree) :
    ∃ tokens root, scan file text = .ok tokens ∧ tree.modules = [root] ∧
      tree.words root = tokens.filterMap word? := by
  obtain ⟨root, hr⟩ := rooted_ofFiles h
  obtain ⟨members, c, tokens, hscan, -, hreads, -, hend, htree⟩ := Parsed.of_ofSource h
  obtain ⟨passed, htokens, htells⟩ := hreads.tells
  have hroot : root = c.tree.size := by
    have hsize := hr.size_eq
    rw [htree] at hsize
    simpa [addModule, size, push] using hsize.symm
  rw [hreads.proper.tokens_eq hend, tokens_ofTokens file (fill_scan hscan)] at htokens
  refine ⟨tokens, root, hscan, hr.modules_eq, ?_⟩
  have hnone : c.current.word? = none := by simp [word?, hend]
  rw [htokens, List.filterMap_append, List.filterMap_cons_none hnone, List.filterMap_nil, List.append_nil]
  refine Tells.words_eq ?_ fun parent child hc => (hr.child hc).2.1
  rw [hroot, htree]
  exact (Tells.push (by exact htells)).addModule _

/-- Parentheses around an operand, leading zeros and a comma after the last parameter, none of which
are in the tree. -/
def spoken : String :=
  "fun f<T>(x: any P,) \x7b let (a, b) = (12 + (007), \"s\"); return !x.f(true); \x7d"

theorem words_ofSource_spoken : ∃ tree root, ofSource spoken "a" = .ok tree ∧
    tree.modules = [root] ∧ tree.words root = [.name "f", .name "T", .name "x", .name "P",
    .name "a", .name "b", .int 12, .int 7, .str "s", .name "x", .name "f", .bool true] := by
  have hread : (ofSource spoken "a").isOk := by decide +kernel
  have hspoken : (scan "a" spoken).map (fun tokens => tokens.filterMap word?) =
      .ok [.name "f", .name "T", .name "x", .name "P", .name "a", .name "b", .int 12, .int 7,
      .str "s", .name "x", .name "f", .bool true] := by
    decide +kernel
  obtain ⟨tree, h⟩ := exists_eq_ok hread
  obtain ⟨tokens, root, hscan, hmodules, hwords⟩ := words_ofSource h
  rw [hscan] at hspoken
  exact ⟨tree, root, h, hmodules, hwords.trans (by simpa [Except.map] using hspoken)⟩

end Tree

end TraitLang
