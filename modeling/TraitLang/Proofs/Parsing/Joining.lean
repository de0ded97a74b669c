import TraitLang.Proofs.Parsing.Abreast
import TraitLang.Proofs.Parsing.Sources

/-! Several files read as one module. The declarations of each file end by tokens of their own, so
reading all files in a row makes the nodes that reading each file alone makes, under numbers that go
on from file to file. -/
namespace TraitLang

open Phrase Relabeling List Grammar

/-! ### Declarations in a row -/

namespace Parse

variable {α β : Type} {c d : Cursor}

lemma bind_congr {x} {k : α → Parse β} (h : x c = x d) : (x >>= k) c = (x >>= k) d := by
  simp only [bind, EStateM.bind, h]

lemma pure_eq_ok {a b} : (pure a : Parse α) c = .ok b d ↔ b = a ∧ d = c := by
  simp [pure, EStateM.pure, eq_comm]

lemma untilWithin_eq_ok {close item bound} {as : List α} :
    untilWithin close item (bound + 1) c = .ok as d ↔ (c.current.kind = close ∧ as = [] ∧ d = c) ∨
      (c.current.kind ≠ close ∧ ∃ a c1, item c = .ok a c1 ∧ ∃ more,
      untilWithin close item bound c1 = .ok more d ∧ as = a :: more) := by
  show (if c.current.kind = close then (return []) else (do
    let first ← item
    return first :: (← untilWithin close item bound)) : Parse (List α)) c = _ ↔ _
  split
  next hk => simp [hk, pure_eq_ok]
  next hk =>
    simp only [hk, false_and, false_or, ne_eq, not_false_eq_true, true_and, bind_eq_ok, pure_eq_ok]
    grind

end Parse

namespace Grammar

open Parse

/-- The token passed before a declaration does not matter to it. -/
lemma item_of_previous (read : Reader) {d d' id next more}
    (previous : Option Token) (hk : d.current.kind ≠ .eof) (ha : d.ahead = next :: more) :
    item read { d with previous } = .ok id d' → item read d = .ok id d' := by
  have hadvance : advance { d with previous } = advance d := by
    show EStateM.Result.ok d.current (Cursor.advance { d with previous }) = .ok d.current d.advance
    rw [Cursor.advance_of_ahead { d with previous } hk ha, Cursor.advance_of_ahead d hk ha]
  have hfunction : function read { d with previous } = function read d := bind_congr hadvance
  have htrait : trait read { d with previous } = trait read d := bind_congr hadvance
  have hproduct : product read { d with previous } = product read d := bind_congr hadvance
  have hbinding : binding read { d with previous } = binding read d := bind_congr hadvance
  have hbindingItem : bindingItem read { d with previous } = bindingItem read d := bind_congr hbinding
  have hkind : kind d = .ok d.current.kind d := rfl
  have same {work : Parse DeclId} (h : work { d with previous } = work d) :
      Grants work { d with previous } fun id d' => work d = .ok id d' :=
    fun _ _ hc => h.symm.trans hc
  have hgrants : Grants (item read) { d with previous } fun id d' => item read d = .ok id d' := by
    unfold item
    refine grants_get_bind.2 ?_
    simp only [bind_ok hkind]
    split
    next hk => simpa only [hk] using same hfunction
    next hk => simpa only [hk] using same htrait
    next hk => simpa only [hk] using same hproduct
    next hk => simpa only [hk] using same hbindingItem
    next hk => simpa only [hk] using same hbindingItem
    next =>
      intro _ _ h
      cases h
  exact hgrants id d'

variable {before : Array Node} {rest : List Token} {file : String} {size : Nat}

/-- The declarations of a text are read before other tokens. After them the reading goes on with the
other tokens. -/
lemma until_glued (hrest : rest ≠ []) (m : Nat) : ∀ {c c' d members n}, c.Proper file size →
    c.Shares before rest d → d.remaining < n → untilWithin .eof (item read) m c = .ok members c' →
    ∃ d' n', c'.current.kind = .eof ∧ c'.Shares before rest d' ∧ d'.remaining < n' ∧
      ∀ more d'', untilWithin .eof (item read) n' d' = .ok more d'' → untilWithin .eof (item read)
        n d = .ok (members.map (shift before.size).id ++ more) d'' := by
  induction m with
  | zero =>
    intro c c' d members n _ _ _ h
    cases h
  | succ m ih =>
    intro c c' d members n hproper hshares hn h
    obtain ⟨hk, rfl, rfl⟩ | ⟨hk, id, c1, hitem, _, hothers, rfl⟩ := untilWithin_eq_ok.1 h
    · exact ⟨d, n, hk, hshares, hn, fun _ _ h => h⟩
    have hready : c.Ready (.text file size) c.remaining := fun _ => ⟨hproper, le_rfl⟩
    have htakes := (able_item (able_read c.remaining) c hready).grants id c1 hitem
    -- the second reading is taken for one that has just passed what the first one has
    have habreast : c.Abreast before rest { d with previous := c.previous } :=
      ⟨{ hshares with }, rfl, fun hend => absurd hend hk⟩
    obtain ⟨d1, hd1, h1⟩ := ((ends_item hrest).goes c _ habreast hk id c1 hitem).resolve_left And.left
    obtain ⟨_, _, _, more, _, hahead, _⟩ := hshares.exists_ahead hrest hk
    have hkd : d.current.kind ≠ .eof := by rwa [hshares.current_eq hk]
    have hd := item_of_previous read c.previous hkd hahead hd1
    obtain ⟨n, rfl⟩ : ∃ n1, n = n1 + 1 := ⟨n - 1, by omega⟩
    have hlt : d1.remaining < n := by
      have := htakes.lt trivial
      have := hshares.remaining_eq
      have := h1.remaining_eq
      omega
    obtain ⟨d', n', hk', h', hn', hrun⟩ := ih (htakes.read.reads trivial).proper h1.toShares hlt hothers
    refine ⟨d', n', hk', h', hn', fun more d'' hmore => ?_⟩
    exact untilWithin_eq_ok.2 (.inr ⟨hkd, _, d1, hd, _, hrun more d'' hmore, rfl⟩)

end Grammar

/-! ### Files in a row -/

lemma Token.Fill.glued {file size} (rest : List Token) {tokens} : ∀ {low},
    Fill file size low tokens → Glued rest tokens (tokens.dropLast ++ rest) := by
  induction tokens with
  | nil => exact fun h => h.elim
  | cons token tokens ih =>
    rintro low ⟨-, hfill⟩
    split at hfill
    next hk =>
      obtain ⟨-, -, -, rfl⟩ := hfill
      exact .ended hk
    next hk =>
      have hne : tokens ≠ [] := by
        rintro rfl
        exact hfill.2.elim
      rw [dropLast_cons_of_ne_nil hne]
      exact .cons hk (ih hfill.2)

lemma Token.Glued.exists_last {rest first second} (h : Glued rest first second) :
    ∃ last, last.kind = .eof ∧ first = first.dropLast ++ [last] := by
  induction h with
  | @ended last hk => exact ⟨last, hk, rfl⟩
  | cons _ _ ih => grind

lemma Cursor.tree_ofTokens (file : String) (tokens : List Token) : (ofTokens file tokens).tree = .empty := by
  cases tokens <;> rfl

namespace Tree

def members (tree : Tree) : List DeclId := tree.modules.flatMap tree.children

/-- The nodes of some trees in a row, without the last one of each tree, which is its module, and
the members of their modules. Numbers go up by the number of nodes before. -/
def joined : (count : Nat) → List Tree → List Node × List DeclId
  | _, [] => ([], [])
  | count, tree :: trees =>
    let nodes := tree.nodes.toList.dropLast
    let others := joined (count + nodes.length) trees
    (nodes.map (shift count).node ++ others.1, tree.members.map (shift count).id ++ others.2)

/-- One module over the members of the modules of some trees. -/
def join (name : String) (span : Span) (trees : List Tree) : Tree :=
  let (nodes, members) := joined 0 trees
  ⟨(nodes ++ [Node.decl ⟨.module name members, span⟩]).toArray, [nodes.length]⟩

namespace Parsed

variable {text file : String} {tree : Tree} {members : List DeclId} {c : Cursor}
  {tokens : List Token} (h : Parsed text file tree members c tokens)

include h

lemma dropLast_nodes : tree.nodes.toList.dropLast = c.tree.nodes.toList := by
  simp [h.tree_eq, addModule, push]

lemma members_eq : tree.members = members := by
  have hmodules := h.reads.extends_.modules_eq
  rw [Cursor.tree_ofTokens] at hmodules
  have hnode : tree.node? c.tree.size = some (.decl ⟨.module "main" members, moduleSpan [⟨file, text⟩]⟩) := by
    rw [h.tree_eq]
    exact (node?_push ..).trans (if_pos rfl)
  have hroots : tree.modules = [c.tree.size] := by
    rw [h.tree_eq]
    exact congrArg (· ++ [c.tree.size]) hmodules
  simp [Tree.members, hroots, children_of_node? hnode, Node.children, DeclKind.children]

/-- The declarations of a file are read in a row with others. -/
lemma exists_until {rest} (hrest : rest ≠ []) {d n} (hd : d.tokens = tokens.dropLast ++ rest)
    (hmodules : d.tree.modules = []) (hn : d.remaining < n) : ∃ d' n',
    d'.tokens = rest ∧ d'.tree.nodes.toList = d.tree.nodes.toList ++ tree.nodes.toList.dropLast.map
      (shift d.tree.size).node ∧ d'.tree.modules = [] ∧ d'.remaining < n' ∧ ∀ more d'',
      Parse.untilWithin .eof (item read) n' d' = .ok more d'' → Parse.untilWithin .eof (item read)
        n d = .ok (tree.members.map (shift d.tree.size).id ++ more) d'' := by
  have hfill := Token.fill_scan h.scan
  have htree := Cursor.tree_ofTokens file tokens
  have hshares : (Cursor.ofTokens file tokens).Shares d.tree.nodes rest d := by
    refine ⟨?_, by simp [htree, empty], by rw [htree, hmodules]; rfl⟩
    rw [Cursor.tokens_ofTokens file hfill, hd]
    exact hfill.glued rest
  obtain ⟨d', n', hk, h', hn', hrun⟩ := until_glued hrest _ (Cursor.proper_ofTokens file hfill) hshares hn h.items
  refine ⟨d', n', h'.tokens_eq hk, ?_, ?_, hn', ?_⟩
  · rw [h.dropLast_nodes, h'.nodes]
    simp [size]
  · rw [h'.modules, h.reads.extends_.modules_eq, htree]
    rfl
  · rw [h.members_eq]
    exact hrun

end Parsed

/-- The declarations up to the end of some tokens are those of some trees joined, after the nodes
made before. -/
def Yields (tokens : List Token) (trees : List Tree) : Prop :=
  ∀ (d : Cursor) (n : Nat), d.tokens = tokens → d.tree.modules = [] → d.remaining < n → ∃ d',
    Parse.untilWithin .eof (item read) n d = .ok (joined d.tree.size trees).2 d' ∧
    d'.tree.nodes.toList = d.tree.nodes.toList ++ (joined d.tree.size trees).1 ∧ d'.tree.modules = []

lemma yields_nil {last} (hk : last.kind = .eof) : Yields [last] [] := by
  intro d n hd hmodules hn
  obtain ⟨n, rfl⟩ : ∃ m, n = m + 1 := ⟨n - 1, by omega⟩
  have hcurrent : d.current = last := (cons.inj hd).1
  exact ⟨d, Parse.untilWithin_eq_ok.2 (.inl ⟨hcurrent ▸ hk, rfl, rfl⟩), (append_nil _).symm, hmodules⟩

variable {trees : List Tree}

lemma Parsed.yields {text file tree members c tokens rest}
    (h : Parsed text file tree members c tokens) (hrest : rest ≠ []) (hyields : Yields rest trees) :
    Yields (tokens.dropLast ++ rest) (tree :: trees) := by
  intro d n hd hmodules hn
  obtain ⟨d', n', hd', hnodes, hmodules', hn', hcontinue⟩ := h.exists_until hrest hd hmodules hn
  obtain ⟨d'', huntil, hnodes', hmodules''⟩ := hyields d' n' hd' hmodules' hn'
  have hsize : d'.tree.size = d.tree.size + tree.nodes.toList.dropLast.length := by
    have hlength := congrArg List.length hnodes
    simpa [size] using hlength
  rw [hsize] at huntil hnodes'
  refine ⟨d'', hcontinue _ _ huntil, ?_, hmodules''⟩
  rw [hnodes', hnodes, append_assoc]
  rfl

lemma exists_yields
    {files} (h : Forall₂ (fun file tree => ofSource file.text file.name = .ok tree) files trees) :
    files ≠ [] → ∃ tokens, tokensOf files = .ok tokens ∧ tokens ≠ [] ∧ Yields tokens trees := by
  induction h with
  | nil => exact fun h => absurd rfl h
  | @cons file _ files trees hfile hfiles ih =>
    intro _
    obtain ⟨_, _, tokens, hparsed⟩ := Parsed.of_ofSource hfile
    have hscan := hparsed.scan
    -- the tokens of the file are followed by its end, or by the tokens of the other files
    obtain ⟨rest, htokens, hne, hyields⟩ : ∃ rest, tokensOf (file :: files) = .ok
        (tokens.dropLast ++ rest) ∧ rest ≠ [] ∧ Yields rest trees := by
      cases hfiles with
      | nil =>
        obtain ⟨last, hk, hlast⟩ := ((Token.fill_scan hscan).glued []).exists_last
        exact ⟨[last], by rw [← hlast]; exact hscan, cons_ne_nil _ _, yields_nil hk⟩
      | cons =>
        obtain ⟨rest, hrest, hne, hyields⟩ := ih (cons_ne_nil _ _)
        refine ⟨rest, ?_, hne, hyields⟩
        simp only [tokensOf, hscan, hrest]
        rfl
    exact ⟨tokens.dropLast ++ rest, htokens, by simp [hne], hparsed.yields hne hyields⟩

/-- If each of some files can be read alone, then they can be read as one module. Its tree is the
trees of the files joined. -/
theorem ofFiles_eq_join {files : List SourceFile} {trees : List Tree} (name : String) (hne : files ≠ [])
    (h : Forall₂ (fun file tree => ofSource file.text file.name = .ok tree) files trees) :
    ofFiles files name = .ok (join name (moduleSpan files) trees) := by
  obtain ⟨tokens, htokens, hsome, hyields⟩ := exists_yields h hne
  obtain ⟨token, tokens, rfl⟩ := exists_cons_of_ne_nil hsome
  obtain ⟨d, huntil, hnodes, hmodules⟩ :=
    hyields (Cursor.ofTokens (moduleSpan files).start.file (token :: tokens)) _ rfl rfl
    (Nat.lt_succ_self _)
  have hitems : items (Cursor.ofTokens (moduleSpan files).start.file (token :: tokens)) = .ok (joined 0 trees).2 d :=
    huntil
  have hnodes : d.tree.nodes = (joined 0 trees).1.toArray := by
    apply Array.toList_inj.1
    exact hnodes
  have hmodule : module name (moduleSpan files) (Cursor.ofTokens (moduleSpan files).start.file
      (token :: tokens)) = .ok d.tree.size { d with tree := (d.tree.push
      (.decl ⟨.module name (joined 0 trees).2, moduleSpan files⟩)).2 } :=
    Parse.bind_ok hitems
  unfold ofFiles
  simp only [htokens, hmodule]
  simp [join, addModule, push, size, hnodes, hmodules]

/-- A file that ends in braces, one without tokens, and one that ends by a semicolon. -/
def seams : List SourceFile :=
  [⟨"a", "fun f() { }"⟩, ⟨"b", "// nothing"⟩, ⟨"c", "let (x, y) = (1, 2);"⟩]

theorem ofFiles_eq_join_seams : ∃ first second third, ofSource "fun f() { }" "a" = .ok first ∧
    ofSource "// nothing" "b" = .ok second ∧ ofSource "let (x, y) = (1, 2);" "c" = .ok third ∧
    ofFiles seams "main" = .ok (join "main" ⟨⟨0, "a"⟩, ⟨11, "a"⟩⟩ [first, second, third]) := by
  have hfirst : (ofSource "fun f() { }" "a").isOk := by decide +kernel
  have hsecond : (ofSource "// nothing" "b").isOk := by decide +kernel
  have hthird : (ofSource "let (x, y) = (1, 2);" "c").isOk := by decide +kernel
  obtain ⟨first, h1⟩ := exists_eq_ok hfirst
  obtain ⟨second, h2⟩ := exists_eq_ok hsecond
  obtain ⟨third, h3⟩ := exists_eq_ok hthird
  exact ⟨first, second, third, h1, h2, h3, ofFiles_eq_join "main" (cons_ne_nil _ _)
    (.cons h1 (.cons h2 (.cons h3 .nil)))⟩

end Tree

end TraitLang
