import TraitLang.Proofs.Parsing.Rules

/-! Reading source makes forests. The tree of a module is one whole tree, whatever files it is read
from. If the text is that of one file, then the spans of what is in it follow each other too. -/
namespace TraitLang

variable {files : List SourceFile} {name : String} {tree : Tree}

/-- The tree of some files is the node of a module over the trees of its items. -/
lemma Tree.exists_items_of_ofFiles
      (h : Tree.ofFiles files name = .ok tree) : ∃ tokens members c, tokensOf files = .ok tokens ∧
      (Cursor.ofTokens (moduleSpan files).start.file tokens).Grows c members ∧
      (∀ member ∈ members, c.tree.Declares DeclKind.isItem member) ∧ tree = (c.tree.push
      (.decl ⟨.module name members, moduleSpan files⟩)).2.addModule c.tree.size := by
  unfold ofFiles at h
  split at h
  · cases h
  next tokens htokens =>
    dsimp only at h
    split at h
    next _ _ hc =>
      cases h
      obtain ⟨members, c, hitems, hinsert⟩ := bind_eq_ok.1 hc
      obtain ⟨g, -⟩ := (Grammar.leads_items fun h : Feed.any.plain => h.elim).grants _ _ hitems
      obtain ⟨rfl, rfl⟩ := EStateM.Result.ok.inj hinsert
      exact ⟨tokens, members, c, htokens, Part.filterMap_map_node members ▸ g.grows, g.holds _ (.refl _), rfl⟩
    next => cases h

/-- The tree of some files is one whole tree. -/
lemma Tree.rooted_ofFiles (h : Tree.ofFiles files name = .ok tree) : ∃ root, tree.Rooted root := by
  obtain ⟨tokens, members, c, -, g, hmembers, rfl⟩ := exists_items_of_ofFiles h
  have hempty : (Cursor.ofTokens (moduleSpan files).start.file tokens).tree = .empty := by
    cases tokens <;> rfl
  have hgrows : Grows _ (c.tree.push (.decl ⟨.module name members, moduleSpan files⟩)).2 [c.tree.size] :=
    g.forest.push hmembers
  rw [hempty] at hgrows
  refine ⟨c.tree.size, size_push .., congrArg (· ++ [c.tree.size]) hgrows.extends_.modules_eq, ?_, ?_⟩
  · exact ⟨⟨.module name members, moduleSpan files⟩, decl?_eq_some.2 ((node?_push ..).trans (if_pos rfl)), rfl⟩
  · have hforest := hgrows.forest
    rw [size_push] at hforest
    exact hforest.addModule _

end TraitLang
