import TraitLang.Proofs.Layouts.Texts

/-! Diagnostics point into the text. Reading and checking only hand on the places of tokens and of
the module: they come to the same if all other places are in files of other names, so they report
nothing there. -/
namespace TraitLang

open List

open Relabeling (move marking offset_marking start_marking_iff)

/-- A place between two characters of one of some files, or at an end of its text. -/
def Position.Within (files : List SourceFile) (position : Position) : Prop :=
  ∃ file ∈ files, ∃ before after, file.text = before ++ after ∧ position = ⟨before.utf8ByteSize, file.name⟩

lemma Position.within_of_toList {files file} (hf : file ∈ files) {before after}
    (h : file.text.toList = before ++ after) : Within files ⟨Text.byteLength before, file.name⟩ := by
  refine ⟨file, hf, .ofList before, .ofList after, ?_, ?_⟩
  · rw [← String.ofList_append, ← h, String.ofList_toList]
  · rw [Text.utf8ByteSize_eq, String.toList_ofList]

namespace Token

/-- Tokens start between two characters of their text, and so does what is no token. -/
lemma within_scan {files file} (hf : file ∈ files) : match scan file.name file.text with
    | .ok tokens => ∀ token ∈ tokens, token.span.start.Within files
    | .error diagnostic => diagnostic.position.Within files := by
  cases h : scan file.name file.text with
  | ok tokens =>
    obtain ⟨pieces, rfl, hpieces, hdescribes, -⟩ := exists_pieces h
    obtain ⟨body, htokens, hbody, -, hspells⟩ := exists_body h hpieces hdescribes
    rw [htokens]
    intro token ht
    rcases mem_append.1 ht with ht | ht
    · obtain ⟨_, ⟨before, after, htext, hstart, -⟩, -⟩ := covers_of_spells hpieces hspells ht
      rw [append_assoc] at htext
      have hposition : token.span.start = ⟨Text.byteLength before, file.name⟩ :=
        congrArg₂ Position.mk hstart (hbody token ht).2.start_file
      exact hposition ▸ Position.within_of_toList hf htext
    · obtain rfl := mem_singleton.1 ht
      exact ⟨file, hf, file.text, "", String.append_empty.symm, rfl⟩
  | error diagnostic =>
    have happend := (Piece.cutWithin_append file.text.toList.length file.text.toList).1
    unfold scan at h
    dsimp only at h
    split at h
    · cases h
    next hleft =>
      cases h
      exact Position.within_of_toList hf happend.symm

end Token

namespace Tree

variable {files : List SourceFile}

lemma within_tokensOf {some} (hsub : ∀ file ∈ some, file ∈ files) : match tokensOf some with
    | .ok tokens => ∀ token ∈ tokens, token.span.start.Within files
    | .error diagnostic => diagnostic.position.Within files := by
  induction some with
  | nil => exact fun token ht => nomatch ht
  | cons file rest ih =>
    obtain ⟨hfile, hrest⟩ := forall_mem_cons.1 hsub
    have hscan := Token.within_scan hfile
    cases rest with
    | nil => exact hscan
    | cons next rest =>
      have ih := ih hrest
      simp only [tokensOf]
      cases hs : Token.scan file.name file.text with
      | error diagnostic => rw [hs] at hscan; exact hscan
      | ok tokens =>
        rw [hs] at hscan
        cases ht : tokensOf (next :: rest) with
        | error diagnostic => rw [ht] at ih; exact ih
        | ok more =>
          rw [ht] at ih
          intro token hm
          rcases mem_append.1 hm with hm | hm
          · exact hscan token (mem_of_mem_dropLast hm)
          · exact ih token hm

/-- Reading fails at places of the files, and a tree is the same if all other places are
elsewhere. -/
lemma within_ofFiles (hne : files ≠ []) (name : String) [DecidablePred (Position.Within files)] :
    match ofFiles files name with
    | .ok tree => (marking (Position.Within files)).tree tree = tree
    | .error failure => ∀ diagnostic, failure = .diagnostic diagnostic → diagnostic.position.Within files := by
  obtain ⟨first, rest, rfl⟩ := exists_cons_of_ne_nil hne
  have hzero : Position.Within (first :: rest) ⟨0, first.name⟩ :=
    ⟨first, mem_cons_self, "", first.text, (String.empty_append).symm, rfl⟩
  have htokens := @within_tokensOf (first :: rest) (first :: rest) fun _ => id
  unfold ofFiles
  cases ht : tokensOf (first :: rest) with
  | error diagnostic =>
    rw [ht] at htokens
    rintro _ ⟨⟩
    exact htokens
  | ok tokens =>
    rw [ht] at htokens
    have hitems := Grammar.items_marking (fun _ => hzero) htokens
    simp only [moduleSpan, Grammar.module, bind, EStateM.bind]
    cases hi : Grammar.items (Cursor.ofTokens first.name tokens) with
    | error failure c => rw [hi] at hitems; exact hitems
    | ok members c =>
      rw [hi] at hitems
      refine (Relabeling.tree_addModule ..).trans ?_
      rw [hitems]
      exact congrArg₂ (fun start members => (c.tree.push (.decl ⟨.module name members,
        ⟨start, _⟩⟩)).2.addModule c.tree.size) (start_marking_iff.2 hzero) (map_id' members)

end Tree

namespace Check

/-- Whatever is reported about files, by the lexer, the parser or the checker, is at a place in one
of them. -/
theorem diagnostics_within {files : List SourceFile} (hne : files ≠ []) (name : String)
    (settings : Settings) : (∀ file ∈ files, ∀ diagnostic, Token.scan file.name file.text =
    .error diagnostic → diagnostic.position.Within files) ∧ (∀ diagnostic,
    Tree.ofFiles files name = .error (.diagnostic diagnostic) → diagnostic.position.Within files) ∧
    ∀ tree, Tree.ofFiles files name = .ok tree → ∃ program good s,
    Program.ofTree tree = .ok program ∧ checkProgram (.new program settings) = .ok good s ∧
      ∀ diagnostic ∈ s.finish.diagnostics, diagnostic.position.Within files := by
  classical
  have hread := Tree.within_ofFiles hne name
  refine ⟨fun file hf diagnostic h => ?_, fun diagnostic h => ?_, fun tree h => ?_⟩
  · have hscan := Token.within_scan hf
    rwa [h] at hscan
  · rw [h] at hread
    exact hread diagnostic rfl
  · obtain ⟨_, hr⟩ := Tree.rooted_ofFiles h
    rw [h] at hread
    obtain ⟨program, good, s, t, hprogram, hrun, hmoved, hright, hst⟩ :=
      exists_checkProgram_moved hr (fun _ expr _ position => by
        rw [show ((move _ _).start expr.span.start).offset = _ from offset_marking
          (Position.Within files) expr.span.start]
        exact .rfl) settings
    rw [show (move _ _).tree tree = tree from hread, hprogram] at hmoved
    rw [← Except.ok.inj hmoved, hrun] at hright
    obtain rfl := (EStateM.Result.ok.inj hright).2
    refine ⟨program, good, s, hprogram, hrun, fun diagnostic hd => start_marking_iff.1 ?_⟩
    have hreports : s.diagnostics = s.diagnostics.map (marking (Position.Within files)).diagnostic := hst.fits.reports
    have hsame := List.map_eq_map_iff.1 (hreports.symm.trans (List.map_id _).symm)
    exact congrArg Diagnostic.position (hsame diagnostic hd)

/-- Two files with wide characters and a problem in each of them. -/
def astray : List SourceFile :=
  [⟨"a", "let x: Int = \"é\"; // é\n"⟩, ⟨"b", "// ü\nlet y = \"ü\" + x + z;"⟩]

theorem diagnostics_within_astray : ∃ program good s, Checked astray "main" {} program good s ∧
    (∀ name ∈ ["a", "b"], ∃ diagnostic ∈ s.finish.diagnostics, diagnostic.position.file = name) ∧
      ∀ diagnostic ∈ s.finish.diagnostics, diagnostic.position.Within astray := by
  have hrun : (checked? astray "main" {}).any fun found =>
      ["a", "b"].all fun name => found.2.2.finish.diagnostics.any fun diagnostic =>
        diagnostic.position.file = name := by
    decide +kernel
  obtain ⟨program, good, s, hchecked, htest⟩ := Checked.exists_of_any hrun
  obtain ⟨tree, hread, hprogram⟩ := hchecked.read
  obtain ⟨_, _, _, hagain, hrun, hwithin⟩ := (diagnostics_within (by simp [astray]) "main" {}).2.2 tree hread
  cases hprogram.symm.trans hagain
  cases hchecked.run.symm.trans hrun
  exact ⟨program, good, s, hchecked, by simpa using htest, hwithin⟩

end Check

end TraitLang
