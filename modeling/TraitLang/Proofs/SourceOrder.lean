import TraitLang.Proofs.Preorder
import TraitLang.Proofs.Reading

/-! The declarations of a scope in source order. The list of a scope holds exactly the declarations
that are in it, each once, every node before what is below it. In the text of one file that is the
order in which they start. -/
namespace TraitLang

open List

namespace Tree

def offset (tree : Tree) (id : NodeId) : Nat :=
  ((tree.span? id).map fun span => span.start.offset).getD 0

variable {tree : Tree} {node : Node}

lemma offset_of_node? {id} (hn : tree.node? id = some node) : tree.offset id = node.span.start.offset := by
  simp [offset, span?, hn]

/-- Neat nodes at or below a row of roots start one after the other. -/
lemma Lists.sorted {roots listing} (hl : tree.Lists roots listing) :
    (∀ id ∈ listing, tree.NeatAt id) → ∀ {low high}, tree.Row low roots high →
    (∀ id ∈ listing, low ≤ tree.offset id ∧ tree.offset id ≤ high) ∧ listing.Pairwise fun x y =>
      tree.offset x ≤ tree.offset y := by
  induction hl with
  | nil => exact fun _ _ _ _ => ⟨by simp, .nil⟩
  | @cons root _ below rest node hn _ _ ih1 ih2 =>
    rintro hneat low high (_ | ⟨hn', hlow, hle, hhigh, hrest⟩)
    cases hn.symm.trans hn'
    have hoffset := offset_of_node? hn
    simp only [forall_mem_cons, forall_mem_append] at hneat
    obtain ⟨hbelow, hsorted⟩ := ih1 hneat.2.1 (hneat.1 node hn)
    obtain ⟨hafter, hsorted'⟩ := ih2 hneat.2.2 hrest
    have hfirst : ∀ id ∈ below ++ rest, tree.offset root ≤ tree.offset id ∧ tree.offset id ≤ high := by grind
    refine ⟨forall_mem_cons.2 ⟨by omega, fun id hid => ?_⟩, pairwise_cons.2
      ⟨fun id hid => (hfirst id hid).1, pairwise_append.2 ⟨hsorted, hsorted', fun x hx y hy => ?_⟩⟩⟩
    · have := hfirst id hid
      omega
    · have := hbelow x hx
      have := hafter y hy
      omega

/-- A tree that is neat below its root, whose children follow each other. -/
lemma Rooted.sorted_preorder {root high} (h : tree.Rooted root) (hn : tree.node? root = some node)
    (hneat : ∀ id < root, tree.NeatAt id) (hrow : tree.Row node.span.start.offset node.children high) :
    tree.preorder.Pairwise fun x y => tree.offset x ≤ tree.offset y := by
  have hlists := h.lists_preorder
  rw [h.modules_eq] at hlists
  generalize tree.preorder = listing at hlists
  rcases hlists with _ | ⟨hn', hbelow, hrest⟩
  cases hrest
  cases hn.symm.trans hn'
  rw [append_nil]
  have hforest := (h.below hn).2
  obtain ⟨hbounds, hsorted⟩ := hbelow.sorted (fun id hid => hneat id (by
    have hmem := (hforest.perm_of_lists hbelow).mem_iff.1 hid
    rw [mem_range'_1] at hmem
    omega)) hrow
  refine pairwise_cons.2 ⟨fun id hid => ?_, hsorted⟩
  rw [offset_of_node? hn]
  exact (hbounds id hid).1

/-- The nodes of one file start one after the other. -/
lemma sorted_ofFiles {file name} (h : ofFiles [file] name = .ok tree) :
    tree.preorder.Pairwise fun x y => tree.offset x ≤ tree.offset y := by
  obtain ⟨root, hr⟩ := rooted_ofFiles h
  obtain ⟨_, members, c, htokens, g, -, rfl⟩ := exists_items_of_ofFiles h
  have hlays := g.lays (Cursor.orderly_ofTokens _ (Token.inOrder_scan htokens))
  have hextends := Extends.push c.tree (.decl ⟨.module name members, moduleSpan [file]⟩)
  obtain rfl : root = c.tree.size := by simpa [addModule, size, push] using hr.size_eq.symm
  refine hr.sorted_preorder ((node?_push ..).trans (if_pos rfl)) (fun id hid node hn => ?_)
    (((hlays.row.weaken (Nat.zero_le _) le_rfl).mono hextends).addModule _)
  exact ((hlays.orderly.neat id node ((hextends.node?_eq id hid).symm.trans hn)).mono hextends).addModule _

end Tree

namespace Program

/-- The program of some files has lists of exactly the declarations of each scope, each once and
every node before what is below it. If there is one file, then the declarations in a list start one
after the other. -/
theorem exists_decls_ofFiles {files : List SourceFile} {name : String} {tree : Tree}
    (h : Tree.ofFiles files name = .ok tree) : ∃ program, ofTree tree = .ok program ∧
      tree.preorder.Perm (List.range tree.size) ∧
      ∀ scope, program.decls scope = tree.preorder.filter (fun id =>
          (tree.decl? id).isSome && program.scopeOf id == some scope) ∧
        ∀ file, files = [file] → (program.decls scope).Pairwise fun x y => tree.offset x ≤ tree.offset y := by
  obtain ⟨root, hr⟩ := Tree.rooted_ofFiles h
  obtain ⟨program, hp, hdecls⟩ := exists_ofTree_decls hr
  refine ⟨program, hp, hr.perm_preorder, fun scope => ⟨hdecls scope, ?_⟩⟩
  rintro file rfl
  rw [hdecls scope]
  exact (Tree.sorted_ofFiles h).filter _

/-- Bindings in conditions, cases and the block of a loop. -/
def nested : List SourceFile :=
  [⟨"a", "fun f() { do { let (a, b) = (1, if let c = 2 { c } else { 3 }); } while match 1 { case let d { true } }; }"⟩]

theorem exists_decls_ofFiles_nested : ∃ tree, Tree.ofFiles nested "main" = .ok tree ∧
    ∃ program, ofTree tree = .ok program ∧ tree.preorder.Perm (List.range tree.size) ∧
    ∀ scope, program.decls scope = tree.preorder.filter (fun id =>
        (tree.decl? id).isSome && program.scopeOf id == some scope) ∧
      ∀ file, nested = [file] → (program.decls scope).Pairwise fun x y => tree.offset x ≤ tree.offset y := by
  have hread : (Tree.ofFiles nested "main").isOk := by decide +kernel
  obtain ⟨tree, h⟩ := exists_eq_ok hread
  exact ⟨tree, h, exists_decls_ofFiles h⟩

end Program

end TraitLang
