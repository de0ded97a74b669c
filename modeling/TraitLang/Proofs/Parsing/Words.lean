import Mathlib.Data.Nat.Digits.Defs
import TraitLang.Grammar.Expr
import TraitLang.Proofs.Shape

/-! The words of a text: its names and literals. A node says some words of its own and those of its
children, in the order in which they stand in the text. -/
namespace TraitLang

open List

inductive Word where
  | name (text : String)
  | int (value : Int)
  | str (value : String)
  | bool (value : Bool)
deriving DecidableEq, Repr

/-- The number that a run of decimal digits stands for, most significant digit first. -/
def Token.integer (digits : String) : Nat :=
  Nat.ofDigits 10 (digits.toList.reverse.map fun digit => digit.toNat - '0'.toNat)

def Token.word? (token : Token) : Option Word :=
  match token.kind with
  | .identifier => some (.name token.value)
  | .number => some (.int (integer token.value))
  | .string => some (.str token.value)
  | .trueWord => some (.bool true)
  | .falseWord => some (.bool false)
  | _ => none

/-- Tokens that the tree keeps no word of, the end of the text apart. -/
def TokenKind.isMark : TokenKind → Bool
  | .eof | .identifier | .number | .string | .trueWord | .falseWord => false
  | _ => true

lemma Token.word?_of_isMark {token : Token} (h : token.kind.isMark) : token.word? = none := by
  unfold word?
  split <;> simp_all [TokenKind.isMark]

lemma Token.decimal_eq (digits : String) : Grammar.decimal digits.toList = integer digits := by
  rw [integer, Grammar.decimal, foldl_eq_foldr_reverse, Nat.ofDigits_eq_foldr, foldr_map]
  congr
  funext digit value
  simp only [Nat.cast_id]
  omega

/-! ### Words of nodes -/

/-- What a node is made up of: words and other nodes. -/
inductive Part where
  | word (word : Word)
  | node (id : NodeId)
deriving DecidableEq, Repr

namespace Part

def name (text : String) : Part := word (.name text)

def node? : Part → Option NodeId
  | word _ => none
  | node id => some id

@[simp]
lemma node?_node (id : NodeId) : (node id).node? = some id := rfl

@[simp]
lemma node?_name (text : String) : (name text).node? = none := rfl

/-- The words of a part, given those of nodes. -/
def say (words : NodeId → List Word) : Part → List Word
  | word w => [w]
  | node id => words id

end Part

def TraitName.parts (trait : TraitName) : List Part := [.name trait.name]

namespace TypeExpr

mutual

def parts : TypeExpr → List Part
  | .name text _ => [.name text]
  | .tuple elements _ => partsAll elements
  | .existential traits _ => traits.flatMap TraitName.parts

def partsAll : List TypeExpr → List Part
  | [] => []
  | element :: elements => element.parts ++ partsAll elements

end

lemma partsAll_eq : ∀ elements, partsAll elements = elements.flatMap parts
  | [] => rfl
  | element :: elements => by rw [partsAll, partsAll_eq elements, flatMap_cons]

end TypeExpr

def Requirement.parts : Requirement → List Part
  | .equality param type _ => .name param :: type.parts
  | .conformance param traits _ => .name param :: traits.flatMap TraitName.parts

def DeclKind.parts : DeclKind → List Part
  | .module _ members => members.map .node
  | .function decl => .name decl.name :: (decl.genericParams.map .node ++ decl.params.map .node ++
    decl.output.toList.flatMap TypeExpr.parts ++ decl.whereClause.flatMap Requirement.parts ++
    decl.body.toList.map .node)
  | .param name ascription => .name name :: ascription.parts
  | .genericParam name | .var name => [.name name]
  | .binding decl => decl.pattern.nodes.map .node ++ decl.ascription.toList.flatMap TypeExpr.parts ++
    decl.initializer.toList.map .node
  | .trait decl => .name decl.name :: (decl.refinements.flatMap TraitName.parts ++ decl.members.map .node)
  | .product decl => .name decl.name :: (decl.conformances.flatMap TraitName.parts ++ decl.members.map .node)

def ExprKind.parts : ExprKind → List Part
  | .int value => [.word (.int value)]
  | .str value => [.word (.str value)]
  | .bool value => [.word (.bool value)]
  | .name text => [.name text]
  | .member base text => [.node base, .name text]
  | kind => kind.children.map .node

/-- The parts of a node in the order of the text. -/
def Node.parts : Node → List Part
  | .decl d => d.kind.parts
  | .stmt s => s.kind.children.map .node
  | .expr e => e.kind.parts
  | .case c => (c.pattern.nodes ++ [c.body]).map .node

namespace Part

lemma filterMap_map_node (ids : List NodeId) : (ids.map node).filterMap node? = ids := by
  simp [filterMap_map, Function.comp_def]

lemma filterMap_flatMap_eq_nil {α : Type} {parts} (h : ∀ a, (parts a).filterMap node? = [])
    (as : List α) : (as.flatMap parts).filterMap node? = [] := by
  simp [filterMap_flatMap, h]

lemma filterMap_traits (traits : List TraitName) : (traits.flatMap TraitName.parts).filterMap node? = [] :=
  filterMap_flatMap_eq_nil (fun _ => rfl) traits

mutual

lemma filterMap_type : ∀ type : TypeExpr, type.parts.filterMap node? = []
  | .name _ _ => rfl
  | .tuple elements _ => filterMap_types elements
  | .existential traits _ => filterMap_traits traits

lemma filterMap_types : ∀ elements : List TypeExpr, (TypeExpr.partsAll elements).filterMap node? = []
  | [] => rfl
  | element :: elements => by
    rw [TypeExpr.partsAll, filterMap_append, filterMap_type element, filterMap_types elements, append_nil]

end

lemma filterMap_requirement (requirement : Requirement) : requirement.parts.filterMap node? = [] := by
  cases requirement with
  | equality param type => exact filterMap_type type
  | conformance param traits => exact filterMap_traits traits

end Part

/-- The nodes among the parts of a node are its children. -/
lemma Node.filterMap_parts (node : Node) : node.parts.filterMap Part.node? = node.children := by
  cases node with
  | decl decl =>
    obtain ⟨kind, span⟩ := decl
    cases kind with
    | module name members => exact Part.filterMap_map_node members
    | genericParam | var => rfl
    | param name type => exact Part.filterMap_type type
    | function | binding | trait | product =>
      simp only [parts, children, DeclKind.parts, DeclKind.children, filterMap_append,
        filterMap_cons, Part.node?_name, Part.filterMap_map_node, Part.filterMap_flatMap_eq_nil
        Part.filterMap_type, Part.filterMap_flatMap_eq_nil Part.filterMap_requirement,
        Part.filterMap_traits, append_nil, nil_append]
  | stmt stmt => exact Part.filterMap_map_node _
  | expr expr =>
    obtain ⟨kind, _⟩ := expr
    cases kind with
    | int | str | bool | name | member => rfl
    | _ => exact Part.filterMap_map_node _
  | case case => exact Part.filterMap_map_node _

/-! ### Words of trees -/

namespace Tree

/-- Some parts, with all that is below them, say some words. -/
inductive Tells (tree : Tree) : List Part → List Word → Prop
  | nil : Tells tree [] []
  | word {w : Word} {parts : List Part} {words : List Word} : Tells tree parts words →
    Tells tree (.word w :: parts) (w :: words)
  | node {id : NodeId} {node : Node} {parts : List Part} {inner words : List Word} :
    tree.node? id = some node → Tells tree node.parts inner → Tells tree parts words →
    Tells tree (.node id :: parts) (inner ++ words)

namespace Tells

variable {tree : Tree} {parts more : List Part} {words others : List Word}

lemma append (h1 : tree.Tells parts words) (h2 : tree.Tells more others) :
    tree.Tells (parts ++ more) (words ++ others) := by
  induction h1 with
  | nil => exact h2
  | word _ ih => exact .word ih
  | node hn hin _ _ ih =>
    rw [cons_append, append_assoc]
    exact .node hn hin ih

lemma mono {large} (h : tree.Tells parts words) (hl : tree.Extends large) : large.Tells parts words := by
  induction h with
  | nil => exact .nil
  | word _ ih => exact .word ih
  | node hn _ _ ih1 ih2 => exact .node (hl.node?_of_some hn) ih1 ih2

lemma addModule (h : tree.Tells parts words) (id : DeclId) : (tree.addModule id).Tells parts words := by
  induction h with
  | nil => exact .nil
  | word _ ih => exact .word ih
  | node hn _ _ ih1 ih2 => exact .node hn ih1 ih2

lemma push {node} (h : tree.Tells node.parts words) : (tree.push node).2.Tells [.node tree.size] words := by
  have hnode : (tree.push node).2.node? tree.size = some node := (node?_push ..).trans (if_pos rfl)
  simpa using Tells.node hnode (h.mono (.push tree node)) .nil

end Tells

def wordsWithin (tree : Tree) : (depth : Nat) → NodeId → List Word
  | 0, _ => []
  | depth + 1, id => (((tree.node? id).map Node.parts).getD []).flatMap (Part.say (wordsWithin tree depth))

/-- The words of a node and of all that is below it, in the order of the text. In a tree the
children of a node come before it, so that its number bounds the depth. -/
def words (tree : Tree) (id : NodeId) : List Word := tree.wordsWithin (id + 1) id

variable {tree : Tree}

lemma Tells.flatMap_say {parts words} (h : tree.Tells parts words)
    (hc : ∀ parent child : Nat, child ∈ tree.children parent → child < parent) :
    ∀ {depth}, (∀ id : Nat, .node id ∈ parts → id < depth) →
      parts.flatMap (Part.say (tree.wordsWithin depth)) = words := by
  induction h with
  | nil => exact fun _ => rfl
  | word _ ih =>
    intro depth hd
    rw [flatMap_cons, ih fun id hid => hd id (mem_cons_of_mem _ hid)]
    rfl
  | @node id node _ inner _ hn _ _ ih1 ih2 =>
    intro depth hd
    have hid := hd id mem_cons_self
    obtain ⟨depth, rfl⟩ : ∃ d, depth = d + 1 := ⟨depth - 1, by omega⟩
    have hinner : tree.wordsWithin (depth + 1) id = inner := by
      rw [wordsWithin, hn]
      refine ih1 fun child hchild => ?_
      have hmem : child ∈ node.children := by
        rw [← Node.filterMap_parts]
        exact mem_filterMap.2 ⟨_, hchild, rfl⟩
      have hlt := hc id child (by rwa [children_of_node? hn])
      omega
    rw [flatMap_cons, ih2 fun id hid => hd id (mem_cons_of_mem _ hid), Part.say, hinner]

lemma Tells.words_eq {id words} (h : tree.Tells [.node id] words) (hc : ∀ parent child : Nat,
    child ∈ tree.children parent → child < parent) : tree.words id = words := by
  have hsay : [Part.node id].flatMap (Part.say (tree.wordsWithin (id + 1))) = words := h.flatMap_say hc (by simp)
  simpa [Part.say, Tree.words] using hsay

end Tree

end TraitLang
