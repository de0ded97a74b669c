import TraitLang.Tree.Node

/-! Broken invariants. No source text alone leads to one of these: they say that a tree was not made
by reading source, or that its parts were asked about out of order. They end the work at hand, while
diagnostics are collected. -/
namespace TraitLang

/-- How far the verification of a conformance has come. -/
inductive ConformanceState where
  /-- Declared, requirements not yet matched. -/
  | realized
  /-- Every requirement has an implementation. -/
  | checked
  /-- Verification failed and was reported. -/
  | invalid
deriving DecidableEq, Repr

def ConformanceState.name : ConformanceState → String
  | .realized => "Realized"
  | .checked => "Checked"
  | .invalid => "Invalid"

inductive Defect where
  | nestedModule (id : NodeId)
  | orphanNode (id : NodeId)
  | mismatchedBindingExit (expected : DeclId) (found : Option DeclId)
  | returnOutsideFunction (id : StmtId)
  | unrealizedSignature (id : DeclId)
  | malformedTree (id : NodeId) (reason : String)
  | illegalTransition (source target : ConformanceState)
  | incompleteConformance (trait : DeclId)
deriving DecidableEq, Repr

namespace Defect

def name : Defect → String
  | nestedModule _ => "NestedModule"
  | orphanNode _ => "OrphanNode"
  | mismatchedBindingExit _ _ => "MismatchedBindingExit"
  | returnOutsideFunction _ => "ReturnOutsideFunction"
  | unrealizedSignature _ => "UnrealizedSignature"
  | malformedTree _ _ => "MalformedTree"
  | illegalTransition _ _ => "IllegalConformanceTransition"
  | incompleteConformance _ => "IncompleteConformance"

def showNode (id : NodeId) : String := s!"NodeId({id})"

def showDecl (id : DeclId) : String := s!"DeclId({showNode id})"

def showDecl? : Option DeclId → String
  | none => "None"
  | some id => s!"Some({showDecl id})"

def message : Defect → String
  | nestedModule id => s!"module {showNode id} is nested inside another scope"
  | orphanNode id => s!"node {showNode id} is not contained in any module"
  | mismatchedBindingExit expected found =>
    s!"binding declaration exit mismatch: expected {showDecl expected}, popped {showDecl? found}"
  | returnOutsideFunction id => s!"return statement StmtId({showNode id}) outside of a function"
  | unrealizedSignature id => s!"body of {showDecl id} checked before its signature was realized"
  | malformedTree id reason => s!"malformed tree at {showNode id}: {reason}"
  | illegalTransition source target =>
    s!"illegal conformance transition from {source.name} to {target.name}"
  | incompleteConformance trait =>
    s!"conformance entries for {showDecl trait} do not cover each requirement exactly once"

end Defect

/-- Why work ended early. -/
inductive Halt where
  | defect (defect : Defect)
  /-- A number that names no node of the family asked for, or one without the slot asked for. -/
  | missing (id : NodeId)
  /-- A bound on the depth of the work was too small. -/
  | exhausted
deriving DecidableEq, Repr

end TraitLang
