import TraitLang.Check.Declaration

/-! Whole programs. -/
namespace TraitLang.Check

namespace Query

/-- The rule of each question. -/
def rule (ask : Answerer) : Answerer
  | _, .verdict id => checkDeclaration ask id
  | _, .declType id => realize ask id
  | _, .exprType id useSite => infer ask id useSite

/-- Answers questions that lead to each other to a depth. -/
def answerWithin : (depth : Nat) → Answerer
  | 0 => fun _ _ => throw .exhausted
  | depth + 1 => rule (answerWithin depth)

/-- How deep questions about a program can lead to each other. A declaration is entered once and so
is a binding; between two such steps the questions go down the tree, through an expression and then
through a signature. -/
def depthBound (program : Program) : Nat :=
  (2 * program.tree.size + 2) * (2 * program.tree.size + 4)

/-- Answers a question about the program at hand. -/
def answer : Answerer := fun _ query state =>
  answerWithin (depthBound state.program) query state

end Query

/-- Checks every module; answers whether the program is free of type errors. -/
def checkProgram : Check Bool := do
  let modules := (← tree).modules
  let good ← verdicts Query.answer modules
  return good && (← get).diagnostics.isEmpty

/-! ### Findings -/

/-- What checking found out, with inference variables resolved. -/
structure Findings where
  program : Program
  declTypes : NodeMap Ty
  exprTypes : NodeMap Ty
  returns : NodeMap (List ReturnRecord)
  conformances : NodeMap (List Conformance)
  diagnostics : List Diagnostic

def State.declType? (state : State) (id : DeclId) : Option Ty :=
  state.declTypes[id]?.map state.solver.resolve

def State.exprType? (state : State) (id : ExprId) : Option Ty :=
  state.exprTypes[id]?.map state.solver.resolve

def State.finish (state : State) : Findings where
  program := state.program
  declTypes := state.declTypes.map fun _ type => state.solver.resolve type
  exprTypes := state.exprTypes.map fun _ type => state.solver.resolve type
  returns := state.returns
  conformances := state.conformances
  diagnostics := state.diagnostics

end TraitLang.Check
