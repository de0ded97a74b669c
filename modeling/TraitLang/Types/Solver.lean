import TraitLang.Types.Ty

/-! Unification. A solver keeps the bindings of inference variables in the order in which they were
made, newest first. A variable is bound only while it is free, and only to a type that does not lead
back to it, so what older bindings say about a type holds once the newest variable is replaced. -/
namespace TraitLang

structure Solver where
  /-- The number of the next fresh variable, which is taken to stay below `2 ^ 32`. -/
  next : Nat
  bindings : List (Nat × Ty)
deriving Repr

namespace Solver

def empty : Solver := ⟨0, []⟩

def fresh (solver : Solver) : Ty × Solver :=
  (.var solver.next, { solver with next := solver.next + 1 })

/-! ### What bindings say about a type -/

/-- Follows bound variables until the outermost part of a type is known, or a free variable. -/
def headBy : (bindings : List (Nat × Ty)) → Ty → Ty
  | [], type => type
  | (id, value) :: older, type =>
    let head := headBy older type
    if head = .var id then headBy older value else head

def head (solver : Solver) (type : Ty) : Ty := headBy solver.bindings type

/-- Replaces bound variables everywhere in a type. -/
def resolveBy : (bindings : List (Nat × Ty)) → Ty → Ty
  | [], type => type
  | (id, value) :: older, type =>
    let resolved := resolveBy older type
    if resolved.mentions id then resolved.assign id (resolveBy older value) else resolved

def resolve (solver : Solver) (type : Ty) : Ty := resolveBy solver.bindings type

/-! ### Making types equal -/

/-- Binds a free variable, unless the type leads back to it. -/
def bind (solver : Solver) (id : Nat) (type : Ty) : Bool × Solver :=
  if (solver.resolve type).mentions id then (false, solver)
  else (true, { solver with bindings := (id, type) :: solver.bindings })

/-- The same traits, whatever their order and repetition. -/
def sameTraits (first second : List DeclId) : Bool :=
  first.all second.contains && second.all first.contains

/-- Unifies lists of types position by position, up to the first failure. -/
def unifyAll (unify : Solver → Ty → Ty → Option (Bool × Solver)) :
    Solver → List Ty → List Ty → Option (Bool × Solver)
  | solver, [], [] => some (true, solver)
  | solver, x :: xs, y :: ys =>
    match unify solver x y with
    | some (true, solver) => unifyAll unify solver xs ys
    | stopped => stopped
  | solver, _, _ => some (false, solver)

/-- Unifies down to a depth; deeper types have no answer. -/
def unifyWithin : (depth : Nat) → Solver → Ty → Ty → Option (Bool × Solver)
  | 0, _, _, _ => none
  | depth + 1, solver, first, second =>
    match solver.head first, solver.head second with
    | .error, _ => some (true, solver)
    | _, .error => some (true, solver)
    | .var x, .var y => if x = y then some (true, solver) else some (solver.bind x (.var y))
    | .var x, type => some (solver.bind x type)
    | type, .var y => some (solver.bind y type)
    | .tuple xs, .tuple ys =>
      if xs.length = ys.length then unifyAll (unifyWithin depth) solver xs ys
      else some (false, solver)
    | .function ps r, .function qs s =>
      if ps.length = qs.length then
        match unifyAll (unifyWithin depth) solver ps qs with
        | some (true, solver) => unifyWithin depth solver r s
        | stopped => stopped
      else some (false, solver)
    | .existential xs, .existential ys =>
      some (sameTraits (Ty.traitDeclsAll xs) (Ty.traitDeclsAll ys), solver)
    | first, second => some (decide (first = second), solver)

/-- The number of types in two types and in all bindings. Going down from one part to the next,
through bindings too, no part is met twice. -/
def depthBound (solver : Solver) (first second : Ty) : Nat :=
  first.weight + second.weight + solver.bindings.foldr (fun binding total => binding.2.weight + total) 0 + 1

/-- Makes two types equal by binding variables, or answers that this cannot be. Bindings made before
a failure are kept. The error type goes with every type. -/
def unify (solver : Solver) (first second : Ty) : Bool × Solver :=
  (solver.unifyWithin (solver.depthBound first second) first second).getD (false, solver)

end Solver

end TraitLang
