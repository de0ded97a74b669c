import TraitLang.Text.Quoted

/-! What can be wrong with a program, each cause with its name, its message and its tip. -/
namespace TraitLang

/-- The cause of a diagnostic. Types and names are kept as they are shown. -/
inductive Problem where
  | unrecognisedToken (token : String)
  | unexpectedToken (token : String)
  | unexpectedTokenDetailed (token message : String)
  | numberTooLarge (token : String)
  | notDeclared (subject : String)
  | notAValue (name : String)
  | unexpectedArguments (expected received : Nat)
  | missingArguments (expected received : Nat)
  | argumentMismatch (expected received : String)
  | typeMismatch (expected received : String)
  | expectedExplicitValue
  | unknownType (type : String)
  | unknownTrait (name : String)
  | unknownMember (type member : String)
  | notCallable (type : String)
  | assignmentToConstant (subject : String)
  | invalidAssignee
  | patternMismatch (type : String)
  | circularReference (name : String)
  | ambiguousType (type : String)
  | invalidGenerics (function reason : String)
  | nonConforming (type trait requirement : String)
  | missingReturnValue
deriving DecidableEq, Repr

namespace Problem

open Text (quoted)

def name : Problem → String
  | unrecognisedToken _ => "UnrecognisedToken"
  | unexpectedToken _ => "UnexpectedToken"
  | unexpectedTokenDetailed _ _ => "UnexpectedTokenDetailed"
  | numberTooLarge _ => "NumberParseError"
  | notDeclared _ => "VariableNotDeclared"
  | notAValue _ => "NotAValue"
  | unexpectedArguments _ _ => "UnexpectedArguments"
  | missingArguments _ _ => "MissingArguments"
  | argumentMismatch _ _ => "ArgumentTypeMatchError"
  | typeMismatch _ _ => "TypeMatchError"
  | expectedExplicitValue => "ExpectedExplicitValue"
  | unknownType _ => "UnknownType"
  | unknownTrait _ => "UnknownTrait"
  | unknownMember _ _ => "UnknownMember"
  | notCallable _ => "NotCallable"
  | assignmentToConstant _ => "AssignmentToConstant"
  | invalidAssignee => "InvalidAssignee"
  | patternMismatch _ => "PatternMismatch"
  | circularReference _ => "CircularReference"
  | ambiguousType _ => "AmbiguousType"
  | invalidGenerics _ _ => "InvalidGenericEnvironment"
  | nonConforming _ _ _ => "NonConformingType"
  | missingReturnValue => "MissingReturnValue"

def message : Problem → String
  | unrecognisedToken token => s!"unrecognised token: {quoted token}"
  | unexpectedToken token => s!"unexpected token: {quoted token}"
  | unexpectedTokenDetailed token message =>
    s!"unexpected token ({quoted message}): {quoted token}"
  | numberTooLarge token => s!"error parsing number: {quoted token}"
  | notDeclared var => s!"{quoted var} not declared"
  | notAValue name => s!"{quoted name} is not a value"
  | unexpectedArguments expected received =>
    s!"unexpected arguments: expected {expected}, received {received}"
  | missingArguments expected received =>
    s!"missing arguments: expected {expected}, received {received}"
  | argumentMismatch expected received =>
    s!"argument types do not match: expected {quoted expected}, received {quoted received}"
  | typeMismatch expected received =>
    s!"types do not match: expected {quoted expected}, received {quoted received}"
  | expectedExplicitValue => "expected explicit value when no type is given"
  | unknownType type => s!"unknown type {type} found"
  | unknownTrait name => s!"unknown trait {name}"
  | unknownMember type member => s!"type {type} has no member {quoted member}"
  | notCallable type => s!"type {type} is not callable"
  | assignmentToConstant var => s!"cannot assign to immutable {quoted var}"
  | invalidAssignee => "invalid assignee"
  | patternMismatch type => s!"pattern does not match type {type}"
  | circularReference name => s!"circular reference to {quoted name}"
  | ambiguousType type => s!"ambiguous type {type}"
  | invalidGenerics function reason =>
    s!"invalid generic environment for {quoted function}: {reason}"
  | nonConforming type trait requirement =>
    s!"type {type} does not conform to {trait}: missing {quoted requirement}"
  | missingReturnValue => "missing return value"

/-- Advice for the reader; an unrecognised character gets none. -/
def tip : Problem → Option String
  | unrecognisedToken _ => none
  | unexpectedToken token => some s!"Unexpected token: `{token}`, did you miss a semicolon?"
  | unexpectedTokenDetailed token message => some s!"Unexpected token: `{token}`, {message}"
  | numberTooLarge token => some s!"Invalid number: `{token}`, is it above the integer limit?"
  | notDeclared var => some s!"`{var}` is not declared in this scope"
  | notAValue name => some s!"`{name}` names a type or module, not a value"
  | unexpectedArguments expected received | missingArguments expected received =>
    some s!"Expected {expected} arguments, received {received}"
  | argumentMismatch expected received =>
    some s!"Expected argument type `{expected}`, received `{received}`"
  | typeMismatch expected received => some s!"Expected type `{expected}`, received `{received}`"
  | expectedExplicitValue => some "Expected explicit value when no type is given"
  | unknownType type => some s!"Unknown type `{type}` found"
  | unknownTrait name => some s!"`{name}` does not name a trait"
  | unknownMember type member => some s!"Type `{type}` has no member `{member}`"
  | notCallable type => some s!"Values of type `{type}` cannot be called"
  | assignmentToConstant var =>
    some s!"`{var}` is immutable, declare it with `var` to assign to it"
  | invalidAssignee => some "Only variables and members can be assigned to"
  | patternMismatch type => some s!"Pattern cannot match a value of type `{type}`"
  | circularReference name => some s!"`{name}` depends on its own value"
  | ambiguousType type =>
    some s!"Type `{type}` could not be fully inferred, add an annotation"
  | invalidGenerics function reason =>
    some s!"Invalid generic constraints on `{function}`: {reason}"
  | nonConforming type trait requirement =>
    some s!"Type `{type}` does not conform to `{trait}`: no implementation for `{requirement}`"
  | missingReturnValue => some "Non-unit function should return a value"

end Problem

end TraitLang
