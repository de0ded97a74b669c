import TraitLang.Body.Scripted
import TraitLang.Document.Findings
import TraitLang.Grammar.Module
import TraitLang.Tree.Walk

/-! What is told about a program, as documents: tokens, diagnostics, defects, and short descriptions
of nodes and types. -/
namespace TraitLang

open Document (nat text ofOption ofList)

def Token.toDocument (token : Token) : Document :=
  .record
    [("kind", text token.kind.name), ("value", text token.value),
     ("start", nat token.span.start.offset), ("end", nat token.span.stop.offset),
     ("display", text token.describe),
     ("literal", .bool (token.isOneOf [.number, .string, .trueWord, .falseWord])),
     ("operator", ofOption (fun o => text (BinaryOperator.symbol o))
       (BinaryOperator.ofToken? token.kind))]

def Excerpt.toDocument (excerpt : Excerpt) : Document :=
  .list [nat excerpt.line, .text (String.ofList excerpt.text), nat excerpt.column]

/-! ### What went wrong -/

/-- A diagnostic with an excerpt of the first file of its name. -/
def Diagnostic.shownIn (files : List SourceFile) (d : Diagnostic) : String :=
  let file := files.find? fun file => file.name = d.position.file
  d.render (file.elim "" SourceFile.text)

def Diagnostic.toDocument (files : List SourceFile) (d : Diagnostic) : Document :=
  .record
    [("error", text d.problem.name), ("message", text d.message),
     ("tip", ofOption text d.problem.tip), ("offset", nat d.position.offset),
     ("file", text d.position.file), ("render", text (d.shownIn files))]

def Defect.toDocument (defect : Defect) : Document :=
  .record [("error", text defect.name), ("message", text defect.message)]

def Halt.toDocument : Halt → Document
  | .defect d => d.toDocument
  | .missing id => .record [("error", text "Missing"), ("message", text s!"no node {id}")]
  | .exhausted => .record [("error", text "Exhausted"), ("message", text "out of depth")]

/-! ### Nodes in short -/

/-- The nodes and variables of a pattern, and the declarations of the tree among the latter. -/
def Pattern.summary (tree : Tree) (pattern : Pattern) : Document :=
  let decls := (List.range tree.size).filter fun id => (tree.decl? id).isSome
  .record
    [("nodes", ofList nat pattern.nodes), ("vars", ofList nat pattern.vars),
     ("contains", ofList nat (decls.filter pattern.introduces))]

def Requirement.summary (requirement : Requirement) : Document :=
  let demand :=
    match requirement with
    | .equality _ type _ => text type.describe
    | .conformance _ traits _ => nat traits.length
  .list [text requirement.param, nat requirement.span.start.offset,
    nat requirement.span.stop.offset, demand]

/-- What a declaration says beside its kind and name. -/
def DeclKind.details (tree : Tree) : DeclKind → List (String × Document)
  | .param _ type => [("type", text type.describe)]
  | .binding decl =>
    [("type", ofOption (fun type => text (TypeExpr.describe type)) decl.ascription),
     ("pattern", decl.pattern.summary tree)]
  | .function decl =>
    [("type", ofOption (fun type => text (TypeExpr.describe type)) decl.output),
     ("where", ofList Requirement.summary decl.whereClause)]
  | _ => []

def Node.summary (tree : Tree) : Node → Document
  | .decl d =>
    .record ([("kind", text d.kind.describe), ("name", ofOption text d.kind.name?),
      ("is_fun", .bool d.kind.isFunction), ("is_binding", .bool d.kind.isBinding)] ++
      d.kind.details tree)
  | .stmt _ => .record [("kind", text "statement")]
  | .expr _ => .record [("kind", text "expression")]
  | .case c => .record [("kind", text "case"), ("pattern", c.pattern.summary tree)]

def Tree.Trace.toDocument (trace : Tree.Trace) : Document :=
  .record [("entered", ofList nat trace.entered), ("exited", ofList nat trace.exited)]

/-! ### Types in short -/

def Ty.summary (type : Ty) : Document :=
  .record
    [("display", text type.describe), ("is_unit", .bool type.isUnit),
     ("has_errors", .bool type.hasErrors), ("has_type_params", .bool type.hasParams),
     ("has_vars", .bool type.hasVars), ("trait_decls", ofList nat type.traitDecls)]

/-- A type of a generic function as seen from a scope, with what stands for each parameter. -/
def Ty.instanceDocument (type : Ty) (substitution : Substitution) : Document :=
  .record [("ty", type.toDocument),
    ("substitutions", NodeMap.toDocument Ty.toDocument substitution)]

def Conformance.summary (conformance : Conformance) : Document :=
  let bounds (span : Span) : Document := .list [nat span.start.offset, nat span.stop.offset]
  .record
    [("trait", nat conformance.trait), ("implicit", .bool conformance.isImplicit),
     ("span", ofOption bounds conformance.span)]

def Generics.summary (generics : Generics) : Document :=
  .record
    [("decl", nat generics.decl), ("scope", nat generics.scope),
     ("params", ofList (fun (id, name) => .list [nat id, text name]) generics.params)]

/-- What checking found, with types as they are shown. -/
def Check.Findings.summary (findings : Check.Findings) (files : List SourceFile) :
    List (String × Document) :=
  let shown := NodeMap.toDocument fun type => text (Ty.describe type)
  [("errors", ofList (Diagnostic.toDocument files) findings.diagnostics),
   ("decl_types", shown findings.declTypes), ("expr_types", shown findings.exprTypes),
   ("returns", NodeMap.toDocument (ofList ReturnRecord.toDocument) findings.returns),
   ("conformances", NodeMap.toDocument (ofList Conformance.toDocument) findings.conformances)]

/-! ### Statement checking -/

/-- The outcome of checking a statement and the checker afterwards. -/
def Body.summary (body : Body) (answer : Except Halt Bool) : List (String × Document) :=
  let result :=
    match answer with
    | .ok good => Document.bool good
    | .error halt => halt.toDocument
  [("result", result), ("use_site", nat body.useSite), ("count", nat body.returns.length),
   ("returns", ofList ReturnRecord.toDocument body.returns)]

def Scripted.Event.toDocument : Scripted.Event → Document
  | .decl id => .record [("decl", nat id)]
  | .expr id replacement expected useSite policy type =>
    .record
      [("expr", nat id), ("replacement", nat replacement),
       ("expected", ofOption Ty.toDocument expected), ("use_site", nat useSite),
       ("policy", text policy.name), ("ty", type.toDocument)]
  | .generics function => .record [("generic_env", nat function)]
  | .instantiate type useSite =>
    .record [("contextualize", type.toDocument), ("use_site", nat useSite)]
  | .report message => .record [("report", text message)]

end TraitLang
