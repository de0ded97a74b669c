import TraitLang.Check.Program
import TraitLang.Document.Tree

/-! Types, programs and what checking found, as documents. -/
namespace TraitLang

open Document (nat text variant ofOption ofList)

/-- A table as a record, in the order of its keys. -/
def NodeMap.toDocument {α : Type} (toDocument : α → Document) (map : NodeMap α) : Document :=
  .record (map.toList.map fun (id, value) => (toString id, toDocument value))

namespace Ty

def named (decl : DeclId) (name : String) : Document :=
  .record [("decl", nat decl), ("name", text name)]

mutual

def toDocument : Ty → Document
  | .int => text "Int"
  | .bool => text "Bool"
  | .string => text "String"
  | .tuple elements => variant "Tuple" (.list (documents elements))
  | .function params output =>
    variant "Fun" (.record [("params", .list (documents params)), ("output", toDocument output)])
  | .product decl name => variant "Product" (named decl name)
  | .trait decl name => variant "Trait" (named decl name)
  | .existential traits =>
    variant "Existential" (.record [("traits", .list (documents traits))])
  | .param decl name => variant "Param" (named decl name)
  | .var id => variant "Var" (nat id)
  | .error => text "Error"

def documents : List Ty → List Document
  | [] => []
  | type :: types => toDocument type :: documents types

end

end Ty

def Signature.toDocument (signature : Signature) : Document :=
  .record [("params", .list (Ty.documents signature.params)),
    ("output", signature.output.toDocument)]

def Generics.toDocument (generics : Generics) : Document :=
  .record
    [("decl", nat generics.decl), ("scope", nat generics.scope),
     ("params", ofList (fun (id, name) => .list [nat id, text name]) generics.params),
     ("equalities", NodeMap.toDocument Ty.toDocument generics.equalities),
     ("conformances", NodeMap.toDocument (ofList Ty.toDocument) generics.conformances)]

def ConformanceEntry.toDocument (entry : ConformanceEntry) : Document :=
  .record [("requirement", nat entry.requirement), ("implementation", nat entry.implementation)]

def Conformance.toDocument (conformance : Conformance) : Document :=
  .record
    [("trait_decl", nat conformance.trait), ("span", ofOption Span.toDocument conformance.span),
     ("entries", ofList ConformanceEntry.toDocument conformance.entries),
     ("state", text conformance.state.name)]

def ReturnRecord.toDocument (record : ReturnRecord) : Document :=
  .record
    [("stmt", nat record.stmt), ("function", nat record.function),
     ("expected", record.expected.toDocument)]

def Program.toDocument (program : Program) : Document :=
  .record
    [("ast", program.tree.toDocument), ("node_to_scope", NodeMap.toDocument nat program.nodeScopes),
     ("scope_to_decls", NodeMap.toDocument (ofList nat) program.scopeDecls),
     ("var_to_binding", NodeMap.toDocument nat program.varBindings)]

def Check.Findings.toDocument (findings : Check.Findings) : Document :=
  .record
    [("program", findings.program.toDocument),
     ("decl_types", NodeMap.toDocument Ty.toDocument findings.declTypes),
     ("expr_types", NodeMap.toDocument Ty.toDocument findings.exprTypes),
     ("returns", NodeMap.toDocument (ofList ReturnRecord.toDocument) findings.returns),
     ("conformances", NodeMap.toDocument (ofList Conformance.toDocument) findings.conformances)]

def Settings.toDocument (settings : Settings) : Document :=
  .record
    [("module_name", text settings.moduleName),
     ("free_var_binding_policy", text settings.freePolicy.name),
     ("diagnose_missing_return_values", .bool settings.diagnoseMissingReturns)]

end TraitLang
