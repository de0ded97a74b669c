import TraitLang.Document.Basic
import TraitLang.Tree.Basic

/-! Trees as documents. -/
namespace TraitLang

open Document (nat text variant ofOption ofList)

def Position.toDocument (position : Position) : Document :=
  .list [nat position.offset, text position.file]

def Span.toDocument (span : Span) : Document :=
  .record [("start", span.start.toDocument), ("end", span.stop.toDocument)]

def TraitName.toDocument (trait : TraitName) : Document :=
  .record [("name", text trait.name), ("span", trait.span.toDocument)]

namespace TypeExpr

mutual

def kindDocument : TypeExpr → Document
  | .name value _ => variant "Name" (text value)
  | .tuple elements _ => variant "Tuple" (.list (documents elements))
  | .existential traits _ => variant "Existential" (ofList TraitName.toDocument traits)

def documents : List TypeExpr → List Document
  | [] => []
  | element :: elements =>
    .record [("kind", kindDocument element), ("span", element.span.toDocument)] ::
      documents elements

end

def toDocument (type : TypeExpr) : Document :=
  .record [("kind", type.kindDocument), ("span", type.span.toDocument)]

end TypeExpr

namespace Pattern

mutual

def toDocument : Pattern → Document
  | .name var => variant "Name" (nat var)
  | .tuple elements => variant "Tuple" (.list (documents elements))
  | .wildcard => text "Wildcard"
  | .expr id => variant "Expr" (nat id)

def documents : List Pattern → List Document
  | [] => []
  | element :: elements => toDocument element :: documents elements

end

end Pattern

def Introducer.toDocument : Introducer → Document
  | .constant => text "Let"
  | .variable => text "Var"

def Requirement.toDocument : Requirement → Document
  | .equality param type span =>
    variant "Equality" (.record
      [("param", text param), ("ty", type.toDocument), ("span", span.toDocument)])
  | .conformance param traits span =>
    variant "Conformance" (.record
      [("param", text param), ("traits", ofList TraitName.toDocument traits),
       ("span", span.toDocument)])

def DeclKind.toDocument : DeclKind → Document
  | .module name members =>
    variant "Module" (.record [("name", text name), ("members", ofList nat members)])
  | .function decl =>
    variant "Fun" (.record
      [("name", text decl.name), ("generic_params", ofList nat decl.genericParams),
       ("params", ofList nat decl.params), ("output", ofOption TypeExpr.toDocument decl.output),
       ("where_clause", ofList Requirement.toDocument decl.whereClause),
       ("body", ofOption nat decl.body)])
  | .param name ascription =>
    variant "Param" (.record [("name", text name), ("annotation", ascription.toDocument)])
  | .genericParam name => variant "GenericParam" (.record [("name", text name)])
  | .binding decl =>
    variant "Binding" (.record
      [("introducer", decl.introducer.toDocument), ("pattern", decl.pattern.toDocument),
       ("annotation", ofOption TypeExpr.toDocument decl.ascription),
       ("initializer", ofOption nat decl.initializer)])
  | .var name => variant "Var" (.record [("name", text name)])
  | .trait decl =>
    variant "Trait" (.record
      [("name", text decl.name), ("refinements", ofList TraitName.toDocument decl.refinements),
       ("members", ofList nat decl.members)])
  | .product decl =>
    variant "Product" (.record
      [("name", text decl.name), ("conformances", ofList TraitName.toDocument decl.conformances),
       ("members", ofList nat decl.members)])

def BlockMember.toDocument : BlockMember → Document
  | .decl id => variant "Decl" (nat id)
  | .stmt id => variant "Stmt" (nat id)
  | .expr id => variant "Expr" (nat id)

def ConditionItem.toDocument : ConditionItem → Document
  | .expr id => variant "Expr" (nat id)
  | .decl id => variant "Decl" (nat id)

def StmtKind.toDocument : StmtKind → Document
  | .block members =>
    variant "Brace" (.record [("members", ofList BlockMember.toDocument members)])
  | .ret value => variant "Ret" (.record [("value", ofOption nat value)])
  | .cond condition success failure =>
    variant "Cond" (.record
      [("condition", ofList ConditionItem.toDocument condition), ("success", nat success),
       ("failure", ofOption nat failure)])
  | .whileLoop condition body =>
    variant "While" (.record
      [("condition", ofList ConditionItem.toDocument condition), ("body", nat body)])
  | .doWhile body condition =>
    variant "DoWhile" (.record [("body", nat body), ("condition", nat condition)])

def UnaryOperator.name : UnaryOperator → String
  | .neg => "Neg"
  | .not => "Not"

def ExprKind.toDocument : ExprKind → Document
  | .int value => variant "Int" (.int value)
  | .str value => variant "Str" (text value)
  | .bool value => variant "Bool" (.bool value)
  | .name value => variant "Name" (text value)
  | .call callee arguments =>
    variant "Call" (.record [("callee", nat callee), ("arguments", ofList nat arguments)])
  | .binary operator left right =>
    variant "Binary" (.record
      [("operator", text operator.name), ("left", nat left), ("right", nat right)])
  | .unary operator operand =>
    variant "Prefix" (.record [("operator", text operator.name), ("operand", nat operand)])
  | .assign assignee value =>
    variant "Assign" (.record [("assignee", nat assignee), ("value", nat value)])
  | .tuple elements => variant "Tuple" (ofList nat elements)
  | .member base label =>
    variant "Member" (.record [("base", nat base), ("member", text label)])
  | .cond condition success failure =>
    variant "Cond" (.record
      [("condition", ofList ConditionItem.toDocument condition), ("success", nat success),
       ("failure", nat failure)])
  | .select subject cases =>
    variant "Match" (.record [("subject", nat subject), ("cases", ofList nat cases)])
  | .existential witness traits =>
    variant "Existential" (.record [("witness", nat witness), ("traits", ofList nat traits)])

def Node.toDocument : Node → Document
  | .decl d => variant "Decl" (.record [("kind", d.kind.toDocument), ("span", d.span.toDocument)])
  | .stmt s => variant "Stmt" (.record [("kind", s.kind.toDocument), ("span", s.span.toDocument)])
  | .expr e => variant "Expr" (.record [("kind", e.kind.toDocument), ("span", e.span.toDocument)])
  | .case c =>
    variant "Case" (.record
      [("pattern", c.pattern.toDocument), ("body", nat c.body), ("span", c.span.toDocument)])

def Tree.toDocument (tree : Tree) : Document :=
  .record [("nodes", ofList Node.toDocument tree.nodes.toList),
    ("modules", ofList nat tree.modules)]

end TraitLang
