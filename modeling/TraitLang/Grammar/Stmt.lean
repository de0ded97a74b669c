import TraitLang.Grammar.Expr

/-! The rules for statements and declarations. -/
namespace TraitLang.Grammar

open Parse

/-! ### Functions -/

def genericParam : Parse DeclId := do
  let token ← expectFor .identifier "expected generic parameter"
  insertDecl (.genericParam token.value) token.span

def genericParams : Parse (List DeclId) := do
  if ← eat .less then
    let params ← separated .comma genericParam
    let _ ← expect .greater
    return params
  else
    return []

def param (read : Reader) : Parse DeclId := do
  let token ← expectFor .identifier "expected parameter name"
  let _ ← expect .colon
  let ascription ← read .typeExpr
  insertDecl (.param token.value ascription) (← spanFrom token.span.start)

/-- `T == type` or `T: A & B`. -/
def requirement (read : Reader) : Parse Requirement := do
  let token ← expectFor .identifier "expected generic parameter"
  if ← eat .equals then
    let type ← read .typeExpr
    return .equality token.value type (← spanFrom token.span.start)
  else
    let _ ← expectFor .colon "expected `==` or `:` in where clause"
    let traits ← composition
    return .conformance token.value traits (← spanFrom token.span.start)

def whereClause (read : Reader) : Parse (List Requirement) := do
  if ← eat .whereWord then separated .comma (requirement read) else return []

def function (read : Reader) : Parse DeclId := do
  let start ← advance
  let name ← expectFor .identifier "expected function name"
  let generics ← genericParams
  let _ ← expect .openParen
  let (params, _) ← commaList .closeParen (param read)
  let _ ← expect .closeParen
  let output ← if ← eat .arrow then some <$> read .typeExpr else pure none
  let requirements ← whereClause read
  let body ← if ← eat .semicolon then pure none else some <$> read .block
  insertDecl (.function ⟨name.value, generics, params, output, requirements, body⟩)
    (← spanFrom start.span.start)

/-! ### Statements -/

/-- `let` or `var` up to its semicolon. -/
def bindingItem (read : Reader) : Parse DeclId := do
  let decl ← binding read
  let _ ← expect .semicolon
  return decl

def returnStmt (read : Reader) : Parse StmtId := do
  let start ← advance
  let value ← if (← kind) = .semicolon then pure none else some <$> read (.expr .default)
  let _ ← expect .semicolon
  insertStmt (.ret value) (← spanFrom start.span.start)

def branch (read : Reader) : Parse StmtId := do
  let start ← advance
  let condition ← conditions read
  let success ← read .block
  let failure ←
    if ← eat .elseWord then
      if (← kind) = .ifWord then some <$> read .branch else some <$> read .block
    else pure none
  insertStmt (.cond condition success failure) (← spanFrom start.span.start)

def whileLoop (read : Reader) : Parse StmtId := do
  let start ← advance
  let condition ← conditions read
  let body ← read .block
  insertStmt (.whileLoop condition body) (← spanFrom start.span.start)

def doWhile (read : Reader) : Parse StmtId := do
  let start ← advance
  let body ← read .block
  let _ ← expectFor .whileWord "expected `while` after `do` body"
  let condition ← read (.expr .default)
  let _ ← expect .semicolon
  insertStmt (.doWhile body condition) (← spanFrom start.span.start)

/-- One member of a block. -/
def stmt (read : Reader) : Parse BlockMember := do
  match ← kind with
  | .letWord | .varWord => return .decl (← bindingItem read)
  | .funWord => return .decl (← function read)
  | .openCurly => return .stmt (← read .block)
  | .returnWord => return .stmt (← returnStmt read)
  | .ifWord => return .stmt (← branch read)
  | .whileWord => return .stmt (← whileLoop read)
  | .doWord => return .stmt (← doWhile read)
  | _ =>
    let expr ← read (.expr .default)
    let _ ← expect .semicolon
    return .expr expr

def blockMember (read : Reader) : Parse BlockMember := do
  if ← hasTokens then stmt read else unexpectedFor "expected `\x7d` before end of file"

def block (read : Reader) : Parse StmtId := do
  let start ← expect .openCurly
  let members ← untilClosed .closeCurly (blockMember read)
  let _ ← expect .closeCurly
  insertStmt (.block members) (← spanFrom start.span.start)

/-! ### Traits, types and items -/

def traitMember (read : Reader) : Parse DeclId := do
  if (← kind) = .funWord then function read
  else unexpectedFor "traits may only declare functions"

def trait (read : Reader) : Parse DeclId := do
  let start ← advance
  let name ← expectFor .identifier "expected trait name"
  let refinements ← traitList
  let _ ← expect .openCurly
  let members ← untilClosed .closeCurly (traitMember read)
  let _ ← expect .closeCurly
  insertDecl (.trait ⟨name.value, refinements, members⟩) (← spanFrom start.span.start)

def productMember (read : Reader) : Parse DeclId := do
  match ← kind with
  | .funWord => function read
  | .letWord | .varWord => bindingItem read
  | _ => unexpectedFor "expected a property or function"

def product (read : Reader) : Parse DeclId := do
  let start ← advance
  let name ← expectFor .identifier "expected type name"
  let conformances ← traitList
  let _ ← expect .openCurly
  let members ← untilClosed .closeCurly (productMember read)
  let _ ← expect .closeCurly
  insertDecl (.product ⟨name.value, conformances, members⟩) (← spanFrom start.span.start)

/-- A declaration of a module. -/
def item (read : Reader) : Parse DeclId := do
  match ← kind with
  | .funWord => function read
  | .traitWord => trait read
  | .typeWord => product read
  | .letWord | .varWord => bindingItem read
  | _ => unexpectedFor "expected a declaration"

end TraitLang.Grammar
