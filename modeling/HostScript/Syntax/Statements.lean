import HostScript.Syntax.Expressions

/-!
# Parsing statements

Statements and declarations, in the same manner as expressions: productions made from the parsers of
their parts, then the recursive definitions. A `for` statement is made up from the others: a block
with the initializer and a `while`, whose body ends with the increment.
-/

namespace HostScript.Parser

/-! ### Productions -/

/-- The value behind an equals sign, if there is one. -/
def initializerOf (expr : Parser Expr) : Parser (Option Expr) := do
  if ← eat .eq then
    let e ← expr
    pure (some e)
  else pure none

def varDeclOf (expr : Parser Expr) : Parser Stmt := do
  let start ← take
  let name ← expectName .variableName
  let init ← initializerOf expr
  let _ ← expect .semicolon .semicolonAfterVariable
  let span ← spanFrom start
  pure (.var name init span)

def exprStmtOf (expr : Parser Expr) : Parser Stmt := do
  let e ← expr
  let _ ← expect .semicolon .semicolonAfterExpression
  let span ← spanFrom e.span
  pure (.expr e span)

def printStmtOf (expr : Parser Expr) : Parser Stmt := do
  let start ← take
  let e ← expr
  let _ ← expect .semicolon .semicolonAfterValue
  let span ← spanFrom start
  pure (.print e span)

/-- An expression, unless the symbol `y` comes next. -/
def unlessAt (y : Symbol) (expr : Parser Expr) : Parser (Option Expr) := do
  if ← look (·.atSymbol y) then pure none
  else
    let e ← expr
    pure (some e)

def returnStmtOf (expr : Parser Expr) : Parser Stmt := do
  let start ← take
  let value ← unlessAt .semicolon expr
  let _ ← expect .semicolon .semicolonAfterReturn
  let span ← spanFrom start
  pure (.return_ value span)

/-- The statement behind an `else`, if there is one. -/
def elseOf (stmt : Parser Stmt) : Parser (Option Stmt) := do
  if ← eatKeyword .else_ then
    let s ← stmt
    pure (some s)
  else pure none

def ifStmtOf (expr : Parser Expr) (stmt : Parser Stmt) : Parser Stmt := do
  let start ← take
  let _ ← expect .lparen .parenAfterIf
  let cond ← expr
  let _ ← expect .rparen .parenAfterIfCondition
  let thenBranch ← stmt
  let elseBranch ← elseOf stmt
  let span ← spanFrom start
  pure (.ifElse cond thenBranch elseBranch span)

def whileStmtOf (expr : Parser Expr) (stmt : Parser Stmt) : Parser Stmt := do
  let start ← take
  let _ ← expect .lparen .parenAfterWhile
  let cond ← expr
  let _ ← expect .rparen .parenAfterCondition
  let body ← stmt
  let span ← spanFrom start
  pure (.while_ cond body span)

/-- The first clause of a `for` statement with the semicolon behind it. -/
def forInitOf (expr : Parser Expr) : Parser (Option Stmt) := do
  if ← eat .semicolon then pure none
  else if ← look (·.atKeyword .var) then
    let s ← varDeclOf expr
    pure (some s)
  else
    let s ← exprStmtOf expr
    pure (some s)

/-- A body followed by the increment of its loop. -/
def withIncrement (span : Span) (body : Stmt) : Option Expr → Stmt
  | none => body
  | some e => .block [body, .expr e e.span] span

/-- A loop behind its initializer. -/
def withInit (span : Span) (loop : Stmt) : Option Stmt → Stmt
  | none => loop
  | some s => .block [s, loop] span

/-- The condition of a loop; without one it runs for ever. -/
def conditionOr (span : Span) : Option Expr → Parser Expr
  | some e => pure e
  | none => node span fun m => .literal m (.bool true)

def forStmtOf (expr : Parser Expr) (stmt : Parser Stmt) : Parser Stmt := do
  let start ← take
  let _ ← expect .lparen .parenAfterFor
  let init ← forInitOf expr
  let cond ← unlessAt .semicolon expr
  let _ ← expect .semicolon .semicolonAfterLoopCondition
  let increment ← unlessAt .rparen expr
  let _ ← expect .rparen .parenAfterForClauses
  let body ← stmt
  let span ← spanFrom start
  let cond ← conditionOr span cond
  pure (withInit span (.while_ cond (withIncrement span body increment) span) init)

/-- Statements in braces, and the span with the braces. -/
def blockOf (items : Parser (List Stmt)) : Parser (List Stmt × Span) := do
  let start ← look (·.here)
  let _ ← expect .lbrace .braceBeforeBlock
  let body ← items
  let _ ← expect .rbrace .braceAfterBlock
  let span ← spanFrom start
  pure (body, span)

/-- A function or method from its name on. -/
def callableOf (kind : CallableKind) (params : Parser (List Ident)) (items : Parser (List Stmt)) :
    Parser FunctionDecl := do
  let name ← expectName (.callableName kind)
  let _ ← expect .lparen (.parenAfterCallableName kind)
  let ps ← listUnless (·.atSymbol .rparen) params
  let _ ← expect .rparen .parenAfterParameters
  if ← look (·.atSymbol .lbrace) then
    let (body, span) ← blockOf items
    pure ⟨name, ps, body, name.span.merge span⟩
  else
    failAt (.expected (.braceBeforeBody kind))

/-- The superclass of a class, if one is named. -/
def superclass : Parser (Option Superclass) := do
  if ← eat .less then
    let name ← expectName .superclassName
    let s ← node name.span fun m => ⟨m, name⟩
    pure (some s)
  else
    pure none

def classDeclOf (methods : Parser (List FunctionDecl)) : Parser Stmt := do
  let start ← take
  let name ← expectName .className
  let super ← superclass
  let _ ← expect .lbrace .braceBeforeClass
  let ms ← methods
  let _ ← expect .rbrace .braceAfterClass
  let span ← spanFrom start
  pure (.class_ name super ms span)

def statementOf (expr : Parser Expr) (stmt : Parser Stmt) (items : Parser (List Stmt)) :
    Parser Stmt := do
  match ← look (·.kind?) with
  | some (.keyword .print) => printStmtOf expr
  | some (.keyword .return_) => returnStmtOf expr
  | some (.keyword .if_) => ifStmtOf expr stmt
  | some (.keyword .while_) => whileStmtOf expr stmt
  | some (.keyword .for_) => forStmtOf expr stmt
  | some (.symbol .lbrace) =>
    let (body, span) ← blockOf items
    pure (.block body span)
  | _ => exprStmtOf expr

def declarationOf (expr : Parser Expr) (stmt : Parser Stmt) (function : Parser FunctionDecl)
    (methods : Parser (List FunctionDecl)) : Parser Stmt := do
  match ← look (·.kind?) with
  | some (.keyword .class_) => classDeclOf methods
  | some (.keyword .func) =>
    let _ ← take
    let d ← function
    pure (.function d)
  | some (.keyword .var) => varDeclOf expr
  | _ => stmt

/-- One declaration and those behind it. It is left out if it has a fault. -/
def itemsOf (item : Parser Stmt) (more : Parser (List Stmt)) : Parser (List Stmt) := do
  let d ← attempt item
  let ds ← more
  pure (d.toList ++ ds)

/-- One method and those behind it. -/
def methodsOf (method : Parser FunctionDecl) (more : Parser (List FunctionDecl)) :
    Parser (List FunctionDecl) := do
  let m ← method
  let ms ← more
  pure (m :: ms)

/-! ### The recursive definitions -/

namespace Setting

/-- One parameter and those behind it, where `count` came before. -/
def parameters (c : Setting) : Nat → Nat → Parser (List Ident)
  | 0, _ => c.alarm
  | n + 1, count => c.guard <| delay fun _ =>
    limitedListOf .tooManyParameters count (expectName .parameterName) (c.parameters n (count + 1))

mutual

/-- A declaration or statement. After a fault parsing resumes at the next statement. -/
def declaration (c : Setting) : Nat → Parser Stmt
  | 0 => c.alarm
  | n + 1 => c.guard <| delay fun _ => recovering <|
    declarationOf (c.expression n) (c.statement n) (c.callable n .function) (c.methods n)

/-- A statement. What is inside it is one level deeper. -/
def statement (c : Setting) : Nat → Parser Stmt
  | 0 => c.alarm
  | n + 1 => c.guard <| delay fun _ => nested <| c.guard <|
    statementOf (c.expression n) (c.statement n) (c.blockItems n)

def callable (c : Setting) : Nat → CallableKind → Parser FunctionDecl
  | 0, _ => c.alarm
  | n + 1, kind => c.guard <| delay fun _ => callableOf kind (c.parameters n 0) (c.blockItems n)

/-- The declarations up to a closing brace. -/
def blockItems (c : Setting) : Nat → Parser (List Stmt)
  | 0 => c.alarm
  | n + 1 => c.guard <| delay fun _ =>
    listUnless (fun s => s.atSymbol .rbrace || s.atEnd || s.tooManyFaults) <|
      itemsOf (c.declaration n) (c.blockItems n)

/-- The methods up to a closing brace. -/
def methods (c : Setting) : Nat → Parser (List FunctionDecl)
  | 0 => c.alarm
  | n + 1 => c.guard <| delay fun _ =>
    listUnless (fun s => s.atSymbol .rbrace || s.atEnd) <|
      methodsOf (c.callable n .method) (c.methods n)

end

/-- The declarations up to the end of the input. -/
def topLevel (c : Setting) : Nat → Parser (List Stmt)
  | 0 => c.alarm
  | n + 1 => c.guard <| delay fun _ =>
    listUnless (fun s => s.atEnd || s.tooManyFaults) <| itemsOf (c.declaration n) (c.topLevel n)

end Setting

abbrev parameters : Nat → Nat → Parser (List Ident) := Setting.plain.parameters

abbrev declaration : Nat → Parser Stmt := Setting.plain.declaration

abbrev statement : Nat → Parser Stmt := Setting.plain.statement

abbrev callable : Nat → CallableKind → Parser FunctionDecl := Setting.plain.callable

abbrev blockItems : Nat → Parser (List Stmt) := Setting.plain.blockItems

abbrev methods : Nat → Parser (List FunctionDecl) := Setting.plain.methods

abbrev topLevel : Nat → Parser (List Stmt) := Setting.plain.topLevel

end HostScript.Parser
