import HostScript.Span
import HostScript.Token

/-!
# Syntax trees

Expressions, statements and programs. Every expression node carries a `Mark`: a number that is its
own among all programs given to one session, and its span.
-/

namespace HostScript

/-- A name and where it stands. -/
structure Ident where
  name : String
  span : Span
deriving DecidableEq, Repr

/-- The number and span of an expression node. -/
structure Mark where
  id : Nat
  span : Span
deriving DecidableEq, Repr

inductive Literal where
  | int (n : Int32)
  | float (x : Float32)
  | string (s : String)
  | bool (b : Bool)
  | null
  | undefined
deriving DecidableEq

inductive BinOp where
  | add
  | sub
  | mul
  | div
  | mod
  | bitAnd
  | bitOr
  | bitXor
  | shl
  | shr
  | concat
  | eq
  | notEq
  | less
  | lessEq
  | greater
  | greaterEq
deriving DecidableEq, Repr

/-- The symbol that an operator is written as. -/
def BinOp.symbol : BinOp → Symbol
  | .add => .plus
  | .sub => .minus
  | .mul => .star
  | .div => .slash
  | .mod => .percent
  | .bitAnd => .amp
  | .bitOr => .pipe
  | .bitXor => .caret
  | .shl => .lessLess
  | .shr => .greaterGreater
  | .concat => .plusPlus
  | .eq => .eqEq
  | .notEq => .bangEq
  | .less => .less
  | .lessEq => .lessEq
  | .greater => .greater
  | .greaterEq => .greaterEq

/-- Operators that may leave their right operand unevaluated. -/
inductive LogicalOp where
  | and
  | or
deriving DecidableEq, Repr

inductive UnaryOp where
  | neg
  | not
  | bitNot
deriving DecidableEq, Repr

/-- The symbol that an operator is written as. -/
def UnaryOp.symbol : UnaryOp → Symbol
  | .neg => .minus
  | .not => .bang
  | .bitNot => .tilde

inductive Expr where
  | literal (mark : Mark) (value : Literal)
  | var (mark : Mark) (name : Ident)
  | assign (mark : Mark) (name : Ident) (value : Expr)
  | binary (mark : Mark) (left : Expr) (op : BinOp) (right : Expr)
  | logical (mark : Mark) (left : Expr) (op : LogicalOp) (right : Expr)
  | unary (mark : Mark) (op : UnaryOp) (operand : Expr)
  | call (mark : Mark) (callee : Expr) (args : List Expr)
  | get (mark : Mark) (object : Expr) (name : Ident)
  | set (mark : Mark) (object : Expr) (name : Ident) (value : Expr)
  | this (mark : Mark)
  | super (mark : Mark) (method : Ident)
  | grouping (mark : Mark) (inner : Expr)

namespace Expr

def mark : Expr → Mark
  | literal m _ | var m _ | assign m _ _ | binary m _ _ _ | logical m _ _ _ | unary m _ _
  | call m _ _ | get m _ _ | set m _ _ _ | this m | super m _ | grouping m _ => m

def id (e : Expr) : Nat :=
  e.mark.id

def span (e : Expr) : Span :=
  e.mark.span

/-- The line that faults of this expression are reported against. -/
def line (e : Expr) : Nat :=
  e.span.line

end Expr

/-- The name of a superclass, which is looked up as a variable. -/
structure Superclass where
  mark : Mark
  name : Ident
deriving DecidableEq, Repr

def Superclass.toExpr (s : Superclass) : Expr :=
  .var s.mark s.name

mutual

inductive Stmt where
  | var (name : Ident) (init : Option Expr) (span : Span)
  | block (body : List Stmt) (span : Span)
  | ifElse (cond : Expr) (thenBranch : Stmt) (elseBranch : Option Stmt) (span : Span)
  | while_ (cond : Expr) (body : Stmt) (span : Span)
  | function (decl : FunctionDecl)
  | class_ (name : Ident) (superclass : Option Superclass) (methods : List FunctionDecl)
      (span : Span)
  | print (value : Expr) (span : Span)
  | return_ (value : Option Expr) (span : Span)
  | expr (value : Expr) (span : Span)

/-- A function or method with its parameters and body. -/
structure FunctionDecl where
  name : Ident
  params : List Ident
  body : List Stmt
  span : Span

end

def FunctionDecl.arity (d : FunctionDecl) : Nat :=
  d.params.length

/-- Methods of this name set up a new instance. -/
def initName : String := "init"

def FunctionDecl.isInit (d : FunctionDecl) : Bool :=
  d.name.name == initName

def Stmt.span : Stmt → Span
  | .var _ _ s | .block _ s | .ifElse _ _ _ s | .while_ _ _ s | .class_ _ _ _ s | .print _ s
  | .return_ _ s | .expr _ s => s
  | .function d => d.span

structure Program where
  stmts : List Stmt
  span : Span

end HostScript
