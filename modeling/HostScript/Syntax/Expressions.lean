import HostScript.Syntax.Cursor

/-!
# Parsing expressions

Each production is a parser made from the parsers of its parts; the recursive definitions at the end
tie them together. They take fuel, one unit for each call inside another, and run in a `Setting`.
-/

namespace HostScript

/-- The levels of infix operators, the loosest first. Operators of one level group to the left. -/
inductive Level where
  | or
  | and
  | equality
  | comparison
  | term
  | factor
deriving DecidableEq, Repr

/-- An infix operator. -/
inductive Operator where
  | binary (op : BinOp)
  | logical (op : LogicalOp)
deriving DecidableEq, Repr

/-- The level of the operands; nothing where they are unary expressions. -/
def Level.tighter? : Level → Option Level
  | .or => some .and
  | .and => some .equality
  | .equality => some .comparison
  | .comparison => some .term
  | .term => some .factor
  | .factor => none

/-- The operator of a level that a token stands for. -/
def Level.operator? : Level → TokenKind → Option Operator
  | .or, .keyword .or => some (.logical .or)
  | .and, .keyword .and => some (.logical .and)
  | .equality, .symbol .eqEq => some (.binary .eq)
  | .equality, .symbol .bangEq => some (.binary .notEq)
  | .comparison, .symbol .greater => some (.binary .greater)
  | .comparison, .symbol .greaterEq => some (.binary .greaterEq)
  | .comparison, .symbol .less => some (.binary .less)
  | .comparison, .symbol .lessEq => some (.binary .lessEq)
  | .term, .symbol .minus => some (.binary .sub)
  | .term, .symbol .plus => some (.binary .add)
  | .term, .symbol .percent => some (.binary .mod)
  | .term, .symbol .amp => some (.binary .bitAnd)
  | .term, .symbol .pipe => some (.binary .bitOr)
  | .term, .symbol .caret => some (.binary .bitXor)
  | .term, .symbol .plusPlus => some (.binary .concat)
  | .term, .symbol .lessLess => some (.binary .shl)
  | .term, .symbol .greaterGreater => some (.binary .shr)
  | .factor, .symbol .slash => some (.binary .div)
  | .factor, .symbol .star => some (.binary .mul)
  | _, _ => none

/-- The node of an operator and its operands. -/
def Operator.expr (op : Operator) (left right : Expr) (m : Mark) : Expr :=
  match op with
  | .binary op => .binary m left op right
  | .logical op => .logical m left op right

/-- The unary operator that a token stands for. -/
def UnaryOp.ofToken? : TokenKind → Option UnaryOp
  | .symbol .bang => some .not
  | .symbol .minus => some .neg
  | .symbol .tilde => some .bitNot
  | _ => none

/-- The literal that a token stands for. -/
def Literal.ofToken? : TokenKind → Option Literal
  | .int n => some (.int n)
  | .float x => some (.float x)
  | .string s => some (.string s)
  | .keyword .true => some (.bool true)
  | .keyword .false => some (.bool false)
  | .keyword .null => some .null
  | .keyword .undefined => some .undefined
  | _ => none

namespace Parser

/-! ### Lists -/

section

variable {α : Type}

/-- Items, unless `stop` holds at the cursor: then there are none. -/
def listUnless (stop : Cursor → Bool) (items : Parser (List α)) : Parser (List α) := do
  if ← look stop then pure [] else items

/-- One item, and more of them behind a comma. -/
def commaListOf (item : Parser α) (more : Parser (List α)) : Parser (List α) := do
  let a ← item
  if ← eat .comma then
    let as ← more
    pure (a :: as)
  else
    pure [a]

/-- Such a list where `count` items came before. Too many of them are a fault. -/
def limitedListOf (tooMany : Cause) (count : Nat) (item : Parser α) (more : Parser (List α)) :
    Parser (List α) := do
  if maxArguments ≤ count then complain tooMany
  commaListOf item more

end

/-! ### Productions -/

/-- The assignment of `value` to a target. A target that cannot be assigned to is a fault at the
equals sign, and the target alone is kept. -/
def assignTo (target value : Expr) (equals : Fault) : Parser Expr :=
  let span := target.span.merge value.span
  match target with
  | .var _ name => node span fun m => .assign m name value
  | .get _ object name => node span fun m => .set m object name value
  | _ => do
    complainOf equals
    pure target

/-- `target` or `target = value`. -/
def assignmentOf (operand value : Parser Expr) : Parser Expr := do
  let target ← operand
  if ← look (·.atSymbol .eq) then
    let equals ← look fun s => ⟨.invalidAssignmentTarget, s.here, s.near⟩
    let _ ← take
    let v ← value
    assignTo target v equals
  else
    pure target

/-- More operators of one level behind the left operand; `more` takes the rest. -/
def operatorsOf (lv : Level) (left : Expr) (operand : Parser Expr) (more : Expr → Parser Expr) :
    Parser Expr := do
  match ← look fun s => s.kind?.bind lv.operator? with
  | none => pure left
  | some op =>
    let _ ← take
    let right ← operand
    let e ← node (left.span.merge right.span) (op.expr left right)
    more e

/-- A unary operator and its operand, or a call. -/
def unaryOf (operand call : Parser Expr) : Parser Expr := do
  match ← look fun s => s.kind?.bind UnaryOp.ofToken? with
  | none => call
  | some op =>
    let start ← take
    let e ← nested operand
    node (start.merge e.span) fun m => .unary m op e

/-- Calls and property accesses behind an expression; `more` takes the rest. -/
def accessesOf (callee : Expr) (args : Parser (List Expr)) (more : Expr → Parser Expr) :
    Parser Expr := do
  if ← eat .lparen then
    let as ← listUnless (·.atSymbol .rparen) args
    let close ← expect .rparen .parenAfterArguments
    let e ← node (callee.span.merge close) fun m => .call m callee as
    more e
  else if ← eat .dot then
    let name ← expectName .propertyName
    let e ← node (callee.span.merge name.span) fun m => .get m callee name
    more e
  else
    pure callee

/-- `super.method`. -/
def superAccess : Parser Expr := do
  let start ← take
  let _ ← expect .dot .dotAfterSuper
  let method ← expectName .superclassMethodName
  node (start.merge method.span) fun m => .super m method

/-- An expression in parentheses. -/
def groupingOf (inner : Parser Expr) : Parser Expr := do
  let start ← take
  let e ← inner
  let close ← expect .rparen .parenAfterExpression
  node (start.merge close) fun m => .grouping m e

/-- A node of the current token alone. -/
def leaf (f : Span → Mark → Expr) : Parser Expr := do
  let span ← take
  node span (f span)

/-- A literal, a name, `this`, a superclass access or an expression in parentheses. -/
def primaryOf (inner : Parser Expr) : Parser Expr := do
  match ← look (·.kind?) with
  | some (.keyword .this) => leaf fun _ m => .this m
  | some (.keyword .super) => superAccess
  | some (.name x) => leaf fun span m => .var m ⟨x, span⟩
  | some (.symbol .lparen) => groupingOf inner
  | k =>
    match k.bind Literal.ofToken? with
    | some v => leaf fun _ m => .literal m v
    | none => failAt .expectedExpression

/-- An operand of level `lv`: one of the next level, or a unary expression at the last. -/
def operandOf (lv : Level) (infixes : Level → Parser Expr) (unary : Parser Expr) : Parser Expr :=
  match lv.tighter? with
  | some lv => infixes lv
  | none => unary

/-! ### The recursive definitions -/

namespace Setting

mutual

def expression (c : Setting) : Nat → Parser Expr
  | 0 => c.alarm
  | n + 1 => c.guard <| delay fun _ => nested (c.assignment n)

def assignment (c : Setting) : Nat → Parser Expr
  | 0 => c.alarm
  | n + 1 => c.guard <| delay fun _ => assignmentOf (c.infixes n .or) (c.assignment n)

/-- An expression whose outermost operators are of level `lv` or tighter. -/
def infixes (c : Setting) : Nat → Level → Parser Expr
  | 0, _ => c.alarm
  | n + 1, lv => c.guard <| delay fun _ => do
    let left ← c.operand n lv
    c.operators n lv left

/-- An operand of the operators of level `lv`. -/
def operand (c : Setting) : Nat → Level → Parser Expr
  | 0, _ => c.alarm
  | n + 1, lv => c.guard <| delay fun _ => operandOf lv (c.infixes n) (c.unary n)

def operators (c : Setting) : Nat → Level → Expr → Parser Expr
  | 0, _, _ => c.alarm
  | n + 1, lv, left => c.guard <| delay fun _ =>
    operatorsOf lv left (c.operand n lv) (c.operators n lv)

def unary (c : Setting) : Nat → Parser Expr
  | 0 => c.alarm
  | n + 1 => c.guard <| delay fun _ => unaryOf (c.unary n) (c.call n)

def call (c : Setting) : Nat → Parser Expr
  | 0 => c.alarm
  | n + 1 => c.guard <| delay fun _ => do
    let e ← primaryOf (c.expression n)
    c.accesses n e

def accesses (c : Setting) : Nat → Expr → Parser Expr
  | 0, _ => c.alarm
  | n + 1, e => c.guard <| delay fun _ => accessesOf e (c.argumentList n 0) (c.accesses n)

/-- One argument and those behind it, where `count` came before. -/
def argumentList (c : Setting) : Nat → Nat → Parser (List Expr)
  | 0, _ => c.alarm
  | n + 1, count => c.guard <| delay fun _ =>
    limitedListOf .tooManyArguments count (c.expression n) (c.argumentList n (count + 1))

end

end Setting

abbrev expression : Nat → Parser Expr := Setting.plain.expression

abbrev assignment : Nat → Parser Expr := Setting.plain.assignment

abbrev infixes : Nat → Level → Parser Expr := Setting.plain.infixes

abbrev operand : Nat → Level → Parser Expr := Setting.plain.operand

abbrev operators : Nat → Level → Expr → Parser Expr := Setting.plain.operators

abbrev unary : Nat → Parser Expr := Setting.plain.unary

abbrev call : Nat → Parser Expr := Setting.plain.call

abbrev accesses : Nat → Expr → Parser Expr := Setting.plain.accesses

abbrev argumentList : Nat → Nat → Parser (List Expr) := Setting.plain.argumentList

end Parser

end HostScript
