import HostScript.Syntax
import HostScript.Value.Cells

/-!
# Operators

What an operator makes of its operands. Operands are read, never written, and a bound operand
counts as what its cell holds. Whole numbers wrap at 32 bits; no operator mixes kinds.
-/

namespace HostScript

/-- The operands that an operator of two operands takes. -/
inductive OperandRule where
  | numbers
  | ints
  | strings
deriving DecidableEq, Repr

def OperandRule.text : OperandRule → String
  | .numbers => "two Ints or two Floats"
  | .ints => "two Ints"
  | .strings => "two Strings"

inductive OperandFault where
  | divisionByZero
  | moduloByZero
  | binary (op : BinOp) (rule : OperandRule) (left right : Kind)
  | negation (operand : Kind)
  | complement (operand : Kind)
deriving DecidableEq, Repr

def OperandFault.message : OperandFault → String
  | .divisionByZero => "Division by zero."
  | .moduloByZero => "Modulo by zero."
  | .binary op rule l r =>
    "Operands of '" ++ op.symbol.text ++ "' must be " ++ rule.text ++ ", got " ++ l.name ++
      " and " ++ r.name ++ "."
  | .negation k => "Operand of '-' must be an Int or a Float, got " ++ k.name ++ "."
  | .complement k => "Operand of '~' must be an Int, got " ++ k.name ++ "."

namespace BinOp

/-- Apply to two whole numbers or to two floating numbers. -/
def onNumbers (op : BinOp) (onInt : Int32 → Int32 → Value) (onFloat : Float32 → Float32 → Value) :
    Value → Value → Except OperandFault Value
  | .int a, .int b => .ok (onInt a b)
  | .float a, .float b => .ok (onFloat a b)
  | l, r => .error (.binary op .numbers l.kind r.kind)

/-- Apply to two whole numbers. -/
def onInts (op : BinOp) (f : Int32 → Int32 → Int32) : Value → Value → Except OperandFault Value
  | .int a, .int b => .ok (.int (f a b))
  | l, r => .error (.binary op .ints l.kind r.kind)

/-- Apply to two texts. -/
def onStrings (op : BinOp) (f : String → String → String) :
    Value → Value → Except OperandFault Value
  | .string a, .string b => .ok (.string (f a b))
  | l, r => .error (.binary op .strings l.kind r.kind)

/-- Whether a whole number is to be divided by zero. -/
def byZero : Value → Value → Bool
  | .int _, .int b => b == 0
  | _, _ => false

/-- The result for owning operands. -/
def applyOwning (op : BinOp) (l r : Value) : Except OperandFault Value :=
  match op with
  | .eq => .ok (.bool (l.same r))
  | .notEq => .ok (.bool !(l.same r))
  | .add => op.onNumbers (fun a b => .int (a + b)) (fun a b => .float (a + b)) l r
  | .sub => op.onNumbers (fun a b => .int (a - b)) (fun a b => .float (a - b)) l r
  | .mul => op.onNumbers (fun a b => .int (a * b)) (fun a b => .float (a * b)) l r
  | .div =>
    if byZero l r then .error .divisionByZero
    else op.onNumbers (fun a b => .int (a / b)) (fun a b => .float (a / b)) l r
  | .less => op.onNumbers (fun a b => .bool (a < b)) (fun a b => .bool (a < b)) l r
  | .greater => op.onNumbers (fun a b => .bool (b < a)) (fun a b => .bool (b < a)) l r
  | .lessEq => op.onNumbers (fun a b => .bool (a ≤ b)) (fun a b => .bool (a ≤ b)) l r
  | .greaterEq => op.onNumbers (fun a b => .bool (b ≤ a)) (fun a b => .bool (b ≤ a)) l r
  | .mod => if byZero l r then .error .moduloByZero else op.onInts (· % ·) l r
  | .bitAnd => op.onInts (· &&& ·) l r
  | .bitOr => op.onInts (· ||| ·) l r
  | .bitXor => op.onInts (· ^^^ ·) l r
  | .shl => op.onInts (· <<< ·) l r
  | .shr => op.onInts (· >>> ·) l r
  | .concat => op.onStrings (· ++ ·) l r

def apply (op : BinOp) (s : Cells) (l r : Value) : Except OperandFault Value :=
  op.applyOwning (l.detach s) (r.detach s)

end BinOp

namespace UnaryOp

/-- The result for an owning operand. -/
def applyOwning (op : UnaryOp) (v : Value) : Except OperandFault Value :=
  match op, v with
  | .neg, .int n => .ok (.int (-n))
  | .neg, .float x => .ok (.float (-x))
  | .neg, v => .error (.negation v.kind)
  | .not, v => .ok (.bool !v.holds)
  | .bitNot, .int n => .ok (.int (~~~n))
  | .bitNot, v => .error (.complement v.kind)

def apply (op : UnaryOp) (s : Cells) (v : Value) : Except OperandFault Value :=
  op.applyOwning (v.detach s)

end UnaryOp

end HostScript
