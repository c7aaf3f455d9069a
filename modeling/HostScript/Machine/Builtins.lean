import HostScript.Decimal.Reading
import HostScript.Machine.Objects
import HostScript.Text.Classes
import HostScript.Value.Display

/-!
# Functions and methods of the host

The conversions between kinds, `input`, and the methods of vectors and counters. Faults are
reported against the line of the call.
-/

namespace HostScript

namespace Builtin

/-- The whole number that an owning value converts to. Floating numbers are cut toward zero and
held within 32 bits; no number at all becomes zero. -/
def toInt? : Value → Option Int32
  | .int n => some n
  | .float x => some x.toInt32
  | .bool b => some (if b then 1 else 0)
  | .string s => Decimal.int32? (Text.trim s.toList)
  | _ => none

/-- The floating number that an owning value converts to. -/
def toFloat? : Value → Option Float32
  | .int n => some n.toFloat32
  | .float x => some x
  | .bool b => some (if b then 1 else 0)
  | .string s => Decimal.float32? (Text.trim s.toList)
  | _ => none

/-- Why an owning value does not convert. -/
def conversionFault (target : Kind) : Value → TypeFault
  | .string s => .unreadableText s target
  | v => .inconvertible v.kind target

/-- Convert a value, or fail. -/
def convert {α : Type} (target : Kind) (f : Value → Option α) (v : Value) : Run α := do
  let v ← Run.read fun m => v.detach m.store.cells
  match f v with
  | some a => return a
  | none => Run.failHere (conversionFault target v)

/-- Read a line from the console. -/
def readLine : Run Value := fun m =>
  match m.console.read with
  | .ok (some s, console) => .done (.string s) { m with console := console }
  | .ok (none, console) => .done .undefined { m with console := console }
  | .error f => .fail (.io f) m

/-- The text of a value. -/
def text (v : Value) : Run String := do
  Run.demand fun m => v.displayable m.heap
  Run.read fun m => v.display m.heap m.store.cells

/-- Call a value from the host: no line of a script has made the call. -/
@[inline] def callFromHost (call : Value → List Value → Run Value) (callee : Value)
    (args : List Value) : Run Value := do
  Run.update fun m => { m with line := 0 }
  let callee ← Run.read fun m => callee.detach m.store.cells
  call callee args

/-- How many arguments a function of the host is called with. -/
def arity : Builtin → Nat
  | int | float | string | bool => 1
  | input => 0
  | apply => 2

/-- Run a function of the host on its arguments. -/
@[inline] def run (call : Value → List Value → Run Value) (f : Builtin) (args : List Value) :
    Run Value :=
  let arg (i : Nat) : Run Value := Run.present args[i]?
  match f with
  | int => do return .int (← convert .int toInt? (← arg 0))
  | float => do return .float (← convert .float toFloat? (← arg 0))
  | string => do return .string (← text (← arg 0))
  | bool => do
    let v ← arg 0
    Run.read fun m => .bool (v.truthy m.store.cells)
  | input => readLine
  | apply => do
    let callee ← arg 0
    let v ← arg 1
    callFromHost call callee [v]

end Builtin

namespace HostMethod

/-- A floating argument. -/
def floatArg (v : Value) : Run Float32 := do
  Run.here (← Run.read fun m => v.asFloat m.store.cells)

/-- Floating arguments, from the first to the last. -/
def floatArgs : List Value → Run (List Float32)
  | [] => return []
  | v :: vs => do
    let x ← floatArg v
    let xs ← floatArgs vs
    return x :: xs

/-- A whole argument. -/
def intArg (v : Value) : Run Int32 := do
  Run.here (← Run.read fun m => v.asInt m.store.cells)

/-- The components of a vector argument of a size. -/
def vectorArg (size : Nat) (v : Value) : Run (List Float32) := do
  Run.demand (·.heap.hasHost v)
  match ← Run.read (·.heap.host? v) with
  | some (.vector w) =>
    if w.size = size then Run.read fun m => w.values m.store.cells
    else Run.failHere (.vector size v.kind)
  | _ => Run.failHere (.vector size v.kind)

/-- A new vector, as an instance. -/
def wrapVector (xs : List Float32) : Run Value := do
  Machine.wrap (.vector (← Machine.newVector xs))

def runVector (size : Nat) (f : VectorMethod) (v : HostVector) (arg : Value) : Run Value := do
  let xs ← Run.read fun m => v.values m.store.cells
  match f with
  | .add => wrapVector (xs.zipWith (· + ·) (← vectorArg size arg))
  | .sub => wrapVector (xs.zipWith (· - ·) (← vectorArg size arg))
  | .scale =>
    let factor ← floatArg arg
    wrapVector (xs.map (· * factor))
  | .div =>
    let divisor ← floatArg arg
    wrapVector (xs.map (· / divisor))
  | .dot => return .float (HostVector.dot xs (← vectorArg size arg))

def runCounter (f : CounterMethod) (count label enabled : Nat) (args : List Value) :
    Run Value := do
  let s ← Run.read (·.store.cells)
  match f with
  | .bump =>
    let n ← intArg (← Run.present args[0]?)
    Run.update fun m => { m with store := { m.store with
      cells := m.store.cells.put (.int count) (.int (s.ints.getD count 0 + n)) } }
    return .bound (.int count)
  | .describe =>
    return .string (s.strings.getD label "" ++ "=" ++
      String.ofList (Decimal.ofInt (s.ints.getD count 0).toInt))
  | .twin => Machine.wrap (.counter count label enabled)

/-- Run a method of the host on the object of its receiver. -/
def run (f : HostMethod) (receiver : Option InstanceId) (args : List Value) : Run Value := do
  Run.demand fun m => receiver.all m.heap.hasInstance
  match ← Run.read fun m => receiver.bind fun i => (m.heap.instance_ i).host with
  | none => Run.failHere (.hostless f.name)
  | some o =>
    match f, o with
    | .vector n g, .vector v =>
      if v.size = n then runVector n g v (← Run.present args[0]?)
      else Run.failHere (.receiver f.type)
    | .counter g, .counter c l e => runCounter g c l e args
    | _, _ => Run.failHere (.receiver f.type)

end HostMethod

/-- Make a host object from the arguments that its class was called with. -/
def HostType.construct (t : HostType) (args : List Value) : Run HostObject :=
  match t with
  | .vector n => do
    let xs ← HostMethod.floatArgs (args.take n)
    return .vector (← Machine.newVector (xs ++ List.replicate (n - xs.length) 0))
  | .counter => do Machine.newCounter (← HostMethod.intArg (← Run.present args[0]?))
  | .byte => return .byte 0

end HostScript
