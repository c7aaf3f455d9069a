import HostScript.Value

/-!
# Cells

The contents of all cells, and everything that depends on what a bound value holds: its detached
copy, its truth, equality, typed reading and assignment. All of them see a bound value as the
value that its cell holds.
-/

namespace HostScript

structure Cells where
  ints : Array Int32
  floats : Array Float32
  bools : Array Bool
  strings : Array String
deriving DecidableEq

namespace Cells

def empty : Cells := ⟨#[], #[], #[], #[]⟩

/-- A new cell that holds a whole number. -/
def newInt (s : Cells) (n : Int32) : HostCell × Cells :=
  (.int s.ints.size, { s with ints := s.ints.push n })

def newFloat (s : Cells) (x : Float32) : HostCell × Cells :=
  (.float s.floats.size, { s with floats := s.floats.push x })

def newBool (s : Cells) (b : Bool) : HostCell × Cells :=
  (.bool s.bools.size, { s with bools := s.bools.push b })

def newString (s : Cells) (t : String) : HostCell × Cells :=
  (.string s.strings.size, { s with strings := s.strings.push t })

/-- A new cell for an owning scalar or text. -/
def newCell? (s : Cells) : Value → Option (HostCell × Cells)
  | .int n => some (s.newInt n)
  | .float x => some (s.newFloat x)
  | .bool b => some (s.newBool b)
  | .string t => some (s.newString t)
  | _ => none

/-- What a cell holds. -/
def load (s : Cells) : HostCell → Value
  | .int i => .int (s.ints.getD i 0)
  | .float i => .float (s.floats.getD i 0)
  | .bool i => .bool (s.bools.getD i false)
  | .string i => .string (s.strings.getD i "")

/-- Put an owning value of a cell's kind into it. Any other value is not taken. -/
def put (s : Cells) : HostCell → Value → Cells
  | .int i, .int n => { s with ints := s.ints.setIfInBounds i n }
  | .float i, .float x => { s with floats := s.floats.setIfInBounds i x }
  | .bool i, .bool b => { s with bools := s.bools.setIfInBounds i b }
  | .string i, .string t => { s with strings := s.strings.setIfInBounds i t }
  | _, _ => s

@[simp] theorem kind_load (s : Cells) (c : HostCell) : (s.load c).kind = c.kind := by
  cases c <;> rfl

@[simp] theorem isBound_load (s : Cells) (c : HostCell) : (s.load c).isBound = false := by
  cases c <;> rfl

end Cells

namespace Value

/-- An owning copy: a bound value is read out of its cell. -/
def detach (s : Cells) : Value → Value
  | bound c => s.load c
  | v => v

@[simp] theorem kind_detach (s : Cells) (v : Value) : (v.detach s).kind = v.kind := by
  cases v with
  | bound c => exact s.kind_load c
  | _ => rfl

@[simp] theorem isBound_detach (s : Cells) (v : Value) : (v.detach s).isBound = false := by
  cases v with
  | bound c => exact s.isBound_load c
  | _ => rfl

theorem detach_of_isBound_eq_false (s : Cells) {v : Value} (h : v.isBound = false) :
    v.detach s = v := by
  cases v with
  | bound c => simp [isBound] at h
  | _ => rfl

@[simp] theorem detach_detach (s t : Cells) (v : Value) : (v.detach s).detach t = v.detach s :=
  detach_of_isBound_eq_false t (isBound_detach s v)

/-- Whether an owning value counts as true: a whole number above zero, a floating number at or
above zero, a text that is not empty, and every object. -/
def holds : Value → Bool
  | int n => 0 < n
  | float x => 0 ≤ x
  | bool b => b
  | string t => !t.isEmpty
  | class_ _ | instance_ _ | function _ => true
  | null | undefined | bound _ => false

def truthy (s : Cells) (v : Value) : Bool :=
  (v.detach s).holds

/-- Equality of owning values, within one kind. Objects are equal when they are the same object. -/
def same : Value → Value → Bool
  | int a, int b => a == b
  | float a, float b => a == b
  | bool a, bool b => a == b
  | string a, string b => a == b
  | null, null => true
  | undefined, undefined => true
  | class_ a, class_ b => a == b
  | instance_ a, instance_ b => a == b
  | function a, function b => a == b
  | _, _ => false

def equal (s : Cells) (v w : Value) : Bool :=
  (v.detach s).same (w.detach s)

def asInt (s : Cells) (v : Value) : Except ValueError Int32 :=
  match v.detach s with
  | int n => .ok n
  | _ => .error (.mismatch .int v.kind)

def asFloat (s : Cells) (v : Value) : Except ValueError Float32 :=
  match v.detach s with
  | float x => .ok x
  | _ => .error (.mismatch .float v.kind)

def asBool (s : Cells) (v : Value) : Except ValueError Bool :=
  match v.detach s with
  | bool b => .ok b
  | _ => .error (.mismatch .bool v.kind)

def asString (s : Cells) (v : Value) : Except ValueError String :=
  match v.detach s with
  | string t => .ok t
  | _ => .error (.mismatch .string v.kind)

def asCallable : Value → Except ValueError CallableId
  | function id => .ok id
  | v => .error (.mismatch .function v.kind)

def asClass : Value → Except ValueError ClassId
  | class_ id => .ok id
  | v => .error (.mismatch .class_ v.kind)

def asInstance : Value → Except ValueError InstanceId
  | instance_ id => .ok id
  | v => .error (.mismatch .instance_ v.kind)

/-- What an owning text may be replaced by. -/
def replacesString : Value → Bool
  | string _ | null | undefined => true
  | _ => false

end Value

/-- Whether a cell takes a value: it takes the owning values of its kind. -/
def HostCell.accept : HostCell → Value → Except ValueError Unit
  | .int _, .int _ => .ok ()
  | .float _, .float _ => .ok ()
  | .bool _, .bool _ => .ok ()
  | .string _, .string _ => .ok ()
  | c, .null => .error (.unset c.kind)
  | c, .undefined => .error (.unset c.kind)
  | c, v => .error (.kindChange c.kind v.kind)

/-- Store a value, as it is given, in a cell. -/
def Cells.store (s : Cells) (c : HostCell) (v : Value) : Except ValueError Cells :=
  match c.accept v with
  | .ok _ => .ok (s.put c v)
  | .error e => .error e

/-- What an assignment will do: give its place a value, or give one to the cell behind it. -/
inductive Write where
  | slot (v : Value)
  | cell (c : HostCell) (v : Value)
deriving DecidableEq

/-- Plan the assignment of a value to a place that holds `slot`. A bound place is written through
and must keep its kind. An owning place takes the value, except that a text only gives way to a
text, `Null` or `Undefined`. Planning changes nothing, so a refused assignment has no effect. -/
def Cells.plan (s : Cells) (slot source : Value) : Except ValueError Write :=
  let v := source.detach s
  match slot with
  | .bound c =>
    match c.accept v with
    | .ok _ => .ok (.cell c v)
    | .error e => .error e
  | .string _ => if v.replacesString then .ok (.slot v) else .error (.stringReassign v.kind)
  | _ => .ok (.slot v)

/-- What a place holds after a write, and the cells then. -/
def Cells.commit (s : Cells) (slot : Value) : Write → Value × Cells
  | .slot v => (v, s)
  | .cell c v => (slot, s.put c v)

/-- Assign a value to a place that holds `slot`. -/
def Cells.assign (s : Cells) (slot source : Value) : Except ValueError (Value × Cells) :=
  (s.plan slot source).map (s.commit slot)

end HostScript
