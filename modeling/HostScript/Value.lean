/-!
# Values

A value owns its contents, refers to an object of the heap by a typed number, or is *bound*: a
scalar or text that stands in a cell which the host can also read and write. A bound value keeps
the kind of its cell for life, because the kind is part of the cell's address.
-/

namespace HostScript

structure ClassId where
  index : Nat
deriving DecidableEq, Repr

structure InstanceId where
  index : Nat
deriving DecidableEq, Repr

structure CallableId where
  index : Nat
deriving DecidableEq, Repr

/-- The kind of a value. A bound value has the kind of its contents. -/
inductive Kind where
  | int
  | float
  | bool
  | string
  | null
  | undefined
  | class_
  | instance_
  | function
deriving DecidableEq, Repr

def Kind.name : Kind → String
  | .int => "Int"
  | .float => "Float"
  | .bool => "Bool"
  | .string => "String"
  | .null => "Null"
  | .undefined => "Undefined"
  | .class_ => "Class"
  | .instance_ => "Instance"
  | .function => "Function"

/-- The address of a cell: its kind, and its number among the cells of that kind. -/
inductive HostCell where
  | int (index : Nat)
  | float (index : Nat)
  | bool (index : Nat)
  | string (index : Nat)
deriving DecidableEq, Repr

def HostCell.kind : HostCell → Kind
  | .int _ => .int
  | .float _ => .float
  | .bool _ => .bool
  | .string _ => .string

inductive Value where
  | int (n : Int32)
  | float (x : Float32)
  | bool (b : Bool)
  | string (s : String)
  | null
  | undefined
  | class_ (id : ClassId)
  | instance_ (id : InstanceId)
  | function (id : CallableId)
  | bound (cell : HostCell)
deriving DecidableEq

instance : Inhabited Value := ⟨.null⟩

namespace Value

def kind : Value → Kind
  | int _ => .int
  | float _ => .float
  | bool _ => .bool
  | string _ => .string
  | null => .null
  | undefined => .undefined
  | class_ _ => .class_
  | instance_ _ => .instance_
  | function _ => .function
  | bound c => c.kind

def isBound : Value → Bool
  | bound _ => true
  | _ => false

end Value

/-- Why a value could not be read as a kind, or written to a place. -/
inductive ValueError where
  | mismatch (expected found : Kind)
  | kindChange (target source : Kind)
  | unset (target : Kind)
  | stringReassign (source : Kind)
deriving DecidableEq, Repr

def ValueError.message : ValueError → String
  | .mismatch e f => "Expected " ++ e.name ++ " but got " ++ f.name ++ "."
  | .kindChange t s => "Cannot store " ++ s.name ++ " into a bound " ++ t.name ++ "."
  | .unset t => "Cannot set a bound " ++ t.name ++ " to Null or Undefined."
  | .stringReassign s => "Cannot assign " ++ s.name ++ " to a String."

end HostScript
