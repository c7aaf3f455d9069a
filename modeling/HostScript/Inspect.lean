import HostScript.Machine
import HostScript.Text.Classes
import HostScript.Decimal.Notation

/-!
# Inspection

Texts that show what an object on the heap is made of, for a host that looks into a session, and
the host objects that it finds there.
-/

namespace HostScript

/-- A name with its contents in parentheses. -/
def Inspect.tagged (name contents : String) : String :=
  name ++ "(" ++ contents ++ ")"

/-- Entries between braces, with a space inside each. -/
def Inspect.record (name : String) (entries : List String) : String :=
  name ++ " \x7b " ++ ", ".intercalate entries ++ " \x7d"

/-- A table with quoted names. -/
def Inspect.table (entries : List (String × String)) : String :=
  "\x7b" ++ ", ".intercalate (entries.map fun (x, t) => Text.quote x ++ ": " ++ t) ++ "\x7d"

def Inspect.number (n : Nat) : String :=
  String.ofList (Decimal.digits n)

/-- Stands for parts that are not shown. -/
def Inspect.more : String := ".."

open Inspect

def ClassId.inspect (c : ClassId) : String :=
  tagged "ClassId" (number c.index)

def InstanceId.inspect (i : InstanceId) : String :=
  tagged "InstanceId" (number i.index)

def CallableId.inspect (c : CallableId) : String :=
  tagged "CallableId" (number c.index)

/-- An owning value. A bound one is shown as the value that its cell holds. -/
def Value.inspect (s : Cells) (v : Value) : String :=
  match v.detach s with
  | .int n => tagged "Int" (String.ofList (Decimal.ofInt n.toInt))
  | .float x => tagged "Float" (String.ofList (Decimal.general x))
  | .bool b => tagged "Bool" (if b then "true" else "false")
  | .string t => tagged "String" (Text.quote t)
  | .null => "Null"
  | .undefined => "Undefined"
  | .class_ c => tagged "Class" c.inspect
  | .instance_ i => tagged "Instance" i.inspect
  | .function c => tagged "Function" c.inspect
  | .bound _ => "Bound"

def Constructor.inspect : Constructor → String
  | .script => "Script"
  | .native arity _ =>
    tagged "Native" (record "NativeConstructor" ["arity: " ++ number arity, more])

def Callable.inspect : Callable → String
  | .native x arity _ => record "Native" ["name: " ++ Text.quote x, "arity: " ++ number arity, more]
  | .script d _ isInit =>
    record "Script" ["name: " ++ Text.quote d.name.name, "arity: " ++ number d.arity,
      "is_initializer: " ++ (if isInit then "true" else "false"), more]
  | .method f receiver =>
    let receiver := match receiver with
      | none => "None"
      | some i => tagged "Some" i.inspect
    record "NativeBound" ["name: " ++ Text.quote f.name, "arity: " ++ number f.arity,
      "receiver: " ++ receiver, more]

/-- An instance with at most one field and at most one bound method. With more of them there is no
order to show them in. -/
def Instance.inspect? (s : Cells) (i : Instance) : Option String :=
  if i.fields.size ≤ 1 ∧ i.bound.size ≤ 1 then
    some <| record "Instance" [
      "class: " ++ i.class_.inspect,
      "fields: " ++ table (i.fields.entries.map fun (x, v) => (x, v.inspect s)),
      "bound_methods: " ++ table (i.bound.entries.map fun (x, c) => (x, c.inspect)),
      "host: " ++ (if i.host.isSome then "true" else "false")]
  else none

/-- The host object of a type behind a value. -/
def Heap.hostOfType? (h : Heap) (t : HostType) (v : Value) : Option HostObject :=
  (h.host? v).filter fun o => o.type = t

/-- The host object of a type behind an instance of the class for the type, or of one below it. -/
def Machine.hostOfClass? (m : Machine) (t : HostType) (i : InstanceId) : Option HostObject :=
  match m.hostClasses.lookup t with
  | none => none
  | some c =>
    if m.heap.inherits (m.heap.instance_ i).class_ c then m.heap.hostOfType? t (.instance_ i)
    else none

end HostScript
