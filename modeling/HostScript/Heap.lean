import HostScript.Bindings
import HostScript.Decimal
import HostScript.Store
import HostScript.Syntax
import HostScript.Value.Vector

/-!
# The heap

Classes, instances and callables, each in a table that only grows. A class lies above an older
class or none, so that walking up the superclasses ends.

What the host adds to the language is a closed list: its functions, the types of its objects and
the methods of each type. A host object keeps its contents in cells and shows them as bound fields.
-/

namespace HostScript

/-- A function that the host provides. -/
inductive Builtin where
  | int
  | float
  | string
  | bool
  | input
  | apply
deriving DecidableEq, Repr

/-- The type of a host object. -/
inductive HostType where
  | vector (size : Nat)
  | counter
  | byte
deriving DecidableEq, Repr

/-- What the host calls a type. Classes for it take the same name. -/
def HostType.name : HostType → String
  | .vector n => "vec" ++ String.ofList (Decimal.digits n)
  | .counter => "Counter"
  | .byte => "u8"

/-- How many arguments a class for a host type is called with. -/
def HostType.arity : HostType → Nat
  | .vector n => n
  | .counter => 1
  | .byte => 0

/-- An object of the host, by the numbers of its cells. -/
inductive HostObject where
  | vector (v : HostVector)
  | counter (count label enabled : Nat)
  | byte (n : UInt8)
deriving DecidableEq

def HostObject.type : HostObject → HostType
  | .vector v => .vector v.size
  | .counter _ _ _ => .counter
  | .byte _ => .byte

/-- The fields that show a host object to scripts. -/
def HostObject.fields : HostObject → List (String × Value)
  | .vector v => v.fields
  | .counter c l e =>
    [("count", .bound (.int c)), ("label", .bound (.string l)), ("enabled", .bound (.bool e))]
  | .byte _ => []

inductive VectorMethod where
  | add
  | sub
  | scale
  | div
  | dot
deriving DecidableEq, Repr

inductive CounterMethod where
  | bump
  | describe
  | twin
deriving DecidableEq, Repr

/-- A method that the host provides, with the type of object that it works on. -/
inductive HostMethod where
  | vector (size : Nat) (method : VectorMethod)
  | counter (method : CounterMethod)
deriving DecidableEq, Repr

namespace HostMethod

def type : HostMethod → HostType
  | vector n _ => .vector n
  | counter _ => .counter

def name : HostMethod → String
  | vector _ .add => "add"
  | vector _ .sub => "sub"
  | vector _ .scale => "scale"
  | vector _ .div => "div"
  | vector _ .dot => "dot"
  | counter .bump => "bump"
  | counter .describe => "describe"
  | counter .twin => "twin"

def arity : HostMethod → Nat
  | vector _ _ => 1
  | counter .bump => 1
  | counter .describe => 0
  | counter .twin => 0

/-- The methods of a host type, in the order in which they are put on the heap. -/
def all : HostType → List HostMethod
  | .vector n => [vector n .add, vector n .sub, vector n .scale, vector n .div, vector n .dot]
  | .counter => [counter .bump, counter .describe, counter .twin]
  | .byte => []

end HostMethod

/-- A function of the host, a function of a script with the scope it was declared in, or a method
of the host, which has a receiver once it is bound to an instance. -/
inductive Callable where
  | native (name : String) (arity : Nat) (function : Builtin)
  | script (decl : FunctionDecl) (closure : ScopeId) (isInit : Bool)
  | method (method : HostMethod) (receiver : Option InstanceId)

namespace Callable

instance : Inhabited Callable := ⟨.native "" 0 .input⟩

def name : Callable → String
  | native x _ _ => x
  | script d _ _ => d.name.name
  | method m _ => m.name

def arity : Callable → Nat
  | native _ n _ => n
  | script d _ _ => d.arity
  | method m _ => m.arity

def isNative : Callable → Bool
  | script _ _ _ => false
  | _ => true

end Callable

/-- How calling a class makes an instance: an empty one, or one around a new host object. -/
inductive Constructor where
  | script
  | native (arity : Nat) (type : HostType)
deriving DecidableEq, Repr

structure Class where
  name : String
  superclass : Option ClassId
  methods : Bindings CallableId
  constructor : Constructor
deriving DecidableEq

instance : Inhabited Class := ⟨⟨"", none, .empty, .script⟩⟩

/-- The argument count and type of a class that makes host objects. -/
def Class.native? (k : Class) : Option (Nat × HostType) :=
  match k.constructor with
  | .script => none
  | .native arity type => some (arity, type)

structure Instance where
  class_ : ClassId
  fields : Bindings Value
  /-- The methods that were already bound to this instance. -/
  bound : Bindings CallableId
  host : Option HostObject
deriving DecidableEq

namespace Instance

/-- An instance without fields. -/
def plain (c : ClassId) : Instance :=
  ⟨c, .empty, .empty, none⟩

/-- An instance around a host object. -/
def ofHost (c : ClassId) (host : HostObject) : Instance :=
  ⟨c, .ofList host.fields, .empty, some host⟩

instance : Inhabited Instance := ⟨plain ⟨0⟩⟩

/-- The contents of a field. -/
def field? (i : Instance) (s : Cells) (x : String) : Option Value :=
  (i.fields.get? x).map (Value.detach s)

end Instance

structure Heap where
  classes : Array Class
  instances : Array Instance
  callables : Array Callable

namespace Heap

def empty : Heap := ⟨#[], #[], #[]⟩

def newClass (h : Heap) (c : Class) : ClassId × Heap :=
  (⟨h.classes.size⟩, { h with classes := h.classes.push c })

def newInstance (h : Heap) (i : Instance) : InstanceId × Heap :=
  (⟨h.instances.size⟩, { h with instances := h.instances.push i })

def newCallable (h : Heap) (c : Callable) : CallableId × Heap :=
  (⟨h.callables.size⟩, { h with callables := h.callables.push c })

/-- Whether there is a class with a number. -/
def hasClass (h : Heap) (c : ClassId) : Bool :=
  c.index < h.classes.size

def hasInstance (h : Heap) (i : InstanceId) : Bool :=
  i.index < h.instances.size

def hasCallable (h : Heap) (c : CallableId) : Bool :=
  c.index < h.callables.size

def class_ (h : Heap) (c : ClassId) : Class :=
  h.classes.getD c.index default

def instance_ (h : Heap) (i : InstanceId) : Instance :=
  h.instances.getD i.index default

def callable (h : Heap) (c : CallableId) : Callable :=
  h.callables.getD c.index default

/-- Put a field of an instance, in place of what it held. -/
def putField (h : Heap) (i : InstanceId) (x : String) (v : Value) : Heap :=
  { h with
    instances := h.instances.modify i.index fun o => { o with fields := o.fields.insert x v } }

/-- Remember a method as bound to an instance. -/
def putBound (h : Heap) (i : InstanceId) (x : String) (c : CallableId) : Heap :=
  { h with
    instances := h.instances.modify i.index fun o => { o with bound := o.bound.insert x c } }

/-- The class above a class. -/
def superclass? (h : Heap) (c : ClassId) : Option ClassId :=
  (h.class_ c).superclass.filter fun p => p.index < c.index

theorem index_lt_of_superclass? {h : Heap} {c p : ClassId} (hp : h.superclass? c = some p) :
    p.index < c.index := by
  simpa using (Option.filter_eq_some_iff.mp hp).2

/-- The first answer that a class or one of those above it gives to a question, asked upward. -/
def search {β : Type} (h : Heap) (ask : ClassId → Class → Option β) (c : ClassId) : Option β :=
  match ask c (h.class_ c) with
  | some b => some b
  | none =>
    match _hp : h.superclass? c with
    | some p => search h ask p
    | none => none
termination_by c.index
decreasing_by exact index_lt_of_superclass? _hp

/-- The method of a name that a class has or inherits. -/
def findMethod (h : Heap) (c : ClassId) (x : String) : Option CallableId :=
  h.search (fun _ k => k.methods.get? x) c

/-- The nearest native constructor, upward. -/
def nativeConstructor (h : Heap) (c : ClassId) : Option (Nat × HostType) :=
  h.search (fun _ k => k.native?) c

/-- How many arguments a call of a class takes: as many as its `init`, else as its native
constructor, else none. -/
def constructorArity (h : Heap) (c : ClassId) : Nat :=
  match h.findMethod c initName with
  | some m => (h.callable m).arity
  | none =>
    match h.nativeConstructor c with
    | some (arity, _) => arity
    | none => 0

/-- Whether all is there that `constructorArity` looks at. -/
def hasConstructor (h : Heap) (c : ClassId) : Bool :=
  h.hasClass c &&
    match h.findMethod c initName with
    | some m => h.hasCallable m
    | none => true

/-- Whether a class is another one or lies below it. -/
def inherits (h : Heap) (c ancestor : ClassId) : Bool :=
  (h.search (fun k _ => if k = ancestor then some () else none) c).isSome

/-- Whether all is there that `host?` looks at. -/
def hasHost (h : Heap) : Value → Bool
  | .instance_ i => h.hasInstance i
  | _ => true

/-- The host object of an instance. -/
def host? (h : Heap) (v : Value) : Option HostObject :=
  match v with
  | .instance_ i => (h.instance_ i).host
  | _ => none

end Heap

end HostScript
