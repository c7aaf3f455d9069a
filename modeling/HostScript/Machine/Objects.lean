import HostScript.Machine
import HostScript.Resolution

/-!
# Objects on the machine

Making objects and scopes, reading and writing properties, binding methods to instances, and
showing host objects to scripts.
-/

namespace HostScript.Machine

def newCallable (c : Callable) : Run CallableId := fun m =>
  let (id, heap) := m.heap.newCallable c
  .done id { m with heap := heap }

def newClass (c : Class) : Run ClassId := fun m =>
  let (id, heap) := m.heap.newClass c
  .done id { m with heap := heap }

def newInstance (i : Instance) : Run InstanceId := fun m =>
  let (id, heap) := m.heap.newInstance i
  .done id { m with heap := heap }

def openScope (sc : Scope) : Run ScopeId := fun m =>
  let (id, store) := m.store.open sc
  .done id { m with store := store }

/-- Bind a name in a scope. -/
def define (e : ScopeId) (x : String) (v : Value) : Run Unit :=
  Run.update fun m => { m with store := m.store.define e x v }

/-- Assign to a name in a scope, if there is one. Faults are reported against `line`. -/
def assignIn (place : Option ScopeId) (x : String) (v : Value) (line : Nat) : Run Unit := fun m =>
  match m.store.plan place x v with
  | .ok (e, w) => .done () { m with store := m.store.commit e x w }
  | .error .unbound => .fail (.undefinedName line x) m
  | .error (.value err) => .fail (.type line (.value err)) m

/-- A copy of a method that is bound to an instance. A script method gets a scope of its own that
binds `this`; a host function has no receiver and cannot be bound. -/
def bindMethod (method : CallableId) (i : InstanceId) (line : Nat) : Run CallableId := do
  Run.demand (·.heap.hasCallable method)
  match ← Run.read (·.heap.callable method) with
  | .native x _ _ => Run.fail (.type line (.unboundable x))
  | .script d closure isInit =>
    let scope ← openScope ⟨.ofList [(Resolution.thisName, .instance_ i)], some closure⟩
    newCallable (.script d scope isInit)
  | .method f _ => newCallable (.method f (some i))

/-- The method of a name in a class, bound afresh to an instance. -/
def bindFound (c : ClassId) (x : String) (i : InstanceId) (line : Nat) : Run CallableId := do
  Run.demand (·.heap.hasClass c)
  match ← Run.read (·.heap.findMethod c x) with
  | some method => bindMethod method i line
  | none => Run.fail (.undefinedName line x)

/-- A property of an instance: a field, else a method that was bound before, else a method of its
class, which is bound now and remembered. -/
def getProperty (i : InstanceId) (x : String) (line : Nat) : Run Value := do
  Run.demand (·.heap.hasInstance i)
  match ← Run.read fun m => (m.heap.instance_ i).field? m.store.cells x with
  | some v => return v
  | none =>
    match ← Run.read fun m => (m.heap.instance_ i).bound.get? x with
    | some c => return .function c
    | none =>
      let k ← Run.read fun m => (m.heap.instance_ i).class_
      let c ← bindFound k x i line
      Run.update fun m => { m with heap := m.heap.putBound i x c }
      return .function c

/-- Assign to a field of an instance that is there, or add the field. -/
def writeField (i : InstanceId) (x : String) (v : Value) (line : Nat) : Run Unit := fun m =>
  match (m.heap.instance_ i).fields.get? x with
  | none => .done () { m with heap := m.heap.putField i x (v.detach m.store.cells) }
  | some slot =>
    match m.store.cells.plan slot v with
    | .error err => .fail (.type line (.value err)) m
    | .ok (.slot w) => .done () { m with heap := m.heap.putField i x w }
    | .ok (.cell c w) =>
      .done () { m with store := { m.store with cells := m.store.cells.put c w } }

/-- Assign to a field of an instance, or add the field. -/
def setField (i : InstanceId) (x : String) (v : Value) (line : Nat) : Run Unit := do
  Run.demand (·.heap.hasInstance i)
  writeField i x v line

/-- A new instance of the class for a host object's type. -/
def wrap (o : HostObject) : Run Value := do
  match ← Run.read (·.hostClasses.lookup o.type) with
  | some c => return .instance_ (← newInstance (.ofHost c o))
  | none => Run.failHere (.unregistered o.type)

/-- A vector of the host, in new cells. -/
def newVector (xs : List Float32) : Run HostVector := fun m =>
  let (v, cells) := HostVector.ofValues m.store.cells xs
  .done v { m with store := { m.store with cells := cells } }

/-- A counter of the host, in new cells. -/
def newCounter (n : Int32) : Run HostObject := fun m =>
  let s := m.store.cells
  let o := HostObject.counter s.ints.size s.strings.size s.bools.size
  let cells := { s with
    ints := s.ints.push n, strings := s.strings.push "counter", bools := s.bools.push true }
  .done o { m with store := { m.store with cells := cells } }

/-- Put a method of a host type on the heap and in the table of a class. -/
def addHostMethod (table : Bindings CallableId) (f : HostMethod) : Run (Bindings CallableId) := do
  return table.insert f.name (← newCallable (.method f none))

/-- Put the methods of a host type on the heap. -/
def newHostMethods : List HostMethod → Run (Bindings CallableId) :=
  List.foldlM addHostMethod .empty

/-- Make a class for a host type, which host objects of the type belong to from now on. -/
def register (t : HostType) : Run ClassId := do
  let methods ← newHostMethods (HostMethod.all t)
  let c ← newClass ⟨t.name, none, methods, .native t.arity t⟩
  Run.update fun m => { m with hostClasses := (t, c) :: m.hostClasses }
  define .globals t.name (.class_ c)
  return c

/-- Define a function of the host. -/
def defineNative (x : String) (arity : Nat) (f : Builtin) : Run Unit := do
  let c ← newCallable (.native x arity f)
  define .globals x (.function c)

end HostScript.Machine
