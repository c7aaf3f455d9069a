import HostScript.Console
import HostScript.Heap
import HostScript.Value.Operators

/-!
# The machine

The state that scripts act on, what can go wrong while they do, and computations on that state.
A computation is done, fails with the state at which it failed, crashes, or runs out of fuel. It
crashes where a table of the heap or a list of arguments would be read past its end.
-/

namespace HostScript

/-- Why an operation does not fit the values that it is given. -/
inductive TypeFault where
  | value (e : ValueError)
  | operand (f : OperandFault)
  | superclass (found : Kind)
  | properties (found : Kind)
  | fields (found : Kind)
  | callee (found : Kind)
  | unboundable (function : String)
  | hostless (method : String)
  | receiver (type : HostType)
  | loneInitializer
  | unreadableText (text : String) (target : Kind)
  | inconvertible (found target : Kind)
  | vector (size : Nat) (found : Kind)
  | unregistered (type : HostType)
deriving DecidableEq, Repr

def TypeFault.message : TypeFault → String
  | .value e => e.message
  | .operand f => f.message
  | .superclass k => "Superclass must be a class, got " ++ k.name ++ "."
  | .properties k => "Only instances have properties, got " ++ k.name ++ "."
  | .fields k => "Only instances have fields, got " ++ k.name ++ "."
  | .callee k => "Can only call functions and classes, got " ++ k.name ++ "."
  | .unboundable f => "Native function '" ++ f ++ "' cannot be bound."
  | .hostless m => "Native method '" ++ m ++ "' has no host object."
  | .receiver t => "Receiver is not a " ++ t.name ++ "."
  | .loneInitializer => "Initializer is not bound to an instance."
  | .unreadableText s k => "Cannot convert '" ++ s ++ "' to " ++ k.name ++ "."
  | .inconvertible k t => "Cannot convert " ++ k.name ++ " to " ++ t.name ++ "."
  | .vector n k => "Expected a " ++ (HostType.vector n).name ++ ", got " ++ k.name ++ "."
  | .unregistered t => "No class is registered for host type " ++ t.name ++ "."

inductive RuntimeError where
  | type (line : Nat) (fault : TypeFault)
  | arity (line expected got : Nat)
  | undefinedName (line : Nat) (name : String)
  | stackOverflow (line depth : Nat)
  | io (fault : IoFault)
deriving DecidableEq, Repr

namespace RuntimeError

/-- The line that an error is reported against. -/
def line? : RuntimeError → Option Nat
  | type l _ | arity l _ _ | undefinedName l _ | stackOverflow l _ => some l
  | io _ => none

/-- What is said about an error, apart from its line. -/
def detail : RuntimeError → String
  | type _ f => f.message
  | arity _ e g =>
    "Expected " ++ String.ofList (Decimal.digits e) ++ " arguments but got " ++
      String.ofList (Decimal.digits g) ++ "."
  | undefinedName _ x => "Undefined name '" ++ x ++ "'."
  | stackOverflow _ d =>
    "Stack overflow: call depth exceeded " ++ String.ofList (Decimal.digits d) ++ "."
  | io f => "I/O error: " ++ f.message

def message (e : RuntimeError) : String :=
  match e.line? with
  | some l => "[line " ++ String.ofList (Decimal.digits l) ++ "] " ++ e.detail
  | none => e.detail

end RuntimeError

/-- The scope of the names that are visible everywhere. -/
def ScopeId.globals : ScopeId := ⟨0⟩

structure Machine where
  heap : Heap
  store : Store
  /-- The innermost scope. -/
  env : ScopeId
  /-- How many calls of script functions are under way. -/
  depth : Nat
  /-- The line of the call that was made last. -/
  line : Nat
  console : Console
  /-- The class for each type of host object, newest first. -/
  hostClasses : List (HostType × ClassId)

/-- A machine that knows no name. -/
def Machine.ofConsole (c : Console) : Machine where
  heap := .empty
  store := (Store.empty.open ⟨.empty, none⟩).2
  env := .globals
  depth := 0
  line := 0
  console := c
  hostClasses := []

/-- How a computation ended. -/
inductive Outcome (α : Type) where
  | done (a : α) (m : Machine)
  | fail (e : RuntimeError) (m : Machine)
  | crash
  | outOfFuel

/-- A computation on the machine. -/
def Run (α : Type) : Type :=
  Machine → Outcome α

namespace Run

variable {α β : Type}

@[inline] def pure (a : α) : Run α :=
  fun m => .done a m

@[inline] def bind (x : Run α) (f : α → Run β) : Run β := fun m =>
  match x m with
  | .done a m' => f a m'
  | .fail e m' => .fail e m'
  | .crash => .crash
  | .outOfFuel => .outOfFuel

@[inline] instance : Monad Run where
  pure := Run.pure
  bind := Run.bind

@[inline] def fail (e : RuntimeError) : Run α :=
  fun m => .fail e m

/-- Read something off the machine. -/
@[inline] def read (f : Machine → α) : Run α :=
  fun m => .done (f m) m

@[inline] def update (f : Machine → Machine) : Run Unit :=
  fun m => .done () (f m)

/-- Fail with a type fault against the line of the last call. -/
@[inline] def failHere (f : TypeFault) : Run α :=
  fun m => .fail (.type m.line f) m

/-- The contents of a result, or the failure that its error stands for. -/
@[inline] def ofExcept {ε : Type} (x : Except ε α) (error : ε → RuntimeError) : Run α :=
  match x with
  | .ok a => Run.pure a
  | .error e => Run.fail (error e)

/-- The contents of a result, or its error against the line of the last call. -/
@[inline] def here (x : Except ValueError α) : Run α :=
  match x with
  | .ok a => Run.pure a
  | .error e => Run.failHere (.value e)

/-- What is there, or a failure. -/
@[inline] def ofOption (x : Option α) (error : RuntimeError) : Run α :=
  match x with
  | some a => Run.pure a
  | none => Run.fail error

/-- Crash unless it holds. -/
@[inline] def demand (p : Machine → Bool) : Run Unit :=
  fun m => if p m then .done () m else .crash

/-- What is there, or a crash. -/
@[inline] def present (x : Option α) : Run α :=
  match x with
  | some a => Run.pure a
  | none => fun _ => .crash

/-- Run in a scope and be back in the scope of before, however it ends. -/
@[inline] def inScope (e : ScopeId) (x : Run α) : Run α := fun m =>
  let before := m.env
  match x { m with env := e } with
  | .done a m' => .done a { m' with env := before }
  | .fail err m' => .fail err { m' with env := before }
  | .crash => .crash
  | .outOfFuel => .outOfFuel

/-- Run one call deeper and be back at the depth of before, however it ends. -/
@[inline] def deeper (x : Run α) : Run α := fun m =>
  match x { m with depth := m.depth + 1 } with
  | .done a m' => .done a { m' with depth := m'.depth - 1 }
  | .fail err m' => .fail err { m' with depth := m'.depth - 1 }
  | .crash => .crash
  | .outOfFuel => .outOfFuel

end Run

end HostScript
