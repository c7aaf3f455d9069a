import HostScript.Bindings
import HostScript.Value.Cells

/-!
# Scopes and cells

All scopes that were ever opened, and all cells. A scope binds names and lies in an older scope or
in none, so that walking outward ends: the walk only ever goes to a smaller number.

A scope and a name together are a *place*. Reading and writing first find the place, by walking
outward to the nearest scope that binds the name or by counting scopes, and then act on it alone.
-/

namespace HostScript

structure ScopeId where
  index : Nat
deriving DecidableEq, Repr

structure Scope where
  vars : Bindings Value
  parent : Option ScopeId
deriving DecidableEq

instance : Inhabited Scope := ⟨⟨.empty, none⟩⟩

/-- Why an assignment to a name failed. -/
inductive AssignError where
  | unbound
  | value (e : ValueError)
deriving DecidableEq, Repr

structure Store where
  scopes : Array Scope
  cells : Cells
deriving DecidableEq

namespace Store

def empty : Store := ⟨#[], .empty⟩

/-- A new scope with its first bindings. -/
def «open» (s : Store) (scope : Scope) : ScopeId × Store :=
  (⟨s.scopes.size⟩, { s with scopes := s.scopes.push scope })

def scope (s : Store) (e : ScopeId) : Scope :=
  s.scopes.getD e.index default

/-- The value that a scope itself binds to a name. -/
def own? (s : Store) (e : ScopeId) (x : String) : Option Value :=
  (s.scope e).vars.get? x

/-- Whether a scope itself binds a name. -/
def contains (s : Store) (e : ScopeId) (x : String) : Bool :=
  (s.own? e x).isSome

/-- Bind a name in a scope, in place of what it was bound to there. -/
def define (s : Store) (e : ScopeId) (x : String) (v : Value) : Store :=
  { s with scopes := s.scopes.modify e.index fun sc => { sc with vars := sc.vars.insert x v } }

/-- The scope around a scope. -/
def outer? (s : Store) (e : ScopeId) : Option ScopeId :=
  (s.scope e).parent.filter fun p => p.index < e.index

theorem index_lt_of_outer? {s : Store} {e p : ScopeId} (h : s.outer? e = some p) :
    p.index < e.index := by
  simpa using (Option.filter_eq_some_iff.mp h).2

/-- The nearest scope, from a scope outward, that binds a name. -/
def holder? (s : Store) (e : ScopeId) (x : String) : Option ScopeId :=
  if s.contains e x then some e
  else
    match _h : s.outer? e with
    | some p => holder? s p x
    | none => none
termination_by e.index
decreasing_by exact index_lt_of_outer? _h

/-- The scope exactly `d` steps out. -/
def ancestor? (s : Store) (e : ScopeId) : Nat → Option ScopeId
  | 0 => some e
  | d + 1 => (s.outer? e).bind fun p => ancestor? s p d

/-- The value of a name as seen from a scope. -/
def get? (s : Store) (e : ScopeId) (x : String) : Option Value :=
  (s.holder? e x).bind fun p => s.own? p x

/-- The value that the scope `d` steps out itself binds to a name. -/
def getAt? (s : Store) (e : ScopeId) (d : Nat) (x : String) : Option Value :=
  (s.ancestor? e d).bind fun p => s.own? p x

/-- Plan an assignment to a name in a scope, if there is one. -/
def plan (s : Store) (place : Option ScopeId) (x : String) (v : Value) :
    Except AssignError (ScopeId × Write) :=
  match place with
  | none => .error .unbound
  | some e =>
    match s.own? e x with
    | none => .error .unbound
    | some slot =>
      match s.cells.plan slot v with
      | .ok w => .ok (e, w)
      | .error err => .error (.value err)

/-- Carry out a planned assignment to a name in a scope. -/
def commit (s : Store) (e : ScopeId) (x : String) : Write → Store
  | .slot v => s.define e x v
  | .cell c v => { s with cells := s.cells.put c v }

/-- Plan an assignment and carry it out. -/
def assignIn (s : Store) (place : Option ScopeId) (x : String) (v : Value) :
    Except AssignError Store :=
  (s.plan place x v).map fun (e, w) => s.commit e x w

/-- Assign to a name as seen from a scope. -/
def assign (s : Store) (e : ScopeId) (x : String) (v : Value) : Except AssignError Store :=
  s.assignIn (s.holder? e x) x v

/-- Assign to a name in the scope `d` steps out. -/
def assignAt (s : Store) (e : ScopeId) (d : Nat) (x : String) (v : Value) :
    Except AssignError Store :=
  s.assignIn (s.ancestor? e d) x v

end Store

end HostScript
