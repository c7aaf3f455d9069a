import HostScript.Value.Cells

/-!
# Vectors in cells

A vector of the host has one cell for each component. Copies of a vector share its cells.
-/

namespace HostScript

/-- A vector, by the numbers of its cells. -/
structure HostVector where
  components : List Nat
deriving DecidableEq, Repr

namespace HostVector

def size (v : HostVector) : Nat :=
  v.components.length

/-- A vector in new cells. -/
def ofValues (s : Cells) (xs : List Float32) : HostVector × Cells :=
  (⟨List.range' s.floats.size xs.length⟩, { s with floats := s.floats ++ xs })

def values (v : HostVector) (s : Cells) : List Float32 :=
  v.components.map fun i => s.floats.getD i 0

def get? (v : HostVector) (s : Cells) (axis : Nat) : Option Float32 :=
  (v.values s)[axis]?

/-- Write a component, if there is one. -/
def set (v : HostVector) (s : Cells) (axis : Nat) (x : Float32) : Cells :=
  match v.components[axis]? with
  | some i => s.put (.float i) (.float x)
  | none => s

/-- The sum of the products, from the first to the last. The empty sum is the zero that leaves
every number as it is when it is added, which is the negative one. -/
def dot (xs ys : List Float32) : Float32 :=
  (xs.zipWith (· * ·) ys).foldl (· + ·) (-0.0)

/-- The names of the components. -/
def axes : List String := ["x", "y", "z", "w"]

/-- The components as bound fields. -/
def fields (v : HostVector) : List (String × Value) :=
  axes.zip (v.components.map fun i => .bound (.float i))

end HostVector

end HostScript
