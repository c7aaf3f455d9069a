/-!
# Bindings

A finite map from names, as a list of pairs in which every name occurs once.
-/

namespace HostScript

structure Bindings (α : Type) where
  entries : List (String × α)
deriving DecidableEq, Repr

namespace Bindings

variable {α : Type}

/-- The first value in a list of pairs that a name stands in front of. -/
def find : List (String × α) → String → Option α
  | [], _ => none
  | (y, b) :: rest, x => if y = x then some b else find rest x

/-- Replace the value of a name, or add the name at the end. -/
def put : List (String × α) → String → α → List (String × α)
  | [], x, a => [(x, a)]
  | (y, b) :: rest, x, a => if y = x then (x, a) :: rest else (y, b) :: put rest x a

def empty : Bindings α := ⟨[]⟩

instance : Inhabited (Bindings α) := ⟨empty⟩

/-- The value bound to a name. -/
def get? (m : Bindings α) (x : String) : Option α :=
  find m.entries x

def contains (m : Bindings α) (x : String) : Bool :=
  (m.get? x).isSome

/-- Bind a name, in place of what it was bound to. -/
def insert (m : Bindings α) (x : String) (a : α) : Bindings α :=
  ⟨put m.entries x a⟩

def ofList (xs : List (String × α)) : Bindings α :=
  xs.foldl (fun m x => m.insert x.1 x.2) empty

def names (m : Bindings α) : List String :=
  m.entries.map (·.1)

def size (m : Bindings α) : Nat :=
  m.entries.length

/-- The pairs ordered by name. -/
def sorted (m : Bindings α) : List (String × α) :=
  m.entries.mergeSort fun a b => a.1 ≤ b.1

@[simp] theorem get?_empty (x : String) : (empty : Bindings α).get? x = none := rfl

theorem find_put_self (xs : List (String × α)) (x : String) (a : α) :
    find (put xs x a) x = some a := by
  induction xs with
  | nil => simp [put, find]
  | cons y rest ih =>
    by_cases h : y.1 = x
    · simp [put, find, h]
    · simp [put, find, h, ih]

theorem find_put_of_ne (xs : List (String × α)) {x y : String} (a : α) (h : y ≠ x) :
    find (put xs x a) y = find xs y := by
  induction xs with
  | nil => simp [put, find, Ne.symm h]
  | cons z rest ih =>
    by_cases hz : z.1 = x
    · have : z.1 ≠ y := fun hy => h (hy ▸ hz)
      simp [put, find, hz, Ne.symm h]
    · simp [put, find, hz, ih]

@[simp] theorem get?_insert_self (m : Bindings α) (x : String) (a : α) :
    (m.insert x a).get? x = some a :=
  find_put_self m.entries x a

theorem get?_insert_of_ne (m : Bindings α) {x y : String} (a : α) (h : y ≠ x) :
    (m.insert x a).get? y = m.get? y :=
  find_put_of_ne m.entries a h

theorem get?_insert (m : Bindings α) (x y : String) (a : α) :
    (m.insert x a).get? y = if y = x then some a else m.get? y := by
  by_cases h : y = x
  · subst h; simp
  · simp [h, get?_insert_of_ne m a h]

theorem contains_insert (m : Bindings α) (x y : String) (a : α) :
    (m.insert x a).contains y = (y == x || m.contains y) := by
  unfold contains
  rw [get?_insert]
  by_cases h : y = x <;> simp [h]

/-- What a name is bound to stood in front of it in the list. -/
theorem mem_of_get?_ofList {xs : List (String × α)} {x : String} {a : α}
    (h : (ofList xs).get? x = some a) : (x, a) ∈ xs := by
  suffices hm : ∀ m : Bindings α, (xs.foldl (fun m p => m.insert p.1 p.2) m).get? x = some a →
      (x, a) ∈ xs ∨ m.get? x = some a by
    exact (hm empty h).resolve_right (by simp)
  clear h
  induction xs with
  | nil => exact fun m h => .inr h
  | cons p rest ih =>
    intro m h
    rcases ih (m.insert p.1 p.2) h with h | h
    · exact .inl (List.mem_cons_of_mem p h)
    · rw [get?_insert] at h
      split at h
      · cases h
        subst x
        exact .inl List.mem_cons_self
      · exact .inr h

/-- Every name in front of a value is bound. -/
theorem contains_ofList {xs : List (String × α)} {x : String} (h : x ∈ xs.map (·.1)) :
    (ofList xs).contains x = true := by
  suffices hm : ∀ m : Bindings α, x ∈ xs.map (·.1) ∨ m.contains x = true →
      (xs.foldl (fun m p => m.insert p.1 p.2) m).contains x = true by
    exact hm empty (.inl h)
  clear h
  induction xs with
  | nil => exact fun m h => h.resolve_left (by simp)
  | cons p rest ih =>
    intro m h
    refine ih (m.insert p.1 p.2) ?_
    rw [contains_insert]
    rcases h with h | h
    · rcases List.mem_cons.mp h with rfl | h
      · exact .inr (by simp)
      · exact .inl h
    · exact .inr (by simp [h])

end Bindings

end HostScript
