import HostScript.Proofs.Stored

/-!
# Reading and writing names

A name is read and assigned to in two ways: in the nearest scope that binds it, or in the scope a given
number of links out. Both come to a place, a scope together with a name, and from there on do the same.

`Outward` and `Nearest` say which place it is, by the links between scopes alone. `Written` says what a
write to a place leaves behind. A place that holds a bound value shares its cell with all places that are
bound to the same cell, so these read the new value too; no other place and no other cell is touched.
-/

namespace HostScript

/-! ### What a write does -/

/-- A place that holds the one value refuses to be given the other. -/
inductive Value.Refuses : Value → Value → ValueError → Prop where
  /-- A bound place keeps its kind. -/
  | kindChange {a : HostCell} {v : Value} (hkind : v.kind ≠ a.kind) (hnull : v.kind ≠ .null)
      (hundefined : v.kind ≠ .undefined) : Refuses (.bound a) v (.kindChange a.kind v.kind)
  | unset {a : HostCell} {v : Value} (h : v.kind = .null ∨ v.kind = .undefined) :
      Refuses (.bound a) v (.unset a.kind)
  /-- A text gives way to a text or to nothing. -/
  | stringReassign {t : String} {v : Value} (hkind : v.kind ≠ .string) (hnull : v.kind ≠ .null)
      (hundefined : v.kind ≠ .undefined) : Refuses (.string t) v (.stringReassign v.kind)

/-- A cell takes the owning values of its kind. -/
theorem HostCell.accept_of_owned (a : HostCell) {v : Value} (hv : v.isBound = false) :
    a.accept v =
      if v.kind = a.kind then .ok ()
      else if v.kind = .null ∨ v.kind = .undefined then .error (.unset a.kind)
      else .error (.kindChange a.kind v.kind) := by
  cases v with
  | bound b => cases hv
  | _ => cases a <;> rfl

theorem Value.replacesString_of_owned {v : Value} (hv : v.isBound = false) :
    v.replacesString = true ↔ v.kind = .string ∨ v.kind = .null ∨ v.kind = .undefined := by
  cases v with
  | bound b => cases hv
  | _ => simp [replacesString, kind]

namespace Cells

/-- What can be planned for a place: nothing if it refuses, else a write to the cell behind it or to the
place itself. -/
inductive Planned (s : Cells) (slot v : Value) : Except ValueError Write → Prop where
  | refused {e : ValueError} (h : slot.Refuses v e) : s.Planned slot v (.error e)
  | cell {a : HostCell} (hslot : slot = .bound a) (hkind : v.kind = a.kind) :
      s.Planned slot v (.ok (.cell a (v.detach s)))
  | slot (hslot : slot.isBound = false) : s.Planned slot v (.ok (.slot (v.detach s)))

variable {s : Cells} {slot v : Value} {a b : HostCell}

theorem planned (s : Cells) (slot v : Value) : s.Planned slot v (s.plan slot v) := by
  have hkind := v.kind_detach s
  unfold plan
  dsimp only
  split
  · rename_i a
    rw [a.accept_of_owned (v.isBound_detach s), hkind]
    by_cases hsame : v.kind = a.kind
    · rw [if_pos hsame]
      exact .cell rfl hsame
    · rw [if_neg hsame]
      by_cases hnone : v.kind = .null ∨ v.kind = .undefined
      · rw [if_pos hnone]
        exact .refused (.unset hnone)
      · rw [if_neg hnone]
        exact .refused (.kindChange hsame (fun h => hnone (.inl h)) fun h => hnone (.inr h))
  · have htext := Value.replacesString_of_owned (v.isBound_detach s)
    rw [hkind] at htext ⊢
    split
    · exact .slot rfl
    · rename_i hnot
      rw [htext] at hnot
      exact .refused (.stringReassign (fun h => hnot (.inl h)) (fun h => hnot (.inr (.inl h)))
        fun h => hnot (.inr (.inr h)))
  · rename_i hbound _
    refine .slot ?_
    cases slot with
    | bound a => exact absurd rfl (hbound a)
    | _ => rfl

theorem plan_of_refuses {e : ValueError} (h : slot.Refuses v e) : s.plan slot v = .error e := by
  unfold plan
  cases h with
  | @kindChange a _ hkind hnull hundefined =>
    dsimp only
    rw [a.accept_of_owned (v.isBound_detach s), v.kind_detach s, if_neg hkind,
      if_neg (not_or.mpr ⟨hnull, hundefined⟩)]
  | @unset a _ hnone =>
    have hkind : v.kind ≠ a.kind := by
      cases a <;> rcases hnone with hv | hv <;> simp [HostCell.kind, hv]
    dsimp only
    rw [a.accept_of_owned (v.isBound_detach s), v.kind_detach s, if_neg hkind, if_pos hnone]
  | stringReassign hkind hnull hundefined =>
    have hrefused : ¬(v.detach s).replacesString = true := by
      rw [Value.replacesString_of_owned (v.isBound_detach s), v.kind_detach s]
      simp [hkind, hnull, hundefined]
    dsimp only
    rw [if_neg hrefused, v.kind_detach s]

/-- A write fails where the place refuses the value, and nowhere else. -/
theorem plan_eq_error_iff {e : ValueError} : s.plan slot v = .error e ↔ slot.Refuses v e := by
  refine ⟨fun h => ?_, plan_of_refuses⟩
  have hplan := s.planned slot v
  rw [h] at hplan
  cases hplan with
  | refused hrefuses => exact hrefuses

/-- A planned write to a cell goes to the cell that the place is bound to. -/
theorem eq_bound_of_plan {w : Value} (h : s.plan slot v = .ok (.cell a w)) : slot = .bound a := by
  have hplan := s.planned slot v
  rw [h] at hplan
  cases hplan with
  | cell hslot => exact hslot

/-- Whether there is a cell with a number. -/
def has (s : Cells) : HostCell → Bool
  | .int i => i < s.ints.size
  | .float i => i < s.floats.size
  | .bool i => i < s.bools.size
  | .string i => i < s.strings.size

@[simp] theorem has_put (s : Cells) (b : HostCell) (v : Value) (a : HostCell) :
    (s.put b v).has a = s.has a := by
  unfold put
  split <;> cases a <;> simp [has]

/-- What is put into a cell is there to be loaded. -/
theorem load_put_self (hthere : s.has a = true) (hkind : v.kind = a.kind) (hv : v.isBound = false) :
    (s.put a v).load a = v := by
  cases a <;> cases v <;> simp_all [put, load, has, Value.kind, HostCell.kind, Value.isBound]

/-- A write to one cell is not seen in another. -/
theorem load_put_of_ne (h : a ≠ b) : (s.put b v).load a = s.load a := by
  cases b <;> cases v <;> cases a <;> first | rfl | skip
  all_goals
    have hne := fun heq => h (congrArg _ heq)
    simp [put, load, Array.getD_eq_getD_getElem?, Array.getElem?_setIfInBounds_ne (Ne.symm hne)]

/-- A new cell is there, beside those that were. -/
theorem has_newCell? {s' : Cells} (h : s.newCell? v = some (a, s')) :
    s'.has a = true ∧ ∀ b, s.has b = true → s'.has b = true := by
  cases v <;> cases h
  all_goals
    refine ⟨by simp [has], fun b hb => ?_⟩
    cases b <;> simp only [has, decide_eq_true_eq, Array.size_push] at hb ⊢ <;> omega

end Cells

namespace Store

variable {s s' : Store} {e p q : ScopeId} {x y : String} {v w : Value} {d : Nat}

/-! ### The links between scopes -/

/-- From the one scope, that many links out, lies the other. -/
inductive Outward (s : Store) : ScopeId → Nat → ScopeId → Prop where
  | here (e : ScopeId) : Outward s e 0 e
  | out {e p q : ScopeId} {d : Nat} (hparent : (s.scope e).parent = some p) (h : Outward s p d q) :
      Outward s e (d + 1) q

/-- The scope that lies so many links out binds the name, and none on the way to it does. -/
structure Nearest (s : Store) (e : ScopeId) (x : String) (d : Nat) (p : ScopeId) : Prop where
  out : s.Outward e d p
  binds : s.contains p x = true
  least : ∀ k < d, ∀ q, s.Outward e k q → s.contains q x = false

/-- Scopes lie in older ones, and the cells that values are bound to are there. -/
structure Orderly (s : Store) : Prop where
  older : ∀ {e p}, (s.scope e).parent = some p → p.index < e.index
  cells : ∀ {e x a}, s.own? e x = some (.bound a) → s.cells.has a = true

namespace Orderly

theorem outer?_eq (h : s.Orderly) (e : ScopeId) : s.outer? e = (s.scope e).parent := by
  unfold outer?
  cases hp : (s.scope e).parent with
  | none => rfl
  | some p => simp [Option.filter, h.older hp]

theorem ancestor?_eq_some_iff (h : s.Orderly) : s.ancestor? e d = some p ↔ s.Outward e d p := by
  induction d generalizing e with
  | zero =>
    refine ⟨fun heq => ?_, fun hout => ?_⟩
    · cases heq
      exact .here p
    · cases hout
      rfl
  | succ d ih =>
    rw [ancestor?, h.outer?_eq]
    refine ⟨fun heq => ?_, fun hout => ?_⟩
    · obtain ⟨r, hparent, hrest⟩ := Option.bind_eq_some_iff.mp heq
      exact .out hparent (ih.mp hrest)
    · cases hout with
      | out hparent hout =>
        rw [hparent]
        exact ih.mpr hout

/-- The walk outward ends at the nearest scope. -/
theorem holder?_eq_some_iff (h : s.Orderly) :
    s.holder? e x = some p ↔ ∃ d, s.Nearest e x d p := by
  fun_induction holder? s e x with
  | case1 e hbinds =>
    refine ⟨fun heq => ?_, fun ⟨d, hnear⟩ => ?_⟩
    · cases heq
      exact ⟨0, .here p, hbinds, fun k hk => absurd hk (Nat.not_lt_zero k)⟩
    · -- no link is followed, since that would pass by a scope that binds the name
      cases d with
      | zero =>
        cases hnear.out
        rfl
      | succ d =>
        have hnot := hnear.least 0 (Nat.succ_pos d) e (.here e)
        rw [hbinds] at hnot
        cases hnot
  | case2 e hnot r hr ih =>
    have hparent := (h.outer?_eq e).symm.trans hr
    rw [ih]
    refine ⟨fun ⟨d, hnear⟩ => ⟨d + 1, .out hparent hnear.out, hnear.binds, fun k hk q hout => ?_⟩,
      fun ⟨d, hnear⟩ => ?_⟩
    · cases hout with
      | here => simpa using hnot
      | out hparent' hout =>
        cases hparent.symm.trans hparent'
        exact hnear.least _ (Nat.lt_of_succ_lt_succ hk) q hout
    · obtain ⟨hout, hbinds, hleast⟩ := hnear
      cases hout with
      | here => exact absurd hbinds hnot
      | out hparent' hout =>
        cases hparent.symm.trans hparent'
        exact ⟨_, hout, hbinds, fun k hk q hq =>
          hleast (k + 1) (Nat.succ_lt_succ hk) q (.out hparent hq)⟩
  | case3 e hnot hr =>
    have hparent := (h.outer?_eq e).symm.trans hr
    refine ⟨nofun, fun ⟨d, hnear⟩ => ?_⟩
    obtain ⟨hout, hbinds, -⟩ := hnear
    cases hout with
    | here => exact absurd hbinds hnot
    | out hparent' => cases hparent.symm.trans hparent'

end Orderly

/-! ### What a write leaves behind -/

/-- What a place reads as: an owning copy of what it holds. -/
def read? (s : Store) (e : ScopeId) (x : String) : Option Value :=
  (s.own? e x).map (Value.detach s.cells)

/-- Two places hold values that are bound to one cell. -/
def Shares (s : Store) (p : ScopeId) (x : String) (q : ScopeId) (y : String) : Prop :=
  ∃ a, s.own? p x = some (.bound a) ∧ s.own? q y = some (.bound a)

/-- The store `s'` is `s` behind a write of the value `v` to a place. -/
structure Written (s : Store) (p : ScopeId) (x : String) (v : Value) (s' : Store) : Prop where
  self : s'.read? p x = some (v.detach s.cells)
  shared : ∀ {q y}, s.Shares p x q y → s'.read? q y = some (v.detach s.cells)
  apart : ∀ {q y}, (q, y) ≠ (p, x) → ¬s.Shares p x q y → s'.read? q y = s.read? q y
  /-- A bound place stays bound to its cell, and what other places hold stays as it is. -/
  bound : ∀ {a}, s.own? p x = some (.bound a) → s'.own? p x = some (.bound a)
  holds : ∀ {q y}, (q, y) ≠ (p, x) → s'.own? q y = s.own? q y
  cells : ∀ {a}, s.own? p x ≠ some (.bound a) → s'.cells.load a = s.cells.load a
  parents : ∀ q, (s'.scope q).parent = (s.scope q).parent

theorem own?_define (h : e.index < s.scopes.size) (x : String) (v : Value) (q : ScopeId) (y : String) :
    (s.define e x v).own? q y = if (q, y) = (e, x) then some v else s.own? q y := by
  unfold own?
  rw [scope_define]
  by_cases hq : q = e
  · subst hq
    rw [if_pos ⟨rfl, h⟩, Bindings.get?_insert]
    simp
  · rw [if_neg fun heq => hq heq.1, if_neg fun heq => hq (congrArg Prod.fst heq)]

theorem parent_define (s : Store) (e : ScopeId) (x : String) (v : Value) (q : ScopeId) :
    ((s.define e x v).scope q).parent = (s.scope q).parent := by
  rw [scope_define]
  split
  · rename_i hq
    rw [hq.1]
  · rfl

/-- A place that holds an owning value is given another one. -/
theorem written_define {slot : Value} (hslot : s.own? p x = some slot) (howns : slot.isBound = false) :
    s.Written p x v (s.define p x (v.detach s.cells)) := by
  have hown := own?_define (index_lt_size_of_own? hslot) x (v.detach s.cells)
  have hunbound : ∀ a, s.own? p x ≠ some (.bound a) := by
    intro a ha
    cases hslot.symm.trans ha
    cases howns
  have hother : ∀ {q y}, (q, y) ≠ (p, x) → (s.define p x (v.detach s.cells)).own? q y = s.own? q y :=
    fun hne => (hown _ _).trans (if_neg hne)
  exact {
    self := by rw [read?, hown, if_pos rfl, Option.map_some, Value.detach_detach]
    shared := fun ⟨a, ha, _⟩ => absurd ha (hunbound a)
    apart := fun hne _ => by
      rw [read?, hother hne]
      rfl
    bound := fun ha => absurd ha (hunbound _)
    holds := hother
    cells := fun _ => rfl
    parents := parent_define s p x _ }

theorem read?_withCells (s : Store) (cells : Cells) (q : ScopeId) (y : String) :
    { s with cells := cells }.read? q y = (s.own? q y).map (Value.detach cells) := rfl

/-- A place that holds a bound value is written through. -/
theorem written_put {a : HostCell} (hslot : s.own? p x = some (.bound a))
    (hthere : s.cells.has a = true) (hkind : v.kind = a.kind) :
    s.Written p x v { s with cells := s.cells.put a (v.detach s.cells) } := by
  have hload : (s.cells.put a (v.detach s.cells)).load a = v.detach s.cells :=
    Cells.load_put_self hthere ((v.kind_detach s.cells).trans hkind) (v.isBound_detach s.cells)
  have hself : ∀ {q y}, s.own? q y = some (.bound a) →
      read? { s with cells := s.cells.put a (v.detach s.cells) } q y = some (v.detach s.cells) := by
    intro q y hq
    rw [read?_withCells, hq]
    exact congrArg some hload
  refine ⟨hself hslot, ?_, ?_, id, fun _ => rfl, ?_, fun _ => rfl⟩
  · rintro q y ⟨b, hb, hq⟩
    cases hslot.symm.trans hb
    exact hself hq
  · intro q y _ hshares
    rw [read?_withCells]
    refine Option.map_congr fun w hw => ?_
    cases w with
    | bound b =>
      have hne : b ≠ a := by
        rintro rfl
        exact hshares ⟨b, hslot, hw⟩
      exact Cells.load_put_of_ne hne
    | _ => rfl
  · intro b hb
    refine Cells.load_put_of_ne ?_
    rintro rfl
    exact hb hslot

/-- What a planned assignment acts on. -/
theorem assignIn_eq_ok {place : Option ScopeId} (h : s.assignIn place x v = .ok s') :
    ∃ p slot w, place = some p ∧ s.own? p x = some slot ∧ s.cells.plan slot v = .ok w ∧
      s' = s.commit p x w := by
  unfold assignIn plan at h
  cases place with
  | none => cases h
  | some p =>
    dsimp only at h
    cases hslot : s.own? p x with
    | none => rw [hslot] at h; cases h
    | some slot =>
      rw [hslot] at h
      dsimp only at h
      cases hplan : s.cells.plan slot v with
      | error err => rw [hplan] at h; cases h
      | ok w =>
        rw [hplan] at h
        cases h
        exact ⟨p, slot, w, rfl, hslot, hplan, rfl⟩

/-- An assignment finds no binding where a read finds none. -/
theorem assignIn_eq_unbound_iff {place : Option ScopeId} :
    s.assignIn place x v = .error .unbound ↔ (place.bind fun p => s.own? p x) = none := by
  unfold assignIn plan
  cases place with
  | none => simp [Except.map]
  | some p =>
    cases hslot : s.own? p x with
    | none => simp [Except.map, hslot]
    | some slot => cases hplan : s.cells.plan slot v <;> simp [Except.map, hslot, hplan]

/-- Where there is a binding, an assignment fails if what it holds refuses the value. -/
theorem assignIn_eq_value_iff {place : Option ScopeId} {err : ValueError} :
    s.assignIn place x v = .error (.value err) ↔
      ∃ slot, (place.bind fun p => s.own? p x) = some slot ∧ slot.Refuses v err := by
  unfold assignIn plan
  cases place with
  | none => simp [Except.map]
  | some p =>
    cases hslot : s.own? p x with
    | none => simp [Except.map, hslot]
    | some slot =>
      simp only [Option.bind_some, hslot, Option.some.injEq, exists_eq_left']
      rw [← Cells.plan_eq_error_iff (s := s.cells)]
      cases hplan : s.cells.plan slot v <;> simp [Except.map]

namespace Orderly

theorem written (h : s.Orderly) {place : Option ScopeId} (hassign : s.assignIn place x v = .ok s') :
    ∃ p, place = some p ∧ s.Written p x v s' := by
  obtain ⟨p, slot, w, hplace, hslot, hplan, rfl⟩ := assignIn_eq_ok hassign
  refine ⟨p, hplace, ?_⟩
  have hplanned := s.cells.planned slot v
  rw [hplan] at hplanned
  cases hplanned with
  | cell hbound hkind =>
    subst hbound
    exact written_put hslot (h.cells hslot) hkind
  | slot howns => exact written_define hslot howns

theorem empty : Store.empty.Orderly where
  older := fun h => by simp [Store.empty, scope, default] at h
  cells := fun h => by simp [Store.empty, own?, scope, default] at h

/-- A new scope, in a scope that is there or in none. -/
theorem «open» (h : s.Orderly) {sc : Scope} (hparent : ∀ p, sc.parent = some p → p.index < s.scopes.size)
    (hvars : ∀ x a, sc.vars.get? x = some (.bound a) → s.cells.has a = true) :
    (s.open sc).2.Orderly where
  older := fun {e p} hp => by
    rw [scope_open] at hp
    split at hp
    · rename_i he
      exact he ▸ hparent p hp
    · exact h.older hp
  cells := fun {e x a} ha => by
    rcases s.own?_open_cases ha with hnew | hold
    · exact hvars x a hnew
    · exact h.cells hold

theorem define (h : s.Orderly) (e : ScopeId) (x : String)
    (hv : ∀ a, v = .bound a → s.cells.has a = true) : (s.define e x v).Orderly where
  older := fun {e' p} hp => by
    rw [parent_define] at hp
    exact h.older hp
  cells := fun {e' y a} ha => by
    rcases s.own?_define_cases ha with hnew | hold
    · exact hv a hnew.symm
    · exact h.cells hold

theorem withCells (h : s.Orderly) {cells : Cells}
    (hle : ∀ a, s.cells.has a = true → cells.has a = true) : { s with cells := cells }.Orderly where
  older := h.older
  cells := fun ha => hle _ (h.cells ha)

theorem assignIn (h : s.Orderly) {place : Option ScopeId} (hassign : s.assignIn place x v = .ok s') :
    s'.Orderly := by
  obtain ⟨p, slot, w, -, -, hplan, rfl⟩ := assignIn_eq_ok hassign
  have hplanned := s.cells.planned slot v
  rw [hplan] at hplanned
  cases hplanned with
  | cell => exact h.withCells fun b hb => (Cells.has_put s.cells _ _ b).trans hb
  | slot =>
    refine h.define p x fun a ha => ?_
    have howns := v.isBound_detach s.cells
    rw [ha] at howns
    cases howns

end Orderly

/-- The stores that come of opening scopes, defining names, assigning to them and what a host does
with its cells. -/
inductive Reachable : Store → Prop where
  | empty : Reachable .empty
  | «open» {s : Store} {sc : Scope} (h : Reachable s)
      (hparent : ∀ p, sc.parent = some p → p.index < s.scopes.size)
      (hvars : ∀ x a, sc.vars.get? x = some (.bound a) → s.cells.has a = true) :
      Reachable (s.open sc).2
  | define {s : Store} {v : Value} (h : Reachable s) (e : ScopeId) (x : String)
      (hv : ∀ a, v = .bound a → s.cells.has a = true) : Reachable (s.define e x v)
  | assign {s s' : Store} {e : ScopeId} {x : String} {v : Value} (h : Reachable s)
      (hassign : s.assign e x v = .ok s') : Reachable s'
  | assignAt {s s' : Store} {e : ScopeId} {d : Nat} {x : String} {v : Value} (h : Reachable s)
      (hassign : s.assignAt e d x v = .ok s') : Reachable s'
  | newCell {s : Store} {v : Value} {a : HostCell} {cells : Cells} (h : Reachable s)
      (hcell : s.cells.newCell? v = some (a, cells)) : Reachable { s with cells := cells }
  | store {s : Store} {a : HostCell} {v : Value} {cells : Cells} (h : Reachable s)
      (hstore : s.cells.store a v = .ok cells) : Reachable { s with cells := cells }

theorem Reachable.orderly (h : s.Reachable) : s.Orderly := by
  induction h with
  | empty => exact .empty
  | «open» _ hparent hvars ih => exact ih.open hparent hvars
  | define _ e x hv ih => exact ih.define e x hv
  | assign _ hassign ih => exact ih.assignIn hassign
  | assignAt _ hassign ih => exact ih.assignIn hassign
  | newCell _ hcell ih => exact ih.withCells (Cells.has_newCell? hcell).2
  | @store s a v cells _ hstore ih =>
    unfold Cells.store at hstore
    split at hstore <;> cases hstore
    exact ih.withCells fun b hb => (Cells.has_put s.cells a v b).trans hb

theorem Reachable.root (h : s.Reachable) : (s.open ⟨.empty, none⟩).2.Reachable :=
  h.open nofun nofun

theorem Reachable.child (h : s.Reachable) (hp : p.index < s.scopes.size) :
    (s.open ⟨.empty, some p⟩).2.Reachable :=
  h.open (fun _ heq => Option.some.inj heq ▸ hp) nofun

/-! ### Reading back -/

namespace Written

theorem contains_eq (h : s.Written p x v s') (hbinds : s.contains p x = true) (q : ScopeId)
    (y : String) : s'.contains q y = s.contains q y := by
  by_cases hplace : (q, y) = (p, x)
  · cases hplace
    have hself := h.self
    rw [hbinds, contains]
    unfold read? at hself
    cases hown : s'.own? p x with
    | none => rw [hown] at hself; cases hself
    | some w => rfl
  · rw [contains, contains, h.holds hplace]

theorem outward (h : s.Written p x v s') {q : ScopeId} : s'.Outward e d q ↔ s.Outward e d q := by
  constructor <;> intro hout
  · induction hout with
    | here e => exact .here e
    | out hparent _ ih => exact .out ((h.parents _).symm.trans hparent) ih
  · induction hout with
    | here e => exact .here e
    | out hparent _ ih => exact .out ((h.parents _).trans hparent) ih

theorem nearest (h : s.Written p x v s') (hnear : s.Nearest e x d p) : s'.Nearest e x d p where
  out := h.outward.mpr hnear.out
  binds := (h.contains_eq hnear.binds p x).trans hnear.binds
  least := fun k hk q hout =>
    (h.contains_eq hnear.binds q x).trans (hnear.least k hk q (h.outward.mp hout))

end Written

namespace Orderly

theorem get?_eq (h : s.Orderly) (hnear : s.Nearest e x d p) : s.get? e x = s.own? p x := by
  rw [get?, h.holder?_eq_some_iff.mpr ⟨d, hnear⟩, Option.bind_some]

theorem getAt?_eq (h : s.Orderly) (hout : s.Outward e d p) : s.getAt? e d x = s.own? p x := by
  rw [getAt?, h.ancestor?_eq_some_iff.mpr hout, Option.bind_some]

theorem get?_eq_none (h : s.Orderly) (hnone : ∀ d p, ¬s.Nearest e x d p) : s.get? e x = none := by
  cases hp : s.holder? e x with
  | none => rw [get?, hp, Option.bind_none]
  | some p =>
    obtain ⟨d, hnear⟩ := h.holder?_eq_some_iff.mp hp
    exact absurd hnear (hnone d p)

theorem assign_eq_assignAt (h : s.Orderly) (hnear : s.Nearest e x d p) :
    s.assign e x v = s.assignAt e d x v := by
  rw [assign, assignAt, h.holder?_eq_some_iff.mpr ⟨d, hnear⟩, h.ancestor?_eq_some_iff.mpr hnear.out]

theorem written_of_assign (h : s.Orderly) (hassign : s.assign e x v = .ok s') :
    (s'.get? e x).map (Value.detach s'.cells) = some (v.detach s.cells) ∧
      ∃ d p, s.Nearest e x d p ∧ s.Written p x v s' := by
  obtain ⟨p, hp, hwritten⟩ := h.written hassign
  obtain ⟨d, hnear⟩ := h.holder?_eq_some_iff.mp hp
  refine ⟨?_, d, p, hnear, hwritten⟩
  rw [(h.assignIn hassign).get?_eq (hwritten.nearest hnear)]
  exact hwritten.self

theorem written_of_assignAt (h : s.Orderly) (hassign : s.assignAt e d x v = .ok s') :
    (s'.getAt? e d x).map (Value.detach s'.cells) = some (v.detach s.cells) ∧
      ∃ p, s.Outward e d p ∧ s.Written p x v s' := by
  obtain ⟨p, hp, hwritten⟩ := h.written hassign
  have hout := h.ancestor?_eq_some_iff.mp hp
  refine ⟨?_, p, hout, hwritten⟩
  rw [(h.assignIn hassign).getAt?_eq (hwritten.outward.mpr hout)]
  exact hwritten.self

end Orderly

end Store

namespace Machine

variable {m : Machine} {place : Option ScopeId} {x : String} {v : Value}

/-- An assignment on a machine is one in its store. -/
theorem assignIn_eq (m : Machine) (place : Option ScopeId) (x : String) (v : Value) (line : Nat) :
    assignIn place x v line m =
      match m.store.assignIn place x v with
      | .ok s => .done () { m with store := s }
      | .error .unbound => .fail (.undefinedName line x) m
      | .error (.value e) => .fail (.type line (.value e)) m := by
  unfold assignIn Store.assignIn
  rcases m.store.plan place x v with (_ | e) | w <;> rfl

/-- Where an assignment to a name fails, the machine is as it was. -/
theorem assignIn_of_error {err : AssignError} (h : m.store.assignIn place x v = .error err)
    (line : Nat) : ∃ f, assignIn place x v line m = .fail f m := by
  rw [assignIn_eq, h]
  cases err <;> exact ⟨_, rfl⟩

end Machine

/-- A name is read in the nearest scope that binds it, and an assignment to it acts on the binding that
is read. It fails where there is none, or where what is bound refuses the value, and then changes
nothing. Otherwise the binding reads as the value from then on, and so do those that share a cell
with it. All others read as before. -/
theorem Store.Reachable.reads_and_writes_agree {s : Store} (hs : s.Reachable) (e : ScopeId)
    (x : String) :
    (∀ d p, s.Outward e d p → s.getAt? e d x = s.own? p x) ∧
    (∀ d p, s.Nearest e x d p → s.get? e x = s.getAt? e d x) ∧
    ((∀ d p, ¬s.Nearest e x d p) → s.get? e x = none) ∧
    ∀ v,
      (∀ d p, s.Nearest e x d p → s.assign e x v = s.assignAt e d x v) ∧
      (s.assign e x v = .error .unbound ↔ s.get? e x = none) ∧
      (∀ err, s.assign e x v = .error (.value err) ↔
        ∃ slot, s.get? e x = some slot ∧ slot.Refuses v err) ∧
      (∀ s', s.assign e x v = .ok s' →
        (s'.get? e x).map (Value.detach s'.cells) = some (v.detach s.cells) ∧
          ∃ d p, s.Nearest e x d p ∧ s.Written p x v s') ∧
      (∀ d s', s.assignAt e d x v = .ok s' →
        (s'.getAt? e d x).map (Value.detach s'.cells) = some (v.detach s.cells) ∧
          ∃ p, s.Outward e d p ∧ s.Written p x v s') ∧
      ∀ m line err, m.store = s →
        (s.assign e x v = .error err →
          ∃ f, Machine.assignIn (s.holder? e x) x v line m = .fail f m) ∧
        ∀ d, s.assignAt e d x v = .error err →
          ∃ f, Machine.assignIn (s.ancestor? e d) x v line m = .fail f m := by
  have h := hs.orderly
  refine ⟨fun d p => h.getAt?_eq, fun d p hnear => ?_, h.get?_eq_none, fun v =>
    ⟨fun d p => h.assign_eq_assignAt, assignIn_eq_unbound_iff, fun err => assignIn_eq_value_iff,
      fun s' => h.written_of_assign, fun d s' => h.written_of_assignAt, ?_⟩⟩
  · exact (h.get?_eq hnear).trans (h.getAt?_eq hnear.out).symm
  · rintro m line err rfl
    exact ⟨fun herr => Machine.assignIn_of_error herr line,
      fun d herr => Machine.assignIn_of_error herr line⟩

namespace Store

/-- Two scopes that bind names to one cell, and a third within them. -/
def sharing (n : Int32) : Store :=
  let host : Store := ⟨#[], ⟨#[n], #[], #[], #[]⟩⟩
  let outer := (host.open ⟨.empty, none⟩).2.define ⟨0⟩ "a" (.bound (.int 0))
  let inner := (outer.open ⟨.empty, some ⟨0⟩⟩).2.define ⟨1⟩ "b" (.bound (.int 0))
  (inner.open ⟨.empty, some ⟨1⟩⟩).2

theorem reachable_sharing (n : Int32) : (sharing n).Reachable := by
  have hcell : Reachable ⟨#[], ⟨#[n], #[], #[], #[]⟩⟩ := .newCell (v := .int n) .empty rfl
  have houter := hcell.root.define ⟨0⟩ "a" (v := .bound (.int 0)) fun a ha => by cases ha; rfl
  have hinner := (houter.child (p := ⟨0⟩) Nat.one_pos).define ⟨1⟩ "b" (v := .bound (.int 0))
    fun a ha => by cases ha; rfl
  exact hinner.child Nat.one_lt_two

theorem sharing_reads_and_writes :
    (sharing 1).assign ⟨2⟩ "a" (.int 5) = .ok (sharing 5) ∧
      ((sharing 5).get? ⟨2⟩ "a").map (Value.detach (sharing 5).cells) = some (.int 5) ∧
      ∃ d p, (sharing 1).Nearest ⟨2⟩ "a" d p ∧ (sharing 1).Written p "a" (.int 5) (sharing 5) := by
  have hholder : (sharing 1).holder? ⟨2⟩ "a" = some ⟨0⟩ := by decide +kernel
  have hassign : (sharing 1).assign ⟨2⟩ "a" (.int 5) = .ok (sharing 5) := by
    rw [assign, hholder]
    rfl
  have hall := ((reachable_sharing 1).reads_and_writes_agree ⟨2⟩ "a").2.2.2 (.int 5)
  exact ⟨hassign, hall.2.2.2.1 (sharing 5) hassign⟩

end Store

end HostScript
