import HostScript.Proofs.Hosting
import HostScript.Proofs.Writes

/-!
# Instances around host objects

An instance around a host object shows the object's cells as bound fields. Scripts write through such a
field and cannot replace it, so the fields stay what they were when the instance was made, and a vector
of the host and the instance around it are one thing seen from two sides.

`m.Wired lent`: on `m` that is so for every instance, and no two vectors have a cell in common but for
those that the host has lent.
-/

namespace HostScript

/-! ### The fields of a host object -/

/-- A name that stands in front of one value is bound to it. -/
theorem Bindings.get?_ofList_of_unique {α : Type} {xs : List (String × α)} {x : String} {a : α}
    (h : (x, a) ∈ xs) (hunique : ∀ b, (x, b) ∈ xs → b = a) : (ofList xs).get? x = some a := by
  have hthere : (ofList xs).contains x = true :=
    contains_ofList (List.mem_map_of_mem (f := (·.1)) h)
  obtain ⟨b, hb⟩ := Option.isSome_iff_exists.mp hthere
  rw [hb, hunique b (mem_of_get?_ofList hb)]

namespace HostVector

variable {v : HostVector} {x : String} {w : Value} {s : Cells} {j n : Nat}

theorem mem_fields_iff :
    (x, w) ∈ v.fields ↔
      ∃ j n : Nat, axes[j]? = some x ∧ v.components[j]? = some n ∧ w = .bound (.float n) := by
  unfold fields
  rw [List.mem_iff_getElem?]
  simp only [List.getElem?_zip_eq_some, List.getElem?_map, Option.map_eq_some_iff]
  constructor
  · rintro ⟨j, hx, n, hn, rfl⟩
    exact ⟨j, n, hx, hn, rfl⟩
  · rintro ⟨j, n, hx, hn, rfl⟩
    exact ⟨j, hx, n, hn, rfl⟩

theorem axis_unique {i : Nat} (hi : axes[i]? = some x) (hj : axes[j]? = some x) : i = j := by
  have hlt : i < axes.length := (List.getElem?_eq_some_iff.mp hi).1
  exact (List.getElem?_inj hlt (by decide)).mp (hi.trans hj.symm)

/-- A component is what its cell holds. -/
theorem get?_of_component (hn : v.components[j]? = some n) :
    v.get? s j = some (s.floats.getD n 0) := by
  rw [get?, values, List.getElem?_map, hn]
  rfl

theorem set_of_component (hn : v.components[j]? = some n) (x : Float32) :
    v.set s j x = s.put (.float n) (.float x) := by
  rw [set, hn]

/-- What was written to a component is read from it. -/
theorem getD_floats_set (hn : v.components[j]? = some n) (hlt : n < s.floats.size) (x : Float32) :
    (v.set s j x).floats.getD n 0 = x := by
  rw [set_of_component hn]
  simp [Cells.put, Array.getD_eq_getD_getElem?, hlt]

/-- New vectors have new cells. -/
theorem le_of_mem_ofValues {xs : List Float32} (h : n ∈ (ofValues s xs).1.components) :
    s.floats.size ≤ n ∧ n < (ofValues s xs).2.floats.size := by
  rw [size_floats_ofValues]
  exact List.mem_range'_1.mp h

end HostVector

namespace HostObject

variable {o : HostObject} {x : String} {v w : Value}

theorem isBound_of_mem_fields (h : (x, v) ∈ o.fields) : v.isBound = true := by
  cases o with
  | vector u =>
    obtain ⟨-, n, -, -, rfl⟩ := HostVector.mem_fields_iff.mp h
    rfl
  | counter c l e =>
    simp only [fields, List.mem_cons, Prod.mk.injEq, List.not_mem_nil, or_false] at h
    rcases h with ⟨-, rfl⟩ | ⟨-, rfl⟩ | ⟨-, rfl⟩ <;> rfl
  | byte n => cases h

/-- The fields of a host object have different names. -/
theorem field_unique (hv : (x, v) ∈ o.fields) (hw : (x, w) ∈ o.fields) : w = v := by
  cases o with
  | vector u =>
    obtain ⟨i, n, hi, hn, rfl⟩ := HostVector.mem_fields_iff.mp hv
    obtain ⟨j, k, hj, hk, rfl⟩ := HostVector.mem_fields_iff.mp hw
    obtain rfl := HostVector.axis_unique hi hj
    cases hn.symm.trans hk
    rfl
  | counter c l e =>
    simp only [fields, List.mem_cons, Prod.mk.injEq, List.not_mem_nil, or_false] at hv hw
    rcases hv with ⟨rfl, rfl⟩ | ⟨rfl, rfl⟩ | ⟨rfl, rfl⟩ <;> simp_all
  | byte n => cases hv

theorem InCells.mono {s s' : Cells} (h : o.InCells s) (hle : s.floats.size ≤ s'.floats.size) :
    o.InCells s' := by
  cases o with
  | vector v => exact fun n hn => Nat.lt_of_lt_of_le (h n hn) hle
  | _ => trivial

end HostObject

theorem Cells.Makes.inCells {s cells : Cells} {o : HostObject} (h : s.Makes o cells) :
    o.InCells cells := by
  cases h with
  | vector xs => exact fun n hn => (HostVector.le_of_mem_ofValues hn).2
  | _ => trivial

/-- A new instance shows its host object. -/
theorem Instance.get?_ofHost {k : ClassId} {o : HostObject} {x : String} {v : Value}
    (h : (x, v) ∈ o.fields) : (Instance.ofHost k o).fields.get? x = some v :=
  Bindings.get?_ofList_of_unique h fun _ hw => HostObject.field_unique h hw

/-! ### The invariant -/

namespace Machine

variable {m m' : Machine} {lent lent' : List InstanceId} {i j : InstanceId}

/-- Every instance around a host object shows the object's cells and binds no others, and vectors are
apart unless the host has lent them. -/
structure Wired (m : Machine) (lent : List InstanceId) : Prop where
  inCells : ∀ {i o}, (m.heap.instance_ i).host = some o → o.InCells m.store.cells
  shown : ∀ {i o x v}, (m.heap.instance_ i).host = some o → (x, v) ∈ o.fields →
    (m.heap.instance_ i).fields.get? x = some v
  only : ∀ {i x a}, (m.heap.instance_ i).fields.get? x = some (.bound a) →
    ∃ o, (m.heap.instance_ i).host = some o ∧ (x, .bound a) ∈ o.fields
  apart : ∀ {i j v w n}, i ≠ j → i ∉ lent → j ∉ lent →
    (m.heap.instance_ i).host = some (.vector v) → (m.heap.instance_ j).host = some (.vector w) →
    n ∈ v.components → n ∉ w.components

/-- The host object of an instance was there, or the instance is new and so are the cells of the object,
if it is a vector. -/
theorem Change.host_cases {declares : Prop} (hc : Change declares m m') {o : HostObject}
    (ho : (m'.heap.instance_ i).host = some o) :
    (m.heap.instance_ i).host = some o ∨
      i = m.nextInstance ∧ (m.store.cells.Makes o m'.store.cells ∨ o.type = .counter) := by
  cases hc.instance_cases i with
  | same heq => exact .inl (heq ▸ ho)
  | field hslot hv heq =>
    rw [heq] at ho
    exact .inl ho
  | remember hnone hk hfind hg hm' heq =>
    rw [heq] at ho
    exact .inl ho
  | plain hi heq =>
    rw [heq] at ho
    cases ho
  | host hi hk hmakes heq =>
    rw [heq] at ho
    cases ho
    exact .inr ⟨hi, hmakes⟩

namespace Wired

/-- A change leaves a field that shows a cell: it holds a bound value, and a write goes through it. -/
theorem shown_of_change {declares : Prop} (h : m.Wired lent) (hc : Change declares m m')
    {o : HostObject} {x : String} {v : Value} (ho : (m'.heap.instance_ i).host = some o)
    (hv : (x, v) ∈ o.fields) : (m'.heap.instance_ i).fields.get? x = some v := by
  cases hc.instance_cases i with
  | same heq =>
    rw [heq] at ho ⊢
    exact h.shown ho hv
  | @field y w hslot hw heq =>
    rw [heq] at ho ⊢
    have hshown := h.shown ho hv
    have hne : x ≠ y := by
      rintro rfl
      cases (HostObject.isBound_of_mem_fields hv).symm.trans (hslot v hshown)
    rw [Bindings.get?_insert_of_ne _ _ hne]
    exact hshown
  | remember hnone hk hfind hg hm' heq =>
    rw [heq] at ho ⊢
    exact h.shown ho hv
  | plain hi heq =>
    rw [heq] at ho
    cases ho
  | host hi hk hmakes heq =>
    rw [heq] at ho ⊢
    cases ho
    exact Instance.get?_ofHost hv

/-- A change binds no field to a cell but those of a new host object. -/
theorem only_of_change {declares : Prop} (h : m.Wired lent) (hc : Change declares m m')
    {x : String} {a : HostCell} (hv : (m'.heap.instance_ i).fields.get? x = some (.bound a)) :
    ∃ o, (m'.heap.instance_ i).host = some o ∧ (x, .bound a) ∈ o.fields := by
  cases hc.instance_cases i with
  | same heq =>
    rw [heq] at hv ⊢
    exact h.only hv
  | @field y w hslot hw heq =>
    rw [heq] at hv ⊢
    rw [Bindings.get?_insert] at hv
    split at hv
    · cases hv
      cases hw
    · exact h.only hv
  | remember hnone hk hfind hg hm' heq =>
    rw [heq] at hv ⊢
    exact h.only hv
  | plain hi heq =>
    rw [heq] at hv
    cases hv
  | @host k o hi hk hmakes heq =>
    rw [heq] at hv ⊢
    exact ⟨o, rfl, Bindings.mem_of_get?_ofList hv⟩

/-- A vector that was there has old cells, and one that is made has new ones. -/
theorem not_mem_of_makes (h : m.Wired lent) {cells : Cells} {v w : HostVector} {n : Nat}
    (hmakes : m.store.cells.Makes (.vector v) cells) (hn : n ∈ v.components)
    (hold : (m.heap.instance_ i).host = some (.vector w)) : n ∉ w.components := by
  intro hn'
  have hlt : n < m.store.cells.floats.size := h.inCells hold n hn'
  cases hmakes with
  | vector xs => exact absurd hlt (Nat.not_lt.mpr (HostVector.le_of_mem_ofValues hn).1)

theorem apart_of_change {declares : Prop} (h : m.Wired lent) (hc : Change declares m m')
    {v w : HostVector} {n : Nat} (hij : i ≠ j) (hi : i ∉ lent) (hj : j ∉ lent)
    (hv : (m'.heap.instance_ i).host = some (.vector v))
    (hw : (m'.heap.instance_ j).host = some (.vector w)) (hn : n ∈ v.components) :
    n ∉ w.components := by
  intro hn'
  rcases hc.host_cases hv with hv | ⟨rfl, hv | hv⟩
  · rcases hc.host_cases hw with hw | ⟨rfl, hw | hw⟩
    · exact h.apart hij hi hj hv hw hn hn'
    · exact h.not_mem_of_makes hw hn' hv hn
    · cases hw
  · rcases hc.host_cases hw with hw | ⟨rfl, hw⟩
    · exact h.not_mem_of_makes hv hn hw hn'
    · exact hij rfl
  · cases hv

theorem change {declares : Prop} (h : m.Wired lent) (hc : Change declares m m') :
    m'.Wired lent := by
  refine ⟨fun {i o} ho => ?_, h.shown_of_change hc, h.only_of_change hc, h.apart_of_change hc⟩
  rcases hc.host_cases ho with hold | ⟨-, hmakes | htype⟩
  · exact (h.inCells hold).mono hc.extends.floats_le
  · exact hmakes.inCells
  · cases o with
    | vector v => cases htype
    | _ => trivial

theorem admits (lent : List InstanceId) : (Frame.fact (·.Wired lent)).Admits False :=
  Frame.admits_fact (fun _ _ h => ⟨h.inCells, h.shown, h.only, h.apart⟩) (fun h hc => h.change hc)
    fun _ h _ => ⟨h.inCells, h.shown, h.only, h.apart⟩

theorem beside (h : m.Wired lent) (hb : m.Beside m') : m'.Wired lent := by
  have heq := hb.instance_
  refine ⟨?_, ?_, ?_, ?_⟩
  · intro i o ho
    rw [hb.cells]
    exact h.inCells (heq i ▸ ho)
  · intro i o x v ho hv
    rw [heq] at ho ⊢
    exact h.shown ho hv
  · intro i x a hv
    rw [heq] at hv ⊢
    exact h.only hv
  · intro i j v w n hij hi hj hv hw
    rw [heq] at hv hw
    exact h.apart hij hi hj hv hw

theorem wrote (h : m.Wired lent) {cells : Cells}
    (hle : m.store.cells.floats.size ≤ cells.floats.size) : (m.withCells cells).Wired lent :=
  ⟨fun ho => (h.inCells ho).mono hle, h.shown, h.only, h.apart⟩

/-- The host makes an instance around an object of its own. -/
theorem lends (h : m.Wired lent) {o : HostObject} (ho : o.InCells m.store.cells) (k : ClassId) :
    (m.addInstance (.ofHost k o)).Wired (o.lend m.nextInstance ++ lent) := by
  have hadd := m.instance_addInstance (.ofHost k o)
  have hsub : ∀ i, i ∉ o.lend m.nextInstance ++ lent → i ∉ lent := by
    intro i hi hmem
    cases o with
    | vector v => exact hi (List.mem_cons_of_mem _ hmem)
    | _ => exact hi hmem
  -- A vector in the clear is not the new one.
  have hold : ∀ {i v}, i ∉ o.lend m.nextInstance ++ lent →
      ((m.addInstance (.ofHost k o)).heap.instance_ i).host = some (.vector v) →
      (m.heap.instance_ i).host = some (.vector v) := by
    intro i v hi hv
    rw [hadd] at hv
    split at hv
    · rename_i heq
      cases hv
      exact absurd (heq ▸ List.mem_cons_self) hi
    · exact hv
  refine ⟨fun {i o'} ho' => ?_, fun {i o' x v} ho' hv => ?_, fun {i x a} hv => ?_, ?_⟩
  · rw [hadd] at ho'
    split at ho'
    · cases ho'
      exact ho
    · exact h.inCells ho'
  · rw [hadd] at ho' ⊢
    split at ho'
    · cases ho'
      rw [if_pos ‹_›]
      exact Instance.get?_ofHost hv
    · rw [if_neg ‹_›]
      exact h.shown ho' hv
  · rw [hadd] at hv ⊢
    split at hv
    · rw [if_pos ‹_›]
      exact ⟨o, rfl, Bindings.mem_of_get?_ofList hv⟩
    · rw [if_neg ‹_›]
      exact h.only hv
  · intro i j v w n hij hi hj hv hw
    exact h.apart hij (hsub i hi) (hsub j hj) (hold hi hv) (hold hj hw)

theorem follows (h : m.Wired lent) (hf : m.Follows lent m' lent') : m'.Wired lent' := by
  cases hf with
  | evolves he => exact ((admits lent).evolves he h).1
  | beside hb => exact h.beside hb
  | wrote hle => exact h.wrote hle
  | lends ho => exact h.lends ho _

/-- On a machine without instances there is nothing to wire. -/
theorem of_empty (h : m.heap.instances = #[]) : m.Wired lent := by
  have hnone : ∀ i, m.heap.instance_ i = default := fun i => by
    rw [Heap.instance_, h]
    rfl
  refine ⟨?_, ?_, ?_, ?_⟩
  · intro i o ho
    rw [hnone] at ho
    cases ho
  · intro i o x v ho
    rw [hnone] at ho
    cases ho
  · intro i x a hv
    rw [hnone] at hv
    cases hv
  · intro i j v w n _ _ _ hv
    rw [hnone] at hv
    cases hv

end Wired

end Machine

theorem Session.Hosted.wired {s : Session} {held : List Value} {lent : List InstanceId}
    (h : s.Hosted held lent) : s.machine.Wired lent := by
  obtain ⟨maxDepth, console, honward⟩ := h
  have hempty : (Session.new maxDepth console).machine.heap.instances = #[] :=
    (Session.beside_new maxDepth console).instances
  exact honward.keeps (P := fun m lent => m.Wired lent) (fun hm hf => hm.follows hf)
    (Machine.Wired.of_empty hempty)

/-! ### Fields and components -/

theorem Heap.hasInstance_of_host {h : Heap} {i : InstanceId} {o : HostObject}
    (ho : (h.instance_ i).host = some o) : h.hasInstance i = true := by
  refine hasInstance_of_ne fun hnone => ?_
  rw [hnone] at ho
  cases ho

namespace Machine

variable {m m' : Machine} {i : InstanceId} {x : String} {v : Value} {line : Nat} {a : HostCell}

/-- A bound field reads as what its cell holds. -/
theorem getProperty_of_bound (hi : m.heap.hasInstance i = true)
    (h : (m.heap.instance_ i).fields.get? x = some (.bound a)) :
    getProperty i x line m = .done (m.store.cells.load a) m := by
  have hfield : (m.heap.instance_ i).field? m.store.cells x = some (m.store.cells.load a) := by
    rw [Instance.field?, h]
    rfl
  unfold getProperty
  rw [Run.demand_bind_apply hi, Run.read_bind_apply, hfield]
  rfl

/-- What is assigned to a bound field, if its cell takes it, is put into the cell. -/
theorem setField_of_bound (hi : m.heap.hasInstance i = true)
    (h : (m.heap.instance_ i).fields.get? x = some (.bound a))
    (haccept : a.accept (v.detach m.store.cells) = .ok ()) :
    setField i x v line m = .done () (m.withCells (m.store.cells.put a (v.detach m.store.cells))) := by
  have hplan : m.store.cells.plan (.bound a) v = .ok (.cell a (v.detach m.store.cells)) := by
    unfold Cells.plan
    dsimp only
    rw [haccept]
  unfold setField
  rw [Run.demand_bind_apply hi, writeField, h]
  dsimp only
  rw [hplan]
  rfl

/-- An assignment to a field puts a value into the field, or into the cell that the field is bound
to. -/
theorem setField_cases {u : Unit} (h : setField i x v line m = .done u m') :
    (∃ w, m' = { m with heap := m.heap.putField i x w }) ∨
      ∃ a w, (m.heap.instance_ i).fields.get? x = some (.bound a) ∧
        m' = m.withCells (m.store.cells.put a w) := by
  obtain ⟨_, m₁, hdemand, hwrite⟩ := Run.bind_eq_done h
  obtain ⟨-, rfl⟩ := Run.demand_eq_done hdemand
  unfold writeField at hwrite
  split at hwrite
  · cases hwrite
    exact .inl ⟨_, rfl⟩
  · rename_i slot hslot
    split at hwrite
    · cases hwrite
    · cases hwrite
      exact .inl ⟨_, rfl⟩
    · rename_i a w hplan
      cases hwrite
      rw [Cells.eq_bound_of_plan hplan] at hslot
      exact .inr ⟨a, w, hslot, rfl⟩

/-- An assignment to a field that fails changes nothing. -/
theorem setField_failed {e : RuntimeError} (h : setField i x v line m = .fail e m') : m' = m := by
  have hsame : (setField i x v line).wp ⟨fun _ _ => True, fun _ m' => m' = m, True⟩ m := by
    unfold setField
    rw [Run.wp_bind, Run.wp_demand]
    split
    · show (writeField i x v line).wp _ m
      unfold Run.wp writeField
      split
      · trivial
      · split
        · rfl
        · trivial
        · trivial
    · trivial
  unfold Run.wp at hsame
  rw [h] at hsame
  exact hsame

/-- A component of a vector and the field that shows it, seen from both sides: the field is bound to
the component's cell, both read the same, and what either side writes is read on both. -/
structure ShowsAxis (m : Machine) (i : InstanceId) (u : HostVector) (axis : Nat) (x : String) :
    Prop where
  bound : ∃ n, u.components[axis]? = some n ∧
    (m.heap.instance_ i).fields.get? x = some (.bound (.float n))
  reads : ∃ r, u.get? m.store.cells axis = some r ∧
    ∀ line, getProperty i x line m = .done (.float r) m
  writes : ∀ r line, setField i x (.float r) line m =
    .done () (m.withCells (u.set m.store.cells axis r))
  readsBack : ∀ r, u.get? (u.set m.store.cells axis r) axis = some r ∧
    ∀ line, getProperty i x line (m.withCells (u.set m.store.cells axis r)) =
      .done (.float r) (m.withCells (u.set m.store.cells axis r))

namespace Wired

variable {lent : List InstanceId} {j : InstanceId} {u : HostVector}

theorem showsAxis (h : m.Wired lent) (hu : (m.heap.instance_ i).host = some (.vector u))
    {axis : Nat} (hlt : axis < u.size) (hx : HostVector.axes[axis]? = some x) :
    m.ShowsAxis i u axis x := by
  obtain ⟨n, hn⟩ : ∃ n, u.components[axis]? = some n := ⟨_, List.getElem?_eq_getElem hlt⟩
  have hi := Heap.hasInstance_of_host hu
  have hcell : n < m.store.cells.floats.size := h.inCells hu n (List.mem_of_getElem? hn)
  have hbound := h.shown hu (HostVector.mem_fields_iff.mpr ⟨axis, n, hx, hn, rfl⟩)
  refine ⟨⟨n, hn, hbound⟩, ⟨_, HostVector.get?_of_component hn, ?_⟩, ?_, fun r => ⟨?_, ?_⟩⟩
  · exact fun line => getProperty_of_bound hi hbound
  · intro r line
    rw [HostVector.set_of_component hn]
    exact setField_of_bound hi hbound rfl
  · rw [HostVector.get?_of_component hn, HostVector.getD_floats_set hn hcell r]
  · intro line
    have hload : (u.set m.store.cells axis r).load (.float n) = .float r :=
      congrArg Value.float (HostVector.getD_floats_set hn hcell r)
    rw [← hload]
    exact getProperty_of_bound hi hbound

/-- A cell that a field of a vector is bound to is one of the vector's. -/
theorem component (h : m.Wired lent) (hu : (m.heap.instance_ i).host = some (.vector u))
    (hx : (m.heap.instance_ i).fields.get? x = some (.bound a)) :
    ∃ n ∈ u.components, a = .float n := by
  obtain ⟨o, ho, hmem⟩ := h.only hx
  cases hu.symm.trans ho
  obtain ⟨axis, n, -, hn, hbound⟩ := HostVector.mem_fields_iff.mp hmem
  cases hbound
  exact ⟨n, List.mem_of_getElem? hn, rfl⟩

/-- No field of another instance is bound to a component of a vector. -/
theorem ne_component (h : m.Wired lent) (hij : i ≠ j) (hi : i ∉ lent) (hj : j ∉ lent)
    (hu : (m.heap.instance_ i).host = some (.vector u)) {n : Nat} (hn : n ∈ u.components)
    (hx : (m.heap.instance_ j).fields.get? x = some (.bound a)) : a ≠ .float n := by
  rintro rfl
  obtain ⟨o, ho, hmem⟩ := h.only hx
  cases o with
  | vector w =>
    obtain ⟨k, hk, heq⟩ := h.component ho hx
    cases heq
    exact h.apart hij hi hj hu ho hn hk
  | counter c l e => simp [HostObject.fields] at hmem
  | byte b => cases hmem

/-- An assignment to a field of a vector is not seen through another instance. -/
theorem field?_setField (h : m.Wired lent) (hij : i ≠ j) (hi : i ∉ lent) (hj : j ∉ lent)
    (hu : (m.heap.instance_ i).host = some (.vector u)) {r : Unit}
    (hset : setField i x v line m = .done r m') (y : String) :
    (m'.heap.instance_ j).field? m'.store.cells y = (m.heap.instance_ j).field? m.store.cells y := by
  rcases setField_cases hset with ⟨w, rfl⟩ | ⟨a, w, hx, rfl⟩
  · have hsame : (m.heap.putField i x w).instance_ j = m.heap.instance_ j := by
      rw [Heap.putField, Heap.instance_modify, if_neg]
      exact fun heq => hij heq.1.symm
    show ((m.heap.putField i x w).instance_ j).field? _ y = _
    rw [hsame]
  · obtain ⟨n, hn, rfl⟩ := h.component hu hx
    show (m.heap.instance_ j).field? (m.store.cells.put (.float n) w) y = _
    unfold Instance.field?
    cases hy : (m.heap.instance_ j).fields.get? y with
    | none => rfl
    | some slot =>
      cases slot with
      | bound b =>
        exact congrArg some (Cells.load_put_of_ne (h.ne_component hij hi hj hu hn hy))
      | _ => rfl

end Wired

/-- The host object of an instance is never replaced. -/
theorem Passes.host (h : m.Passes m') (hi : m.heap.hasInstance i = true) :
    (m'.heap.instance_ i).host = (m.heap.instance_ i).host := by
  have hkept := h.keeps (P := fun m' => m'.heap.hasInstance i = true ∧
      (m'.heap.instance_ i).host = (m.heap.instance_ i).host)
    (Frame.admits_fact (fun _ _ h => h)
      (fun h hc => ⟨hc.extends.hasInstance h.1, (hc.extends.hostOf i h.1).trans h.2⟩)
      fun _ h _ => h)
    (fun _ _ _ _ h => h) (fun _ h => h) ⟨hi, rfl⟩
  exact hkept.2

end Machine

theorem Machine.instance_addInstance_self (m : Machine) (o : Instance) :
    (m.addInstance o).heap.instance_ m.nextInstance = o := by
  rw [instance_addInstance, if_pos rfl]

namespace Evaluation

variable {c : Context} {n size arity : Nat} {k : ClassId} {args : List Value} {m m' : Machine} {v : Value}

/-- A class without an initializer makes a new instance, around a host object if it makes such. -/
theorem construct_eq_done (h : construct k args m = .done v m') :
    v = .instance_ m.nextInstance ∧ m'.heap.hasInstance m.nextInstance = true ∧
      ((m.heap.nativeConstructor k = none ∧ m'.heap.instance_ m.nextInstance = .plain k) ∨
        ∃ n o, m.heap.nativeConstructor k = some (n, o.type) ∧
          m'.heap.instance_ m.nextInstance = .ofHost k o) := by
  unfold construct at h
  obtain ⟨_, m₁, hdemand, hmake⟩ := Run.bind_eq_done h
  obtain ⟨-, rfl⟩ := Run.demand_eq_done hdemand
  rw [Run.read_bind_apply] at hmake
  cases hnative : m₁.heap.nativeConstructor k with
  | none =>
    rw [hnative] at hmake
    cases hmake
    exact ⟨rfl, m₁.heap.hasInstance_newInstance _, .inl ⟨rfl, m₁.instance_addInstance_self _⟩⟩
  | some nt =>
    obtain ⟨arity, t⟩ := nt
    rw [hnative] at hmake
    obtain ⟨o, m₂, ho, hnew⟩ := Run.bind_eq_done hmake
    have hmade : Run.Evolves (HostType.construct t args) False False _ m₁ :=
      HostType.evolves_construct t args
    obtain ⟨-, -, rfl, cells, -, rfl⟩ := hmade.done ho
    cases hnew
    exact ⟨rfl, m₁.heap.hasInstance_newInstance _,
      .inr ⟨arity, o, rfl, (m₁.withCells cells).instance_addInstance_self (.ofHost k o)⟩⟩

/-- The initializer of a class was bound to a new instance without a host object, and called. -/
def Initializes (c : Context) (n : Nat) (k : ClassId) (args : List Value) (m m' : Machine) : Prop :=
  ∃ f g m₁ w, m.heap.findMethod k initName = some f ∧
    Machine.bindMethod f m.nextInstance m.line (m.addInstance (.plain k)) = .done g m₁ ∧
    call c n (.function g) args m₁ = .done w m'

theorem Initializes.instance_ (h : Initializes c n k args m m') :
    m'.heap.hasInstance m.nextInstance = true ∧ (m'.heap.instance_ m.nextInstance).class_ = k ∧
      (m'.heap.instance_ m.nextInstance).host = none := by
  obtain ⟨f, g, m₁, w, -, hg, hw⟩ := h
  have hbound : Run.Evolves (Machine.bindMethod f m.nextInstance m.line) False False _
    (m.addInstance (.plain k)) := Machine.evolves_bindMethod f m.nextInstance m.line
  have hlater := (hbound.done hg).2.1.extends.trans
    ((evolves_layer False c n (.call (.function g) args) m₁ False.elim).done hw).2.1.extends
  have hthere := m.heap.hasInstance_newInstance (.plain k)
  have hself := m.instance_addInstance_self (.plain k)
  refine ⟨hlater.hasInstance hthere, ?_, ?_⟩
  · exact (hlater.classOf _ hthere).trans (congrArg _ hself)
  · exact (hlater.hostOf _ hthere).trans (congrArg _ hself)

/-- A call of a class runs its initializer, if it has one. -/
theorem call_class_eq_done (h : call c n (.class_ k) args m = .done v m') :
    (m.heap.findMethod k initName = none ∧ construct k args m = .done v m') ∨
      (v = .instance_ m.nextInstance ∧ ∃ n', n = n' + 1 ∧ Initializes c n' k args m m') := by
  cases n with
  | zero => cases h
  | succ n =>
    have hrun : instantiate (layer c n) k args m = .done v m' := h
    unfold instantiate at hrun
    obtain ⟨_, m₁, hdemand, hargs⟩ := Run.bind_eq_done hrun
    obtain ⟨-, rfl⟩ := Run.demand_eq_done hdemand
    rw [Run.read_bind_apply] at hargs
    obtain ⟨_, m₂, harity, hfound⟩ := Run.bind_eq_done hargs
    obtain ⟨-, rfl⟩ := checkArity_eq_done harity
    rw [Run.read_bind_apply] at hfound
    cases hinit : m₂.heap.findMethod k initName with
    | none =>
      rw [hinit] at hfound
      exact .inl ⟨rfl, hfound⟩
    | some f =>
      rw [hinit] at hfound
      obtain ⟨i, m₃, hnew, hbind⟩ := Run.bind_eq_done hfound
      cases hnew
      rw [Run.read_bind_apply] at hbind
      obtain ⟨g, m₄, hg, hcall⟩ := Run.bind_eq_done hbind
      obtain ⟨w, m₅, hw, hend⟩ := Run.bind_eq_done hcall
      cases hend
      exact .inr ⟨rfl, n, rfl, f, g, m₄, w, hinit, hg, hw⟩

/-- A class that makes vectors makes a new instance around a new vector. -/
theorem construct_vector (hnative : m.heap.nativeConstructor k = some (arity, .vector size))
    (h : construct k args m = .done v m') :
    v = .instance_ m.nextInstance ∧
      ∃ u, u.size = size ∧ m'.heap.instance_ m.nextInstance = .ofHost k (.vector u) := by
  obtain ⟨hv, -, ⟨hnone, -⟩ | ⟨n, o, hmakes, hinstance⟩⟩ := construct_eq_done h
  · cases hnative.symm.trans hnone
  · have htype : o.type = .vector size := congrArg (·.2) (Option.some.inj (hmakes.symm.trans hnative))
    cases o with
    | vector u => exact ⟨hv, u, HostType.vector.inj htype, hinstance⟩
    | counter a l e => cases htype
    | byte b => cases htype

theorem call_vector_class (hinit : m.heap.findMethod k initName = none)
    (hnative : m.heap.nativeConstructor k = some (arity, .vector size))
    (h : call c n (.class_ k) args m = .done v m') :
    v = .instance_ m.nextInstance ∧
      ∃ u, u.size = size ∧ m'.heap.instance_ m.nextInstance = .ofHost k (.vector u) := by
  obtain ⟨-, hmake⟩ | ⟨-, n', -, f, -, -, -, hf, -⟩ := call_class_eq_done h
  · exact construct_vector hnative hmake
  · cases hinit.symm.trans hf

end Evaluation

/-- An instance around a vector shows the vector's components, on every machine that a session comes to,
and the vector is the one that the instance was made around, for good. A failed assignment to a field
changes nothing. Unless the host has lent them, two vectors have no cell in common, and an assignment to
a field of one is not seen through any other instance. -/
theorem vectors_stay_wired {s : Session} {held : List Value} {lent : List InstanceId}
    (hs : s.Hosted held lent) :
    (∀ m, s.Occurs held m → ∀ i v, (m.heap.instance_ i).host = some (.vector v) →
      (∀ axis x, axis < v.size → HostVector.axes[axis]? = some x → m.ShowsAxis i v axis x) ∧
      (∀ x w line err m', Machine.setField i x w line m = .fail err m' → m' = m) ∧
      ∀ j, i ≠ j → i ∉ lent → j ∉ lent →
        (∀ u, (m.heap.instance_ j).host = some (.vector u) → ∀ n ∈ v.components, n ∉ u.components) ∧
        ∀ x w line m', Machine.setField i x w line m = .done () m' →
          ∀ y, (m'.heap.instance_ j).field? m'.store.cells y =
            (m.heap.instance_ j).field? m.store.cells y) ∧
    (∀ i, s.machine.heap.hasInstance i = true → ∀ s' held' lent',
      Session.Onward s held lent s' held' lent' → ∀ m, s'.Occurs held' m →
        (m.heap.instance_ i).host = (s.machine.heap.instance_ i).host ∧
          ∀ m', m.Passes m' → (m'.heap.instance_ i).host = (m.heap.instance_ i).host) ∧
    (∀ m k arity size, m.heap.findMethod k initName = none →
      m.heap.nativeConstructor k = some (arity, .vector size) →
      ∀ c n args r m', Evaluation.call c n (.class_ k) args m = .done r m' →
        r = .instance_ m.nextInstance ∧
          ∃ v, v.size = size ∧ m'.heap.instance_ m.nextInstance = .ofHost k (.vector v)) ∧
    ∀ m v r m', Machine.wrap (.vector v) m = .done r m' →
      r = .instance_ m.nextInstance ∧ (m'.heap.instance_ m.nextInstance).host = some (.vector v) := by
  refine ⟨fun m hm i v hv => ?_, fun i hi s' held' lent' honward m hm => ?_, ?_, ?_⟩
  · have hwired : m.Wired lent := (Machine.Wired.admits lent).leads hm.leads hs.wired
    refine ⟨fun axis x hlt hx => hwired.showsAxis hv hlt hx,
      fun x w line err m' => Machine.setField_failed, fun j hij hi hj => ⟨?_, ?_⟩⟩
    · exact fun u hu n hn hn' => hwired.apart hij hi hj hv hu hn hn'
    · exact fun x w line m' hset y => hwired.field?_setField hij hi hj hv hset y
  · have hext := honward.extends.trans hm.leads.extends
    exact ⟨hext.hostOf i hi, fun m' hm' => hm'.host (hext.hasInstance hi)⟩
  · exact fun m k arity size hinit hnative c n args r m' h =>
      Evaluation.call_vector_class hinit hnative h
  · intro m v r m' h
    rw [Machine.wrap_apply] at h
    split at h
    · rename_i k _
      cases h
      exact ⟨rfl, congrArg (·.host) (m.instance_addInstance_self (.ofHost k (.vector v)))⟩
    · cases h

/-- A vector of a script's own class, and a sum that is written to. -/
def sumScript : Source :=
  ⟨"sum", "class P < vec2 \x7b \x7d var a = P(1.0, 2.0); var b = a.add(a); b.x = 9.0;"⟩

theorem vectors_stay_wired_sumScript :
    ∃ s : Session, s.Hosted [] [] ∧
      (s.machine.heap.instance_ ⟨0⟩).host = some (.vector ⟨[0, 1]⟩) ∧
      (s.machine.heap.instance_ ⟨1⟩).host = some (.vector ⟨[2, 3]⟩) ∧
      s.machine.store.cells.floats = #[1, 2, 9, 4] ∧
      s.machine.ShowsAxis ⟨1⟩ ⟨[2, 3]⟩ 1 "y" ∧
      ∀ x w line m', Machine.setField ⟨1⟩ x w line s.machine = .done () m' →
        ∀ y, (m'.heap.instance_ ⟨0⟩).field? m'.store.cells y =
          (s.machine.heap.instance_ ⟨0⟩).field? s.machine.store.cells y := by
  have hrun : ((Session.new 8 (.ofInput [])).run 40 sumScript).any (fun r =>
      (r.2.machine.heap.instance_ ⟨0⟩).host = some (.vector ⟨[0, 1]⟩) &&
      (r.2.machine.heap.instance_ ⟨1⟩).host = some (.vector ⟨[2, 3]⟩) &&
      r.2.machine.store.cells.floats = #[1, 2, 9, 4]) = true := by decide +kernel
  obtain ⟨⟨r, s⟩, hs, hvectors⟩ := (Option.any_eq_true _ _).mp hrun
  simp only [Bool.and_eq_true, decide_eq_true_eq] at hvectors
  obtain ⟨⟨ha, hb⟩, hcells⟩ := hvectors
  have hhosted : s.Hosted [] [] := ⟨8, .ofInput [], .ran .here hs⟩
  obtain ⟨hshows, -, hapart⟩ := (vectors_stay_wired hhosted).1 s.machine .rest ⟨1⟩ ⟨[2, 3]⟩ hb
  refine ⟨s, hhosted, ha, hb, hcells, hshows 1 "y" (by decide) rfl, ?_⟩
  exact (hapart ⟨0⟩ (by decide) List.not_mem_nil List.not_mem_nil).2

end HostScript
