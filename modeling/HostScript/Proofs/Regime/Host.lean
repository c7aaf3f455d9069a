import HostScript.Proofs.Regime.Objects
import HostScript.Proofs.Stored

/-!
# The host under a regime

Functions and methods of the host keep to a regime. They are given as many arguments as they read,
unless crashes are not ruled out; `apply`, which calls back into scripts, does so on the layer that it
is given.
-/

namespace HostScript

theorem HostObject.plain_of_mem_fields {o : HostObject} {x : String} {v : Value}
    (h : (x, v) ∈ o.fields) : v.plain = true := by
  cases o with
  | vector w =>
    obtain ⟨i, -, rfl⟩ := List.mem_map.mp (List.of_mem_zip h).2
    rfl
  | counter c l e =>
    rcases List.mem_cons.mp h with h | h
    · cases h; rfl
    rcases List.mem_cons.mp h with h | h
    · cases h; rfl
    · cases List.mem_singleton.mp h; rfl
  | byte n => cases h

theorem Instance.fresh_plain (k : ClassId) : (Instance.plain k).Fresh :=
  ⟨fun _ _ => nofun, rfl⟩

theorem Instance.fresh_ofHost (k : ClassId) (o : HostObject) : (Instance.ofHost k o).Fresh :=
  ⟨fun _ _ h => HostObject.plain_of_mem_fields (Bindings.mem_of_get?_ofList h), rfl⟩

/-- A new instance is offered the initializer of its class. -/
theorem Machine.offers_init {k : ClassId} {f : CallableId} (m : Machine)
    (hf : m.heap.findMethod k initName = some f) :
    (m.addInstance (.plain k)).Offers f m.nextInstance := by
  have hclass : ((m.addInstance (.plain k)).heap.instance_ m.nextInstance).class_ = k := by
    rw [addInstance, Heap.instance_newInstance]
    exact congrArg Instance.class_ (if_pos rfl)
  refine .own (x := initName) ?_
  rw [hclass, ← hf]
  exact Heap.search_congr fun _ _ => rfl

namespace Regime

variable {c : Context} {R : Regime c} {m : Machine}

/-! ### Arguments -/

theorem keeps_newInstance {o : Instance} (hi : R.inv m) (hk : R.ok m (.class_ o.class_))
    (ho : o.Fresh) (hcreates : m.Creates o) :
    R.Keeps (Machine.newInstance o) (Machine.newInstance o) (fun i m' => R.ok m' (.instance_ i))
      m := by
  obtain ⟨hi', hle, hok⟩ := R.newInstance hi hk ho hcreates
  exact ⟨rfl, hi', hle, hok⟩

/-- An argument that is there. -/
theorem keeps_arg {args : List Value} {i : Nat} (hi : R.inv m) (hargs : ∀ v ∈ args, R.ok m v)
    (hlen : R.crash ∨ i < args.length) :
    R.Keeps (Run.present args[i]?) (Run.present args[i]?) (fun v m' => m' = m ∧ R.ok m v) m := by
  refine .present hi (hlen.imp_right fun h => ?_) fun v hv => ?_
  · rw [List.getElem?_eq_getElem h]
    rfl
  · exact hargs v (List.mem_of_getElem? hv)

theorem keeps_floatArg (v : Value) (hi : R.inv m) :
    R.Keeps (HostMethod.floatArg v) (HostMethod.floatArg v) (fun _ m' => m' = m ∧ True) m :=
  .read_bind (.here hi)

theorem keeps_intArg (v : Value) (hi : R.inv m) :
    R.Keeps (HostMethod.intArg v) (HostMethod.intArg v) (fun _ m' => m' = m ∧ True) m :=
  .read_bind (.here hi)

theorem keeps_floatArgs (vs : List Value) (hi : R.inv m) :
    R.Keeps (HostMethod.floatArgs vs) (HostMethod.floatArgs vs)
      (fun xs m' => m' = m ∧ xs.length = vs.length) m := by
  induction vs with
  | nil => exact .pure hi ⟨rfl, rfl⟩
  | cons v vs ih =>
    refine (R.keeps_floatArg v hi).bind_still fun x _ => ih.bind_still fun xs hlen => ?_
    exact .pure hi ⟨rfl, congrArg (· + 1) hlen⟩

theorem keeps_vectorArg {n : Nat} {v : Value} (hi : R.inv m) (hv : R.ok m v) :
    R.Keeps (HostMethod.vectorArg n v) (HostMethod.vectorArg n v) (fun _ m' => m' = m ∧ True) m := by
  unfold HostMethod.vectorArg
  have hhost : R.crash ∨ m.heap.hasHost v = true := by
    cases v with
    | instance_ i => exact R.has_instance hi hv
    | _ => exact .inr rfl
  refine .demand_bind hi hhost (.read_bind ?_)
  split
  · split
    · exact .read hi ⟨rfl, trivial⟩
    · exact .failHere hi
  · exact .failHere hi

/-! ### Objects of the host -/

theorem keeps_wrap (o : HostObject) (hi : R.inv m) :
    R.Keeps (Machine.wrap o) (Machine.wrap o) (fun v m' => R.ok m' v) m := by
  unfold Machine.wrap
  refine .read_bind ?_
  cases hk : m.hostClasses.lookup o.type with
  | none => exact .failHere hi
  | some k =>
    have hnew := R.keeps_newInstance hi (R.ok_hostClass hi hk) (Instance.fresh_ofHost k o)
      (.host (.inl hk))
    refine hnew.bind ?_
    exact fun i m' hi' _ hok => .pure hi' hok

theorem keeps_newVector (xs : List Float32) (hi : R.inv m) :
    R.Keeps (Machine.newVector xs) (Machine.newVector xs)
      (fun v m' => v.size = xs.length ∧ m'.heap = m.heap) m := by
  obtain ⟨hi', hle⟩ := R.cells hi (HostVector.ofValues m.store.cells xs).2
  exact ⟨rfl, hi', hle, HostVector.size_ofValues _ _, rfl⟩

theorem keeps_newCounter (n : Int32) (hi : R.inv m) :
    R.Keeps (Machine.newCounter n) (Machine.newCounter n)
      (fun o m' => o.type = .counter ∧ m'.heap = m.heap) m := by
  obtain ⟨hi', hle⟩ := R.cells hi _
  exact ⟨rfl, hi', hle, rfl, rfl⟩

theorem keeps_wrapVector (xs : List Float32) (hi : R.inv m) :
    R.Keeps (HostMethod.wrapVector xs) (HostMethod.wrapVector xs) (fun v m' => R.ok m' v) m :=
  (R.keeps_newVector xs hi).bind fun _ _ hi' _ _ => R.keeps_wrap _ hi'

theorem keeps_runVector {n : Nat} {f : VectorMethod} {w : HostVector} {arg : Value} (hi : R.inv m)
    (harg : R.ok m arg) :
    R.Keeps (HostMethod.runVector n f w arg) (HostMethod.runVector n f w arg)
      (fun v m' => R.ok m' v) m := by
  unfold HostMethod.runVector
  refine .read_bind ?_
  cases f with
  | add | sub => exact (R.keeps_vectorArg hi harg).bind_still fun _ _ => R.keeps_wrapVector _ hi
  | scale | div => exact (R.keeps_floatArg arg hi).bind_still fun _ _ => R.keeps_wrapVector _ hi
  | dot => exact (R.keeps_vectorArg hi harg).bind_still fun _ _ => .pure hi (R.ok_plain rfl)

theorem keeps_runCounter {f : CounterMethod} {count label enabled : Nat} {args : List Value}
    (hi : R.inv m) (hargs : ∀ v ∈ args, R.ok m v)
    (hlen : R.crash ∨ args.length = (HostMethod.counter f).arity) :
    R.Keeps (HostMethod.runCounter f count label enabled args)
      (HostMethod.runCounter f count label enabled args) (fun v m' => R.ok m' v) m := by
  unfold HostMethod.runCounter
  refine .read_bind ?_
  cases f with
  | bump =>
    refine (R.keeps_arg hi hargs (hlen.imp_right fun h => h ▸ Nat.one_pos)).bind_still fun v _ => ?_
    refine (R.keeps_intArg v hi).bind_still fun n _ => ?_
    obtain ⟨hi', hle⟩ := R.cells hi _
    exact .update_bind hi' hle (.pure hi' (R.ok_plain rfl))
  | describe => exact .pure hi (R.ok_plain rfl)
  | twin => exact R.keeps_wrap _ hi

theorem keeps_hostMethod {f : HostMethod} {receiver : Option InstanceId} {args : List Value}
    (hi : R.inv m) (hrc : ∀ i, receiver = some i → R.ok m (.instance_ i))
    (hargs : ∀ v ∈ args, R.ok m v) (hlen : args.length = f.arity) :
    R.Keeps (f.run receiver args) (f.run receiver args) (fun v m' => R.ok m' v) m := by
  unfold HostMethod.run
  have hthere : R.crash ∨ receiver.all m.heap.hasInstance = true := by
    cases receiver with
    | none => exact .inr rfl
    | some i => exact R.has_instance hi (hrc i rfl)
  refine .demand_bind hi hthere (.read_bind ?_)
  split
  · exact .failHere hi
  · split
    · split
      · refine (R.keeps_arg hi hargs (.inr (hlen ▸ Nat.one_pos))).bind_still fun v hv => ?_
        exact R.keeps_runVector hi hv
      · exact .failHere hi
    · exact R.keeps_runCounter hi hargs (.inr hlen)
    · exact .failHere hi

/-- A host object that is made is of the type asked for, and nothing else is made. -/
theorem keeps_hostConstruct {t : HostType} {args : List Value} (hi : R.inv m)
    (hargs : ∀ v ∈ args, R.ok m v) (hlen : R.crash ∨ args.length = t.arity) :
    R.Keeps (t.construct args) (t.construct args) (fun o m' => o.type = t ∧ m'.heap = m.heap)
      m := by
  unfold HostType.construct
  cases t with
  | vector n =>
    refine (R.keeps_floatArgs _ hi).bind_still fun xs hxs => ?_
    refine (R.keeps_newVector _ hi).bind fun v m' hi' _ ⟨hsize, hheap⟩ => .pure hi' ⟨?_, hheap⟩
    have hn : v.size = n := by
      rw [hsize, List.length_append, List.length_replicate]
      rw [List.length_take] at hxs
      omega
    exact congrArg HostType.vector hn
  | counter =>
    refine (R.keeps_arg hi hargs (hlen.imp_right fun h => h ▸ Nat.one_pos)).bind_still fun v _ => ?_
    exact (R.keeps_intArg v hi).bind_still fun n _ => R.keeps_newCounter n hi
  | byte => exact .pure hi ⟨rfl, rfl⟩

/-! ### Functions of the host -/

theorem keeps_text {v : Value} (hi : R.inv m) (hv : R.ok m v) :
    R.Keeps (Builtin.text v) (Builtin.text v) (fun _ m' => m' = m ∧ True) m := by
  have hthere : R.crash ∨ v.displayable m.heap = true := by
    cases v with
    | class_ k => exact R.has_class hi hv
    | function f => exact R.has_callable hi hv
    | instance_ i =>
      rcases R.has_instance hi hv with hc | hn
      · exact .inl hc
      · refine (R.has_class hi (R.ok_class hi hv)).imp_right fun hk => ?_
        exact Bool.and_eq_true_iff.mpr ⟨hn, hk⟩
    | _ => exact .inr rfl
  exact .demand_bind hi hthere (.read hi ⟨rfl, trivial⟩)

theorem keeps_convert {α : Type} (target : Kind) (f : Value → Option α) (v : Value) (hi : R.inv m) :
    R.Keeps (Builtin.convert target f v) (Builtin.convert target f v) (fun _ m' => m' = m ∧ True)
      m := by
  unfold Builtin.convert
  refine .read_bind ?_
  split
  · exact .pure hi ⟨rfl, trivial⟩
  · exact .failHere hi

theorem keeps_readLine (hi : R.inv m) :
    R.Keeps Builtin.readLine Builtin.readLine (fun v m' => R.ok m' v) m := by
  refine ⟨rfl, ?_⟩
  unfold Run.wp Builtin.readLine
  split
  · obtain ⟨hi', hle⟩ := R.console hi ‹_›
    exact ⟨hi', hle, R.ok_plain rfl⟩
  · obtain ⟨hi', hle⟩ := R.console hi ‹_›
    exact ⟨hi', hle, R.ok_plain rfl⟩
  · exact ⟨hi, R.le_refl m⟩

theorem keeps_callFromHost {call call' : Value → List Value → Run Value} {f : Value}
    {args : List Value} (hi : R.inv m) (hf : R.ok m f) (hargs : ∀ v ∈ args, R.ok m v)
    (hcall : ∀ f args m, R.inv m → R.ok m f → (∀ v ∈ args, R.ok m v) →
      R.Keeps (call f args) (call' f args) (fun v m' => R.ok m' v) m) :
    R.Keeps (Builtin.callFromHost call f args) (Builtin.callFromHost call' f args)
      (fun v m' => R.ok m' v) m := by
  obtain ⟨hi', hle⟩ := R.line hi 0
  refine .update_bind hi' hle (.read_bind ?_)
  exact hcall _ _ _ hi' (R.ok_detach _ (R.ok_le hle hf)) fun v hv => R.ok_le hle (hargs v hv)

theorem keeps_builtin {call call' : Value → List Value → Run Value} {g : Builtin}
    {args : List Value} (hi : R.inv m) (hargs : ∀ v ∈ args, R.ok m v)
    (hlen : R.crash ∨ args.length = g.arity)
    (hcall : ∀ f args m, R.inv m → R.ok m f → (∀ v ∈ args, R.ok m v) →
      R.Keeps (call f args) (call' f args) (fun v m' => R.ok m' v) m) :
    R.Keeps (g.run call args) (g.run call' args) (fun v m' => R.ok m' v) m := by
  have hat : ∀ i < g.arity, R.crash ∨ i < args.length := fun i h =>
    hlen.imp_right (Nat.lt_of_lt_of_eq h ·.symm)
  unfold Builtin.run
  cases g with
  | int | float =>
    refine (R.keeps_arg hi hargs (hat 0 (by decide))).bind_still fun v _ => ?_
    exact (R.keeps_convert _ _ v hi).bind_still fun _ _ => .pure hi (R.ok_plain rfl)
  | string =>
    refine (R.keeps_arg hi hargs (hat 0 (by decide))).bind_still fun v hv => ?_
    exact (R.keeps_text hi hv).bind_still fun _ _ => .pure hi (R.ok_plain rfl)
  | bool =>
    refine (R.keeps_arg hi hargs (hat 0 (by decide))).bind_still fun v _ => ?_
    exact .read hi (R.ok_plain rfl)
  | input => exact R.keeps_readLine hi
  | apply =>
    refine (R.keeps_arg hi hargs (hat 0 (by decide))).bind_still fun f hf => ?_
    refine (R.keeps_arg hi hargs (hat 1 (by decide))).bind_still fun v hv => ?_
    refine R.keeps_callFromHost hi hf (fun w hw => ?_) hcall
    exact List.mem_singleton.mp hw ▸ hv

end Regime

end HostScript
