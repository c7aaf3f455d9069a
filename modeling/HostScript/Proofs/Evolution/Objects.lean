import HostScript.Proofs.Evolution
import HostScript.Proofs.Stored

/-!
# How objects evolve

Computations that rest on no layer make the changes listed in `Machine.Change` and no others: looking
names up, assigning, properties and methods, functions and methods of the host, making instances.
-/

namespace HostScript

variable {own declares : Prop} {m : Machine}

theorem Evaluation.isBound_literal (l : Literal) : (Evaluation.literal l).isBound = false := by
  cases l <;> rfl

/-- A write is planned for the place itself only if the place holds an owning value. -/
theorem Cells.isBound_of_plan {s : Cells} {slot v w : Value} (h : s.plan slot v = .ok (.slot w)) :
    slot.isBound = false ∧ w.isBound = false := by
  refine ⟨?_, Cells.eq_detach_of_plan h ▸ Value.isBound_detach s v⟩
  cases slot with
  | bound c =>
    unfold plan at h
    dsimp only at h
    split at h <;> cases h
  | _ => rfl

/-! ### Names -/

theorem Evaluation.evolves_lookUp (c : Context) (id : Nat) (x : String) (line : Nat) :
    (lookUp c id x line).Evolves own declares (fun v _ => v.isBound = false) m := by
  refine ⟨rfl, ?_⟩
  unfold Run.wp lookUp
  dsimp only
  split
  · next v _ => exact ⟨trivial, .refl, Value.isBound_detach _ v⟩
  · exact ⟨trivial, .refl⟩

theorem Machine.evolves_assignIn (place : Option ScopeId) (x : String) (v : Value) (line : Nat) :
    (assignIn place x v line).Evolves own declares (fun _ _ => True) m := by
  refine ⟨rfl, ?_⟩
  unfold Run.wp assignIn Store.plan
  cases place with
  | none => exact ⟨trivial, .refl⟩
  | some e =>
    dsimp only
    cases hs : m.store.own? e x with
    | none => exact ⟨trivial, .refl⟩
    | some slot =>
      dsimp only
      cases hp : m.store.cells.plan slot v with
      | error err => exact ⟨trivial, .refl⟩
      | ok w =>
        cases w with
        | slot w =>
          obtain ⟨hslot, hw⟩ := Cells.isBound_of_plan hp
          exact ⟨trivial, .of_change (.assign hs hslot hw), trivial⟩
        | cell a w => exact ⟨trivial, .of_change (.putCell a w), trivial⟩

theorem Evaluation.evolves_declare {x : String} {v : Value} (hd : declares)
    (hv : v.isBound = false) :
    (declare x v).Evolves own declares (fun _ m' => m' = m.bind m.env x v) m :=
  .change (.declare hd hv) rfl

/-! ### Methods and properties -/

namespace Machine

theorem evolves_bindMethod (f : CallableId) (i : InstanceId) (line : Nat) :
    (bindMethod f i line).Evolves own declares (m.Binds f i) m := by
  refine .demand_bind fun hf => .read_bind ?_
  cases hc : m.heap.callable f with
  | native x n g => exact .fail trivial
  | script d closure isInit =>
    exact ⟨rfl, trivial, .of_change (.bindMethod (.script hf hc)), .script hf hc⟩
  | method x receiver => exact ⟨rfl, trivial, .of_change (.bindMethod (.host hf hc)), .host hf hc⟩

theorem evolves_bindFound (k : ClassId) (x : String) (i : InstanceId) (line : Nat) :
    (bindFound k x i line).Evolves own declares
      (fun g m' => m.heap.hasClass k = true ∧
        ∃ f, m.heap.findMethod k x = some f ∧ m.Binds f i g m') m := by
  refine .demand_bind fun hk => .read_bind ?_
  cases hf : m.heap.findMethod k x with
  | none => exact .fail trivial
  | some f => exact (evolves_bindMethod f i line).mono fun g m' _ _ h => ⟨hk, f, rfl, h⟩

theorem evolves_getProperty (i : InstanceId) (x : String) (line : Nat) :
    (getProperty i x line).Evolves own declares (fun v _ => v.isBound = false) m := by
  refine .demand_bind fun _ => .read_bind ?_
  cases hv : (m.heap.instance_ i).field? m.store.cells x with
  | some v =>
    obtain ⟨w, -, rfl⟩ := Option.map_eq_some_iff.mp hv
    exact .pure trivial (Value.isBound_detach _ w)
  | none =>
    refine .read_bind ?_
    cases hb : (m.heap.instance_ i).bound.get? x with
    | some f => exact .pure trivial rfl
    | none =>
      -- Binding a method and remembering it are one change, so the two steps are taken together.
      have hbound := @evolves_bindFound own declares m (m.heap.instance_ i).class_ x i line
      refine .read_bind ⟨rfl, (Run.wp_bind _ _ _).mpr (Run.wp_mono hbound.2 ?_ (fun _ _ h => h) id)⟩
      rintro g m₁ ⟨-, -, hk, f, hf, hbinds⟩
      exact ⟨trivial, .of_change (.remember hb hk hf hbinds), rfl⟩

theorem evolves_setField (i : InstanceId) (x : String) (v : Value) (line : Nat) :
    (setField i x v line).Evolves own declares (fun _ _ => True) m := by
  refine .demand_bind fun _ => ⟨rfl, ?_⟩
  unfold Run.wp writeField
  cases hs : (m.heap.instance_ i).fields.get? x with
  | none =>
    refine ⟨trivial, .of_change (.putField (fun w hw => ?_) (Value.isBound_detach _ v)), trivial⟩
    cases hs.symm.trans hw
  | some slot =>
    dsimp only
    cases hp : m.store.cells.plan slot v with
    | error err => exact ⟨trivial, .refl⟩
    | ok w =>
      cases w with
      | slot w =>
        obtain ⟨hslot, hw⟩ := Cells.isBound_of_plan hp
        refine ⟨trivial, .of_change (.putField (fun w' hw' => ?_) hw), trivial⟩
        cases hs.symm.trans hw'
        exact hslot
      | cell a w => exact ⟨trivial, .of_change (.putCell a w), trivial⟩

end Machine

/-! ### The superclass -/

namespace Evaluation

theorem still_superclass {F : Frame} (hi : F.inv m) (d line : Nat) :
    F.Keeps (superclass d line) (superclass d line) (fun _ m' => m' = m ∧ True) m :=
  .read_bind ((Frame.Keeps.ofOption hi fun _ _ => trivial).bind_still fun _ _ =>
    .ofExcept hi fun _ _ => trivial)

theorem still_receiver {F : Frame} (hi : F.inv m) (d line : Nat) :
    F.Keeps (receiver d line) (receiver d line) (fun _ m' => m' = m ∧ True) m :=
  .read_bind ((Frame.Keeps.ofOption hi fun _ _ => trivial).bind_still fun _ _ =>
    .ofExcept hi fun _ _ => trivial)

theorem evolves_superMethod (c : Context) (id : Nat) (x : String) (line : Nat) :
    (superMethod c id x line).Evolves own declares (fun v _ => v.isBound = false) m := by
  unfold superMethod
  cases c.locals id with
  | none => exact .fail trivial
  | some d =>
    refine (still_superclass trivial d line).bind_still fun k _ => ?_
    refine (still_receiver trivial d line).bind_still fun i _ => ?_
    exact (Machine.evolves_bindFound k x i line).bind fun _ _ _ _ _ => .pure trivial rfl

end Evaluation

/-! ### Objects of the host -/

theorem Machine.wrap_apply (o : HostObject) (m : Machine) :
    wrap o m = match m.hostClasses.lookup o.type with
      | some k => .done (.instance_ m.nextInstance) (m.addInstance (.ofHost k o))
      | none => .fail (.type m.line (.unregistered o.type)) m := by
  unfold wrap
  rw [Run.bind_apply]
  dsimp only [Run.read]
  cases m.hostClasses.lookup o.type <;> rfl

namespace HostMethod

/-- A new vector is wrapped, or left alone if no class is registered for it. -/
theorem wrapVector_apply (xs : List Float32) (m : Machine) :
    wrapVector xs m = Machine.wrap (.vector (HostVector.ofValues m.store.cells xs).1)
      (m.withCells (HostVector.ofValues m.store.cells xs).2) := rfl

theorem evolves_floatArg (v : Value) :
    (floatArg v).Evolves own declares (fun _ m' => m' = m ∧ True) m :=
  .read_bind (.here trivial)

theorem evolves_intArg (v : Value) :
    (intArg v).Evolves own declares (fun _ m' => m' = m ∧ True) m :=
  .read_bind (.here trivial)

theorem evolves_floatArgs (vs : List Value) :
    (floatArgs vs).Evolves own declares (fun xs m' => m' = m ∧ xs.length = vs.length) m := by
  induction vs with
  | nil => exact .pure trivial ⟨rfl, rfl⟩
  | cons v vs ih =>
    refine (evolves_floatArg v).bind_still fun x _ => ih.bind_still fun xs hlen => ?_
    exact .pure trivial ⟨rfl, congrArg (· + 1) hlen⟩

theorem evolves_vectorArg (n : Nat) (v : Value) :
    (vectorArg n v).Evolves own declares (fun _ m' => m' = m ∧ True) m := by
  refine .demand_bind fun _ => .read_bind ?_
  split
  · split
    · exact .read trivial ⟨rfl, trivial⟩
    · exact .failHere trivial
  · exact .failHere trivial

theorem evolves_arg (args : List Value) (i : Nat) :
    (Run.present args[i]?).Evolves own declares (fun _ m' => m' = m ∧ True) m :=
  .present trivial (.inl trivial) fun _ _ => trivial

theorem evolves_wrapVector (xs : List Float32) :
    (wrapVector xs).Evolves own declares (fun _ _ => True) m := by
  refine ⟨rfl, ?_⟩
  unfold Run.wp
  rw [wrapVector_apply, Machine.wrap_apply]
  split
  · exact ⟨trivial, .of_change (.addHost (.vector xs) (.inl ‹_›)), trivial⟩
  · exact ⟨trivial, .of_change (.makeHost (.vector xs))⟩

theorem evolves_runVector (n : Nat) (f : VectorMethod) (w : HostVector) (arg : Value) :
    (runVector n f w arg).Evolves own declares (fun _ _ => True) m := by
  refine .read_bind ?_
  cases f with
  | add | sub => exact (evolves_vectorArg n arg).bind_still fun _ _ => evolves_wrapVector _
  | scale | div => exact (evolves_floatArg arg).bind_still fun _ _ => evolves_wrapVector _
  | dot => exact (evolves_vectorArg n arg).bind_still fun _ _ => .pure trivial trivial

theorem evolves_runCounter {f : CounterMethod} {count label enabled : Nat} {i : InstanceId}
    (hi : (m.heap.instance_ i).host = some (.counter count label enabled)) (args : List Value) :
    (runCounter f count label enabled args).Evolves own declares (fun _ _ => True) m := by
  refine .read_bind ?_
  cases f with
  | bump =>
    refine (evolves_arg args 0).bind_still fun v _ => (evolves_intArg v).bind_still fun n _ => ?_
    exact Run.Evolves.change_bind (.putCell (.int count) _) (.pure trivial trivial)
  | describe => exact .pure trivial trivial
  | twin =>
    refine ⟨rfl, ?_⟩
    unfold Run.wp
    dsimp only
    rw [Machine.wrap_apply]
    split
    · exact ⟨trivial, .of_change (.shareHost hi (.inl ‹_›)), trivial⟩
    · exact ⟨trivial, .refl⟩

theorem evolves_run (f : HostMethod) (receiver : Option InstanceId) (args : List Value) :
    (f.run receiver args).Evolves own declares (fun _ _ => True) m := by
  refine .demand_bind fun _ => .read_bind ?_
  cases hhost : receiver.bind fun i => (m.heap.instance_ i).host with
  | none => exact .failHere trivial
  | some o =>
    obtain ⟨i, -, hi⟩ := Option.bind_eq_some_iff.mp hhost
    dsimp only
    split
    · split
      · exact (evolves_arg args 0).bind_still fun v _ => evolves_runVector _ _ _ v
      · exact .failHere trivial
    · exact evolves_runCounter hi args
    · exact .failHere trivial

end HostMethod

/-- A host object that is made is of the type asked for, in cells of its own. -/
theorem HostType.evolves_construct (t : HostType) (args : List Value) :
    (t.construct args).Evolves own declares
      (fun o m' => o.type = t ∧ ∃ cells, m.store.cells.Makes o cells ∧ m' = m.withCells cells) m := by
  cases t with
  | vector n =>
    refine (HostMethod.evolves_floatArgs (args.take n)).bind_still fun xs hlen => ?_
    have hsize : (xs ++ List.replicate (n - xs.length) 0).length = n := by
      rw [List.length_take] at hlen
      rw [List.length_append, List.length_replicate]
      omega
    refine ⟨rfl, trivial, .of_change (.makeHost (.vector _)), ?_, _, .vector _, rfl⟩
    exact congrArg HostType.vector ((HostVector.size_ofValues m.store.cells _).trans hsize)
  | counter =>
    refine (HostMethod.evolves_arg args 0).bind_still fun v _ => ?_
    refine (HostMethod.evolves_intArg v).bind_still fun n _ => ?_
    exact ⟨rfl, trivial, .of_change (.makeHost (.counter n)), rfl, _, .counter n, rfl⟩
  | byte => exact .pure trivial ⟨rfl, _, .byte, rfl⟩

theorem Evaluation.evolves_construct (k : ClassId) (args : List Value) :
    (construct k args).Evolves own declares (fun _ _ => True) m := by
  refine .demand_bind fun _ => .read_bind ?_
  cases hn : m.heap.nativeConstructor k with
  | none => exact ⟨rfl, trivial, .of_change (.addInstance k), trivial⟩
  | some nt =>
    obtain ⟨n, t⟩ := nt
    -- The host object and the instance around it are one change, so the two steps are taken together.
    have hmade := @HostType.evolves_construct own declares m t args
    refine ⟨rfl, (Run.wp_bind _ _ _).mpr (Run.wp_mono hmade.2 ?_ ?_ id)⟩
    · rintro o m' ⟨-, -, rfl, cells, hmakes, rfl⟩
      exact ⟨trivial, .of_change (.addHost hmakes (.inr ⟨n, hn⟩)), trivial⟩
    · rintro e m' h
      exact h

/-! ### Functions of the host -/

namespace Builtin

theorem evolves_text (v : Value) : (text v).Evolves own declares (fun _ m' => m' = m ∧ True) m :=
  .demand_bind fun _ => .read trivial ⟨rfl, trivial⟩

theorem evolves_convert {α : Type} (target : Kind) (f : Value → Option α) (v : Value) :
    (convert target f v).Evolves own declares (fun _ m' => m' = m ∧ True) m := by
  refine .read_bind ?_
  split
  · exact .pure trivial ⟨rfl, trivial⟩
  · exact .failHere trivial

theorem evolves_readLine : readLine.Evolves own declares (fun _ _ => True) m := by
  refine ⟨rfl, ?_⟩
  unfold Run.wp readLine
  split
  · exact ⟨trivial, .of_change (.read ‹_›), trivial⟩
  · exact ⟨trivial, .of_change (.read ‹_›), trivial⟩
  · exact ⟨trivial, .refl⟩

section
variable {call : Value → List Value → Run Value} {args : List Value}

theorem evolves_callFromHost
    (hcall : ∀ f args m, (own → ∀ v ∈ args, v.isBound = false) →
      (call f args).Evolves own declares (fun _ _ => True) m)
    (hargs : own → ∀ v ∈ args, v.isBound = false) (f : Value) :
    (callFromHost call f args).Evolves own declares (fun _ _ => True) m :=
  .change_bind (.line 0) (.read_bind (hcall _ args _ hargs))

theorem evolves_run
    (hcall : ∀ f args m, (own → ∀ v ∈ args, v.isBound = false) →
      (call f args).Evolves own declares (fun _ _ => True) m)
    (hargs : own → ∀ v ∈ args, v.isBound = false) (g : Builtin) :
    (g.run call args).Evolves own declares (fun _ _ => True) m := by
  cases g with
  | int | float =>
    refine (HostMethod.evolves_arg args 0).bind_still fun v _ => ?_
    exact (evolves_convert _ _ v).bind_still fun _ _ => .pure trivial trivial
  | string =>
    refine (HostMethod.evolves_arg args 0).bind_still fun v _ => ?_
    exact (evolves_text v).bind_still fun _ _ => .pure trivial trivial
  | bool => exact (HostMethod.evolves_arg args 0).bind_still fun v _ => .read trivial trivial
  | input => exact evolves_readLine
  | apply =>
    refine (HostMethod.evolves_arg args 0).bind_still fun f _ => ?_
    refine (Frame.Keeps.present trivial (.inl trivial) fun v hv => hv).bind_still fun v hv => ?_
    refine evolves_callFromHost hcall (fun ho w hw => ?_) f
    cases List.mem_singleton.mp hw
    exact hargs ho _ (List.mem_of_getElem? hv)

end

end Builtin

/-! ### Classes -/

namespace Evaluation

theorem evolves_newScriptClass (x : String) (parent : Option ClassId) (ms : List FunctionDecl) :
    (newScriptClass x parent ms).Evolves own declares (fun _ _ => True) m := by
  obtain ⟨table, ht, hrun⟩ := Machine.newScriptClass_apply x parent ms m
  refine ⟨rfl, ?_⟩
  unfold Run.wp
  rw [hrun]
  exact ⟨trivial, .of_change (.addClass ht), trivial⟩

theorem evolves_printLine (t : String) :
    (printLine t).Evolves own declares (fun _ _ => True) m := by
  refine ⟨rfl, ?_⟩
  unfold Run.wp printLine
  split
  · exact ⟨trivial, .of_change (.print ‹_›), trivial⟩
  · exact ⟨trivial, .refl⟩

end Evaluation

end HostScript
