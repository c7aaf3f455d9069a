import HostScript.Proofs.Hygiene

/-!
# What evaluation never takes back

Classes and callables are put behind those that are there and are not written to afterwards. An instance
stays of its class and around its host object, it gets fields and loses none, and what it remembers it
remembers for good. What was printed stays printed. The places of resolved names are none of evaluation's
business: a session learns them before the first statement of a program runs, and then only.
-/

namespace HostScript

/-- What is left of an instance later on: its class, its host object, its fields, if perhaps with other
values, and all that it remembered. -/
structure Instance.Lasts (o o' : Instance) : Prop where
  class_ : o'.class_ = o.class_
  host : o'.host = o.host
  fields : o.fields.names <+: o'.fields.names
  bound : ∀ x f, o.bound.get? x = some f → o'.bound.get? x = some f

namespace Instance.Lasts

theorem refl (o : Instance) : o.Lasts o :=
  ⟨rfl, rfl, List.prefix_rfl, fun _ _ => id⟩

theorem trans {o o₁ o' : Instance} (h : o.Lasts o₁) (h' : o₁.Lasts o') : o.Lasts o' where
  class_ := h'.class_.trans h.class_
  host := h'.host.trans h.host
  fields := h.fields.trans h'.fields
  bound x f hf := h'.bound x f (h.bound x f hf)

end Instance.Lasts

namespace Machine

/-- What is left of a machine later on: its classes and callables as they are, its instances and the lines
that were printed. -/
structure Lasts (m m' : Machine) : Prop where
  classes : m.heap.classes.toList <+: m'.heap.classes.toList
  callables : m.heap.callables.toList <+: m'.heap.callables.toList
  instances_le : m.heap.instances.size ≤ m'.heap.instances.size
  instances : ∀ i, m.heap.hasInstance i = true →
    (m.heap.instance_ i).Lasts (m'.heap.instance_ i)
  lines : m.console.lines.toList <+: m'.console.lines.toList

variable {own declares : Prop} {m m₁ m' : Machine}

namespace Lasts

theorem refl (m : Machine) : m.Lasts m :=
  ⟨List.prefix_rfl, List.prefix_rfl, Nat.le_refl _, fun _ _ => .refl _, List.prefix_rfl⟩

theorem trans (h : m.Lasts m₁) (h' : m₁.Lasts m') : m.Lasts m' := by
  refine ⟨h.classes.trans h'.classes, h.callables.trans h'.callables,
    Nat.le_trans h.instances_le h'.instances_le, fun i hi => ?_, h.lines.trans h'.lines⟩
  have hi₁ : m₁.heap.hasInstance i = true :=
    decide_eq_true (Nat.lt_of_lt_of_le (of_decide_eq_true hi) h.instances_le)
  exact (h.instances i hi).trans (h'.instances i hi₁)

/-- Where a machine is, and how deep, does not matter. -/
theorem moved (h : m.Lasts m') (e : ScopeId) (d : Nat) :
    m.Lasts { m' with env := e, depth := d } :=
  { h with }

end Lasts

/-! ### One change -/

theorem Change.classes_prefix (h : Change declares m m') :
    m.heap.classes.toList <+: m'.heap.classes.toList := by
  cases h with
  | bindMethod h => cases h <;> exact List.prefix_rfl
  | remember hnone hk hfind h => cases h <;> exact List.prefix_rfl
  | addClass ht =>
    simp only [Machine.addClass, Heap.newClass, Heap.withScripts, Array.toList_push]
    exact List.prefix_append _ _
  | _ => exact List.prefix_rfl

theorem Binds.callables_prefix {f g : CallableId} {i : InstanceId} (h : m.Binds f i g m') :
    m.heap.callables.toList <+: m'.heap.callables.toList := by
  cases h with
  | script hf hc =>
    simp only [bindScript, Heap.newCallable, Array.toList_push]
    exact List.prefix_append _ _
  | host hf hc =>
    simp only [addCallable, Heap.newCallable, Array.toList_push]
    exact List.prefix_append _ _

theorem Change.callables_prefix (h : Change declares m m') :
    m.heap.callables.toList <+: m'.heap.callables.toList := by
  cases h with
  | addFunction d =>
    simp only [addCallable, Heap.newCallable, Array.toList_push]
    exact List.prefix_append _ _
  | bindMethod h => exact h.callables_prefix
  | remember hnone hk hfind h => exact h.callables_prefix
  | addClass ht =>
    simp only [Machine.addClass, Heap.newClass, Heap.withScripts, Array.toList_append]
    exact List.prefix_append _ _
  | _ => exact List.prefix_rfl

theorem Change.lines_prefix (h : Change declares m m') :
    m.console.lines.toList <+: m'.console.lines.toList := by
  cases h with
  | print h =>
    unfold Console.print at h
    split at h
    · cases h
      simp only [Array.toList_push]
      exact List.prefix_append _ _
    · cases h
  | read h =>
    unfold Console.read at h
    split at h
    · split at h <;> cases h <;> exact List.prefix_rfl
    · cases h
  | bindMethod h => cases h <;> exact List.prefix_rfl
  | remember hnone hk hfind h => cases h <;> exact List.prefix_rfl
  | _ => exact List.prefix_rfl

theorem Change.fields_prefix (h : Change declares m m') {i : InstanceId}
    (hi : m.heap.hasInstance i = true) :
    (m.heap.instance_ i).fields.names <+: (m'.heap.instance_ i).fields.names := by
  have hnew : i ≠ m.nextInstance := fun heq => Nat.lt_irrefl _ (heq ▸ of_decide_eq_true hi)
  cases h.instance_cases i with
  | same heq => rewrite [heq]; exact List.prefix_rfl
  | field hslot hv heq => rw [heq]; exact Bindings.names_prefix_insert _ _ _
  | remember hnone hk hfind hg hm' heq => rewrite [heq]; exact List.prefix_rfl
  | plain heq => exact absurd heq hnew
  | host heq => exact absurd heq hnew

theorem Change.lasts (h : Change declares m m') : m.Lasts m' where
  classes := h.classes_prefix
  callables := h.callables_prefix
  instances_le := h.extends.instances_le
  instances i hi := {
    class_ := h.extends.classOf i hi
    host := h.extends.hostOf i hi
    fields := h.fields_prefix hi
    bound := fun _ _ => h.bound_kept }
  lines := h.lines_prefix

/-! ### All that evolves -/

/-- On a scope that is opened nothing of this depends. -/
theorem lasts_enter (m : Machine) (sc : Scope) : m.Lasts (m.enter sc) :=
  { Lasts.refl m with }

theorem lasts_enterCall (m : Machine) (d : FunctionDecl) (closure : ScopeId) (args : List Value) :
    m.Lasts (m.enterCall d closure args) :=
  { Lasts.refl m with }

theorem Evolves.lasts (h : Evolves own declares m m') : m.Lasts m' := by
  induction h with
  | refl => exact .refl _
  | change _ hc ih => exact ih.trans hc.lasts
  | block _ _ ih ihb => exact ih.trans (((lasts_enter _ _).trans ihb).moved _ _)
  | call _ _ _ _ ih ihb => exact ih.trans (((lasts_enterCall _ _ _ _).trans ihb).moved _ _)

theorem Leads.lasts (h : Leads own m m') : m.Lasts m' := by
  induction h with
  | refl => exact .refl _
  | evolves _ he ih => exact ih.trans he.lasts
  | block _ ih => exact ih.trans (lasts_enter _ _)
  | call _ _ _ ih => exact ih.trans (lasts_enterCall _ _ _ _)

end Machine

/-! ### Sessions -/

namespace Session

variable {s s' : Session} {fuel : Nat}

theorem lasts_of_perform {α : Type} {x : Run α} {own declares : Prop} {Q : α → Machine → Prop}
    {r : Except RuntimeError α} (hx : x.Evolves own declares Q s.machine)
    (h : s.perform x = some (r, s')) :
    s.machine.Lasts s'.machine ∧ s'.locals = s.locals := by
  rcases perform_cases h with ⟨a, m, hrun, -, rfl⟩ | ⟨e, m, hrun, -, rfl⟩
  · exact ⟨(hx.done hrun).2.1.lasts, rfl⟩
  · exact ⟨(hx.failed hrun).2.lasts, rfl⟩

theorem lasts_of_executeEach {stmts : List Stmt} {rs : List (Except RuntimeError Completion)}
    (h : s.executeEach fuel stmts = some (rs, s')) :
    s.machine.Lasts s'.machine ∧ s'.locals = s.locals := by
  induction stmts generalizing s rs with
  | nil =>
    cases h
    exact ⟨.refl _, rfl⟩
  | cons t rest ih =>
    simp only [executeEach, Option.bind_eq_bind, Option.bind_eq_some_iff] at h
    obtain ⟨⟨r, s₁⟩, hfirst, ⟨rs', s₂⟩, hrest, heq⟩ := h
    cases heq
    obtain ⟨hlasts, hlocals⟩ :=
      lasts_of_perform ((Evaluation.evolves_layer False s.context fuel).exec t) hfirst
    obtain ⟨hlasts', hlocals'⟩ := ih hrest
    exact ⟨hlasts.trans hlasts', hlocals'.trans hlocals⟩

theorem lasts_of_interpret {p : Program} {locals : List (Nat × Nat)} {r : Except RuntimeError Unit}
    (h : s.interpret fuel p locals = some (r, s')) :
    s.machine.Lasts s'.machine ∧ s'.locals = (s.learn locals).locals := by
  have hevolves : (Evaluation.program (s.learn locals).context fuel p.stmts).Evolves False True
      (fun _ _ => True) s.machine := Evaluation.evolves_program _ fuel p.stmts
  rcases interpret_cases h with ⟨m, hrun, -, rfl⟩ | ⟨e, m, hrun, -, rfl⟩
  · exact ⟨(hevolves.done hrun).2.1.lasts, rfl⟩
  · exact ⟨(hevolves.failed hrun).2.lasts.moved _ _, rfl⟩

end Session

/-- Whatever evaluation sets out to do, however it ends and wherever it is on the way, all that was on the
machine lasts. So it does in a session that evaluates, executes, calls or interprets; only the last of
these has the session learn places of names, and it does so before anything else. -/
theorem heap_and_output_grow :
    (∀ c n (a : Activity) m, (a.run c n m).EndsOn m.Lasts) ∧
    (∀ c n a m b m', Activity.Reaches c n a m b m' → m.Lasts m') ∧
    (∀ (s s' : Session) fuel (a : Activity) r, s.perform (a.run s.context fuel) = some (r, s') →
      s.machine.Lasts s'.machine ∧ s'.locals = s.locals) ∧
    (∀ (s s' : Session) fuel stmts rs, s.executeEach fuel stmts = some (rs, s') →
      s.machine.Lasts s'.machine ∧ s'.locals = s.locals) ∧
    (∀ (s s' : Session) fuel f args r, s.call fuel f args = some (r, s') →
      s.machine.Lasts s'.machine ∧ s'.locals = s.locals) ∧
    (∀ (s s' : Session) fuel p locals r, s.interpret fuel p locals = some (r, s') →
      s.machine.Lasts s'.machine ∧ s'.locals = (s.learn locals).locals) ∧
    (∀ (s : Session) fuel p locals b m,
      ProgramReaches (s.learn locals).context fuel (p : Program).stmts s.machine b m →
      s.machine.Lasts m) ∧
    (∀ (s : Session) fuel p locals,
      s.interpret fuel p locals = (s.learn locals).interpret fuel p []) := by
  refine ⟨fun c n a m => ?_, fun c n a m b m' h => ?_, fun s s' fuel a r h => ?_,
    fun s s' fuel stmts rs h => ?_, fun s s' fuel f args r h => ?_,
    fun s s' fuel p locals r h => ?_, fun s fuel p locals b m h => ?_, fun s fuel p locals => ?_⟩
  · exact Run.Evolves.endsOn (Evaluation.evolves_layer False c n a m False.elim) fun _ he => he.lasts
  · have hleads : m.Leads False m' := (Activity.leads_of_reaches h False.elim).1
    exact hleads.lasts
  · exact Session.lasts_of_perform
      (Evaluation.evolves_layer False s.context fuel a s.machine False.elim) h
  · exact Session.lasts_of_executeEach h
  · exact Session.lasts_of_perform (Evaluation.evolves_callByHost s.context fuel f False.elim) h
  · exact Session.lasts_of_interpret h
  · have hleads : s.machine.Leads False m := h.leads.1
    exact hleads.lasts
  · rfl

/-- A class, an instance with a field and a method that it remembers, a line that is printed, and then a
failure. -/
def growingScript : Source :=
  ⟨"growing", "class A \x7b m() \x7b this.x = 1; return 2; \x7d \x7d \x7b var a = A(); print a.m(); a.y(); \x7d"⟩

theorem heap_and_output_grow_growingScript :
    let s := Session.new 8 (.ofInput [])
    let compiled := Compiled.ofSource growingScript s.nextId
    ∃ e s', s.interpret 20 compiled.program compiled.locals = some (.error e, s') ∧
      s.machine.heap.classes.size < s'.machine.heap.classes.size ∧
      s'.machine.console.lines = #["2"] ∧ s'.locals.size ≠ s.locals.size ∧
      s.machine.Lasts s'.machine ∧ s'.locals = (s.learn compiled.locals).locals := by
  intro s compiled
  have hruns : (s.interpret 20 compiled.program compiled.locals).any (fun r => !r.1.isOk &&
      s.machine.heap.classes.size < r.2.machine.heap.classes.size &&
      r.2.machine.console.lines = #["2"] && r.2.locals.size ≠ s.locals.size) = true := by
    decide +kernel
  obtain ⟨⟨r, s'⟩, hrun, h⟩ := (Option.any_eq_true _ _).mp hruns
  simp only [Bool.and_eq_true, decide_eq_true_eq] at h
  obtain ⟨⟨⟨hr, hclasses⟩, hlines⟩, hlocals⟩ := h
  cases r with
  | ok _ => cases hr
  | error e =>
    obtain ⟨hlasts, hlearned⟩ := heap_and_output_grow.2.2.2.2.2.1 s s' 20 _ _ _ hrun
    exact ⟨e, s', hrun, hclasses, hlines, hlocals, hlasts, hlearned⟩

end HostScript
