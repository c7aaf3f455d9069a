import HostScript.Proofs.Balance
import HostScript.Proofs.Stored

/-!
# No handle dangles

In every state that a session comes to, and in every state that a run reaches, each handle of a class,
an instance or a callable that is stored anywhere is the number of an entry of its table, and code of
the host is run with as many arguments as it was declared with. So nothing is read past the end of a
table or of a list of arguments: a run does not crash.
-/

namespace HostScript

/-- Whether the object that a value is a handle of is there. -/
def Heap.has (h : Heap) : Value → Bool
  | .class_ k => h.hasClass k
  | .instance_ i => h.hasInstance i
  | .function f => h.hasCallable f
  | _ => true

/-- A heap with all tables at least as long. -/
structure Heap.Within (h h' : Heap) : Prop where
  classes : h.classes.size ≤ h'.classes.size
  instances : h.instances.size ≤ h'.instances.size
  callables : h.callables.size ≤ h'.callables.size

namespace Heap

variable {h h' : Heap}

theorem Within.refl (h : Heap) : h.Within h :=
  ⟨Nat.le_refl _, Nat.le_refl _, Nat.le_refl _⟩

theorem Within.trans {h₁ h₂ h₃ : Heap} (a : h₁.Within h₂) (b : h₂.Within h₃) : h₁.Within h₃ :=
  ⟨Nat.le_trans a.classes b.classes, Nat.le_trans a.instances b.instances,
    Nat.le_trans a.callables b.callables⟩

theorem Within.hasCallable (hw : h.Within h') {f : CallableId} (hf : h.hasCallable f = true) :
    h'.hasCallable f = true := by
  simp only [Heap.hasCallable, decide_eq_true_eq] at hf ⊢
  exact Nat.lt_of_lt_of_le hf hw.callables

theorem Within.has (hw : h.Within h') {v : Value} (hv : h.has v = true) : h'.has v = true := by
  cases v with
  | class_ k =>
    simp only [Heap.has, hasClass, decide_eq_true_eq] at hv ⊢
    exact Nat.lt_of_lt_of_le hv hw.classes
  | instance_ i =>
    simp only [Heap.has, hasInstance, decide_eq_true_eq] at hv ⊢
    exact Nat.lt_of_lt_of_le hv hw.instances
  | function f => exact hw.hasCallable hv
  | _ => rfl

theorem within_newCallable (h : Heap) (f : Callable) : h.Within (h.newCallable f).2 :=
  ⟨Nat.le_refl _, Nat.le_refl _, by simp [newCallable]⟩

theorem within_newInstance (h : Heap) (o : Instance) : h.Within (h.newInstance o).2 :=
  ⟨Nat.le_refl _, by simp [newInstance], Nat.le_refl _⟩

theorem within_newClass (h : Heap) (k : Class) : h.Within (h.newClass k).2 :=
  ⟨by simp [newClass], Nat.le_refl _, Nat.le_refl _⟩

theorem within_withScripts (h : Heap) (closure : ScopeId) (ms : List FunctionDecl) :
    h.Within (h.withScripts closure ms) :=
  ⟨Nat.le_refl _, Nat.le_refl _, by simp [withScripts]⟩

theorem within_putField (h : Heap) (i : InstanceId) (x : String) (v : Value) :
    h.Within (h.putField i x v) :=
  ⟨Nat.le_refl _, by simp [putField], Nat.le_refl _⟩

theorem within_putBound (h : Heap) (i : InstanceId) (x : String) (f : CallableId) :
    h.Within (h.putBound i x f) :=
  ⟨Nat.le_refl _, by simp [putBound], Nat.le_refl _⟩

theorem has_plain {v : Value} (hv : v.plain = true) : h.has v = true := by
  cases v with
  | class_ k => cases hv
  | instance_ i => cases hv
  | function f => cases hv
  | _ => rfl

end Heap

namespace Machine

/-- Every handle that is stored is of something that is there, and the host's code was declared with
the number of arguments that it reads. -/
structure Closed (m : Machine) : Prop where
  stores : m.Stores (fun v => m.heap.has v = true) (fun f => m.heap.hasCallable f = true)
  natives : ∀ {f x n g}, m.heap.callable f = .native x n g → n = g.arity
  constructors : ∀ {k n t}, (m.heap.class_ k).native? = some (n, t) → n = t.arity

variable {m : Machine}

/-- What is stored, as seen from a larger heap. -/
theorem Closed.storesIn (h : m.Closed) {heap : Heap} (hw : m.heap.Within heap) :
    m.Stores (fun v => heap.has v = true) (fun f => heap.hasCallable f = true) :=
  h.stores.mono (fun _ => hw.has) fun _ => hw.hasCallable

theorem Closed.natives_newCallable (h : m.Closed) {f : Callable}
    (hf : ∀ {x n g}, f = .native x n g → n = g.arity) {j : CallableId} {x : String} {n : Nat}
    {g : Builtin} (hj : (m.heap.newCallable f).2.callable j = .native x n g) : n = g.arity := by
  rw [Heap.callable_newCallable] at hj
  split at hj
  · exact hf hj
  · exact h.natives hj

theorem Closed.addCallable (h : m.Closed) {f : Callable}
    (hr : ∀ {g i}, f = .method g (some i) → m.heap.hasInstance i = true)
    (hf : ∀ {x n g}, f = .native x n g → n = g.arity) : (m.addCallable f).Closed where
  stores := (h.storesIn (m.heap.within_newCallable f)).addCallable hr
  natives := h.natives_newCallable hf
  constructors := h.constructors

theorem Closed.bind (h : m.Closed) {e : ScopeId} {x : String} {v : Value}
    (hv : m.heap.has v = true) : (m.bind e x v).Closed where
  stores := h.stores.bind hv
  natives := h.natives
  constructors := h.constructors

theorem Closed.addInstance (h : m.Closed) {o : Instance} (ho : o.Fresh)
    (hk : m.heap.hasClass o.class_ = true) : (m.addInstance o).Closed where
  stores := (h.storesIn (m.heap.within_newInstance o)).addInstance ho (fun _ => Heap.has_plain) hk
  natives := h.natives
  constructors := h.constructors

theorem Closed.bindScript (h : m.Closed) {d : FunctionDecl} {closure : ScopeId} {isInit : Bool}
    {i : InstanceId} (hi : m.heap.hasInstance i = true) :
    (m.bindScript d closure isInit i).Closed where
  stores := (h.storesIn (m.heap.within_newCallable _)).bindScript hi
  natives := h.natives_newCallable (f := .script d m.nextScope isInit) nofun
  constructors := h.constructors

theorem Closed.withScripts (h : m.Closed) (closure : ScopeId) (ms : List FunctionDecl) :
    { m with heap := m.heap.withScripts closure ms }.Closed where
  stores := (h.storesIn (m.heap.within_withScripts closure ms)).withScripts closure ms
  natives := by
    intro f x n g hf
    rcases m.heap.callable_withScripts_cases closure ms f with hold | ⟨_, _, -, -, hnew⟩
    · exact h.natives (hold.symm.trans hf)
    · cases hnew.symm.trans hf
  constructors := h.constructors

theorem Closed.newClass (h : m.Closed) {k : Class}
    (ht : ∀ {x f}, k.methods.get? x = some f → m.heap.hasCallable f = true)
    (hp : ∀ {p}, k.superclass = some p → m.heap.hasClass p = true)
    (hn : ∀ {n t}, k.native? = some (n, t) → n = t.arity) :
    { m with heap := (m.heap.newClass k).2 }.Closed where
  stores := by
    have hw := m.heap.within_newClass k
    exact (h.storesIn hw).newClass (fun hf => hw.hasCallable (ht hf))
      fun {p} hk => hw.has (v := .class_ p) (hp hk)
  natives := h.natives
  constructors := by
    intro j n t hj
    rw [Heap.class_newClass] at hj
    split at hj
    · exact hn hj
    · exact h.constructors hj

theorem Closed.withMethodStore (h : m.Closed) {parent : Option ClassId}
    (hp : ∀ k, parent = some k → m.heap.hasClass k = true) :
    { m with store := (m.methodStore parent).2 }.Closed where
  stores := h.stores.withMethodStore hp
  natives := h.natives
  constructors := h.constructors

theorem Closed.addClass (h : m.Closed) {x : String} {parent : Option ClassId}
    {ms : List FunctionDecl} {table : Bindings CallableId}
    (ht : MethodTable m.heap.callables.size ms table)
    (hp : ∀ k, parent = some k → m.heap.hasClass k = true) :
    (m.addClass x parent ms table).Closed := by
  refine ((h.withMethodStore hp).withScripts (m.methodStore parent).1 ms).newClass ?_ ?_ nofun
  · intro y f hf
    obtain ⟨j, d, hj, -, hf⟩ := ht y f hf
    have hlt : j < ms.length := (List.getElem?_eq_some_iff.mp hj).1
    simp [Heap.hasCallable, Heap.withScripts, hf, hlt]
  · exact fun {p} hk => hp p hk

end Machine

/-- Handles are of what is there, and the tables only grow. -/
def Regime.closed (c : Context) : Regime c where
  inv := Machine.Closed
  le m m' := m.heap.Within m'.heap
  crash := False
  le_refl m := .refl m.heap
  le_trans := .trans
  ok m v := m.heap.has v = true
  okMethod m f := m.heap.hasCallable f = true
  name _ := True
  atExpr _ _ := True
  atStmt _ _ := True
  atBlock _ _ := True
  after _ _ := True
  ok_le hw hv := hw.has hv
  ok_env _ _ hv := hv
  okMethod_le hw hf := hw.hasCallable hf
  ok_plain hv := Heap.has_plain hv
  ok_own hi hv := hi.stores.vars hv
  ok_field hi hv := hi.stores.fields hv
  ok_bound hi hf := hi.stores.bound hf
  ok_table hi hf := hi.stores.methods hf
  ok_class hi hn := hi.stores.classOf hn
  ok_hostClass hi hk := hi.stores.hostClasses (mem_of_lookup hk)
  ok_receiver hi _ hc := hi.stores.receiver hc
  has_class _ hk := .inr hk
  has_instance _ hn := .inr hn
  has_callable _ hf := .inr hf
  has_method _ hf := .inr hf
  native_arity hi _ hc := .inr (hi.natives hc)
  constructor_arity hi hk := .inr (hi.constructors hk)
  line hi _ := ⟨⟨{ hi.stores with }, hi.natives, hi.constructors⟩, .refl _⟩
  console hi _ := ⟨⟨{ hi.stores with }, hi.natives, hi.constructors⟩, .refl _⟩
  cells hi _ := ⟨⟨{ hi.stores with }, hi.natives, hi.constructors⟩, .refl _⟩
  declare hi _ hv := ⟨hi.bind hv, .refl _⟩
  assign hi _ _ hv := ⟨hi.bind hv, .refl _⟩
  putField {m i x v} hi hv :=
    have hw := m.heap.within_putField i x v
    ⟨⟨(hi.storesIn hw).putField (hw.has hv), hi.natives, hi.constructors⟩, hw⟩
  putBound {_ m _ i x _ f} _ hi hf _ :=
    have hw := m.heap.within_putBound i x f
    ⟨⟨(hi.storesIn hw).putBound (hw.hasCallable hf), hi.natives, hi.constructors⟩, hw⟩
  bindScript {m _ _ _ _ _} hi _ _ hn _ :=
    ⟨hi.bindScript hn, m.heap.within_newCallable _, m.heap.hasCallable_newCallable _⟩
  bindHost {m _ _ _ _} hi _ _ hn _ :=
    ⟨hi.addCallable (fun h => by cases h; exact hn) nofun, m.heap.within_newCallable _,
      m.heap.hasCallable_newCallable _⟩
  function {m d} hi _ :=
    ⟨(hi.addCallable (f := .script d m.env false) nofun nofun).bind (m.heap.hasCallable_newCallable _),
      m.heap.within_newCallable _, trivial⟩
  newClass {m _ _ _ _ _ _} hi _ _ _ hp ht :=
    ⟨hi.addClass ht hp, (m.heap.within_withScripts _ _).trans (Heap.within_newClass _ _),
      (m.heap.withScripts _ _).hasClass_newClass _⟩
  newInstance {m o} hi hk ho _ :=
    ⟨hi.addInstance ho hk, m.heap.within_newInstance o, m.heap.hasInstance_newInstance o⟩
  enterBlock hi _ := ⟨⟨hi.stores.enter nofun, hi.natives, hi.constructors⟩, trivial⟩
  enterCall hi _ _ _ hargs _ :=
    ⟨⟨hi.stores.enterCall hargs, hi.natives, hi.constructors⟩, trivial⟩
  leaveBlock _ hw hi' := ⟨⟨{ hi'.stores with }, hi'.natives, hi'.constructors⟩, hw⟩
  leaveCall _ hw hi' := ⟨⟨{ hi'.stores with }, hi'.natives, hi'.constructors⟩, hw⟩

/-! ### The prelude -/

/-- The machine with a class for a host type, which has the methods of a table. -/
def Machine.withHostClass (m : Machine) (t : HostType) (table : Bindings CallableId) : Machine :=
  { m with
    heap := (m.heap.newClass ⟨t.name, none, table, .native t.arity t⟩).2
    hostClasses := (t, m.nextClass) :: m.hostClasses }.bind .globals t.name (.class_ m.nextClass)

namespace Frame

variable {F : Frame} {m : Machine} {t : HostType} {T : Bindings CallableId → Machine → Prop}

theorem keeps_foldlM_addHostMethod {fs : List HostMethod} {table : Bindings CallableId}
    (hmethod : ∀ {m table}, ∀ g ∈ fs, F.inv m → T table m →
      F.inv (m.addCallable (.method g none)) ∧ F.le m (m.addCallable (.method g none)) ∧
        T (table.insert g.name m.nextCallable) (m.addCallable (.method g none)))
    (hi : F.inv m) (ht : T table m) :
    F.Keeps (fs.foldlM Machine.addHostMethod table) (fs.foldlM Machine.addHostMethod table) T m := by
  induction fs generalizing m table with
  | nil => exact .pure hi ht
  | cons g fs ih =>
    have hstep : F.Keeps (Machine.addHostMethod table g) (Machine.addHostMethod table g) T m :=
      ⟨rfl, hmethod g List.mem_cons_self hi ht⟩
    rw [List.foldlM_cons]
    exact hstep.bind fun _ _ hi' _ ht' =>
      ih (fun g hg => hmethod g (List.mem_cons_of_mem _ hg)) hi' ht'

/-- Registering a type keeps what is kept as its methods are added one by one and the class is made. On the way
the table of the methods may have a property of its own. -/
theorem keeps_register {Q : ClassId → Machine → Prop} (hempty : T .empty m)
    (hmethod : ∀ {m table}, ∀ g ∈ HostMethod.all t, F.inv m → T table m →
      F.inv (m.addCallable (.method g none)) ∧ F.le m (m.addCallable (.method g none)) ∧
        T (table.insert g.name m.nextCallable) (m.addCallable (.method g none)))
    (hclass : ∀ {m table}, F.inv m → T table m →
      F.inv (m.withHostClass t table) ∧ F.le m (m.withHostClass t table) ∧
        Q m.nextClass (m.withHostClass t table))
    (hi : F.inv m) : F.Keeps (Machine.register t) (Machine.register t) Q m := by
  unfold Machine.register
  exact (keeps_foldlM_addHostMethod hmethod hi hempty).bind fun _ _ hi' _ ht' => ⟨rfl, hclass hi' ht'⟩

/-- The prelude keeps what all its steps keep. No name that it defines is a keyword, and none of its
functions calls back. -/
theorem keeps_prelude
    (hnative : ∀ {m}, F.inv m → ∀ x n (g : Builtin), n = g.arity → g ≠ .apply →
      Keyword.ofText? x = none →
      F.Keeps (Machine.defineNative x n g) (Machine.defineNative x n g) (fun _ _ => True) m)
    (hdefine : ∀ {m}, F.inv m → ∀ x (v : Value), v.plain = true → Keyword.ofText? x = none →
      F.Keeps (Machine.define .globals x v) (Machine.define .globals x v) (fun _ _ => True) m)
    (hregister : ∀ {m}, F.inv m → ∀ t,
      F.Keeps (Machine.register t) (Machine.register t) (fun _ _ => True) m)
    (hi : F.inv m) : F.Keeps Machine.prelude Machine.prelude (fun _ _ => True) m := by
  unfold Machine.prelude
  refine (hnative hi "int" 1 .int rfl nofun rfl).bind fun _ _ hi _ _ => ?_
  refine (hnative hi "float" 1 .float rfl nofun rfl).bind fun _ _ hi _ _ => ?_
  refine (hnative hi "string" 1 .string rfl nofun rfl).bind fun _ _ hi _ _ => ?_
  refine (hnative hi "str" 1 .string rfl nofun rfl).bind fun _ _ hi _ _ => ?_
  refine (hnative hi "bool" 1 .bool rfl nofun rfl).bind fun _ _ hi _ _ => ?_
  refine (hnative hi "input" 0 .input rfl nofun rfl).bind fun _ _ hi _ _ => ?_
  refine (hdefine hi "Null" .null rfl rfl).bind fun _ _ hi _ _ => ?_
  refine (hdefine hi "Undefined" .undefined rfl rfl).bind fun _ _ hi _ _ => ?_
  refine (hregister hi (.vector 2)).bind fun _ _ hi _ _ => ?_
  refine (hregister hi (.vector 3)).bind fun _ _ hi _ _ => ?_
  exact (hregister hi (.vector 4)).bind fun _ _ hi _ _ => .pure hi trivial

theorem inv_perform {α : Type} {s s' : Session} {x : Run α} {Q : α → Machine → Prop}
    {r : Except RuntimeError α} (hx : F.Keeps x x Q s.machine)
    (h : s.perform x = some (r, s')) : F.inv s'.machine := by
  have hw := hx.2
  unfold Run.wp at hw
  obtain ⟨a, m, hend, -, rfl⟩ | ⟨e, m, hend, -, rfl⟩ := Session.perform_cases h
  · rw [hend] at hw
    exact hw.1
  · rw [hend] at hw
    exact hw.1

/-- What holds before the prelude and is kept by it holds of a new session. -/
theorem inv_new {maxDepth : Nat} {console : Console}
    (hbare : F.inv (Session.bare maxDepth console).machine) {Q : Unit → Machine → Prop}
    (hx : F.Keeps Machine.prelude Machine.prelude Q (Session.bare maxDepth console).machine) :
    F.inv (Session.new maxDepth console).machine := by
  unfold Session.new
  dsimp only
  split
  · exact inv_perform hx ‹_›
  · exact hbare

end Frame

namespace Machine

variable {m : Machine}

theorem Closed.addHostClass (h : m.Closed) {t : HostType} {k : ClassId}
    (hk : m.heap.hasClass k = true) : { m with hostClasses := (t, k) :: m.hostClasses }.Closed where
  stores :=
    { h.stores with
      hostClasses := fun hmem => by
        rcases List.mem_cons.mp hmem with heq | hmem
        · cases heq; exact hk
        · exact h.stores.hostClasses hmem }
  natives := h.natives
  constructors := h.constructors

theorem closed_ofConsole (k : Console) : (Machine.ofConsole k).Closed where
  stores := by
    refine ⟨?_, nofun, nofun, nofun, nofun, nofun, nofun, nofun⟩
    intro e x v hv
    rcases Store.own?_open_cases _ hv with hv | hv <;> cases hv
  natives := by
    intro f x n g hf
    cases hf
    rfl
  constructors := nofun

end Machine

namespace Regime

variable {c : Context} {m : Machine}

theorem keeps_define {e : ScopeId} {x : String} {v : Value} (hi : m.Closed)
    (hv : m.heap.has v = true) :
    (closed c).Keeps (Machine.define e x v) (Machine.define e x v) (fun _ _ => True) m :=
  .update (hi.bind hv) (.refl _) trivial

theorem keeps_defineNative (x : String) (n : Nat) (g : Builtin) (hn : n = g.arity) (hi : m.Closed) :
    (closed c).Keeps (Machine.defineNative x n g) (Machine.defineNative x n g) (fun _ _ => True)
      m := by
  have hnew : (m.addCallable (.native x n g)).Closed :=
    hi.addCallable nofun fun h => by cases h; exact hn
  exact ⟨rfl, hnew.bind (m.heap.hasCallable_newCallable _), m.heap.within_newCallable _, trivial⟩

theorem keeps_register (t : HostType) (hi : m.Closed) :
    (closed c).Keeps (Machine.register t) (Machine.register t)
      (fun k m' => m'.heap.hasClass k = true) m := by
  refine Frame.keeps_register
    (T := fun table m => ∀ x f, table.get? x = some f → m.heap.hasCallable f = true)
    (fun _ _ => nofun) ?_ ?_ hi
  · intro m table g _ hi ht
    have hw := m.heap.within_newCallable (.method g none)
    refine ⟨hi.addCallable nofun nofun, hw, fun x f hf => ?_⟩
    rw [Bindings.get?_insert] at hf
    split at hf
    · cases hf
      exact m.heap.hasCallable_newCallable _
    · exact hw.hasCallable (ht x f hf)
  · intro m table hi ht
    have hnew : { m with heap := (m.heap.newClass ⟨t.name, none, table, .native t.arity t⟩).2 }.Closed :=
      hi.newClass (ht _ _) nofun fun h => by cases h; rfl
    have hk := m.heap.hasClass_newClass ⟨t.name, none, table, .native t.arity t⟩
    exact ⟨(hnew.addHostClass hk).bind hk, m.heap.within_newClass _, hk⟩

theorem keeps_prelude (hi : m.Closed) :
    (closed c).Keeps Machine.prelude Machine.prelude (fun _ _ => True) m :=
  Frame.keeps_prelude (fun hi x n g hn _ _ => keeps_defineNative x n g hn hi)
    (fun hi _ _ hv _ => keeps_define hi (Heap.has_plain hv))
    (fun hi t => (keeps_register t hi).mono fun _ _ _ _ _ => trivial) hi

end Regime

/-! ### Sessions -/

namespace Session

theorem closed_new (maxDepth : Nat) (console : Console) : (new maxDepth console).machine.Closed := by
  have hbare : (bare maxDepth console).machine.Closed := Machine.closed_ofConsole console
  exact Frame.inv_new hbare
    (Regime.keeps_prelude (c := (bare maxDepth console).context) hbare)

theorem SameButErrors.closed {s s' : Session} (h : SameButErrors s s') (hs : s.machine.Closed) :
    s'.machine.Closed := by
  obtain ⟨k, hm⟩ := h.machine
  rw [hm]
  exact ((Regime.closed s.context).console hs k).1

theorem closed_interpret {s s' : Session} {fuel : Nat} {p : Program} {locals : List (Nat × Nat)}
    {r : Except RuntimeError Unit} (h : s.interpret fuel p locals = some (r, s'))
    (hs : s.machine.Closed) : s'.machine.Closed := by
  have hw := (Regime.keeps_program (R := Regime.closed (s.learn locals).context) fuel p.stmts hs
    fun _ _ => trivial).2
  unfold Run.wp at hw
  obtain ⟨m, hrun, -, rfl⟩ | ⟨e, m, hrun, -, rfl⟩ := interpret_cases h
  · rw [hrun] at hw
    exact hw.1
  · rw [hrun] at hw
    exact ⟨{ hw.1.stores with }, hw.1.natives, hw.1.constructors⟩

theorem Reachable.closed {s : Session} (h : s.Reachable) : s.machine.Closed := by
  induction h with
  | new maxDepth console => exact closed_new maxDepth console
  | @run s s' fuel src r _ hrun ih =>
    obtain ⟨-, hsame⟩ | ⟨-, r₁, s₁, hint, hsame⟩ := run_cases hrun
    · exact hsame.closed ih
    · exact hsame.closed (closed_interpret hint ih)

end Session

/-! ### Arguments of the host's code -/

/-- How many arguments are read by the code of the host that a call of a value comes to. -/
def Heap.hostArity? (h : Heap) : Value → Option Nat
  | .function f =>
    match h.callable f with
    | .native _ _ g => some g.arity
    | .method g _ => some g.arity
    | .script _ _ _ => none
  | .class_ k =>
    match h.findMethod k initName with
    | some _ => none
    | none => (h.nativeConstructor k).map fun nt => nt.2.arity
  | _ => none

namespace Evaluation

variable {m : Machine} {args : List Value}

theorem callFunction_of_arity_ne (c : Context) (r : Inner) {f : CallableId}
    (hf : m.heap.hasCallable f = true) (hne : (m.heap.callable f).arity ≠ args.length) :
    callFunction c r f args m = .fail (.arity m.line (m.heap.callable f).arity args.length) m := by
  simp [callFunction, Run.bind_apply, Run.demand, Run.read, checkArity, hf, hne]

theorem instantiate_of_arity_ne (r : Inner) {k : ClassId} (hk : m.heap.hasConstructor k = true)
    (hne : m.heap.constructorArity k ≠ args.length) :
    instantiate r k args m = .fail (.arity m.line (m.heap.constructorArity k) args.length) m := by
  simp [instantiate, Run.bind_apply, Run.demand, Run.read, checkArity, hk, hne]

end Evaluation

namespace Machine

variable {m : Machine} {n : Nat}

/-- The host's functions and methods are declared with as many arguments as their code reads. -/
theorem Closed.arity_of_hostArity? (hm : m.Closed) {f : CallableId}
    (hn : m.heap.hostArity? (.function f) = some n) : (m.heap.callable f).arity = n := by
  unfold Heap.hostArity? at hn
  dsimp only at hn
  cases hc : m.heap.callable f with
  | native x k g => rw [hc] at hn; cases hn; exact hm.natives hc
  | method g rc => rw [hc] at hn; cases hn; rfl
  | script d closure isInit => rw [hc] at hn; cases hn

theorem Closed.constructor_of_hostArity? (hm : m.Closed) {k : ClassId}
    (hk : m.heap.hasClass k = true) (hn : m.heap.hostArity? (.class_ k) = some n) :
    m.heap.hasConstructor k = true ∧ m.heap.constructorArity k = n := by
  unfold Heap.hostArity? at hn
  unfold Heap.hasConstructor Heap.constructorArity
  cases hf : m.heap.findMethod k initName with
  | some f => simp [hf] at hn
  | none =>
    simp only [hf, Option.map_eq_some_iff] at hn
    obtain ⟨⟨a, t⟩, ht, rfl⟩ := hn
    obtain ⟨k', hk'⟩ := Regime.exists_of_search ht
    simp [hk, ht, hm.constructors hk']

end Machine

/-- A call that does not have as many arguments as the code of the host reads is refused, before
anything else is done. -/
theorem Activity.run_call_of_arity_ne {m : Machine} {f : Value} {args : List Value} {n : Nat}
    (c : Context) (fuel : Nat) (hm : m.Closed) (hf : m.heap.has f = true)
    (hn : m.heap.hostArity? f = some n) (hlen : args.length ≠ n) :
    (Activity.call f args).run c (fuel + 1) m = .fail (.arity m.line n args.length) m := by
  rw [run_succ]
  cases f with
  | function f =>
    have harity := hm.arity_of_hostArity? hn
    rw [← harity] at hlen ⊢
    exact Evaluation.callFunction_of_arity_ne c _ hf (Ne.symm hlen)
  | class_ k =>
    obtain ⟨hk, harity⟩ := hm.constructor_of_hostArity? hf hn
    rw [← harity] at hlen ⊢
    exact Evaluation.instantiate_of_arity_ne _ hk (Ne.symm hlen)
  | _ => cases hn

/-! ### Runs -/

/-- The handles that an activity is given are of what is there. -/
def Activity.Grounded (h : Heap) : Activity → Prop
  | .call f args => h.has f = true ∧ ∀ v ∈ args, h.has v = true
  | _ => True

namespace Session

variable {s : Session} {fuel : Nat} {src : Source}

theorem Starts.grounded {b : Activity} {m : Machine} (h : s.Starts fuel src b m)
    (hs : s.machine.Closed) : m.Closed ∧ b.Grounded m.heap := by
  have hready := Regime.ready_of_programReaches (R := Regime.closed _) h.2 hs fun _ _ => trivial
  refine ⟨hready.inv, ?_⟩
  cases b with
  | call f args => exact hready.fits
  | _ => trivial

theorem program_ne_crash (p : Program) (locals : List (Nat × Nat)) (hs : s.machine.Closed) :
    Evaluation.program (s.learn locals).context fuel p.stmts s.machine ≠ .crash := by
  have hw := (Regime.keeps_program (R := Regime.closed (s.learn locals).context) fuel p.stmts hs
    fun _ _ => trivial).2
  intro hcrash
  unfold Run.wp at hw
  rw [hcrash] at hw
  exact hw

/-- In every session that runs of scripts lead to, and in every state that a further run reaches, the
handles that are stored or passed on are of what is there. A call of the host's code with another number
of arguments than it was declared with is refused. The run does not crash. -/
theorem handles_never_dangle (hs : s.Reachable) :
    s.machine.Closed ∧
    (∀ fuel src b m, s.Starts fuel src b m → m.Closed ∧ b.Grounded m.heap) ∧
    (∀ fuel src f args m n, s.Starts fuel src (.call f args) m → m.heap.hostArity? f = some n →
      args.length ≠ n → ∀ c k,
        (Activity.call f args).run c (k + 1) m = .fail (.arity m.line n args.length) m) ∧
    (∀ fuel src, let compiled := Compiled.ofSource src s.nextId
      Evaluation.program (s.learn compiled.locals).context fuel compiled.program.stmts s.machine ≠
        .crash) := by
  have hclosed := hs.closed
  refine ⟨hclosed, fun fuel src b m h => h.grounded hclosed, ?_, fun fuel src => ?_⟩
  · intro fuel src f args m n h hn hlen c k
    obtain ⟨hm, hf, -⟩ := h.grounded hclosed
    exact Activity.run_call_of_arity_ne c k hm hf hn hlen
  · exact program_ne_crash _ _ hclosed

/-- A script that makes an instance, binds a method and calls the host. -/
def objectScript : Source :=
  ⟨"objects", "class A \x7b m(x) \x7b return vec2(x, 2.0); \x7d \x7d var f = A().m; " ++
    "print f(1.0).add(f(2.0)).x;"⟩

theorem handles_never_dangle_objectScript :
    ∃ s, (Session.new 8 (.ofInput [])).run 40 objectScript = some (.ok (), s) ∧ s.Reachable ∧
      s.machine.Closed := by
  have hruns : ((Session.new 8 (.ofInput [])).run 40 objectScript).any
      (fun r => r.1 matches .ok _) = true := by
    decide +kernel
  obtain ⟨⟨r, s⟩, hrun, hr⟩ := Option.any_eq_true _ _ |>.mp hruns
  cases r with
  | error e => cases hr
  | ok u =>
    have hs : s.Reachable := .run (.new 8 (.ofInput [])) hrun
    exact ⟨s, hrun, hs, (handles_never_dangle hs).1⟩

end Session

end HostScript
