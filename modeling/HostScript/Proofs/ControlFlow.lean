import HostScript.Proofs.Initializers
import HostScript.Proofs.Returning

/-!
# Control flow of scripts without errors

A script that compiles without errors returns from functions only, and whenever it calls an initializer,
the initializer is bound to an instance, which the call gives. So that an initializer has no instance is
never found out at run time.
-/

namespace HostScript

open Resolution (thisName superName)

/-! ### What an initializer gives -/

namespace Evaluation

variable {c : Context} {r : Inner} {m m' : Machine} {f : CallableId} {d : FunctionDecl}
  {closure : ScopeId} {isInit : Bool} {args : List Value} {v : Value} {k : Completion}

/-- What an initializer gives is read off its scope. -/
theorem callResult_of_own? (hv : m.store.own? closure thisName = some v) :
    callResult closure true k m = .done v m := by
  have hread : m.store.getAt? closure 0 thisName = some v := hv
  unfold callResult
  rw [if_pos rfl, Run.read_bind_apply, hread]
  rfl

theorem callFunction_ends (hc : m.heap.callable f = .script d closure isInit)
    (h : callFunction c r f args m = .done v m') :
    ∃ k m₁, Activity.Ends c r (.call (.function f) args) m closure isInit k m₁ ∧
      callResult closure isInit k m₁ = .done v m' := by
  obtain ⟨_, m₁, hdemand, hread⟩ := Run.bind_eq_done h
  obtain ⟨-, rfl⟩ := Run.demand_eq_done hdemand
  obtain ⟨_, _, ⟨⟩, harity⟩ := Run.bind_eq_done hread
  dsimp only at harity
  rw [hc] at harity
  obtain ⟨_, m₂, hchecked, hscript⟩ := Run.bind_eq_done harity
  obtain ⟨hlen, rfl⟩ := checkArity_eq_done hchecked
  obtain ⟨_, m₃, hchecked', hopen⟩ := Run.bind_eq_done hscript
  obtain ⟨hdepth, rfl⟩ := checkDepth_eq_done hchecked'
  obtain ⟨_, _, ⟨⟩, hcall⟩ := Run.bind_eq_done hopen
  obtain ⟨k, m₄, hended, hresult⟩ := Run.bind_eq_done hcall
  obtain ⟨m₅, hm₅, rfl⟩ := Run.deeper_eq_done hended
  obtain ⟨m₆, hm₆, rfl⟩ := Run.inScope_eq_done hm₅
  exact ⟨k, _, .body hc hlen.symm hdepth hm₆, hresult⟩

end Evaluation

namespace Regime

variable {c : Context} {m₀ m m' : Machine} {n : Nat} {a : Activity} {f : CallableId}
  {i : InstanceId} {closure : ScopeId} {isInit : Bool} {k : Completion}

/-- When the body of a bound method has come to its end, `this` is what it was. -/
theorem own?_of_ends {args : List Value} {d : FunctionDecl}
    (h : Activity.Ends c (Evaluation.layer c n) (.call (.function f) args) m closure isInit k m')
    (ha : (initialized c m₀).Ready (.call (.function f) args) m) (hb : m.BoundTo f i)
    (hc : m.heap.callable f = .script d closure isInit) :
    m'.store.own? closure thisName = some (.instance_ i) := by
  obtain ⟨-, hgrows⟩ := (initialized c m₀).keeps_of_ends h ha
  obtain ⟨-, hown⟩ := hb
  rw [hc] at hown
  exact hgrows.store.reserved (.inl rfl) hown

/-- An initializer gives the instance that it is bound to. -/
theorem eq_instance_of_call {args : List Value} {d : FunctionDecl} {v : Value}
    (ha : (initialized c m₀).Ready (.call (.function f) args) m) (hb : m.BoundTo f i)
    (hc : m.heap.callable f = .script d closure true)
    (h : Evaluation.call c n (.function f) args m = .done v m') : v = .instance_ i := by
  cases n with
  | zero => cases h
  | succ n =>
    obtain ⟨k, m₁, hends, hresult⟩ := Evaluation.callFunction_ends hc h
    have hown := own?_of_ends hends ha hb hc
    rw [Evaluation.callResult_of_own? hown] at hresult
    cases hresult
    rfl

end Regime

/-! ### No initializer without an instance -/

/-- An initializer was called that is bound to no instance. -/
def Cut.unbound : Cut where
  fuel := False
  error e := ∃ line, e = .type line .loneInitializer
  shows := False
  ofScriptCall := by
    rintro _ ⟨line, rfl⟩
    rfl

namespace Cut

variable {c : Context} {m₀ m : Machine} {n : Nat}

theorem unbound_agree_run {a : Activity} (ha : (Regime.initialized c m₀).Ready a m) :
    unbound.Agree (a.run c n) (a.run c n) m := by
  induction n generalizing a m with
  | zero =>
    refine .of_not_cut ?_
    rw [Activity.run_zero]
    exact id
  | succ n ih =>
    rw [Activity.run_succ]
    refine agree_step (d := c.maxDepth) (fun b m' hb => ih (Regime.ready_of_begins hb ha)) ?_ ?_
    · refine .of_not_cut ?_
      unfold Evaluation.checkDepth
      split
      · exact id
      · rintro ⟨line, ⟨⟩⟩
    · intro closure isInit k m' hends
      cases isInit with
      | false =>
        cases k <;> exact .pure _
      | true =>
        obtain ⟨f, args, d, hc, rfl⟩ : ∃ f args d, m.heap.callable f = .script d closure true ∧
            a = .call (.function f) args := by
          cases hends with
          | body hd => exact ⟨_, _, _, hd, rfl⟩
        obtain ⟨i, hb⟩ := (ha.fits.1 f rfl).2 ⟨d, closure, hc⟩
        refine .of_not_cut ?_
        rw [Evaluation.callResult_of_own? (Regime.own?_of_ends hends ha hb hc)]
        exact id

theorem unbound_agree_program {stmts : List Stmt} (hm : m₀.Initialized m)
    (hs : ∀ s ∈ stmts, ∃ c ss, s.Known (fun _ => True) c ss) :
    unbound.Agree (Evaluation.program c n stmts) (Evaluation.program c n stmts) m := by
  induction stmts generalizing m with
  | nil => exact .pure ()
  | cons s rest ih =>
    have hready : (Regime.initialized c m₀).Ready (.exec s) m := ⟨hm, hs s List.mem_cons_self⟩
    have hexec : unbound.Agree (Evaluation.exec c n s) (Evaluation.exec c n s) m :=
      unbound_agree_run hready
    refine hexec.bind fun k m₁ hk => ih ?_ fun t ht => hs t (List.mem_cons_of_mem _ ht)
    exact ((Regime.keeps_run n hready).done hk).1

end Cut

/-! ### Where initializers come from -/

namespace Machine

variable {c : Context} {r : Inner} {m₀ m m' : Machine} {g : CallableId} {i : InstanceId} {x : String}
  {line : Nat}

/-- A method that is got from an instance is bound to it. -/
theorem Initialized.boundTo_of_getProperty (h : m₀.Initialized m)
    (hfield : (m.heap.instance_ i).field? m.store.cells x = none)
    (hg : getProperty i x line m = .done (.function g) m') :
    m'.BoundTo g i ∧ m'.heap.HasMethod x g := by
  obtain ⟨_, m₁, hdemand, hread⟩ := Run.bind_eq_done hg
  obtain ⟨-, rfl⟩ := Run.demand_eq_done hdemand
  obtain ⟨_, _, ⟨⟩, hbound⟩ := Run.bind_eq_done hread
  dsimp only at hbound
  rw [hfield] at hbound
  obtain ⟨_, _, ⟨⟩, hclass⟩ := Run.bind_eq_done hbound
  dsimp only at hclass
  cases hb : (m₁.heap.instance_ i).bound.get? x with
  | some f =>
    rw [hb] at hclass
    cases hclass
    exact h.remembered i x _ hb
  | none =>
    rw [hb] at hclass
    obtain ⟨k, m₂, ⟨⟩, hfind⟩ := Run.bind_eq_done hclass
    obtain ⟨f, m₃, hf, hput⟩ := Run.bind_eq_done hfind
    obtain ⟨_, _, ⟨⟩, hend⟩ := Run.bind_eq_done hput
    cases hend
    have hbound : m₃.BoundTo g i ∧ m₃.heap.HasMethod x g := h.boundTo_of_bindFound hf
    exact hbound

theorem superclass_still {d : Nat} {k : ClassId} (h : Evaluation.superclass d line m = .done k m') :
    m' = m := by
  obtain ⟨_, m₁, ⟨⟩, hread⟩ := Run.bind_eq_done h
  obtain ⟨v, m₂, hv, hclass⟩ := Run.bind_eq_done hread
  obtain ⟨-, rfl⟩ := Run.ofOption_eq_done hv
  exact (Run.ofExcept_eq_done hclass).2

/-- The instance that a method of the superclass is bound to is that of `this`. -/
theorem receiver_cases {d : Nat} (h : Evaluation.receiver d line m = .done i m') :
    m' = m ∧ ∃ j, d = j + 1 ∧ m.store.getAt? m.env j thisName = some (.instance_ i) := by
  obtain ⟨_, m₁, ⟨⟩, hread⟩ := Run.bind_eq_done h
  obtain ⟨v, m₂, hv, hinstance⟩ := Run.bind_eq_done hread
  obtain ⟨hthis, rfl⟩ := Run.ofOption_eq_done hv
  obtain ⟨hi, rfl⟩ := Run.ofExcept_eq_done hinstance
  cases d with
  | zero => cases hthis
  | succ j =>
    cases v with
    | instance_ i' => cases hi; exact ⟨rfl, j, rfl, hthis⟩
    | _ => cases hi

theorem Initialized.boundTo_of_superMethod {id : Nat} (h : m₀.Initialized m)
    (hg : Evaluation.superMethod c id x line m = .done (.function g) m') :
    ∃ d i, c.locals id = some (d + 1) ∧ m.store.getAt? m.env d thisName = some (.instance_ i) ∧
      m'.BoundTo g i ∧ m'.heap.HasMethod x g := by
  unfold Evaluation.superMethod at hg
  cases hlocal : c.locals id with
  | none => rw [hlocal] at hg; cases hg
  | some d =>
    rw [hlocal] at hg
    obtain ⟨k, m₁, hk, hreceive⟩ := Run.bind_eq_done hg
    obtain rfl := superclass_still hk
    obtain ⟨i, m₂, hi, hfind⟩ := Run.bind_eq_done hreceive
    obtain ⟨rfl, j, rfl, hthis⟩ := receiver_cases hi
    obtain ⟨f, m₃, hf, hend⟩ := Run.bind_eq_done hfind
    cases hend
    exact ⟨j, i, rfl, hthis, h.boundTo_of_bindFound hf⟩

/-- A class with an initializer gives the new instance. -/
theorem eq_instance_of_instantiate {k : ClassId} {f : CallableId} {args : List Value} {v : Value}
    (hf : m.heap.findMethod k initName = some f)
    (h : Evaluation.instantiate r k args m = .done v m') : v = .instance_ m.nextInstance := by
  obtain ⟨_, m₁, hdemand, hread⟩ := Run.bind_eq_done h
  obtain ⟨-, rfl⟩ := Run.demand_eq_done hdemand
  obtain ⟨_, _, ⟨⟩, harity⟩ := Run.bind_eq_done hread
  obtain ⟨_, m₂, hchecked, hfind⟩ := Run.bind_eq_done harity
  obtain ⟨-, rfl⟩ := Evaluation.checkArity_eq_done hchecked
  obtain ⟨_, _, ⟨⟩, hfound⟩ := Run.bind_eq_done hfind
  dsimp only at hfound
  rw [hf] at hfound
  obtain ⟨i, m₃, ⟨⟩, hline⟩ := Run.bind_eq_done hfound
  obtain ⟨_, _, ⟨⟩, hbind⟩ := Run.bind_eq_done hline
  obtain ⟨_, _, -, hcall⟩ := Run.bind_eq_done hbind
  obtain ⟨_, _, -, hend⟩ := Run.bind_eq_done hcall
  cases hend
  rfl

end Machine

/-- What is so of methods named `init` where an activity is started. Whichever is called is bound to an
instance and gives it; a class binds its own to the new instance and gives that one; a method that is got
from an instance, or through `super`, is bound to it, and stays so; and none is found without an instance. -/
structure InitializersInOrder (c : Context) (a : Activity) (m : Machine) : Prop where
  gives : ∀ f args, a = .call (.function f) args → m.heap.IsInitializer f →
    ∃ i, m.BoundTo f i ∧
      ∀ n v m', Evaluation.call c n (.function f) args m = .done v m' → v = .instance_ i
  ofClass : ∀ k args f line g m', a = .call (.class_ k) args →
    m.heap.findMethod k initName = some f →
    Machine.bindMethod f m.nextInstance line (m.addInstance (.plain k)) = .done g m' →
    m'.BoundTo g m.nextInstance ∧ m'.heap.IsInitializer g ∧
      ∀ n v m', Evaluation.call c n (.class_ k) args m = .done v m' → v = .instance_ m.nextInstance
  ofInstance : ∀ i line g m', (m.heap.instance_ i).field? m.store.cells initName = none →
    Machine.getProperty i initName line m = .done (.function g) m' →
    m'.BoundTo g i ∧ m'.heap.IsInitializer g
  ofSuper : ∀ id line g m', Evaluation.superMethod c id initName line m = .done (.function g) m' →
    ∃ d i, c.locals id = some (d + 1) ∧ m.store.getAt? m.env d thisName = some (.instance_ i) ∧
      m'.BoundTo g i ∧ m'.heap.IsInitializer g
  lasts : ∀ f i, m.BoundTo f i → ∀ n,
    (a.run c n).wp ⟨fun _ m' => m'.BoundTo f i, fun _ m' => m'.BoundTo f i, True⟩ m ∧
      ∀ b m', Activity.Reaches c n a m b m' → m'.BoundTo f i
  bound : ∀ n line m', a.run c n m ≠ .fail (.type line .loneInitializer) m'

theorem Machine.Initialized.here {m₀ m : Machine} (h : m₀.Initialized m) : m.Initialized m :=
  { h with later := .refl m }

theorem Regime.initializersInOrder {c : Context} {m₀ m : Machine} {a : Activity}
    (ha : (initialized c m₀).Ready a m) : InitializersInOrder c a m where
  gives := by
    rintro f args rfl hinit
    obtain ⟨i, hb⟩ := (ha.fits.1 f rfl).2 hinit
    obtain ⟨d, closure, hc⟩ := hinit
    exact ⟨i, hb, fun n v m' h => eq_instance_of_call ha hb hc h⟩
  ofClass := by
    rintro k args f line g m' rfl hf hg
    have hm : (m.addInstance (.plain k)).heap.HasMethod initName f := ha.inv.findMethod hf
    obtain ⟨hb, -, hinit⟩ := Machine.boundTo_of_bindMethod hm hg
    refine ⟨hb, hinit.mpr rfl, fun n v m' h => ?_⟩
    cases n with
    | zero => cases h
    | succ n => exact Machine.eq_instance_of_instantiate hf h
  ofInstance i line g m' hfield hg := by
    obtain ⟨hb, -, hinit⟩ := ha.inv.boundTo_of_getProperty hfield hg
    exact ⟨hb, hinit.mpr rfl⟩
  ofSuper id line g m' hg := by
    obtain ⟨d, i, hd, hi, hb, -, hinit⟩ := ha.inv.boundTo_of_superMethod hg
    exact ⟨d, i, hd, hi, hb, hinit.mpr rfl⟩
  lasts f i hb n := by
    -- Seen from this machine, all that comes is later.
    have hhere : (initialized c m).Ready a m := ⟨ha.inv.here, ha.fits⟩
    refine ⟨?_, fun b m' h => ?_⟩
    · refine Run.wp_mono (keeps_run n hhere).2 ?_ ?_ id
      · exact fun _ m' h => hb.mono h.1.later
      · exact fun _ m' h => hb.mono h.1.later
    · exact hb.mono (ready_of_reaches h hhere).inv.later
  bound n line m' h := by
    refine (Cut.unbound_agree_run (n := n) ha).cut ?_
    rw [h]
    exact ⟨line, rfl⟩

/-! ### Sessions -/

/-- No instance has remembered a method, and no class has an initializer. -/
structure Machine.Unused (m : Machine) : Prop where
  remembered : ∀ i x, (m.heap.instance_ i).bound.get? x = none
  tables : ∀ k, (m.heap.class_ k).methods.get? initName = none

def Frame.unused : Frame where
  inv := Machine.Unused
  le _ _ := True
  crash := True
  le_refl _ := trivial
  le_trans _ _ := trivial

namespace Machine.Unused

variable {m : Machine}

theorem keeps_register (h : m.Unused) (t : HostType) :
    Frame.unused.Keeps (Machine.register t) (Machine.register t) (fun _ _ => True) m := by
  refine Frame.keeps_register (T := fun table _ => table.get? initName = none) rfl ?_ ?_ h
  · intro m table g _ h ht
    refine ⟨⟨h.remembered, h.tables⟩, trivial, ?_⟩
    rw [Bindings.get?_insert, if_neg g.name_ne_initName.symm]
    exact ht
  · intro m table h ht
    refine ⟨⟨h.remembered, fun k => ?_⟩, trivial, trivial⟩
    have hclass := m.heap.class_newClass ⟨t.name, none, table, .native t.arity t⟩ k
    refine (congrArg (·.methods.get? initName) hclass).trans ?_
    split
    · exact ht
    · exact h.tables k

theorem session (maxDepth : Nat) (console : Console) :
    (Session.new maxDepth console).machine.Unused := by
  have hbare : (Session.bare maxDepth console).machine.Unused := ⟨fun _ _ => rfl, fun _ => rfl⟩
  refine Frame.inv_new (F := .unused) hbare (Frame.keeps_prelude ?_ ?_ ?_ hbare)
  · exact fun h x n g _ _ _ => ⟨rfl, ⟨h.remembered, h.tables⟩, trivial, trivial⟩
  · exact fun h x v _ _ => ⟨rfl, ⟨h.remembered, h.tables⟩, trivial, trivial⟩
  · exact fun h t => h.keeps_register t

end Machine.Unused

namespace Session

variable {s s' : Session} {ps : List Program} {held : List Value}

/-- Functions and methods are in order, also those that the host has got hold of. -/
structure Initialized (s : Session) (held : List Value) : Prop where
  machine : s.machine.Initialized s.machine
  held : ∀ v ∈ held, s.machine.Settled v

theorem initialized_new (maxDepth : Nat) (console : Console) :
    (new maxDepth console).Initialized [] := by
  have hhost := Machine.HostOnly.session maxDepth console
  have hclosed := closed_new maxDepth console
  have hunused := Machine.Unused.session maxDepth console
  have hnone f : ¬ (new maxDepth console).machine.heap.IsInitializer f :=
    Heap.not_isInitializer_of_isNative (hhost.callables f)
  refine ⟨⟨.refl _, fun f d closure isInit hd => ?_, ?_, fun k x f hf => ?_, fun i x f hf => ?_⟩,
    nofun⟩
  · have hnative := hhost.callables f
    rw [hd] at hnative
    cases hnative
  · refine hclosed.stores.mono (fun v hv f hf => ?_) fun _ _ => trivial
    subst hf
    exact ⟨hv, fun hinit => absurd hinit (hnone f)⟩
  · refine ⟨hclosed.stores.methods hf, iff_of_false (hnone f) ?_⟩
    rintro rfl
    rw [hunused.tables k] at hf
    cases hf
  · rw [hunused.remembered i x] at hf
    cases hf

/-- Seen from a later machine on which all is in order. -/
theorem Initialized.later (h : s.Initialized held) (t : Session) {m : Machine}
    (hm : s.machine.Initialized m) : { t with machine := m }.Initialized held :=
  ⟨hm.here, fun v hv => (h.held v hv).mono hm.later⟩

theorem SameButErrors.initialized (h : SameButErrors s s') (hs : s.Initialized held) :
    s'.Initialized held := by
  obtain ⟨k, hm⟩ := h.machine
  have hlater := hs.later s' ((Regime.initialized s.context s.machine).console hs.machine k).1
  rwa [← hm] at hlater

theorem initialized_of_interpret {fuel : Nat} {p : Program} {locals : List (Nat × Nat)}
    {r : Except RuntimeError Unit} (hs : s.Initialized held)
    (hp : ∀ t ∈ p.stmts, ∃ c ss, t.Known (fun _ => True) c ss)
    (hrun : s.interpret fuel p locals = some (r, s')) : s'.Initialized held := by
  have hw := (Regime.keeps_program (R := Regime.initialized (s.learn locals).context s.machine) fuel
    p.stmts hs.machine hp).2
  unfold Run.wp at hw
  obtain ⟨m, hend, -, rfl⟩ | ⟨e, m, hend, -, rfl⟩ := interpret_cases hrun
  · rw [hend] at hw
    exact hs.later _ hw.1
  · rw [hend] at hw
    exact hs.later _ (hw.1.moved .globals 0)

theorem Initialized.called {fuel : Nat} {f : Value} {args : List Value}
    {r : Except RuntimeError Value} (hs : s.Initialized held) (hf : f ∈ held)
    (hargs : ∀ v ∈ args, v ∈ held) (hcall : s.call fuel f args = some (r, s')) :
    s'.Initialized (gained (fun v => [v]) r ++ held) := by
  have hw := (Regime.keeps_callByHost (R := Regime.initialized s.context s.machine) fuel hs.machine
    (hs.held f hf) fun v hv => hs.held v (hargs v hv)).2
  unfold Run.wp at hw
  obtain ⟨v, m, hend, rfl, rfl⟩ | ⟨e, m, hend, rfl, rfl⟩ := perform_cases hcall
  · rw [hend] at hw
    obtain ⟨hinv, -, hv⟩ := hw
    obtain ⟨hm, hheld⟩ := hs.later s hinv
    exact ⟨hm, List.forall_mem_cons.mpr ⟨hv, hheld⟩⟩
  · rw [hend] at hw
    exact hs.later _ hw.1

/-- The statements of a script without errors are in order. -/
theorem known_of_compiled {src : Source} {firstId : Nat}
    (hok : (Compiled.ofSource src firstId).diagnostics.hasErrors = false) :
    ∀ t ∈ (Compiled.ofSource src firstId).program.stmts, ∃ c ss, t.Known (fun _ => True) c ss := by
  obtain ⟨haccepted, -⟩ := Compiled.accepted hok
  exact fun t ht => ⟨.topLevel, [], haccepted.known (fun _ _ => trivial) t ht⟩

theorem Course.initialized {s₀ : Session} {a₀ a : Account} (h : Course .idle s₀ a₀ s a)
    (h₀ : s₀.Initialized a₀.held) : s.Initialized a.held := by
  induction h with
  | here => exact h₀
  | @ran s s' a fuel src r _ hrun ih =>
    have hs : Initialized { s with nextId := (Compiled.ofSource src s.nextId).nextId } a.held :=
      ⟨ih.machine, ih.held⟩
    obtain ⟨-, hsame⟩ | ⟨hok, r₁, s₁, hint, hsame⟩ := run_cases hrun
    · exact hsame.initialized hs
    · exact hsame.initialized (initialized_of_interpret hs (known_of_compiled hok) hint)
  | called _ hf hargs hcall ih => exact ih.called hf hargs hcall
  | acted _ hact => exact hact.elim
  | made _ hv ih => exact ⟨ih.machine, List.forall_mem_cons.mpr ⟨Machine.settled_plain hv, ih.held⟩⟩
  | read _ hv ih =>
    obtain ⟨p, hp⟩ := Store.own?_of_get? hv
    exact ⟨ih.machine, List.forall_mem_cons.mpr ⟨ih.machine.values.vars hp, ih.held⟩⟩

theorem History.initialized (h : s.History ps held) : s.Initialized held :=
  let ⟨maxDepth, console, hcourse⟩ := h
  hcourse.initialized (initialized_new maxDepth console)

/-- A runtime error that stops a script is that of its program. -/
theorem run_eq_runtime {fuel : Nat} {src : Source} {e : RuntimeError}
    (h : s.run fuel src = some (.error (.runtime e), s')) :
    let compiled := Compiled.ofSource src s.nextId
    compiled.diagnostics.hasErrors = false ∧
      ∃ m, Evaluation.program (s.learn compiled.locals).context fuel compiled.program.stmts
        s.machine = .fail e m := by
  intro compiled
  unfold run at h
  dsimp only at h
  split at h
  · cases h
  · rename_i hok
    refine ⟨Bool.eq_false_iff.mpr hok, ?_⟩
    split at h
    · cases h
    · rename_i hrun
      cases h
      obtain ⟨m, -, hr, -⟩ | ⟨e', m, hend, hr, -⟩ := interpret_cases hrun
      · cases hr
      · cases hr
        exact ⟨m, hend⟩
    · cases h

/-- The control flow of scripts without errors is well formed, whatever their session has gone through.
No statement of such a script returns to the top level; where anything is started, by a script or by the
host, initializers are in order; and that one has no instance is never the error that ends it. -/
theorem control_flow_in_order (hs : s.History ps held) :
    (∀ src, let compiled := Compiled.ofSource src s.nextId
      compiled.diagnostics.hasErrors = false → ∀ t ∈ compiled.program.stmts,
        ∀ c n m v m', Evaluation.exec c n t m ≠ .done (.returning v) m') ∧
    (∀ fuel src a m, s.Starts fuel src a m →
      InitializersInOrder (s.learn (Compiled.ofSource src s.nextId).locals).context a m) ∧
    (∀ fuel src line s', s.run fuel src ≠
      some (.error (.runtime (.type line .loneInitializer)), s')) ∧
    (∀ fuel f args, f ∈ held → (∀ v ∈ args, v ∈ held) →
      (∀ a m, s.CallStarts fuel f args a m → InitializersInOrder s.context a m) ∧
      ∀ line s', s.call fuel f args ≠ some (.error (.type line .loneInitializer), s')) := by
  have hinit := hs.initialized
  refine ⟨fun src => ?_, fun fuel src a m h => ?_, fun fuel src line s' h => ?_,
    fun fuel f args hf hargs => ?_⟩
  · intro compiled hok t ht c n
    obtain ⟨haccepted, -⟩ := Compiled.accepted hok
    have hreturns := Resolution.listReturns_of_faultless .none [] _ haccepted.resolved
    exact (Evaluation.completes_layer c n).exec t (Stmt.returns_of_mem ht hreturns)
  · obtain ⟨hok, hreaches⟩ := h
    exact Regime.initializersInOrder
      (Regime.ready_of_programReaches hreaches hinit.machine (known_of_compiled hok))
  · obtain ⟨hok, m, hfail⟩ := run_eq_runtime h
    have hagree := Cut.unbound_agree_program (n := fuel)
      (c := (s.learn (Compiled.ofSource src s.nextId).locals).context) hinit.machine
      (known_of_compiled hok)
    refine hagree.cut ?_
    rw [hfail]
    exact ⟨line, rfl⟩
  · have hready := Regime.ready_callByHost (R := Regime.initialized s.context s.machine)
      hinit.machine (hinit.held f hf) fun v hv => hinit.held v (hargs v hv)
    refine ⟨fun a m h => Regime.initializersInOrder (Regime.ready_of_reaches h hready), ?_⟩
    intro line s' h
    obtain ⟨v, m, -, hr, -⟩ | ⟨e, m, hend, hr, -⟩ := perform_cases h
    · cases hr
    · cases hr
      exact (Regime.initializersInOrder hready).bound fuel line m hend

/-- A script has no errors and begins with a call of an initializer that comes to its end. -/
def callsInitializer (s : Session) (n : Nat) (src : Source) : Bool :=
  let compiled := Compiled.ofSource src s.nextId
  let c := (s.learn compiled.locals).context
  !compiled.diagnostics.hasErrors && match compiled.program.stmts with
  | .expr (.call k f as) _ :: _ =>
    match Evaluation.eval c n f s.machine with
    | .done (.function g) m₁ =>
      match Evaluation.arguments (Evaluation.eval c n) as m₁ with
      | .done vs m₂ =>
        match m₂.heap.callable g,
          Evaluation.call c n (.function g) vs { m₂ with line := k.span.line } with
        | .script _ _ true, .done _ _ => true
        | _, _ => false
      | _ => false
    | _ => false
  | _ => false

theorem starts_of_callsInitializer {n : Nat} {src : Source}
    (h : s.callsInitializer n src = true) :
    ∃ g args m v m', s.Starts (n + 2) src (.call (.function g) args) m ∧ m.heap.IsInitializer g ∧
      Evaluation.call (s.learn (Compiled.ofSource src s.nextId).locals).context n (.function g) args
        m = .done v m' := by
  unfold callsInitializer at h
  dsimp only at h
  obtain ⟨herr, h⟩ := Bool.and_eq_true_iff.mp h
  have hok : (Compiled.ofSource src s.nextId).diagnostics.hasErrors = false := by
    simpa using herr
  split at h
  · rename_i k _ _ sp _ hstmts
    split at h
    · rename_i hf
      split at h
      · rename_i hvs
        split at h
        · rename_i d closure v m' hc hcall
          have hreaches := Activity.Reaches.inside (Activity.enters_expr _ sp)
            (.inside (Activity.enters_call k hf hvs) .here)
          refine ⟨_, _, _, v, m', ⟨hok, hstmts.symm ▸ ProgramReaches.first hreaches⟩,
            ⟨d, closure, ?_⟩, hcall⟩
          exact hc
        · cases h
      · cases h
    · cases h
  · cases h

/-- An initializer that calls that of the superclass. -/
def initScript : Source :=
  ⟨"init", "class A \x7b init(x) \x7b if (x) return; this.x = x; \x7d \x7d " ++
    "class B < A \x7b init(x) \x7b super.init(x); \x7d \x7d var f = B(false).init;"⟩

/-- The initializer is called again by a script that is run later. -/
def againScript : Source :=
  ⟨"again", "f(true);"⟩

theorem control_flow_in_order_againScript :
    ∃ (s : Session) (p : Program) (g : CallableId) (args : List Value) (m m' : Machine) (v : Value)
      (i : InstanceId), s.History [p] [] ∧
      s.Starts 20 againScript (.call (.function g) args) m ∧ m.heap.IsInitializer g ∧
      Evaluation.call (s.learn (Compiled.ofSource againScript s.nextId).locals).context 18
        (.function g) args m = .done v m' ∧ m.BoundTo g i ∧ v = .instance_ i := by
  have hruns : ((Session.new 8 (.ofInput [])).run 20 initScript).any (fun r =>
      !(Compiled.ofSource initScript (Session.new 8 (.ofInput [])).nextId).diagnostics.hasErrors &&
        r.2.callsInitializer 18 againScript) = true := by
    decide +kernel
  obtain ⟨⟨r, s⟩, hrun, h⟩ := Option.any_eq_true _ _ |>.mp hruns
  obtain ⟨herr, hcalls⟩ := Bool.and_eq_true_iff.mp h
  have hs := History.ran (.new 8 (.ofInput [])) hrun
  rw [Compiled.runnable_of_ok (by simpa using herr)] at hs
  obtain ⟨g, args, m, v, m', hstarts, hinit, hcall⟩ := starts_of_callsInitializer hcalls
  have horder := (control_flow_in_order hs).2.1 _ _ _ _ hstarts
  obtain ⟨i, hb, hgives⟩ := horder.gives g args rfl hinit
  exact ⟨s, _, g, args, m, m', v, i, hs, hstarts, hinit, hcall, hb, hgives _ _ _ hcall⟩

end Session

end HostScript
