import HostScript.Proofs.ControlFlow
import HostScript.Proofs.Matching.Evaluation

/-!
# Hosts that keep a machine matched

Between runs a host may show its objects to scripts, as instances of a class for their type, register
types, provide functions, declare classes of functions that it holds, and use the values it holds. All of
that keeps a machine matched, so a session is matched wherever such a host brings it.
-/

namespace HostScript

theorem not_reserved_of_ofText? {x : String} (h : Keyword.ofText? x = none) : ¬ Reserved x :=
  fun hx => ofText?_of_reserved hx h

theorem HostType.not_reserved_name (t : HostType) : ¬ Reserved t.name := by
  cases t with
  | vector n =>
    rintro (h | h) <;> replace h := congrArg String.toList h <;>
      simp [name, Resolution.thisName, Resolution.superName] at h
  | counter => exact not_reserved_of_ofText? rfl
  | byte => exact not_reserved_of_ofText? rfl

theorem HostMethod.type_of_mem_all {t : HostType} {g : HostMethod} (h : g ∈ all t) : g.type = t := by
  cases t with
  | vector n =>
    simp only [all, List.mem_cons, List.not_mem_nil, or_false] at h
    rcases h with rfl | rfl | rfl | rfl | rfl <;> rfl
  | counter =>
    simp only [all, List.mem_cons, List.not_mem_nil, or_false] at h
    rcases h with rfl | rfl | rfl <;> rfl
  | byte => cases h

/-- The host leaves alone the names that no script binds, shows an object as an instance of a class that was
registered for its type, and makes classes of functions of scripts only. -/
def HostPolicy.matching : HostPolicy := fun m act =>
  match act with
  | .define x _ | .provide x _ _ => ¬ Reserved x
  | .expose k o => (o.type, k) ∈ m.hostClasses
  | .declare _ _ methods =>
    ∀ f ∈ methods, ∃ d closure isInit, m.heap.callable f.2 = .script d closure isInit
  | .get .. | .set .. | .register .. | .wrap .. | .write .. => True

namespace Regime

variable {c : Context} {m₀ m : Machine} {held : List Value}

/-- The table of a class for a host type, with methods of the host that have no receiver yet. -/
def HostTable (m : Machine) (t : HostType) (table : Bindings CallableId) : Prop :=
  ∀ x f, table.get? x = some f → m.heap.hasCallable f = true ∧
    ∃ g, m.heap.callable f = .method g none ∧ g.name = x ∧ g.type = t

/-- A class for a host type, with a table of its methods, fits. -/
theorem matched_withHostClass {t : HostType} {table : Bindings CallableId} (hi : m.Matched)
    (ht : HostTable m t table) :
    (m.withHostClass t table).Matched ∧ m.Persists (m.withHostClass t table) ∧
      (m.withHostClass t table).Holds (.class_ m.nextClass) := by
  let k : Class := ⟨t.name, none, table, .native t.arity t⟩
  let m₁ : Machine := { m with
    heap := (m.heap.newClass k).2, hostClasses := [(t, m.nextClass)] ++ m.hostClasses }
  have hnew : m₁.heap.class_ m.nextClass = k := m.class_newClass k
  have hk : m₁.heap.hasClass m.nextClass = true := m.heap.hasClass_newClass k
  have hle : m.Persists m₁ := m.persists_newClass k _
  have htypes : (t, m.nextClass) ∈ m₁.hostClasses := List.mem_cons_self
  have hfits : m₁.ClassFits m.nextClass := by
    refine ⟨fun p hsuper => ?_, fun n t' hnative => ?_, fun x f hf => ?_⟩
    · rw [hnew] at hsuper
      cases hsuper
    · rw [hnew] at hnative
      cases hnative
      exact htypes
    · rw [hnew] at hf
      obtain ⟨hthere, g, hc, hname, rfl⟩ := ht x f hf
      obtain ⟨hthere', hsame⟩ := hle.callable hthere
      refine ⟨hthere', ?_⟩
      rw [hsame, hc]
      exact ⟨hname, htypes⟩
  have hm₁ : m₁.Matched := by
    refine hi.newClass k _ (fun _ => nofun) hfits fun t' j hj => ?_
    cases List.mem_singleton.mp hj
    exact ⟨hk, congrArg _ hnew, congrArg _ hnew⟩
  have hbound := m₁.persists_bind .globals t.not_reserved_name (.class_ m.nextClass)
  exact ⟨hm₁.bind .globals t.not_reserved_name (Machine.holds_class hk), hle.trans hbound,
    (Machine.holds_class hk).mono hbound⟩

theorem keeps_registerType (t : HostType) (hi : m.Matched) :
    (matched c m₀).Keeps (Machine.register t) (Machine.register t) (fun k m' => m'.Holds (.class_ k))
      m := by
  refine Frame.keeps_register (T := fun table m => HostTable m t table) (fun _ _ => nofun) ?_
    matched_withHostClass hi
  intro m table g hg hi ht
  have hp := m.persists_addCallable (.method g none)
  have hnew := m.callable_addCallable (.method g none)
  have hadded : (m.addCallable (.method g none)).Matched := by
    refine hi.addCallable nofun ?_
    unfold Machine.CallableFits
    rw [hnew]
    nofun
  refine ⟨hadded, hp, fun x f hf => ?_⟩
  rw [Bindings.get?_insert] at hf
  split at hf
  · rename_i hx
    cases hf
    exact ⟨m.heap.hasCallable_newCallable _, g, hnew, hx.symm, HostMethod.type_of_mem_all hg⟩
  · obtain ⟨hthere, y, hy, hname, htype⟩ := ht x f hf
    obtain ⟨hthere', hsame⟩ := hp.callable hthere
    exact ⟨hthere', y, hsame.trans hy, hname, htype⟩

theorem keeps_provide {x : String} (n : Nat) (g : Builtin) (hx : ¬ Reserved x) (hi : m.Matched) :
    (matched c m₀).Keeps (Machine.defineNative x n g) (Machine.defineNative x n g) (fun _ _ => True)
      m := by
  have hnew := m.callable_addCallable (.native x n g)
  have hadded : (m.addCallable (.native x n g)).Matched := by
    refine hi.addCallable nofun ?_
    unfold Machine.CallableFits
    rw [hnew]
    trivial
  have hf : (m.addCallable (.native x n g)).Holds (.function m.nextCallable) := by
    refine ⟨m.heap.hasCallable_newCallable _, ?_⟩
    rintro _ ⟨⟩
    unfold Machine.Presents
    rw [hnew]
    trivial
  exact ⟨rfl, hadded.bind .globals hx hf,
    (m.persists_addCallable _).trans (Machine.persists_bind .globals hx _), trivial⟩

theorem keeps_newClassOf {x : String} {parent : Option ClassId} {methods : List (String × CallableId)}
    (hi : m.Matched) (hp : ∀ p, parent = some p → m.Holds (.class_ p))
    (hms : ∀ f ∈ methods, m.Holds (.function f.2) ∧
      ∃ d closure isInit, m.heap.callable f.2 = .script d closure isInit) :
    (matched c m₀).Keeps (Machine.newClass ⟨x, parent, .ofList methods, .script⟩)
      (Machine.newClass ⟨x, parent, .ofList methods, .script⟩) (fun k m' => m'.Holds (.class_ k)) m := by
  let k : Class := ⟨x, parent, .ofList methods, .script⟩
  have hnew := m.class_newClass k
  have hle := m.persists_newClass k []
  refine ⟨rfl, hi.newClass k [] (fun p hk => (hp p hk).1) ⟨fun p hk => ?_, fun n t hk => ?_, ?_⟩ nofun,
    hle, Machine.holds_class (m.heap.hasClass_newClass k)⟩
  · rw [hnew] at hk
    exact of_decide_eq_true (hp p hk).1
  · rw [hnew] at hk
    cases hk
  · intro y f hf
    rw [hnew] at hf
    obtain ⟨⟨hthere, hpresents⟩, d, closure, isInit, hc⟩ :=
      hms (y, f) (Bindings.mem_of_get?_ofList hf)
    have hinside := hpresents f rfl
    unfold Machine.Presents at hinside
    rw [hc] at hinside
    obtain ⟨hthere', hsame⟩ := hle.callable hthere
    refine ⟨hthere', ?_⟩
    rw [hsame, hc]
    refine ⟨hinside.1, fun a ha => ?_⟩
    cases hinside.2.symm.trans ha

/-- What the host does keeps a machine matched, and so is what it gets. -/
theorem keeps_matchingAct {act : HostAct} (hact : HostPolicy.matching m act) (hi : m.Matched)
    (huses : ∀ v ∈ act.uses, m.Holds v) :
    (matched c m₀).Keeps act.run act.run (fun a m' => ∀ v ∈ act.gives a, m'.Holds v) m := by
  cases act with
  | get i x line =>
    exact (keeps_getProperty hi (huses _ List.mem_cons_self)).mono
      fun _ _ _ _ hv => List.forall_mem_singleton.mpr hv
  | set i x v line =>
    obtain ⟨hn, hv⟩ := List.forall_mem_cons.mp huses
    exact (keeps_setField hi hn (hv v List.mem_cons_self)).mono fun _ _ _ _ _ => nofun
  | define x v =>
    exact .update (hi.bind .globals hact (huses v List.mem_cons_self)) (m.persists_bind .globals hact _)
      nofun
  | provide x n g => exact (keeps_provide n g hact hi).mono fun _ _ _ _ _ => nofun
  | register t => exact (keeps_registerType t hi).mono fun _ _ _ _ hk => List.forall_mem_singleton.mpr hk
  | wrap o => exact (keeps_wrap o hi).mono fun _ _ _ _ hv => List.forall_mem_singleton.mpr hv
  | expose k o =>
    have hthere := (hi.types _ _ hact).1
    have hnative := hi.nativeConstructor (Heap.below_self hi.descends hthere) hact
    exact (keeps_newInstance hi (Machine.holds_class hthere) (Instance.fresh_ofHost k o)
      (.host (.inr ⟨_, hnative⟩))).mono fun _ _ _ _ hn => List.forall_mem_singleton.mpr hn
  | declare x parent methods =>
    obtain ⟨hparent, hmethods⟩ := List.forall_mem_append.mp huses
    refine (keeps_newClassOf hi (fun p hp => ?_) fun f hf => ⟨?_, hact f hf⟩).mono
      fun _ _ _ _ hk => List.forall_mem_singleton.mpr hk
    · exact hparent _ (List.mem_map_of_mem (Option.mem_toList.mpr hp))
    · exact hmethods _ (List.mem_map_of_mem hf)
  | write cells =>
    exact .update (hi.moved hi.env m.depth m.line m.console cells)
      ((Machine.Persists.refl m).moved m.env m.depth m.line m.console cells) nofun

end Regime

/-! ### Sessions -/

namespace Machine.Matched

variable {m : Machine}

theorem ofConsole (k : Console) : (Machine.ofConsole k).Matched where
  values := by
    refine ⟨?_, nofun, nofun, nofun, nofun, nofun, nofun, nofun⟩
    intro e x v hv
    rcases Store.own?_open_cases _ hv with hv | hv <;> cases hv
  env := ⟨Nat.one_pos, rfl⟩
  globals := ⟨Nat.one_pos, rfl⟩
  callables := nofun
  classes := nofun
  instances := nofun
  scopes e _ p i a hthis := by
    rcases Store.own?_open_cases _ hthis with hthis | hthis <;> cases hthis
  types := nofun

end Machine.Matched

namespace Session

/-- A session that such a host has brought to where it is, with the values that the host holds. -/
def Bridged (s : Session) (held : List Value) : Prop :=
  ∃ maxDepth console ps lent, Course .matching (new maxDepth console) .empty s ⟨ps, held, lent⟩

variable {s s' : Session} {held : List Value}

/-- The machine of a session is matched, and so are the values that the host holds. -/
structure Matched (s : Session) (held : List Value) : Prop where
  machine : s.machine.Matched
  held : ∀ v ∈ held, s.machine.Holds v

theorem matched_new (maxDepth : Nat) (console : Console) : (new maxDepth console).Matched [] := by
  have hbare : (bare maxDepth console).machine.Matched := .ofConsole console
  refine ⟨Frame.inv_new (F := (Regime.matched (bare maxDepth console).context
    (bare maxDepth console).machine).toFrame) hbare (Frame.keeps_prelude ?_ ?_ ?_ hbare), nofun⟩
  · exact fun hi x n g _ _ hx => Regime.keeps_provide n g (not_reserved_of_ofText? hx) hi
  · exact fun {m} hi x v hv hx => .update
      (hi.bind .globals (not_reserved_of_ofText? hx) (Machine.holds_plain hv))
      (m.persists_bind .globals (not_reserved_of_ofText? hx) v) trivial
  · exact fun hi t => (Regime.keeps_registerType t hi).mono fun _ _ _ _ _ => trivial

namespace Matched

/-- What keeps to the regime keeps a session matched. -/
theorem performed {α : Type} {x : Run α} {Q : α → Machine → Prop} {r : Except RuntimeError α}
    (hs : s.Matched held) (hx : (Regime.matched s.context s.machine).Keeps x x Q s.machine)
    (h : s.perform x = some (r, s')) : s'.Matched held ∧ ∀ a, r = .ok a → Q a s'.machine := by
  obtain ⟨a, m, hend, rfl, rfl⟩ | ⟨e, m, hend, rfl, rfl⟩ := perform_cases h
  · obtain ⟨hm, hle, hq⟩ := hx.done hend
    refine ⟨⟨hm, fun v hv => (hs.held v hv).mono hle⟩, ?_⟩
    rintro _ ⟨⟩
    exact hq
  · obtain ⟨hm, hle⟩ := hx.failed hend
    exact ⟨⟨hm, fun v hv => (hs.held v hv).mono hle⟩, nofun⟩

/-- The host gets hold of a value. -/
theorem hold (hs : s.Matched held) {v : Value} (hv : s.machine.Holds v) : s.Matched (v :: held) :=
  ⟨hs.machine, List.forall_mem_cons.mpr ⟨hv, hs.held⟩⟩

/-- The host gets hold of what comes of a result. -/
theorem holdResult (hs : s.Matched held) {α : Type} {gives : α → List Value} {r : Except RuntimeError α}
    (hr : ∀ a, r = .ok a → ∀ v ∈ gives a, s.machine.Holds v) : s.Matched (gained gives r ++ held) :=
  ⟨hs.machine, forall_mem_gained hr hs.held⟩

end Matched

theorem SameButErrors.matched (h : SameButErrors s s') (hs : s.Matched held) : s'.Matched held := by
  obtain ⟨k, hm⟩ := h.machine
  have hmoved := hs.machine.moved hs.machine.env s.machine.depth s.machine.line k s.machine.store.cells
  refine ⟨?_, ?_⟩ <;> rw [hm]
  · exact hmoved
  · exact hs.held

theorem Matched.ran (hs : s.Matched held) {fuel : Nat} {src : Source} {r : Except RunError Unit}
    (h : s.run fuel src = some (r, s')) : s'.Matched held := by
  obtain ⟨-, hsame⟩ | ⟨hok, r₁, s₁, hint, hsame⟩ := run_cases h
  · exact hsame.matched ⟨hs.machine, hs.held⟩
  · refine hsame.matched ?_
    have hkeeps := Regime.keeps_program
      (R := Regime.matched (s.learn (Compiled.ofSource src s.nextId).locals).context s.machine) fuel
      (Compiled.ofSource src s.nextId).program.stmts hs.machine (known_of_compiled hok)
    obtain ⟨m, hend, -, rfl⟩ | ⟨e, m, hend, -, rfl⟩ := interpret_cases hint
    · obtain ⟨hm, hle, -⟩ := hkeeps.done hend
      exact ⟨hm, fun v hv => (hs.held v hv).mono hle⟩
    · obtain ⟨hm, hle⟩ := hkeeps.failed hend
      have hheld : ∀ v ∈ held, m.Holds v := fun v hv => (hs.held v hv).mono hle
      exact ⟨hm.moved hm.globals 0 m.line m.console m.store.cells, hheld⟩

theorem Course.matched {s₀ : Session} {a₀ a : Account} (h : Course .matching s₀ a₀ s a)
    (h₀ : s₀.Matched a₀.held) : s.Matched a.held := by
  induction h with
  | here => exact h₀
  | ran _ hrun ih => exact ih.ran hrun
  | @called s _ _ fuel f args _ _ hf hargs hcall ih =>
    have hkeeps := Regime.keeps_callByHost (R := Regime.matched s.context s.machine) fuel ih.machine
      (ih.held f hf) fun v hv => ih.held v (hargs v hv)
    obtain ⟨hs', hr⟩ := ih.performed hkeeps hcall
    exact hs'.holdResult fun v hv => List.forall_mem_singleton.mpr (hr v hv)
  | acted _ hact huses hdo ih =>
    have hheld := fun v hv => ih.held v (huses v hv)
    obtain ⟨hs', hr⟩ := ih.performed (Regime.keeps_matchingAct hact ih.machine hheld) hdo
    exact hs'.holdResult hr
  | made _ hv ih => exact ih.hold (Machine.holds_plain hv)
  | read _ hv ih =>
    obtain ⟨e, he⟩ := Store.own?_of_get? hv
    exact ih.hold (ih.machine.values.vars he)

/-- A session is matched wherever such a host brings it. -/
theorem Bridged.matched (h : s.Bridged held) : s.Matched held :=
  let ⟨maxDepth, console, _, _, hcourse⟩ := h
  hcourse.matched (matched_new maxDepth console)

end Session

end HostScript
