import HostScript.Proofs.Courses
import HostScript.Proofs.Evolution.Effects
import HostScript.Proofs.Handles

/-!
# Sessions and their hosts

A host may do all that its interface lets it do (`HostPolicy.free`). `Session.Onward` follows a session in the
hands of such a host, with the values that the host holds and the instances that it has lent.

For what holds of machines, a step of a session is one of four kinds (`Machine.Follows`), so whatever
these keep is kept by every session.
-/

namespace HostScript

/-! ### Beside instances and cells -/

namespace Machine

variable {m₀ m m' : Machine}

/-- `m'` has all that `m` has, the same instances, the same cells and the same names but for global ones,
and is where `m` is or outside every scope but the globals. -/
structure Beside (m m' : Machine) : Prop extends m.Extends m' where
  instances : m'.heap.instances = m.heap.instances
  cells : m'.store.cells = m.store.cells
  scope : ∀ e, e ≠ .globals → m'.store.scope e = m.store.scope e
  env : m'.env = m.env ∨ m'.env = .globals

namespace Beside

theorem refl (m : Machine) : m.Beside m :=
  ⟨.refl m, rfl, rfl, fun _ _ => rfl, .inl rfl⟩

theorem trans (h : m₀.Beside m) (h' : m.Beside m') : m₀.Beside m' := by
  refine ⟨h.toExtends.trans h'.toExtends, h'.instances.trans h.instances, h'.cells.trans h.cells,
    fun e he => (h'.scope e he).trans (h.scope e he), ?_⟩
  rcases h'.env with henv | henv
  · rw [henv]
    exact h.env
  · exact .inr henv

theorem instance_ (h : m.Beside m') (i : InstanceId) :
    m'.heap.instance_ i = m.heap.instance_ i := by
  rw [Heap.instance_, Heap.instance_, h.instances]

theorem bind (x : String) (v : Value) : m.Beside (m.bind .globals x v) := by
  refine ⟨extends_bind .globals x v, rfl, rfl, fun e he => ?_, .inl rfl⟩
  rw [Machine.bind, Store.scope_define, if_neg fun h => he h.1]

theorem addCallable (g : Callable) : m.Beside (m.addCallable g) :=
  ⟨extends_addCallable g, rfl, rfl, fun _ _ => rfl, .inl rfl⟩

theorem newClass (k : Class) : m.Beside { m with heap := (m.heap.newClass k).2 } :=
  ⟨extends_newClass k, rfl, rfl, fun _ _ => rfl, .inl rfl⟩

/-- What is not on the heap and not in the store does not matter. -/
theorem moved {e : ScopeId} (he : e = m.env ∨ e = .globals) (d l : Nat) (k : Console)
    (ts : List (HostType × ClassId)) :
    m.Beside { m with env := e, depth := d, line := l, console := k, hostClasses := ts } :=
  ⟨{ Extends.refl m with }, rfl, rfl, fun _ _ => rfl, he⟩

end Beside

/-- The computation leaves instances and cells alone. -/
def KeptBeside {α : Type} (m₀ : Machine) (x : Run α) (m : Machine) : Prop :=
  (Frame.fact m₀.Beside).Keeps x x (fun _ _ => True) m

namespace Beside

theorem define (h : m₀.Beside m) (x : String) (v : Value) :
    m₀.KeptBeside (Machine.define .globals x v) m :=
  ⟨rfl, h.trans (.bind x v), trivial, trivial⟩

theorem defineNative (h : m₀.Beside m) (x : String) (n : Nat) (g : Builtin) :
    m₀.KeptBeside (Machine.defineNative x n g) m :=
  ⟨rfl, (h.trans (.addCallable _)).trans (.bind _ _), trivial, trivial⟩

theorem withHostClass (t : HostType) (table : Bindings CallableId) :
    m.Beside (m.withHostClass t table) := by
  have hclass : m.Beside _ := .newClass ⟨t.name, none, table, .native t.arity t⟩
  have htypes := hclass.trans (.moved (.inl rfl) m.depth m.line m.console
    ((t, m.nextClass) :: m.hostClasses))
  exact htypes.trans (.bind t.name (.class_ m.nextClass))

theorem register (h : m₀.Beside m) (t : HostType) : m₀.KeptBeside (Machine.register t) m :=
  Frame.keeps_register (T := fun _ _ => True) trivial
    (fun _ _ h _ => ⟨h.trans (.addCallable _), trivial, trivial⟩)
    (fun h _ => ⟨h.trans (.withHostClass t _), trivial, trivial⟩) h

end Beside

end Machine

/-- A vector has its components in cells that are there. -/
def HostObject.InCells (s : Cells) : HostObject → Prop
  | .vector v => ∀ n ∈ v.components, n < s.floats.size
  | _ => True

/-- What one step of a session makes of its machine and of the instances that the host has lent. -/
inductive Machine.Follows (m : Machine) (lent : List InstanceId) :
    Machine → List InstanceId → Prop where
  | evolves {declares : Prop} {m' : Machine} (h : Evolves False declares m m') : m.Follows lent m' lent
  | beside {m' : Machine} (h : m.Beside m') : m.Follows lent m' lent
  | wrote {cells : Cells} (h : m.store.cells.floats.size ≤ cells.floats.size) :
      m.Follows lent (m.withCells cells) lent
  | lends {k : ClassId} {o : HostObject} (ho : o.InCells m.store.cells) :
      m.Follows lent (m.addInstance (.ofHost k o)) (o.lend m.nextInstance ++ lent)

theorem Machine.Follows.extends {m m' : Machine} {lent lent' : List InstanceId}
    (h : m.Follows lent m' lent') : m.Extends m' := by
  cases h with
  | evolves h => exact h.extends
  | beside h => exact h.toExtends
  | wrote h => exact extends_withCells h
  | lends ho => exact extends_addInstance _

/-- What the interface of the host takes. A function is provided with the number of its arguments, objects have
their cells, and an object is shown as an instance of a class that was registered for its type, which need not
be the newest one. No cell goes away. -/
def HostPolicy.free : HostPolicy := fun m act =>
  match act with
  | .provide _ n g => n = g.arity
  | .wrap o => o.InCells m.store.cells
  | .expose k o => (o.type, k) ∈ m.hostClasses ∧ o.InCells m.store.cells
  | .write cells => m.store.cells.floats.size ≤ cells.floats.size
  | .get .. | .set .. | .define .. | .register .. | .declare .. => True

namespace Session

/-- A session goes on from `s₀`, with the values that the host holds and the instances it has lent. -/
def Onward (s₀ : Session) (held₀ : List Value) (lent₀ : List InstanceId) (s : Session)
    (held : List Value) (lent : List InstanceId) : Prop :=
  ∃ ps, Course .free s₀ ⟨[], held₀, lent₀⟩ s ⟨ps, held, lent⟩

/-- A session that the host has brought to where it is, from a new one. -/
def Hosted (s : Session) (held : List Value) (lent : List InstanceId) : Prop :=
  ∃ maxDepth console, Onward (new maxDepth console) [] [] s held lent

variable {s s' s₀ : Session} {held held₀ : List Value} {lent lent₀ : List InstanceId}

theorem Onward.here : Onward s held lent s held lent :=
  ⟨[], .here⟩

theorem Onward.ran (h : Onward s₀ held₀ lent₀ s held lent) {fuel : Nat} {src : Source}
    {r : Except RunError Unit} (hrun : s.run fuel src = some (r, s')) :
    Onward s₀ held₀ lent₀ s' held lent :=
  let ⟨_, hcourse⟩ := h
  ⟨_, hcourse.ran hrun⟩

theorem SameButErrors.beside (h : SameButErrors s s') : s.machine.Beside s'.machine := by
  obtain ⟨k, hm⟩ := h.machine
  rw [hm]
  exact .moved (.inl rfl) s.machine.depth s.machine.line k s.machine.hostClasses

/-- A computation that makes the machine evolve does so for the session. -/
theorem evolves_of_perform {α : Type} {x : Run α} {Q : α → Machine → Prop} {own declares : Prop}
    {r : Except RuntimeError α} (hx : x.Evolves own declares Q s.machine)
    (h : s.perform x = some (r, s')) : s.machine.Evolves own declares s'.machine := by
  obtain ⟨a, m, hend, -, rfl⟩ | ⟨e, m, hend, -, rfl⟩ := perform_cases h
  · exact (hx.done hend).2.1
  · exact (hx.failed hend).2

theorem evolves_of_interpret (own : Prop) {fuel : Nat} {p : Program} {locals : List (Nat × Nat)}
    {r : Except RuntimeError Unit} (h : s.interpret fuel p locals = some (r, s')) :
    ∃ m, s.machine.Evolves own True m ∧ m.Beside s'.machine := by
  have he : (Evaluation.program (s.learn locals).context fuel p.stmts).Evolves own True
      (fun _ _ => True) s.machine := Evaluation.evolves_program _ fuel p.stmts
  obtain ⟨m, hend, -, rfl⟩ | ⟨e, m, hend, -, rfl⟩ := interpret_cases h
  · exact ⟨m, (he.done hend).2.1, .refl m⟩
  · exact ⟨m, (he.failed hend).2, .moved (.inr rfl) 0 m.line m.console m.hostClasses⟩

/-- What the host does is a step of one of the four kinds. -/
theorem follows_of_act {act : HostAct} {r : Except RuntimeError act.Result}
    (hact : HostPolicy.free s.machine act) (h : s.perform act.run = some (r, s')) :
    s.machine.Follows lent s'.machine (gained act.lends r ++ lent) := by
  have hnone : ∀ {β : Type} (r : Except RuntimeError β),
      gained (fun _ => ([] : List InstanceId)) r = [] := fun r => by cases r <;> rfl
  cases act with
  | get i x line =>
    have he : s.machine.Evolves False False s'.machine :=
      evolves_of_perform (Machine.evolves_getProperty _ _ _) h
    exact hnone r ▸ .evolves he
  | set i x v line =>
    have he : s.machine.Evolves False False s'.machine :=
      evolves_of_perform (Machine.evolves_setField _ _ _ _) h
    exact hnone r ▸ .evolves he
  | define x v =>
    exact hnone r ▸ .beside (Frame.inv_perform (Machine.Beside.define (.refl _) _ _) h)
  | provide x n g =>
    exact hnone r ▸ .beside (Frame.inv_perform (Machine.Beside.defineNative (.refl _) _ _ _) h)
  | register t =>
    exact hnone r ▸ .beside (Frame.inv_perform (Machine.Beside.register (.refl _) _) h)
  | declare x parent methods =>
    obtain ⟨a, m, ⟨⟩, rfl, rfl⟩ | ⟨e, m, ⟨⟩, -⟩ := perform_cases h
    exact .beside (.newClass _)
  | write cells =>
    obtain ⟨a, m, ⟨⟩, rfl, rfl⟩ | ⟨e, m, ⟨⟩, -⟩ := perform_cases h
    exact .wrote hact
  | expose k o =>
    obtain ⟨a, m, ⟨⟩, rfl, rfl⟩ | ⟨e, m, ⟨⟩, -⟩ := perform_cases h
    exact .lends hact.2
  | wrap o =>
    have hwrap : s.perform (Machine.wrap o) = some (r, s') := h
    rw [perform, Machine.wrap_apply] at hwrap
    split at hwrap
    · rename_i hend
      split at hend <;> cases hend
      cases hwrap
      exact .lends hact
    · rename_i hend
      split at hend <;> cases hend
      cases hwrap
      exact .beside (.refl _)
    · cases hwrap
    · cases hwrap

/-- Whatever the steps of sessions keep holds on. -/
theorem Course.keeps {P : Machine → List InstanceId → Prop}
    (hstep : ∀ {m lent m' lent'}, P m lent → m.Follows lent m' lent' → P m' lent') {a₀ a : Account}
    (h : Course .free s₀ a₀ s a) (h₀ : P s₀.machine a₀.lent) : P s.machine a.lent := by
  induction h with
  | here => exact h₀
  | ran _ hrun ih =>
    obtain ⟨-, hsame⟩ | ⟨-, r₁, s₁, hint, hsame⟩ := run_cases hrun
    · exact hstep ih (.beside hsame.beside)
    · obtain ⟨m, he, hbeside⟩ := evolves_of_interpret False hint
      exact hstep (hstep ih (.evolves he)) (.beside (hbeside.trans hsame.beside))
  | called _ _ _ hcall ih =>
    have he := evolves_of_perform (Evaluation.evolves_callByHost _ _ _ False.elim) hcall
    exact hstep ih (.evolves he)
  | acted _ hact _ hdo ih => exact hstep ih (follows_of_act hact hdo)
  | made _ _ ih => exact ih
  | read _ _ ih => exact ih

theorem Onward.keeps {P : Machine → List InstanceId → Prop}
    (hstep : ∀ {m lent m' lent'}, P m lent → m.Follows lent m' lent' → P m' lent')
    (h : Onward s₀ held₀ lent₀ s held lent) (h₀ : P s₀.machine lent₀) : P s.machine lent :=
  let ⟨_, hcourse⟩ := h
  hcourse.keeps hstep h₀

/-- All that is on the machine of a session stays there. -/
theorem Onward.extends (h : Onward s₀ held₀ lent₀ s held lent) :
    s₀.machine.Extends s.machine :=
  h.keeps (P := fun m _ => s₀.machine.Extends m) (fun hm hf => hm.trans hf.extends) (.refl _)

/-- The prelude makes no instance. -/
theorem beside_new (maxDepth : Nat) (console : Console) :
    (bare maxDepth console).machine.Beside (new maxDepth console).machine :=
  Frame.inv_new (F := .fact (bare maxDepth console).machine.Beside) (.refl _)
    (Frame.keeps_prelude (fun h x n g _ _ _ => h.defineNative x n g)
      (fun h x v _ _ => h.define x v) (fun h t => h.register t) (.refl _))

/-- Between runs a session is outside every scope but the globals. -/
theorem Onward.env (h : Onward s₀ held₀ lent₀ s held lent) (h₀ : s₀.machine.env = .globals) :
    s.machine.env = .globals := by
  refine h.keeps (P := fun m _ => m.env = .globals) (fun hm hf => ?_) h₀
  cases hf with
  | evolves he => exact he.env.trans hm
  | beside hb => exact hb.env.elim (·.trans hm) id
  | wrote hcells => exact hm
  | lends ho => exact hm

/-! ### Under way -/

/-- While the host runs a script or calls a value that it holds, an activity is started on a machine. -/
inductive UnderWay (s : Session) (held : List Value) (b : Activity) (m : Machine) : Prop where
  | run {fuel : Nat} {src : Source} (h : s.Starts fuel src b m)
  | call {fuel : Nat} {f : Value} {args : List Value} (hf : f ∈ held) (hargs : ∀ v ∈ args, v ∈ held)
      (h : s.CallStarts fuel f args b m)

/-- A state of a session: between runs, where an activity is started, or where one has ended. -/
inductive Occurs (s : Session) (held : List Value) : Machine → Prop where
  | rest : s.Occurs held s.machine
  | started {b : Activity} {m : Machine} (h : s.UnderWay held b m) : s.Occurs held m
  | done {b : Activity} {m m' : Machine} {c : Context} {n : Nat} {x : b.Result}
      (h : s.UnderWay held b m) (hrun : b.run c n m = .done x m') : s.Occurs held m'
  | failed {b : Activity} {m m' : Machine} {c : Context} {n : Nat} {e : RuntimeError}
      (h : s.UnderWay held b m) (hrun : b.run c n m = .fail e m') : s.Occurs held m'

variable {b : Activity} {m : Machine}

theorem UnderWay.leads (h : s.UnderWay held b m) : s.machine.Leads False m := by
  cases h with
  | run h => exact h.2.leads.1
  | call _ _ h =>
    have hline : s.machine.Evolves False False { s.machine with line := 0 } := .of_change (.line 0)
    exact (Machine.Leads.evolves .refl hline).trans
      (Activity.leads_of_reaches h False.elim).1

theorem Occurs.leads (h : s.Occurs held m) : s.machine.Leads False m := by
  cases h with
  | rest => exact .refl
  | started h => exact h.leads
  | @done b m₁ _ c n _ h hrun =>
    exact .evolves h.leads ((Evaluation.evolves_layer False c n b m₁ False.elim).done hrun).2.1
  | @failed b m₁ _ c n _ h hrun =>
    exact .evolves h.leads ((Evaluation.evolves_layer False c n b m₁ False.elim).failed hrun).2

section
variable {R : ∀ c, Regime c} (hR : ∀ {c a m} c', (R c).Ready a m → (R c').Ready a m)
  (hinv : ∀ c, (R c).inv s.machine) (hheld : ∀ c, ∀ v ∈ held, (R c).ok s.machine v)
  (hstmts : ∀ src c, (Compiled.ofSource src s.nextId).diagnostics.hasErrors = false →
    ∀ t ∈ (Compiled.ofSource src s.nextId).program.stmts, (R c).atStmt s.machine t)
include hR hinv hheld hstmts

/-- What a session starts is ready, for a regime that is the same in all contexts. -/
theorem UnderWay.ready (h : s.UnderWay held b m) (c : Context) : (R c).Ready b m := by
  cases h with
  | run h => exact hR c (Regime.ready_of_programReaches h.2 (hinv _) (hstmts _ _ h.1))
  | call hf hargs h =>
    exact hR c (Regime.ready_of_reaches h
      (Regime.ready_callByHost (hinv _) (hheld _ _ hf) fun v hv => hheld _ v (hargs v hv)))

/-- What such a regime keeps holds wherever a session comes to. -/
theorem Occurs.inv (h : s.Occurs held m) : ∃ c, (R c).inv m := by
  cases h with
  | rest => exact ⟨s.context, hinv s.context⟩
  | started h => exact ⟨s.context, (h.ready hR hinv hheld hstmts s.context).inv⟩
  | @done _ _ _ c n _ h hrun =>
    exact ⟨c, ((Regime.keeps_run n (h.ready hR hinv hheld hstmts c)).done hrun).1⟩
  | @failed _ _ _ c n _ h hrun =>
    exact ⟨c, ((Regime.keeps_run n (h.ready hR hinv hheld hstmts c)).failed hrun).1⟩

end

end Session

/-- The innermost scope is there. -/
def Frame.placed : Frame where
  inv m := m.env.index < m.store.scopes.size
  le := Machine.Extends
  crash := True
  le_refl := .refl
  le_trans := .trans

theorem Frame.admits_placed : Frame.placed.Admits False where
  change {_ m m'} hi hc := by
    refine ⟨?_, hc.extends⟩
    have henv : m'.env.index < m'.store.scopes.size := by
      rw [hc.env]
      exact Nat.lt_of_lt_of_le hi hc.extends.scopes_le
    exact henv
  enterBlock {m} _ := by
    have hnew : m.store.scopes.size < (m.store.scopes.push ⟨.empty, some m.env⟩).size := by simp
    exact hnew
  enterCall {m f d closure isInit args} _ _ _ := by
    have hnew : m.store.scopes.size <
      (m.store.scopes.push ⟨.ofList ((d.params.map (·.name)).zip args), some closure⟩).size := by simp
    exact hnew
  leaveBlock {m m'} hi _ hle := by
    have hback := ((Machine.extends_enter _).trans hle).moved m.env m'.depth
    exact ⟨Nat.lt_of_lt_of_le hi hback.scopes_le, hback⟩
  leaveCall {m m' d closure args} hi _ hle := by
    have hback := ((Machine.extends_enterCall _ _ _).trans hle).moved m.env (m'.depth - 1)
    exact ⟨Nat.lt_of_lt_of_le hi hback.scopes_le, hback⟩

/-- Wherever an activity is started, the innermost scope is there. -/
theorem Session.UnderWay.placed {s : Session} {held held' : List Value} {lent : List InstanceId}
    {b : Activity} {m : Machine} (h : s.UnderWay held' b m) (hs : s.Hosted held lent) :
    m.env.index < m.store.scopes.size := by
  obtain ⟨maxDepth, console, honward⟩ := hs
  have hnew := beside_new maxDepth console
  have hglobals : (new maxDepth console).machine.env = .globals := by
    rcases hnew.env with henv | henv
    · exact henv
    · exact henv
  have hsize : 0 < s.machine.store.scopes.size :=
    Nat.lt_of_lt_of_le (Nat.lt_of_lt_of_le Nat.one_pos hnew.scopes_le) honward.extends.scopes_le
  have hplaced : s.machine.env.index < s.machine.store.scopes.size := by
    rw [honward.env hglobals]
    exact hsize
  exact Frame.admits_placed.leads h.leads hplaced

end HostScript
