import HostScript.Proofs.Courses
import HostScript.Proofs.Handles
import HostScript.Proofs.Scoping.Programs
import HostScript.Proofs.Starting

/-!
# Evaluation in step with resolution

In every session, and in every state that a run reaches, an expression is evaluated in a scope that is in
step with the scopes in which resolution visited it, be it of the script that is run or of one that was
run before.
-/

namespace HostScript

/-! ### The prelude -/

/-- A machine outside every scope but the globals, on which there is no function of a script, and none that
calls back. -/
structure Machine.HostOnly (m : Machine) : Prop where
  env : m.env = .globals
  globals : 0 < m.store.scopes.size
  callables : ∀ f, (m.heap.callable f).isNative = true
  direct : m.heap.Direct

/-- The host's code is all there is. -/
def Frame.hostOnly : Frame where
  inv := Machine.HostOnly
  le _ _ := True
  crash := True
  le_refl _ := trivial
  le_trans _ _ := trivial

namespace Machine.HostOnly

variable {m : Machine}

/-- The computation leaves nothing but the host's code. -/
def Kept {α : Type} (x : Run α) (m : Machine) : Prop :=
  Frame.hostOnly.Keeps x x (fun _ _ => True) m

theorem define (h : m.HostOnly) (e : ScopeId) (x : String) (v : Value) :
    Kept (Machine.define e x v) m :=
  ⟨rfl, ⟨h.env, by simpa [Store.define] using h.globals, h.callables, h.direct⟩, trivial, trivial⟩

theorem newCallable (h : m.HostOnly) {g : Callable} (hg : g.isNative = true)
    (hd : g.callsBack = false) : (m.addCallable g).HostOnly := by
  refine ⟨h.env, h.globals, fun f => ?_, h.direct.newCallable hd⟩
  rw [Machine.addCallable, Heap.callable_newCallable]
  split
  · exact hg
  · exact h.callables f

theorem defineNative (h : m.HostOnly) (x : String) (n : Nat) {g : Builtin} (hg : g ≠ .apply) :
    Kept (Machine.defineNative x n g) m := by
  have hdirect : (Callable.native x n g).callsBack = false := by
    cases g with
    | apply => exact absurd rfl hg
    | _ => rfl
  have hnew := h.newCallable (g := .native x n g) rfl hdirect
  exact ⟨rfl, ⟨hnew.env, by simpa [Store.define] using h.globals, hnew.callables, hnew.direct⟩,
    trivial, trivial⟩

theorem register (h : m.HostOnly) (t : HostType) : Kept (Machine.register t) m := by
  refine Frame.keeps_register (T := fun _ _ => True) trivial ?_ ?_ h
  · exact fun g _ h _ => ⟨h.newCallable (g := .method g none) rfl rfl, trivial, trivial⟩
  · intro m table h _
    have hglobals : 0 < (m.store.define .globals t.name (.class_ m.nextClass)).scopes.size := by
      simpa [Store.define] using h.globals
    exact ⟨⟨h.env, hglobals, h.callables, h.direct⟩, trivial, trivial⟩

theorem session (maxDepth : Nat) (console : Console) :
    (Session.new maxDepth console).machine.HostOnly := by
  have hbare : (Session.bare maxDepth console).machine.HostOnly :=
    ⟨rfl, Nat.one_pos, fun _ => rfl, fun _ => rfl⟩
  refine Frame.inv_new (F := .hostOnly) hbare (Frame.keeps_prelude ?_ ?_ ?_ hbare)
  · exact fun h x n g _ hg _ => h.defineNative x n hg
  · exact fun h x v _ _ => h.define .globals x v
  · exact fun h t => h.register t

end Machine.HostOnly

/-! ### What a session remembers -/

/-- The visits of resolution to some programs. -/
def Visited (ps : List Program) (v : Visit) : Prop :=
  ∃ p ∈ ps, v ∈ p.visits

theorem visited_cons {p : Program} {ps : List Program} {v : Visit} :
    Visited (p :: ps) v ↔ v ∈ p.visits ∨ Visited ps v := by
  unfold Visited
  rw [List.exists_mem_cons_iff]

namespace Session

/-- If all that is learned of a number is one distance, or nothing is learned and that is what was known,
then it is known afterwards. -/
theorem getElem?_learn (locals : List (Nat × Nat)) (t : Std.TreeMap Nat Nat) {id : Nat}
    {o : Option Nat} (hmem : ∀ d, (id, d) ∈ locals → o = some d)
    (hnot : (∀ d, (id, d) ∉ locals) → t[id]? = o) :
    (locals.foldl (fun t p => t.insert p.1 p.2) t)[id]? = o := by
  induction locals generalizing t with
  | nil => exact hnot fun _ => nofun
  | cons q rest ih =>
    obtain ⟨i, d⟩ := q
    refine ih (t.insert i d) (fun d' hd' => hmem d' (List.mem_cons_of_mem _ hd')) fun hrest => ?_
    rw [Std.TreeMap.getElem?_insert]
    by_cases hi : i = id
    · subst hi
      simp [hmem d List.mem_cons_self]
    · rw [if_neg (by simpa using hi)]
      refine hnot fun d' hd' => ?_
      rcases List.mem_cons.mp hd' with heq | hd'
      · cases heq; exact hi rfl
      · exact hrest d' hd'

/-- What a session has gone through, with the programs that it has run, the last one first, and the
values that the host has made, read from it or got from its calls. -/
def History (s : Session) (ps : List Program) (held : List Value) : Prop :=
  ∃ maxDepth console, Course .idle (new maxDepth console) .empty s ⟨ps, held, []⟩

theorem History.new (maxDepth : Nat) (console : Console) : (Session.new maxDepth console).History [] [] :=
  ⟨maxDepth, console, .here⟩

theorem History.ran {s s' : Session} {ps : List Program} {held : List Value} {fuel : Nat} {src : Source}
    {r : Except RunError Unit} (hs : s.History ps held) (h : s.run fuel src = some (r, s')) :
    s'.History ((Compiled.ofSource src s.nextId).runnable ++ ps) held :=
  let ⟨maxDepth, console, hcourse⟩ := hs
  ⟨maxDepth, console, hcourse.ran h⟩

/-- What a session knows of the programs that it has run. -/
structure Knows (s : Session) (ps : List Program) : Prop where
  keys : ∀ id d, s.locals[id]? = some d → id < s.nextId
  ids : ∀ v, Visited ps v → v.expr.id < s.nextId
  unique : ∀ v w, Visited ps v → Visited ps w → v.expr.id = w.expr.id → v = w
  locals : ∀ v, Visited ps v → s.locals[v.expr.id]? = v.distance?
  placed : ∀ v, Visited ps v → v.Placed
  faultless : ∀ v, Visited ps v → v.resolution.faults = []

namespace Knows

variable {s : Session} {ps : List Program} {p : Program} {nextId : Nat}

/-- The nodes of a program that is learned have new numbers, so what was known is not touched. -/
theorem getElem?_learn_of_lt (hp : p.Accepted s.nextId nextId) {id : Nat} (hid : id < s.nextId) :
    (s.learn (Resolution.ofProgram p).locals).locals[id]? = s.locals[id]? := by
  refine getElem?_learn _ _ (fun d hd => ?_) fun _ => rfl
  obtain ⟨v, hv, rfl, -⟩ := hp.mem_locals.mp hd
  have := (hp.id_bounds hv).1
  omega

/-- What is learned of a node is its distance. -/
theorem getElem?_learn_visit (h : s.Knows ps) (hp : p.Accepted s.nextId nextId) {v : Visit}
    (hv : v ∈ p.visits) :
    (s.learn (Resolution.ofProgram p).locals).locals[v.expr.id]? = v.distance? := by
  refine getElem?_learn _ _ (fun d hd => ?_) fun hnone => ?_
  · obtain ⟨w, hw, hid, hdist⟩ := hp.mem_locals.mp hd
    rw [hp.eq_of_id_eq hv hw hid]
    exact hdist
  · have hdist : v.distance? = none := by
      refine Option.eq_none_iff_forall_ne_some.mpr fun d hd => hnone d ?_
      exact hp.mem_locals.mpr ⟨v, hv, rfl, hd⟩
    rw [hdist]
    -- Nothing was known of the number before.
    refine Option.eq_none_iff_forall_ne_some.mpr fun d hd => ?_
    have := h.keys _ d hd
    have := (hp.id_bounds hv).1
    omega

theorem keys_learn (h : s.Knows ps) (hp : p.Accepted s.nextId nextId) {id d : Nat}
    (hd : (s.learn (Resolution.ofProgram p).locals).locals[id]? = some d) : id < nextId := by
  have hle : s.nextId ≤ nextId := hp.numbered.le
  by_cases hmem : ∃ d', (id, d') ∈ (Resolution.ofProgram p).locals
  · obtain ⟨d', hmem⟩ := hmem
    obtain ⟨v, hv, rfl, -⟩ := hp.mem_locals.mp hmem
    exact (hp.id_bounds hv).2
  · have hold := getElem?_learn (Resolution.ofProgram p).locals s.locals (o := s.locals[id]?)
      (fun d' hd' => absurd ⟨d', hd'⟩ hmem) fun _ => rfl
    exact Nat.lt_of_lt_of_le (h.keys id d (hold.symm.trans hd)) hle

/-- A program is learned beside those that were known. -/
theorem learn (h : s.Knows ps) (hp : p.Accepted s.nextId nextId) :
    ({ s with nextId := nextId }.learn (Resolution.ofProgram p).locals).Knows (p :: ps) := by
  have hle : s.nextId ≤ nextId := hp.numbered.le
  refine ⟨fun id d hd => h.keys_learn hp hd, fun v hv => ?_, fun v w hv hw hid => ?_, fun v hv => ?_,
    fun v hv => ?_, fun v hv => ?_⟩
  · rcases visited_cons.mp hv with hv | hv
    · exact (hp.id_bounds hv).2
    · exact Nat.lt_of_lt_of_le (h.ids v hv) hle
  · -- A node of the new program and one of an earlier program have different numbers.
    rcases visited_cons.mp hv with hv | hv <;> rcases visited_cons.mp hw with hw | hw
    · exact hp.eq_of_id_eq hv hw hid
    · have := (hp.id_bounds hv).1
      have := h.ids w hw
      omega
    · have := (hp.id_bounds hw).1
      have := h.ids v hv
      omega
    · exact h.unique v w hv hw hid
  · rcases visited_cons.mp hv with hv | hv
    · exact h.getElem?_learn_visit hp hv
    · exact (getElem?_learn_of_lt hp (h.ids v hv)).trans (h.locals v hv)
  · rcases visited_cons.mp hv with hv | hv
    · exact hp.placed hv
    · exact h.placed v hv
  · rcases visited_cons.mp hv with hv | hv
    · exact hp.faultless hv
    · exact h.faultless v hv

end Knows

/-- A session between two runs: it is outside every scope but the globals, and all that the programs
have left on its machine or with the host is in line. -/
structure Tracks (s : Session) (ps : List Program) (held : List Value) : Prop
    extends s.Knows ps where
  env : s.machine.env = .globals
  inLine : s.machine.AllInLine (Visited ps)
  held : ∀ v ∈ held, s.machine.Around (Visited ps) v

theorem locals_new (maxDepth : Nat) (console : Console) : (new maxDepth console).locals = ∅ := by
  unfold new
  dsimp only
  split
  · rename_i hrun
    unfold perform at hrun
    split at hrun <;> cases hrun <;> rfl
  · rfl

theorem tracks_new (maxDepth : Nat) (console : Console) : (new maxDepth console).Tracks [] [] := by
  have hhost := Machine.HostOnly.session maxDepth console
  have hclosed := closed_new maxDepth console
  have hline : ∀ {around} f, (new maxDepth console).machine.heap.hasCallable f = true →
      (new maxDepth console).machine.InLine (Visited []) around f := by
    intro around f hf
    refine ⟨hf, ?_⟩
    have hnative := hhost.callables f
    cases hc : (new maxDepth console).machine.heap.callable f with
    | script d closure isInit => rw [hc] at hnative; cases hnative
    | native | method => trivial
  refine ⟨⟨fun id d hd => ?_, nofun, nofun, nofun, nofun, nofun⟩, hhost.env, ⟨hhost.globals, ?_⟩,
    nofun⟩
  · rw [locals_new] at hd
    simp at hd
  · refine hclosed.stores.mono (fun v hv f hf => ?_) fun f hf => hline f hf
    subst hf
    exact hline f hv

theorem SameButErrors.tracks {s s' : Session} {ps : List Program} {held : List Value}
    (h : SameButErrors s s') (hs : s.Tracks ps held) : s'.Tracks ps held := by
  obtain ⟨k, hm⟩ := h.machine
  have hknows : s'.Knows ps := by
    obtain ⟨hkeys, hids, hunique, hlocals, hplaced, hfaultless⟩ := hs.toKnows
    exact ⟨h.locals ▸ h.nextId ▸ hkeys, h.nextId ▸ hids, hunique, h.locals ▸ hlocals, hplaced,
      hfaultless⟩
  have hconsole := (Regime.inLine s.context (Visited ps)).console hs.inLine k
  rw [← hm] at hconsole
  obtain ⟨hinv, henv, hgrows⟩ := hconsole
  exact ⟨hknows, henv.trans hs.env, hinv, fun v hv => (hs.held v hv).mono hgrows⟩

/-- At the start of a run all is in line, the statements of the program as well. -/
theorem Tracks.start {s : Session} {ps : List Program} {held : List Value} (h : s.Tracks ps held)
    {p : Program} {nextId : Nat} (hp : p.Accepted s.nextId nextId) :
    s.machine.AllInLine (Visited (p :: ps)) ∧
      (∀ v ∈ held, s.machine.Around (Visited (p :: ps)) v) ∧
      ∀ t ∈ p.stmts, s.machine.At fun c ss => t.Known (Visited (p :: ps)) c ss := by
  have hwiden : ∀ v, Visited ps v → Visited (p :: ps) v := fun v hv => visited_cons.mpr (.inr hv)
  refine ⟨h.inLine.widen hwiden, fun v hv => (h.held v hv).widen hwiden, fun t ht => ?_⟩
  exact ⟨.topLevel, [], h.env, hp.known (fun v hv => visited_cons.mpr (.inl hv)) t ht⟩

/-- A run leaves all in line, however it ends. -/
theorem tracks_of_interpret {s s' : Session} {ps : List Program} {held : List Value} {fuel : Nat}
    {p : Program} {locals : List (Nat × Nat)} {r : Except RuntimeError Unit}
    (hrun : s.interpret fuel p locals = some (r, s')) (hknows : (s.learn locals).Knows ps)
    (henv : s.machine.env = .globals) (hline : s.machine.AllInLine (Visited ps))
    (hheld : ∀ v ∈ held, s.machine.Around (Visited ps) v)
    (hstmts : ∀ t ∈ p.stmts, s.machine.At fun c ss => t.Known (Visited ps) c ss) :
    s'.Tracks ps held := by
  have hknows' : ∀ m, { s.learn locals with machine := m }.Knows ps := fun _ => { hknows with }
  have hw := (Regime.keeps_program (R := Regime.inLine (s.learn locals).context (Visited ps)) fuel
    p.stmts hline hstmts).2
  unfold Run.wp at hw
  obtain ⟨m, hend, -, rfl⟩ | ⟨e, m, hend, -, rfl⟩ := interpret_cases hrun
  · rw [hend] at hw
    obtain ⟨hinv, ⟨henv', hgrows⟩, -⟩ := hw
    exact ⟨hknows' m, henv'.trans henv, hinv, fun v hv => (hheld v hv).mono hgrows⟩
  · rw [hend] at hw
    obtain ⟨hinv, -, hgrows⟩ := hw
    exact ⟨hknows' _, rfl, ⟨hinv.globals, { hinv.stores with }⟩,
      fun v hv => (hheld v hv).mono ⟨hgrows.store, hgrows.heap⟩⟩

/-- A call by the host leaves all in line, and so is what it gives. -/
theorem Tracks.called {s s' : Session} {ps : List Program} {held : List Value} {fuel : Nat}
    {f : Value} {args : List Value} {r : Except RuntimeError Value} (h : s.Tracks ps held)
    (hf : f ∈ held) (hargs : ∀ v ∈ args, v ∈ held) (hcall : s.call fuel f args = some (r, s')) :
    s'.Tracks ps (gained (fun v => [v]) r ++ held) := by
  have hknows' : ∀ m, { s with machine := m }.Knows ps := fun _ => { h.toKnows with }
  have hw := (Regime.keeps_callByHost (R := Regime.inLine s.context (Visited ps)) fuel h.inLine
    (h.held f hf) fun v hv => h.held v (hargs v hv)).2
  unfold Run.wp at hw
  obtain ⟨v, m, hend, rfl, rfl⟩ | ⟨e, m, hend, rfl, rfl⟩ := perform_cases hcall
  · rw [hend] at hw
    obtain ⟨hinv, ⟨henv, hgrows⟩, hv⟩ := hw
    refine ⟨hknows' m, henv.trans h.env, hinv, fun w hw => ?_⟩
    rcases List.mem_cons.mp hw with rfl | hw
    · exact hv
    · exact (h.held w hw).mono hgrows
  · rw [hend] at hw
    obtain ⟨hinv, henv, hgrows⟩ := hw
    exact ⟨hknows' m, henv.trans h.env, hinv, fun w hw => (h.held w hw).mono hgrows⟩

/-- The host gets hold of a value that is in line. -/
theorem Tracks.hold {s : Session} {ps : List Program} {held : List Value} (h : s.Tracks ps held)
    {v : Value} (hv : s.machine.Around (Visited ps) v) : s.Tracks ps (v :: held) :=
  { h with held := List.forall_mem_cons.mpr ⟨hv, h.held⟩ }

/-- Numbers that are skipped do not matter. -/
theorem Tracks.skip {s : Session} {ps : List Program} {held : List Value} (h : s.Tracks ps held)
    {nextId : Nat} (hle : s.nextId ≤ nextId) : { s with nextId := nextId }.Tracks ps held where
  keys id d hd := Nat.lt_of_lt_of_le (h.keys id d hd) hle
  ids v hv := Nat.lt_of_lt_of_le (h.ids v hv) hle
  unique := h.unique
  locals := h.locals
  placed := h.placed
  faultless := h.faultless
  env := h.env
  inLine := h.inLine
  held := h.held

/-- Numbers are only used up, also by a script with faults. -/
theorem le_nextId_ofSource (src : Source) (firstId : Nat) :
    firstId ≤ (Compiled.ofSource src firstId).nextId :=
  let tokens := (Lexed.ofText src.text).tokens
  ((Parser.topLevel (Parsed.fuelFor tokens.length)).onward
    (Cursor.ofTokens tokens (Lexed.ofText src.text).finish firstId)).nextId

theorem Course.tracks {s₀ s : Session} {a₀ a : Account} (h : Course .idle s₀ a₀ s a)
    (h₀ : s₀.Tracks a₀.programs a₀.held) : s.Tracks a.programs a.held := by
  induction h with
  | here => exact h₀
  | @ran s s' a fuel src r _ hrun ih =>
    obtain ⟨herr, hsame⟩ | ⟨hok, r₁, s₁, hint, hsame⟩ := run_cases hrun
    · -- The numbers of a script with errors are used up all the same.
      rw [Compiled.runnable, if_pos herr]
      exact hsame.tracks (ih.skip (le_nextId_ofSource src s.nextId))
    · obtain ⟨haccepted, hlocals⟩ := Compiled.accepted hok
      obtain ⟨hline, hheld, hstmts⟩ := ih.start haccepted
      rw [Compiled.runnable_of_ok hok]
      rw [hlocals] at hint
      exact hsame.tracks
        (tracks_of_interpret hint (ih.toKnows.learn haccepted) ih.env hline hheld hstmts)
  | called _ hf hargs hcall ih => exact ih.called hf hargs hcall
  | acted _ hact => exact hact.elim
  | made _ hv ih => exact ih.hold (Machine.around_plain hv)
  | read _ hv ih =>
    obtain ⟨p, hp⟩ := Store.own?_of_get? hv
    exact ih.hold (ih.inLine.stores.vars hp)

theorem History.tracks {s : Session} {ps : List Program} {held : List Value}
    (h : s.History ps held) : s.Tracks ps held :=
  let ⟨maxDepth, console, hcourse⟩ := h
  hcourse.tracks (tracks_new maxDepth console)

/-- Resolution has visited the expression in one of the programs. The scopes of the machine are in step
with those of the visit, the distance that is used is the one found at the visit, and what is looked
up by it is found. -/
structure EvaluatesInStep (c : Context) (ps : List Program) (e : Expr) (m : Machine) : Prop where
  visited : ∃ v, Visited ps v ∧ v.expr = e
  distance : ∀ v, Visited ps v → v.expr = e → c.locals e.id = v.distance?
  scopes : ∀ v, Visited ps v → v.expr = e → m.store.InStep m.env v.scopes
  found : e.Found c m

theorem Knows.evaluatesInStep {s : Session} {ps : List Program} (h : s.Knows ps) {e : Expr}
    {m : Machine} (hready : (Regime.inLine s.context (Visited ps)).Ready (.eval e) m) :
    EvaluatesInStep s.context ps e m := by
  obtain ⟨-, mode, ss, hss, hknown⟩ := hready
  have hvisit : Visited ps ⟨e, ss, mode.class_⟩ :=
    hknown.visited _ (Visit.mem_ofNodes.mpr ⟨e.mem_nodes_self, rfl, rfl⟩)
  have honly v (hv : Visited ps v) (hve : v.expr = e) : v = ⟨e, ss, mode.class_⟩ :=
    h.unique v _ hv hvisit (congrArg Expr.id hve)
  have hdistance : s.context.locals e.id = Visit.distance? ⟨e, ss, mode.class_⟩ :=
    h.locals _ hvisit
  refine ⟨⟨_, hvisit, rfl⟩, fun v hv hve => ?_, fun v hv hve => ?_, ?_⟩
  · rw [honly v hv hve]
    exact hdistance
  · rw [honly v hv hve]
    exact hss.inStep
  · exact Visit.found (h.placed _ hvisit) (h.faultless _ hvisit) hdistance hss

/-- Whatever a session has gone through, wherever an expression is evaluated while a script runs or
the host calls a value, resolution has visited it, in this script or in one that was run before, and
evaluation is in step with the visit. -/
theorem evaluation_in_step {s : Session} {ps : List Program} {held : List Value}
    (hs : s.History ps held) :
    (∀ fuel src e m, s.Starts fuel src (.eval e) m →
      let compiled := Compiled.ofSource src s.nextId
      EvaluatesInStep (s.learn compiled.locals).context (compiled.program :: ps) e m) ∧
    (∀ fuel f args e m, f ∈ held → (∀ v ∈ args, v ∈ held) →
      s.CallStarts fuel f args (.eval e) m → EvaluatesInStep s.context ps e m) := by
  have htracks := hs.tracks
  refine ⟨fun fuel src e m h => ?_, fun fuel f args e m hf hargs h => ?_⟩
  · obtain ⟨hok, hreaches⟩ := h
    obtain ⟨haccepted, hlocals⟩ := Compiled.accepted hok
    obtain ⟨hline, -, hstmts⟩ := htracks.start haccepted
    have hknows := htracks.toKnows.learn haccepted
    rw [← hlocals] at hknows
    exact hknows.evaluatesInStep (Regime.ready_of_programReaches hreaches hline hstmts)
  · have hready := Regime.ready_callByHost (R := Regime.inLine s.context (Visited ps))
      htracks.inLine (htracks.held f hf) fun v hv => htracks.held v (hargs v hv)
    exact htracks.toKnows.evaluatesInStep (Regime.ready_of_reaches h hready)

/-- A script has no errors and begins with a call of a method that returns what a method of the
superclass gives, where the superclass is two scopes out. -/
def callsSuper (s : Session) (n : Nat) (src : Source) : Bool :=
  let compiled := Compiled.ofSource src s.nextId
  let c := (s.learn compiled.locals).context
  !compiled.diagnostics.hasErrors && match compiled.program.stmts with
  | .expr (.call _ f []) _ :: _ =>
    match Evaluation.eval c (n + 4) f s.machine with
    | .done (.function g) m =>
      match m.heap.callable g with
      | .script ⟨_, [], .return_ (some (.call _ (.super k _) _)) _ :: _, _⟩ _ _ =>
        m.heap.hasCallable g && decide (m.depth < c.maxDepth ∧ c.locals k.id = some 2)
      | _ => false
    | _ => false
  | _ => false

theorem starts_of_callsSuper {s : Session} {n : Nat} {src : Source} (h : s.callsSuper n src = true) :
    ∃ k x m, s.Starts (n + 6) src (.eval (.super k x)) m ∧
      (s.learn (Compiled.ofSource src s.nextId).locals).context.locals k.id = some 2 := by
  unfold callsSuper at h
  dsimp only at h
  obtain ⟨herr, h⟩ := Bool.and_eq_true_iff.mp h
  have hok : (Compiled.ofSource src s.nextId).diagnostics.hasErrors = false := by
    simpa using herr
  split at h
  · rename_i k₁ _ sp₁ _ hstmts
    split at h
    · rename_i hf
      split at h
      · rename_i hc
        obtain ⟨hg, h⟩ := Bool.and_eq_true_iff.mp h
        obtain ⟨hdepth, hlocal⟩ := of_decide_eq_true h
        have hreaches := Activity.reaches_callee_in_body k₁ sp₁ hf hg hc rfl hdepth rfl
        exact ⟨_, _, _, ⟨hok, hstmts.symm ▸ ProgramReaches.first hreaches⟩, hlocal⟩
      · cases h
    · cases h
  · cases h

/-- A method that calls that of the superclass. -/
def superScript : Source :=
  ⟨"methods", "class A \x7b m() \x7b return 1; \x7d \x7d " ++
    "class B < A \x7b m() \x7b return super.m(); \x7d \x7d var f = B().m;"⟩

/-- The method is called by a script that is run later. -/
def laterScript : Source :=
  ⟨"later", "f();"⟩

theorem evaluation_in_step_laterScript :
    ∃ (s : Session) (p : Program) (k : Mark) (x : Ident) (m : Machine) (v : Visit) (i : ClassId)
      (j : InstanceId), s.History [p] [] ∧ s.Starts 7 laterScript (.eval (.super k x)) m ∧
      Visited [(Compiled.ofSource laterScript s.nextId).program, p] v ∧ v.expr = .super k x ∧
      m.store.InStep m.env v.scopes ∧
      m.store.getAt? m.env 2 Resolution.superName = some (.class_ i) ∧
      m.store.getAt? m.env 1 Resolution.thisName = some (.instance_ j) := by
  have hruns : ((Session.new 8 (.ofInput [])).run 20 superScript).any (fun r =>
      !(Compiled.ofSource superScript (Session.new 8 (.ofInput [])).nextId).diagnostics.hasErrors &&
        r.2.callsSuper 1 laterScript) = true := by
    decide +kernel
  obtain ⟨⟨r, s⟩, hrun, h⟩ := Option.any_eq_true _ _ |>.mp hruns
  obtain ⟨herr, hcalls⟩ := Bool.and_eq_true_iff.mp h
  have hs := History.ran (.new 8 (.ofInput [])) hrun
  rw [Compiled.runnable_of_ok (by simpa using herr)] at hs
  obtain ⟨k, x, m, hstarts, hlocal⟩ := starts_of_callsSuper hcalls
  have hstep := (evaluation_in_step hs).1 _ _ _ _ hstarts
  obtain ⟨v, hv, hve⟩ := hstep.visited
  obtain ⟨d, i, j, hd, hi, hj, -⟩ := hstep.found 2 hlocal
  obtain rfl : 1 = d := Nat.succ.inj hd
  exact ⟨s, _, k, x, m, v, i, j, hs, hstarts, hv, hve, hstep.scopes v hv hve, hi, hj⟩

end Session

end HostScript
