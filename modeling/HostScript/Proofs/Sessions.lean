import HostScript.Proofs.Activity
import HostScript.Session

/-!
# Runs of a session

What a run of a script leaves to its session, the sessions that runs lead to, and what a run starts on
the way.
-/

namespace HostScript

/-- Whether a run was ended by the error. -/
def RunError.isRuntime (e : RuntimeError) : Except RunError Unit → Bool
  | .error (.runtime e') => e' == e
  | _ => false

theorem RunError.eq_of_isRuntime {e : RuntimeError} {r : Except RunError Unit}
    (h : isRuntime e r = true) : r = .error (.runtime e) := by
  unfold isRuntime at h
  split at h
  · rw [beq_iff_eq.mp h]
  · cases h

namespace Session

variable {s s' : Session} {fuel : Nat} {p : Program} {locals : List (Nat × Nat)}

/-- A computation that was carried out came to its end or failed. -/
theorem perform_cases {α : Type} {x : Run α} {r : Except RuntimeError α}
    (h : s.perform x = some (r, s')) :
    (∃ a m, x s.machine = .done a m ∧ r = .ok a ∧ s' = { s with machine := m }) ∨
    (∃ e m, x s.machine = .fail e m ∧ r = .error e ∧ s' = { s with machine := m }) := by
  unfold perform at h
  cases hrun : x s.machine with
  | done a m => rw [hrun] at h; cases h; exact .inl ⟨a, m, rfl, rfl, rfl⟩
  | fail e m => rw [hrun] at h; cases h; exact .inr ⟨e, m, rfl, rfl, rfl⟩
  | crash => rw [hrun] at h; cases h
  | outOfFuel => rw [hrun] at h; cases h

/-- A program that was run came to its end or failed. -/
theorem interpret_cases {r : Except RuntimeError Unit}
    (h : s.interpret fuel p locals = some (r, s')) :
    (∃ m, Evaluation.program (s.learn locals).context fuel p.stmts s.machine = .done () m ∧
      r = .ok () ∧ s' = { s.learn locals with machine := m }) ∨
    (∃ e m, Evaluation.program (s.learn locals).context fuel p.stmts s.machine = .fail e m ∧
      r = .error e ∧
      s' = { s.learn locals with machine := { m with env := .globals, depth := 0 } }) := by
  have hlearn : (s.learn locals).machine = s.machine := rfl
  unfold interpret at h
  dsimp only at h
  rw [hlearn] at h
  cases hrun : Evaluation.program (s.learn locals).context fuel p.stmts s.machine with
  | done _ m => rw [hrun] at h; cases h; exact .inl ⟨m, rfl, rfl, rfl⟩
  | fail e m => rw [hrun] at h; cases h; exact .inr ⟨e, m, rfl, rfl, rfl⟩
  | crash => rw [hrun] at h; cases h
  | outOfFuel => rw [hrun] at h; cases h

theorem interpret_of_done {m : Machine}
    (h : Evaluation.program (s.learn locals).context fuel p.stmts s.machine = .done () m) :
    s.interpret fuel p locals = some (.ok (), { s.learn locals with machine := m }) := by
  have hrun : Evaluation.program (s.learn locals).context fuel p.stmts (s.learn locals).machine =
      .done () m := h
  unfold interpret
  dsimp only
  rw [hrun]

theorem interpret_of_fail {e : RuntimeError} {m : Machine}
    (h : Evaluation.program (s.learn locals).context fuel p.stmts s.machine = .fail e m) :
    s.interpret fuel p locals =
      some (.error e, { s.learn locals with machine := { m with env := .globals, depth := 0 } }) := by
  have hrun : Evaluation.program (s.learn locals).context fuel p.stmts (s.learn locals).machine =
      .fail e m := h
  unfold interpret
  dsimp only
  rw [hrun]

/-- Sessions that differ in their console and in what they remember of errors. -/
structure SameButErrors (s s' : Session) : Prop where
  machine : ∃ k, s'.machine = { s.machine with console := k }
  locals : s'.locals = s.locals
  maxDepth : s'.maxDepth = s.maxDepth
  nextId : s'.nextId = s.nextId

theorem sameButErrors_reportErrors (s : Session) (ds : List Diagnostic) :
    SameButErrors s (ds.foldl reportError s) := by
  induction ds generalizing s with
  | nil => exact ⟨⟨s.machine.console, rfl⟩, rfl, rfl, rfl⟩
  | cons d ds ih =>
    obtain ⟨⟨k, hm⟩, hl, hd, hn⟩ := ih (s.reportError d)
    exact ⟨⟨k, hm⟩, hl, hd, hn⟩

theorem sameButErrors_reportRuntimeError (s : Session) (e : RuntimeError) :
    SameButErrors s (s.reportRuntimeError e) :=
  ⟨⟨_, rfl⟩, rfl, rfl, rfl⟩

/-- A script that was given to a session had compile errors and was not run, or its program came to
its end or failed. -/
theorem run_cases {src : Source} {r : Except RunError Unit} (h : s.run fuel src = some (r, s')) :
    let compiled := Compiled.ofSource src s.nextId
    (compiled.diagnostics.hasErrors = true ∧
      SameButErrors { s with nextId := compiled.nextId } s') ∨
    (compiled.diagnostics.hasErrors = false ∧ ∃ r₁ s₁,
      { s with nextId := compiled.nextId }.interpret fuel compiled.program compiled.locals =
        some (r₁, s₁) ∧ SameButErrors s₁ s') := by
  intro compiled
  unfold run at h
  dsimp only at h
  split at h
  · rename_i herr
    cases h
    exact .inl ⟨herr, sameButErrors_reportErrors _ _⟩
  · rename_i herr
    refine .inr ⟨Bool.eq_false_iff.mpr herr, ?_⟩
    split at h
    · rename_i s₁ hrun
      cases h
      exact ⟨_, s', hrun, ⟨_, rfl⟩, rfl, rfl, rfl⟩
    · rename_i e s₁ hrun
      cases h
      exact ⟨_, s₁, hrun, sameButErrors_reportRuntimeError s₁ e⟩
    · cases h

/-- A run of a script in a session starts an activity on a machine. -/
def Starts (s : Session) (fuel : Nat) (src : Source) (b : Activity) (m : Machine) : Prop :=
  let compiled := Compiled.ofSource src s.nextId
  compiled.diagnostics.hasErrors = false ∧
    ProgramReaches (s.learn compiled.locals).context fuel compiled.program.stmts s.machine b m

/-- A call of a value by the host starts an activity on a machine. -/
def CallStarts (s : Session) (fuel : Nat) (callee : Value) (args : List Value) (b : Activity)
    (m : Machine) : Prop :=
  Activity.Reaches s.context fuel (.call (callee.detach s.machine.store.cells) args)
    { s.machine with line := 0 } b m

/-- The sessions that runs of scripts lead to. -/
inductive Reachable : Session → Prop where
  | new (maxDepth : Nat) (console : Console) : Reachable (new maxDepth console)
  | run {s s' : Session} {fuel : Nat} {src : Source} {r : Except RunError Unit} (hs : Reachable s)
      (h : s.run fuel src = some (r, s')) : Reachable s'

end Session

end HostScript
