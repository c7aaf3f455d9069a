import HostScript.Proofs.Parsing.Trees
import HostScript.Proofs.Scoping.Histories

/-!
# Nodes across runs

Every run of a session numbers the nodes of its script from where the run before stopped, also after a
script that was refused. So no two nodes of all the scripts have the same number, and what a run learns
about its own nodes says nothing about those of earlier runs.
-/

namespace HostScript

/-- A script with the number that its nodes were numbered from. -/
structure LogEntry where
  src : Source
  firstId : Nat

namespace LogEntry

/-- What the script was compiled to, also if it has faults. -/
def compiled (e : LogEntry) : Compiled :=
  .ofSource e.src e.firstId

/-- The numbers of the nodes of its program. -/
def ids (e : LogEntry) : List Nat :=
  e.compiled.program.ids

theorem numbered (e : LogEntry) : Numbered e.firstId e.ids e.compiled.nextId :=
  Parsed.numbered_ofTokens ..

end LogEntry

namespace Session

/-- A session after some runs, with the scripts in the order of the runs, the last one first. Some ran to
the end, some failed and some were refused. -/
inductive Logged : Session → List LogEntry → Prop where
  | new (maxDepth : Nat) (console : Console) : Logged (new maxDepth console) []
  | run {s s' : Session} {log : List LogEntry} {fuel : Nat} {src : Source}
      {r : Except RunError Unit} (hs : Logged s log) (h : s.run fuel src = some (r, s')) :
      Logged s' (⟨src, s.nextId⟩ :: log)

variable {s s' : Session} {log : List LogEntry} {fuel : Nat} {src : Source}
  {r : Except RunError Unit}

theorem nextId_run (h : s.run fuel src = some (r, s')) :
    s'.nextId = (Compiled.ofSource src s.nextId).nextId := by
  obtain ⟨-, hsame⟩ | ⟨-, r₁, s₁, hint, hsame⟩ := run_cases h
  · exact hsame.nextId
  · rw [hsame.nextId]
    obtain ⟨m, -, -, rfl⟩ | ⟨e, m, -, -, rfl⟩ := interpret_cases hint <;> rfl

/-- A run changes nothing that is known of numbers that were given away before. -/
theorem getElem?_locals_run (h : s.run fuel src = some (r, s')) {i : Nat} (hi : i < s.nextId) :
    s'.locals[i]? = s.locals[i]? := by
  obtain ⟨-, hsame⟩ | ⟨hok, r₁, s₁, hint, hsame⟩ := run_cases h
  · rw [hsame.locals]
  · obtain ⟨haccepted, hlocals⟩ := Compiled.accepted hok
    have hlearn := Knows.getElem?_learn_of_lt haccepted hi
    rw [← hlocals] at hlearn
    rw [hsame.locals]
    obtain ⟨m, -, -, rfl⟩ | ⟨e, m, -, -, rfl⟩ := interpret_cases hint <;> exact hlearn

namespace Logged

theorem history (h : s.Logged log) : ∃ ps, s.History ps [] := by
  induction h with
  | new maxDepth console => exact ⟨[], .new maxDepth console⟩
  | run _ hrun ih =>
    obtain ⟨ps, ih⟩ := ih
    exact ⟨_, ih.ran hrun⟩

/-- The numbers of all the nodes of all the scripts are different, and all were given away. -/
theorem numbered (h : s.Logged log) : Numbered 0 (log.flatMap LogEntry.ids) s.nextId := by
  induction h with
  | new maxDepth console => exact (Numbered.nil 0).widen (Nat.zero_le _)
  | @run s s' log fuel src r _ hrun ih =>
    rw [nextId_run hrun, List.flatMap_cons]
    exact (ih.append (LogEntry.numbered ⟨src, s.nextId⟩)).perm List.perm_append_comm

end Logged

/-- After any runs, whether the scripts ran to the end, failed or were refused: no two nodes of their
programs have the same number, and those of each program are numbered from where it started and below
where it stopped. A further run changes neither a distance that was recorded by an earlier run nor what
is known of any node of an earlier program. -/
theorem ids_nodup_and_locals_kept (h : s.Logged log) :
    (log.flatMap LogEntry.ids).Nodup ∧
    (∀ e ∈ log, ∀ i ∈ e.ids, e.firstId ≤ i ∧ i < e.compiled.nextId) ∧
    ∀ (fuel : Nat) (src : Source) (r : Except RunError Unit) (s' : Session),
      s.run fuel src = some (r, s') →
      (∀ i d : Nat, s.locals[i]? = some d → s'.locals[i]? = some d) ∧
      ∀ e ∈ log, ∀ i ∈ e.ids, s'.locals[i]? = s.locals[i]? := by
  have hnumbered := h.numbered
  obtain ⟨ps, hhistory⟩ := h.history
  refine ⟨hnumbered.nodup, fun e _ => e.numbered.bounds, fun fuel src r s' hrun => ⟨?_, ?_⟩⟩
  · -- A distance is known only of a number that was given away.
    intro i d hd
    have hi := hhistory.tracks.keys i d hd
    rw [getElem?_locals_run hrun hi, hd]
  · intro e he i hi
    have hmem : i ∈ log.flatMap LogEntry.ids := List.mem_flatMap.mpr ⟨e, he, hi⟩
    exact getElem?_locals_run hrun (hnumbered.bounds i hmem).2

/-- A loop without a condition in a function, which reads a local name. -/
def loopScript : Source :=
  ⟨"loop", "func f() \x7b var a = 1; for (;;) \x7b return a; \x7d \x7d"⟩

/-- A class with a superclass, and a fault after it. -/
def faultyScript : Source :=
  ⟨"faulty", "class A < B \x7b \x7d print (1 + ; print 2;"⟩

theorem ids_nodup_and_locals_kept_faultyScript :
    ∃ s s' : Session, s.Logged [⟨faultyScript, 3⟩, ⟨loopScript, 0⟩] ∧
      LogEntry.ids ⟨loopScript, 0⟩ = [0, 2, 1] ∧ LogEntry.ids ⟨faultyScript, 3⟩ = [3, 5] ∧
      (List.flatMap LogEntry.ids [⟨faultyScript, 3⟩, ⟨loopScript, 0⟩]).Nodup ∧
      s.run 20 ⟨"call", "f();"⟩ = some (.ok (), s') ∧ s.locals[1]? = some 1 ∧
      s'.locals[1]? = some 1 := by
  have hids : LogEntry.ids ⟨loopScript, 0⟩ = [0, 2, 1] := by decide +kernel
  have hids' : LogEntry.ids ⟨faultyScript, 3⟩ = [3, 5] := by decide +kernel
  have hfirst : (Session.new 8 (.ofInput [])).nextId = 0 := by decide +kernel
  have hruns : ((Session.new 8 (.ofInput [])).run 20 loopScript).any (fun r₁ =>
      r₁.2.nextId = 3 && (r₁.2.run 20 faultyScript).any fun r₂ =>
        r₂.2.locals[1]? = some 1 && (r₂.2.run 20 ⟨"call", "f();"⟩).any fun r₃ => r₃.1.isOk) =
      true := by
    decide +kernel
  obtain ⟨⟨r₁, s₁⟩, hrun₁, h⟩ := Option.any_eq_true _ _ |>.mp hruns
  obtain ⟨hnext, h⟩ := Bool.and_eq_true_iff.mp h
  obtain ⟨⟨r₂, s₂⟩, hrun₂, h⟩ := Option.any_eq_true _ _ |>.mp h
  obtain ⟨hlocal, h⟩ := Bool.and_eq_true_iff.mp h
  obtain ⟨⟨r₃, s₃⟩, hrun₃, hok⟩ := Option.any_eq_true _ _ |>.mp h
  have hlogged : s₂.Logged [⟨faultyScript, 3⟩, ⟨loopScript, 0⟩] := by
    have hlog := Logged.run (Logged.run (.new 8 (.ofInput [])) hrun₁) hrun₂
    rwa [hfirst, of_decide_eq_true hnext] at hlog
  obtain ⟨hnodup, -, hkept⟩ := ids_nodup_and_locals_kept hlogged
  have hknown : s₂.locals[1]? = some 1 := of_decide_eq_true hlocal
  cases r₃ with
  | error e => cases hok
  | ok u =>
    exact ⟨s₂, s₃, hlogged, hids, hids', hnodup, hrun₃, hknown, (hkept _ _ _ _ hrun₃).1 1 1 hknown⟩

end Session

end HostScript
