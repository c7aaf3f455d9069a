import HostScript.Diagnostic.Exchange
import HostScript.Diagnostic.Fault
import Mathlib.Logic.Function.Basic

/-!
# What a buffer of diagnostics stands for

A buffer that started empty stands for all that came to it, one by one or with another buffer: it has the
first errors and the number of all of them, and every warning. `Findings.summary` is the buffer for given
lists. Folding in does to summaries what appending does to the lists, and pushing is folding in a single
finding, so buffers inherit the laws of lists.

A buffer that was read from a text stands for lists only if its totals fit. Folding in relies on that: it
subtracts the errors that are stored from those that were counted, and of the warnings it counts those that
are listed.
-/

namespace HostScript

namespace Diagnostics

variable (a b : Diagnostics) (d : Diagnostic) (ds : List Diagnostic)

theorem foldl_pushError :
    ds.foldl pushError a =
      { a with
        errors := a.errors ++ ds.take (maxErrors - a.errors.length)
        totalErrors := a.totalErrors + ds.length } := by
  induction ds generalizing a with
  | nil => simp
  | cons d ds ih =>
    rw [List.foldl_cons, ih]
    by_cases hroom : a.errors.length < maxErrors
    · have hleft : maxErrors - a.errors.length = maxErrors - (a.errors.length + 1) + 1 := by omega
      simp [pushError, hroom, hleft, Nat.add_assoc, Nat.add_comm 1]
    · have hfull : maxErrors - a.errors.length = 0 := by omega
      simp [pushError, hroom, hfull, Nat.add_assoc, Nat.add_comm 1]

theorem foldl_pushWarning :
    ds.foldl pushWarning a =
      { a with
        warnings := a.warnings ++ ds
        totalWarnings := a.totalWarnings + ds.length } := by
  induction ds generalizing a with
  | nil => simp
  | cons d ds ih =>
    rw [List.foldl_cons, ih]
    simp [pushWarning, Nat.add_assoc, Nat.add_comm 1]

/-- What folding in comes to. The errors that are stored are counted one by one before the difference is
added, so the sum is not negative even where the difference is. -/
theorem extend_eq :
    a.extend b =
      ⟨a.errors ++ b.errors.take (maxErrors - a.errors.length), a.warnings ++ b.warnings,
        a.totalErrors + b.totalErrors, a.totalWarnings + b.warnings.length⟩ := by
  have htotal : ((↑(a.totalErrors + b.errors.length) : Int) + b.dropped).toNat =
      a.totalErrors + b.totalErrors := by
    unfold dropped
    omega
  unfold extend
  rw [foldl_pushError, foldl_pushWarning, htotal]

theorem pushError_eq_extend : a.pushError d = a.extend ⟨[d], [], 1, 0⟩ := by
  simp [extend, dropped, pushError]

theorem pushWarning_eq_extend : a.pushWarning d = a.extend ⟨[], [d], 0, 1⟩ := by
  simp [extend, dropped]

theorem dropped_nonneg_iff : 0 ≤ b.dropped ↔ b.errors.length ≤ b.totalErrors := by
  unfold dropped
  omega

end Diagnostics

/-- Errors and warnings in the order in which they were found. -/
structure Findings where
  errors : List Diagnostic
  warnings : List Diagnostic

namespace Findings

variable (l l' : Findings) (d : Diagnostic)

def empty : Findings := ⟨[], []⟩

instance : Append Findings :=
  ⟨fun l l' => ⟨l.errors ++ l'.errors, l.warnings ++ l'.warnings⟩⟩

@[simp] theorem errors_append : (l ++ l').errors = l.errors ++ l'.errors := rfl

@[simp] theorem warnings_append : (l ++ l').warnings = l.warnings ++ l'.warnings := rfl

/-- The buffer that stands for findings. -/
def summary : Diagnostics :=
  ⟨l.errors.take maxErrors, l.warnings, l.errors.length, l.warnings.length⟩

/-- Folding one summary into another gives the summary of both, also where errors were dropped. -/
theorem extend_summary : l.summary.extend l'.summary = (l ++ l').summary := by
  have hroom : min (maxErrors - min maxErrors l.errors.length) maxErrors =
      maxErrors - l.errors.length := by omega
  have herrors : l.errors.take maxErrors ++
      (l'.errors.take maxErrors).take (maxErrors - (l.errors.take maxErrors).length) =
        (l.errors ++ l'.errors).take maxErrors := by
    rw [List.length_take, List.take_take, hroom, List.take_append]
  rw [Diagnostics.extend_eq]
  simp only [summary, herrors, errors_append, warnings_append, List.length_append]

theorem pushError_summary : l.summary.pushError d = (l ++ ⟨[d], []⟩ : Findings).summary := by
  rw [Diagnostics.pushError_eq_extend, ← extend_summary]
  rfl

theorem pushWarning_summary : l.summary.pushWarning d = (l ++ ⟨[], [d]⟩ : Findings).summary := by
  rw [Diagnostics.pushWarning_eq_extend, ← extend_summary]
  rfl

theorem dropped_summary : l.summary.dropped = (l.errors.length - maxErrors : Nat) := by
  simp only [summary, Diagnostics.dropped, List.length_take]
  omega

theorem hasErrors_summary : l.summary.hasErrors = true ↔ l.errors ≠ [] := by
  simp [Diagnostics.hasErrors, summary, List.length_pos_iff]

theorem extend_summary_assoc (l₁ l₂ l₃ : Findings) :
    (l₁.summary.extend l₂.summary).extend l₃.summary =
      l₁.summary.extend (l₂.summary.extend l₃.summary) := by
  simp only [extend_summary]
  simp [summary]

theorem empty_extend_summary : Diagnostics.empty.extend l.summary = l.summary :=
  extend_summary empty l

theorem summary_extend_empty : l.summary.extend Diagnostics.empty = l.summary := by
  have hend := extend_summary l empty
  simpa [summary, empty, Diagnostics.empty] using hend

end Findings

/-- What the front end collects is what comes of pushing the errors one by one. -/
theorem Diagnostics.ofFaults_eq_foldl (src : Source) (fs : List Fault) :
    ofFaults src fs = (fs.map (·.diagnose src)).foldl pushError empty := by
  rw [foldl_pushError]
  simp [ofFaults, empty, List.map_take]

/-! ### Several buffers -/

/-- An act on one of several buffers. -/
inductive Collecting (ι : Type) where
  | error (i : ι) (d : Diagnostic)
  | warning (i : ι) (d : Diagnostic)
  /-- The buffer `j` is folded into the buffer `i`. -/
  | extend (i j : ι)
  /-- The buffer is given up, and an empty one is in its place. -/
  | discard (i : ι)

namespace Collecting

variable {ι : Type} [DecidableEq ι]

/-- What an act does to the buffers. -/
def onBuffers (b : ι → Diagnostics) : Collecting ι → ι → Diagnostics
  | error i d => Function.update b i ((b i).pushError d)
  | warning i d => Function.update b i ((b i).pushWarning d)
  | extend i j => Function.update b i ((b i).extend (b j))
  | discard i => Function.update b i .empty

/-- What an act adds to the findings that the buffers stand for. -/
def onFindings (l : ι → Findings) : Collecting ι → ι → Findings
  | error i d => Function.update l i (l i ++ ⟨[d], []⟩)
  | warning i d => Function.update l i (l i ++ ⟨[], [d]⟩)
  | extend i j => Function.update l i (l i ++ l j)
  | discard i => Function.update l i .empty

/-- The buffers after acts on empty ones. -/
def buffers (acts : List (Collecting ι)) : ι → Diagnostics :=
  acts.foldl onBuffers fun _ => .empty

/-- All that came to each buffer. -/
def findings (acts : List (Collecting ι)) : ι → Findings :=
  acts.foldl onFindings fun _ => .empty

theorem onBuffers_summary (l : ι → Findings) (a : Collecting ι) :
    a.onBuffers (fun i => (l i).summary) = fun i => (a.onFindings l i).summary := by
  have hupdate : ∀ i f, Function.update (fun i => (l i).summary) i (Findings.summary f) =
      fun j => (Function.update l i f j).summary := by
    intro i f
    funext j
    by_cases hj : j = i
    · subst hj
      simp
    · simp [hj]
  cases a with
  | error i d => simp only [onBuffers, onFindings, Findings.pushError_summary, hupdate]
  | warning i d => simp only [onBuffers, onFindings, Findings.pushWarning_summary, hupdate]
  | extend i j => simp only [onBuffers, onFindings, Findings.extend_summary, hupdate]
  | discard i => exact hupdate i .empty

theorem buffers_eq_summary (acts : List (Collecting ι)) (i : ι) :
    buffers acts i = (findings acts i).summary := by
  suffices hrun : ∀ l : ι → Findings, acts.foldl onBuffers (fun i => (l i).summary) =
      fun i => (acts.foldl onFindings l i).summary from
    congrFun (hrun fun _ => .empty) i
  induction acts with
  | nil => exact fun _ => rfl
  | cons a acts ih =>
    intro l
    rw [List.foldl_cons, onBuffers_summary, ih]
    rfl

/-- Whatever is pushed and folded in, each of any number of buffers has the first errors that came to it, the
number of all of them, and every warning. Folding such buffers is associative, the empty buffer makes no
difference on either side, and no buffer stores more errors than it counted. -/
theorem buffers_summarize (acts : List (Collecting ι)) (i : ι) :
    (buffers acts i).errors = (findings acts i).errors.take maxErrors ∧
    (buffers acts i).totalErrors = (findings acts i).errors.length ∧
    (buffers acts i).warnings = (findings acts i).warnings ∧
    (buffers acts i).totalWarnings = (findings acts i).warnings.length ∧
    ((buffers acts i).hasErrors = true ↔ (findings acts i).errors ≠ []) ∧
    (∀ j k, ((buffers acts i).extend (buffers acts j)).extend (buffers acts k) =
      (buffers acts i).extend ((buffers acts j).extend (buffers acts k))) ∧
    Diagnostics.empty.extend (buffers acts i) = buffers acts i ∧
    (buffers acts i).extend Diagnostics.empty = buffers acts i ∧
    0 ≤ (buffers acts i).dropped := by
  simp only [buffers_eq_summary]
  refine ⟨rfl, rfl, rfl, rfl, Findings.hasErrors_summary _,
    fun j k => Findings.extend_summary_assoc _ _ _, Findings.empty_extend_summary _,
    Findings.summary_extend_empty _, ?_⟩
  rw [Findings.dropped_summary]
  exact Int.natCast_nonneg _

end Collecting

/-! ### Buffers that were read -/

namespace Diagnostics

/-- Folding in `b` subtracts nothing from less and adds both totals if and only if `b` counted at least the
errors that it stores, and as many warnings as it lists. Nothing is asked of the buffer that it is folded
into. -/
theorem totals_extend_iff (a b : Diagnostics) :
    (0 ≤ b.dropped ∧ (a.extend b).totalErrors = a.totalErrors + b.totalErrors ∧
      (a.extend b).totalWarnings = a.totalWarnings + b.totalWarnings) ↔
    b.errors.length ≤ b.totalErrors ∧ b.totalWarnings = b.warnings.length := by
  rw [dropped_nonneg_iff, extend_eq]
  constructor
  · rintro ⟨herrors, -, hwarnings⟩
    exact ⟨herrors, (Nat.add_left_cancel hwarnings).symm⟩
  · rintro ⟨herrors, hwarnings⟩
    exact ⟨herrors, rfl, congrArg (a.totalWarnings + ·) hwarnings.symm⟩

/-- A buffer with one error that it did not count. -/
def uncountedText : String :=
  "\x7b\"errors\": [\x7b\"file\": \"f\", \"code\": 300, \"severity\": \"error\", " ++
  "\"category\": \"resolution\", \"message\": \"m\", \"line\": 1, \"column\": 1, " ++
  "\"end_line\": 1, \"end_column\": 1, \"source_line\": \"\"\x7d], \"warnings\": [], " ++
  "\"total_errors\": 0, \"total_warnings\": 0\x7d"

/-- A buffer that counted five warnings and lists none. -/
def unlistedText : String :=
  "\x7b\"errors\": [], \"warnings\": [], \"total_errors\": 0, \"total_warnings\": 5\x7d"

/-- Both texts are read. The one buffer counted fewer errors than it stores, and the warnings of the other
one get lost when it is folded into the empty buffer. -/
theorem read_totals_lost :
    (∃ b, ofText? uncountedText = some b ∧ b.dropped < 0) ∧
    ∃ b, ofText? unlistedText = some b ∧
      (empty.extend b).totalWarnings ≠ empty.totalWarnings + b.totalWarnings := by
  have huncounted : (ofText? uncountedText).any (fun b => b.dropped < 0) = true := by decide +kernel
  have hunlisted : (ofText? unlistedText).any (fun b =>
      (empty.extend b).totalWarnings ≠ empty.totalWarnings + b.totalWarnings) = true := by
    decide +kernel
  obtain ⟨b, hb, hneg⟩ := (Option.any_eq_true _ _).mp huncounted
  obtain ⟨b', hb', hlost⟩ := (Option.any_eq_true _ _).mp hunlisted
  exact ⟨⟨b, hb, of_decide_eq_true hneg⟩, b', hb', of_decide_eq_true hlost⟩

end Diagnostics

end HostScript
