import HostScript.Proofs.Begins
import HostScript.Proofs.Sessions

/-!
# Raising the limit on the depth of calls

The limit is read in one place, where a call is refused. So two runs that differ in the limit go the
same way until the lower limit refuses a call, and a run that was not refused one is the same under
every higher limit: the same result and the same machine, with all that was printed on it.
-/

namespace HostScript

/-- The lower limit refused a call. -/
def Cut.overflow : Cut where
  fuel := False
  error e := ∃ line depth, e = .stackOverflow line depth
  shows := True
  ofScriptCall := by
    rintro _ ⟨line, depth, rfl⟩
    rfl

namespace Cut

variable {c : Context} {d : Nat}

theorem agree_checkDepth (hd : c.maxDepth ≤ d) (m : Machine) :
    overflow.Agree (Evaluation.checkDepth c) (Evaluation.checkDepth { c with maxDepth := d }) m := by
  refine ⟨fun _ => trivial, fun hno => ?_⟩
  unfold Evaluation.checkDepth at hno ⊢
  by_cases hlt : m.depth < c.maxDepth
  · rw [if_pos hlt, if_pos (Nat.lt_of_lt_of_le hlt hd)]
  · rw [if_neg hlt] at hno
    exact absurd ⟨m.line, c.maxDepth, rfl⟩ hno

theorem overflow_agree_run (hd : c.maxDepth ≤ d) (n : Nat) (a : Activity) (m : Machine) :
    overflow.Agree (a.run c n) (a.run { c with maxDepth := d } n) m := by
  induction n generalizing a m with
  | zero => exact ⟨fun _ => trivial, fun _ => by rw [Activity.run_zero, Activity.run_zero]⟩
  | succ n ih =>
    rw [Activity.run_succ, Activity.run_succ]
    refine agree_step (fun b m' _ => ih b m') (agree_checkDepth hd m) ?_
    exact fun _ _ _ _ _ => ⟨fun _ => trivial, fun _ => rfl⟩

theorem overflow_agree_program (hd : c.maxDepth ≤ d) (n : Nat) (stmts : List Stmt) (m : Machine) :
    overflow.Agree (Evaluation.program c n stmts)
      (Evaluation.program { c with maxDepth := d } n stmts) m := by
  induction stmts generalizing m with
  | nil => exact .pure ()
  | cons s rest ih =>
    have hs := overflow_agree_run hd n (.exec s) m
    exact hs.bind fun _ m' _ => ih m'

theorem overflow_agree_callFromHost (hd : c.maxDepth ≤ d) (n : Nat) (f : Value) (args : List Value)
    (m : Machine) :
    overflow.Agree (Evaluation.callFromHost c n f args)
      (Evaluation.callFromHost { c with maxDepth := d } n f args) m := by
  refine Agree.bind (.update _) fun _ m₁ _ => .read_bind ?_
  exact overflow_agree_run hd n (.call _ args) m₁

end Cut

namespace Session

/-- The session with another limit. -/
def withLimit (s : Session) (d : Nat) : Session :=
  { s with maxDepth := d }

variable {s s' : Session} {d fuel : Nat}

theorem withLimit_reportErrors (s : Session) (d : Nat) (ds : List Diagnostic) :
    (ds.foldl reportError s).withLimit d = ds.foldl reportError (s.withLimit d) := by
  induction ds generalizing s with
  | nil => rfl
  | cons e ds ih => exact ih (s.reportError e)

/-- An end that is not that of a refused call is the end of the other computation too. -/
theorem eq_of_overflow_agree {α : Type} {x y : Run α} {m : Machine}
    (h : Cut.overflow.Agree x y m) (hx : ∀ line depth m', x m ≠ .fail (.stackOverflow line depth) m') :
    y m = x m := by
  refine (h.same fun hcut => ?_).symm
  cases hend : x m with
  | done a m' => rw [hend] at hcut; exact hcut
  | fail e m' =>
    rw [hend] at hcut
    obtain ⟨line, depth, rfl⟩ := hcut
    exact hx line depth m' hend
  | crash => rw [hend] at hcut; exact hcut
  | outOfFuel => rw [hend] at hcut; exact hcut

theorem call_withLimit {f : Value} {args : List Value} {r : Except RuntimeError Value}
    (hd : s.maxDepth ≤ d) (h : s.call fuel f args = some (r, s'))
    (hr : ∀ line depth, r ≠ .error (.stackOverflow line depth)) :
    (s.withLimit d).call fuel f args = some (r, s'.withLimit d) := by
  have hagree := Cut.overflow_agree_callFromHost (c := s.context) hd fuel f args s.machine
  have hno : ∀ line depth m', Evaluation.callFromHost s.context fuel f args s.machine ≠
      .fail (.stackOverflow line depth) m' := by
    intro line depth m' hx
    unfold call perform at h
    rw [hx] at h
    cases h
    exact hr line depth rfl
  have hy : Evaluation.callFromHost (s.withLimit d).context fuel f args (s.withLimit d).machine =
      Evaluation.callFromHost s.context fuel f args s.machine := eq_of_overflow_agree hagree hno
  unfold call perform at h ⊢
  rw [hy]
  cases hx : Evaluation.callFromHost s.context fuel f args s.machine with
  | done v m => rw [hx] at h; cases h; rfl
  | fail e m => rw [hx] at h; cases h; rfl
  | crash => rw [hx] at h; cases h
  | outOfFuel => rw [hx] at h; cases h

theorem interpret_withLimit {p : Program} {locals : List (Nat × Nat)} {r : Except RuntimeError Unit}
    (hd : s.maxDepth ≤ d) (h : s.interpret fuel p locals = some (r, s'))
    (hr : ∀ line depth, r ≠ .error (.stackOverflow line depth)) :
    (s.withLimit d).interpret fuel p locals = some (r, s'.withLimit d) := by
  have hagree := Cut.overflow_agree_program (c := (s.learn locals).context) hd fuel p.stmts s.machine
  obtain ⟨m, hx, rfl, rfl⟩ | ⟨e, m, hx, rfl, rfl⟩ := interpret_cases h
  · have hy := eq_of_overflow_agree hagree (by rw [hx]; exact nofun)
    exact interpret_of_done (hy.trans hx)
  · have hy := eq_of_overflow_agree hagree <| by
      rw [hx]
      rintro line depth m' ⟨⟩
      exact hr line depth rfl
    exact interpret_of_fail (hy.trans hx)

theorem run_withLimit {src : Source} {r : Except RunError Unit} (hd : s.maxDepth ≤ d)
    (h : s.run fuel src = some (r, s'))
    (hr : ∀ line depth, r ≠ .error (.runtime (.stackOverflow line depth))) :
    (s.withLimit d).run fuel src = some (r, s'.withLimit d) := by
  unfold run at h ⊢
  dsimp only at h ⊢
  have hid : (s.withLimit d).nextId = s.nextId := rfl
  rw [hid]
  split at h
  · rename_i herr
    cases h
    rw [if_pos herr, withLimit_reportErrors]
    rfl
  · rename_i herr
    rw [if_neg herr]
    split at h
    · rename_i s₁ hrun
      cases h
      have hrun' := interpret_withLimit (by exact hd) hrun fun _ _ => nofun
      unfold withLimit at hrun' ⊢
      rw [hrun']
    · rename_i e s₁ hrun
      cases h
      have hno : ∀ line depth, (.error e : Except RuntimeError Unit) ≠
          .error (.stackOverflow line depth) := by
        rintro line depth ⟨⟩
        exact hr line depth rfl
      have hrun' := interpret_withLimit (by exact hd) hrun hno
      unfold withLimit at hrun' ⊢
      rw [hrun']
      rfl
    · cases h

/-- A run of a program, of a script, or of a call by the host that ends well, or with any error but that
calls went too deep, ends the same under every higher limit. The sessions that are left are the same up
to the limit, so the heap, the scopes, the globals and the lines that were printed are the same. -/
theorem same_under_higher_limit {s : Session} {d : Nat} (hd : s.maxDepth ≤ d) :
    (∀ fuel p locals r s', s.interpret fuel p locals = some (r, s') →
      (∀ line depth, r ≠ .error (.stackOverflow line depth)) →
      (s.withLimit d).interpret fuel p locals = some (r, s'.withLimit d)) ∧
    (∀ fuel src r s', s.run fuel src = some (r, s') →
      (∀ line depth, r ≠ .error (.runtime (.stackOverflow line depth))) →
      (s.withLimit d).run fuel src = some (r, s'.withLimit d)) ∧
    (∀ fuel f args r s', s.call fuel f args = some (r, s') →
      (∀ line depth, r ≠ .error (.stackOverflow line depth)) →
      (s.withLimit d).call fuel f args = some (r, s'.withLimit d)) :=
  ⟨fun _ _ _ _ _ => interpret_withLimit hd, fun _ _ _ _ => run_withLimit hd,
    fun _ _ _ _ _ => call_withLimit hd⟩

/-- A script that goes three calls deep. -/
def descendScript : Source :=
  ⟨"descend", "func f(n) \x7b if (n > 1) return f(n - 1); print n; \x7d f(3);"⟩

theorem same_under_higher_limit_descendScript :
    ∃ s', (Session.new 3 (.ofInput [])).run 40 descendScript = some (.ok (), s') ∧
      s'.machine.console.lines.toList = ["1"] ∧
      ((Session.new 3 (.ofInput [])).withLimit 9).run 40 descendScript =
        some (.ok (), s'.withLimit 9) := by
  have hruns : ((Session.new 3 (.ofInput [])).run 40 descendScript).any
      (fun r => r.1 matches .ok _ && r.2.machine.console.lines.toList == ["1"]) = true := by
    decide +kernel
  obtain ⟨⟨r, s'⟩, hrun, hr⟩ := Option.any_eq_true _ _ |>.mp hruns
  cases r with
  | error e => cases hr
  | ok u =>
    have hd : (Session.new 3 (.ofInput [])).maxDepth ≤ 9 := by decide +kernel
    refine ⟨s', hrun, by simpa using hr, ?_⟩
    exact (same_under_higher_limit hd).2.1 40 descendScript _ s' hrun fun _ _ => nofun

end Session

end HostScript
