import HostScript.Proofs.Regime.Sound
import HostScript.Proofs.Sessions

/-!
# Scopes and calls are given back

Whatever evaluation does, it ends in the scope and at the call depth that it started with, also when
it fails; and from a depth within the limit no state beyond the limit is reached. So a session has
nothing to reset when a program fails.

Both are one regime: scope and depth are the same later, and under the assumption `p` the depth is
within the limit. The limit is checked where the body of a function is entered, and nowhere else does
the depth grow.
-/

namespace HostScript

/-- An end that is in the scope and at the depth of `m`. Crashing and running out of fuel are no
ends. -/
def Outcome.Restores {α : Type} (m : Machine) : Outcome α → Prop
  | .done _ m' | .fail _ m' => m'.env = m.env ∧ m'.depth = m.depth
  | .crash | .outOfFuel => True

namespace Regime

def balance (c : Context) (p : Prop) : Regime c where
  inv m := p → m.depth ≤ c.maxDepth
  le m m' := m'.env = m.env ∧ m'.depth = m.depth
  crash := True
  le_refl _ := ⟨rfl, rfl⟩
  le_trans h h' := ⟨h'.1.trans h.1, h'.2.trans h.2⟩
  ok _ _ := True
  okMethod _ _ := True
  name _ := True
  atExpr _ _ := True
  atStmt _ _ := True
  atBlock _ _ := True
  after _ _ := True
  ok_le _ _ := trivial
  ok_env _ _ _ := trivial
  okMethod_le _ _ := trivial
  ok_plain _ := trivial
  ok_own _ _ := trivial
  ok_field _ _ := trivial
  ok_bound _ _ := trivial
  ok_table _ _ := trivial
  ok_class _ _ := trivial
  ok_hostClass _ _ := trivial
  ok_receiver _ _ _ := trivial
  has_class _ _ := .inl trivial
  has_instance _ _ := .inl trivial
  has_callable _ _ := .inl trivial
  has_method _ _ := .inl trivial
  native_arity _ _ _ := .inl trivial
  constructor_arity _ _ := .inl trivial
  line hi _ := ⟨hi, rfl, rfl⟩
  console hi _ := ⟨hi, rfl, rfl⟩
  cells hi _ := ⟨hi, rfl, rfl⟩
  declare hi _ _ := ⟨hi, rfl, rfl⟩
  assign hi _ _ _ := ⟨hi, rfl, rfl⟩
  putField hi _ := ⟨hi, rfl, rfl⟩
  putBound _ hi _ _ := ⟨hi, rfl, rfl⟩
  bindScript hi _ _ _ _ := ⟨hi, ⟨rfl, rfl⟩, trivial⟩
  bindHost hi _ _ _ _ := ⟨hi, ⟨rfl, rfl⟩, trivial⟩
  function hi _ := ⟨hi, ⟨rfl, rfl⟩, trivial⟩
  newClass hi _ _ _ _ _ := ⟨hi, ⟨rfl, rfl⟩, trivial⟩
  newInstance hi _ _ _ := ⟨hi, ⟨rfl, rfl⟩, trivial⟩
  enterBlock hi _ := ⟨hi, trivial⟩
  enterCall _ _ _ _ _ hdepth := ⟨fun _ => hdepth, trivial⟩
  leaveBlock _ hle hi' := ⟨hi', rfl, hle.2⟩
  leaveCall hi hle _ := by
    have hback := Nat.sub_eq_of_eq_add hle.2
    exact ⟨fun hp => Nat.le_trans (Nat.le_of_eq hback) (hi hp), rfl, hback⟩

variable {c : Context} {p : Prop} {m : Machine} {α : Type} {x y : Run α} {Q : α → Machine → Prop}

theorem restores_of_keeps (h : (balance c p).Keeps x y Q m) : (x m).Restores m := by
  have hw := h.2
  unfold Run.wp at hw
  cases hx : x m with
  | done a m' => rw [hx] at hw; exact hw.2.1
  | fail e m' => rw [hx] at hw; exact hw.2
  | crash => trivial
  | outOfFuel => trivial

end Regime

namespace Activity

variable (c : Context) (n : Nat) (a : Activity) (m : Machine)

theorem restores_run : (a.run c n m).Restores m := by
  have hready : (Regime.balance c False).Ready a m :=
    ⟨nofun, by cases a <;> simp [Regime.balance]⟩
  exact Regime.restores_of_keeps (Regime.keeps_run n hready)

variable {c n a m}

theorem depth_le_of_reaches {b : Activity} {m' : Machine} (h : Reaches c n a m b m')
    (hm : m.depth ≤ c.maxDepth) : m'.depth ≤ c.maxDepth := by
  have hready : (Regime.balance c True).Ready a m :=
    ⟨fun _ => hm, by cases a <;> simp [Regime.balance]⟩
  exact (Regime.ready_of_reaches h hready).inv trivial

end Activity

namespace Evaluation

variable (c : Context) (n : Nat) (m : Machine)

theorem restores_callFromHost (f : Value) (args : List Value) :
    (callFromHost c n f args m).Restores m :=
  Regime.restores_of_keeps <|
    Regime.keeps_callByHost (R := Regime.balance c False) n nofun trivial fun _ _ => trivial

theorem restores_program (stmts : List Stmt) : (program c n stmts m).Restores m :=
  Regime.restores_of_keeps <|
    Regime.keeps_program (R := Regime.balance c False) n stmts nofun fun _ _ => trivial

end Evaluation

namespace Session

variable {s s' : Session} {fuel : Nat} {p : Program} {locals : List (Nat × Nat)}

/-- The machine that a failing program leaves to its session is the machine on which it failed. -/
theorem machine_of_interpret_error {e : RuntimeError} (henv : s.machine.env = .globals)
    (hdepth : s.machine.depth = 0) (h : s.interpret fuel p locals = some (.error e, s')) :
    Evaluation.program (s.learn locals).context fuel p.stmts s.machine = .fail e s'.machine := by
  obtain ⟨m, -, hr, -⟩ | ⟨e', m, hrun, hr, rfl⟩ := interpret_cases h
  · cases hr
  · cases hr
    have hrestores :=
      Evaluation.restores_program (s.learn locals).context fuel s.machine p.stmts
    rw [hrun] at hrestores
    obtain ⟨henv', hdepth'⟩ := hrestores
    have hm : { m with env := .globals, depth := 0 } = m := by
      rw [← henv, ← hdepth, ← henv', ← hdepth']
    rw [hrun]
    exact congrArg (Outcome.fail e) hm.symm

end Session

/-- Whatever evaluation sets out to do, and whatever a host calls, ends in the scope and at the depth
that it started with, however it ends. From a depth within the limit it reaches no state beyond the
limit. What a session resets after a failure is as it should be already, if it was when the program
started. -/
theorem evaluation_balanced :
    (∀ c n (a : Activity) m, (a.run c n m).Restores m) ∧
    (∀ c n f args m, (Evaluation.callFromHost c n f args m).Restores m) ∧
    (∀ c n a m b m', Activity.Reaches c n a m b m' → m.depth ≤ c.maxDepth →
      m'.depth ≤ c.maxDepth) ∧
    (∀ (s s' : Session) fuel p locals e, s.machine.env = .globals → s.machine.depth = 0 →
      s.interpret fuel p locals = some (.error e, s') →
      Evaluation.program (s.learn locals).context fuel p.stmts s.machine = .fail e s'.machine) :=
  ⟨Activity.restores_run, fun c n f args m => Evaluation.restores_callFromHost c n m f args,
    fun _ _ _ _ _ _ => Activity.depth_le_of_reaches,
    fun _ _ _ _ _ _ => Session.machine_of_interpret_error⟩

/-- A function that fails inside a block: `func f() { { -Null; } } f();`. -/
def Program.failingCall : Program where
  stmts :=
    let sp := Span.point 1 1
    let failing : Stmt := .expr (.unary ⟨1, sp⟩ .neg (.literal ⟨0, sp⟩ .null)) sp
    [.function ⟨⟨"f", sp⟩, [], [.block [failing] sp], sp⟩,
      .expr (.call ⟨3, sp⟩ (.var ⟨2, sp⟩ ⟨"f", sp⟩) []) sp]
  span := .point 1 1

theorem evaluation_balanced_failingCall :
    let s := Session.bare 1 (.ofInput [])
    ∃ e s', s.interpret 9 .failingCall [] = some (.error e, s') ∧
      Evaluation.program s.context 9 Program.failingCall.stmts s.machine = .fail e s'.machine := by
  intro s
  have hfails : (s.interpret 9 .failingCall []).any (fun r => !r.1.isOk) = true := by
    decide +kernel
  obtain ⟨⟨r, s'⟩, hrun, hr⟩ := Option.any_eq_true _ _ |>.mp hfails
  cases r with
  | ok _ => cases hr
  | error e => exact ⟨e, s', hrun, evaluation_balanced.2.2.2 s s' 9 _ [] e rfl rfl hrun⟩

end HostScript
