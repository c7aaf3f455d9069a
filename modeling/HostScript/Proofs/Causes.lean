import HostScript.Proofs.Begins
import HostScript.Proofs.Starting

/-!
# Where an error comes from

Nothing in evaluation looks at a failure: it is passed on as it is. So a run that failed can be followed
inward, from an activity to one that it starts and that failed with the same error, until the error is
made on the spot. For the errors of host methods this ends at a call of such a method, on a machine on
which the method itself fails.
-/

namespace HostScript

/-- What comes to an end over the one layer comes to the same end over the other. -/
def Inner.Refines (r r' : Inner) : Prop :=
  ∀ (b : Activity) (a : b.Result) (m m' : Machine), b.via r m = .done a m' → b.via r' m = .done a m'

/-- If `x` fails over the layer `r`, then the error is among `own`, or it is the error of some activity
that `x` depends on: where that one crashes, `x` crashes. -/
structure Traced (own : RuntimeError → Prop) (r : Inner) (d : Nat) {α : Type}
    (x : Inner → Nat → Run α) (m : Machine) : Prop where
  done : ∀ {a m'}, x r d m = .done a m' → ∀ r', r.Refines r' → x r' d m = .done a m'
  fail : ∀ {e m'}, x r d m = .fail e m' →
    own e ∨ ∃ (b : Activity) (m₁ m₂ : Machine), b.via r m₁ = .fail e m₂ ∧
      ∀ r', r.Refines r' → b.via r' m₁ = .crash → x r' d m = .crash

namespace Traced

variable {own : RuntimeError → Prop} {r : Inner} {d : Nat} {α β : Type} {m : Machine}

/-- Computations that rest on no layer have no error but their own. -/
theorem const {x : Run α} (h : ∀ {e m'}, x m = .fail e m' → own e) :
    Traced own r d (fun _ _ => x) m :=
  ⟨fun hx _ _ => hx, fun hx => .inl (h hx)⟩

theorem quiet {p : Blame} {x : Run α} (hx : x.Quiet p) (hown : ∀ e, p.Admits m.line e → own e) :
    Traced own r d (fun _ _ => x) m :=
  const fun hfail => hown _ (hx.admits hfail)

theorem via (b : Activity) : Traced own r d (fun r' _ => b.via r') m :=
  ⟨fun hb _ hr => hr b _ _ _ hb, fun hb => .inr ⟨b, m, _, hb, fun _ _ hcrash => hcrash⟩⟩

theorem bind {x : Inner → Nat → Run α} {f : Inner → Nat → α → Run β} (hx : Traced own r d x m)
    (hf : ∀ a m', x r d m = .done a m' → Traced own r d (fun r' d' => f r' d' a) m') :
    Traced own r d (fun r' d' => x r' d' >>= f r' d') m := by
  refine ⟨fun {b m'} h r' hr => ?_, fun {e m'} h => ?_⟩
  · obtain ⟨a, m₁, ha, hb⟩ := Run.bind_eq_done h
    rw [Run.bind_apply, hx.done ha r' hr]
    exact (hf a m₁ ha).done hb r' hr
  · rcases Run.bind_eq_fail h with hend | ⟨a, m₁, hend, h⟩
    · refine (hx.fail hend).imp_right ?_
      rintro ⟨b, m₂, m₃, hb, hcrash⟩
      refine ⟨b, m₂, m₃, hb, fun r' hr hb' => ?_⟩
      rw [Run.bind_apply, hcrash r' hr hb']
    · refine ((hf a m₁ hend).fail h).imp_right ?_
      rintro ⟨b, m₂, m₃, hb, hcrash⟩
      refine ⟨b, m₂, m₃, hb, fun r' hr hb' => ?_⟩
      rw [Run.bind_apply, hx.done hend r' hr]
      exact hcrash r' hr hb'

/-- A computation that makes its end from that of another, and a failure only from the same failure. -/
theorem through {x : Inner → Nat → Run α} {y : Inner → Nat → Run β} {m₁ : Machine}
    (k : Outcome α → Outcome β) (hy : ∀ r' d', y r' d' m = k (x r' d' m₁)) (hcrash : k .crash = .crash)
    (hdone : ∀ {o b m'}, k o = .done b m' → ∃ a m₂, o = .done a m₂)
    (hfail : ∀ {o e m'}, k o = .fail e m' → ∃ m₂, o = .fail e m₂) (h : Traced own r d x m₁) :
    Traced own r d y m := by
  refine ⟨fun {b m'} hend r' hr => ?_, fun {e m'} hend => ?_⟩
  · rw [hy] at hend ⊢
    obtain ⟨a, m₂, ha⟩ := hdone hend
    rw [h.done ha r' hr, ← ha, hend]
  · rw [hy] at hend
    obtain ⟨m₂, hx⟩ := hfail hend
    refine (h.fail hx).imp_right ?_
    rintro ⟨b, m₃, m₄, hb, hstops⟩
    refine ⟨b, m₃, m₄, hb, fun r' hr hb' => ?_⟩
    rw [hy, hstops r' hr hb', hcrash]

theorem inScope {s : ScopeId} {x : Inner → Nat → Run α} (h : Traced own r d x { m with env := s }) :
    Traced own r d (fun r' d' => Run.inScope s (x r' d')) m := by
  refine through (fun o => Run.inScope s (fun _ => o) m) (fun _ _ => rfl) rfl (fun {o _ _} ho => ?_)
    (fun {o _ _} ho => ?_) h
  · unfold Run.inScope at ho
    cases o <;> cases ho
    exact ⟨_, _, rfl⟩
  · unfold Run.inScope at ho
    cases o <;> cases ho
    exact ⟨_, rfl⟩

theorem deeper {x : Inner → Nat → Run α} (h : Traced own r d x { m with depth := m.depth + 1 }) :
    Traced own r d (fun r' d' => Run.deeper (x r' d')) m := by
  refine through (fun o => Run.deeper (fun _ => o) m) (fun _ _ => rfl) rfl (fun {o _ _} ho => ?_)
    (fun {o _ _} ho => ?_) h
  · unfold Run.deeper at ho
    cases o <;> cases ho
    exact ⟨_, _, rfl⟩
  · unfold Run.deeper at ho
    cases o <;> cases ho
    exact ⟨_, rfl⟩

/-- To follow a step back to its errors. -/
def walk (own : RuntimeError → Prop) (hsilent : ∀ {e : RuntimeError}, e.line? = none → own e)
    (r : Inner) (d : Nat) : Walk r d where
  Holds := Traced own r d
  allows := own
  silent := hsilent
  quiet := quiet
  line := const nofun
  bind := bind
  inScope := inScope
  deeper := deeper

end Traced

namespace Activity

variable {c : Context} {n : Nat} {a : Activity} {m m' : Machine} {e : RuntimeError}

/-- The activity calls a method of the host, which fails with the error. -/
inductive Makes (e : RuntimeError) : Activity → Machine → Prop where
  | method {f : CallableId} {args : List Value} {g : HostMethod} {receiver : Option InstanceId}
      {m m' : Machine} (hf : m.heap.callable f = .method g receiver)
      (h : g.run receiver args m = .fail e m') : Makes e (.call (.function f) args) m

/-- The activity makes the error on the spot. -/
inductive Raises (e : RuntimeError) (a : Activity) (m : Machine) : Prop where
  /-- The console failed. -/
  | silent (h : e.line? = none)
  | own (h : a.Blames m e)
  | depth {f : CallableId} {args : List Value} {limit : Nat} (ha : a = .call (.function f) args)
      (h : e = .stackOverflow m.line limit)
  /-- An initializer came to its end in a scope without an instance. -/
  | unbound {l : Nat} (h : e = .type l .loneInitializer)
  | method (h : a.Makes e m)

theorem traced_step (c : Context) (r : Inner) (a : Activity) (m : Machine) :
    Traced (fun e => a.Raises e m) r c.maxDepth (fun r' d => a.step { c with maxDepth := d } r') m := by
  refine Walk.holds_step (W := Traced.walk _ .silent r c.maxDepth) (fun b m' _ => .via b)
    (fun _ => .own) ?_ ?_ ?_
  · refine fun f args ha => ⟨fun hx _ _ => hx, fun hx => .inl ?_⟩
    unfold Evaluation.checkDepth at hx
    split at hx <;> cases hx
    exact .depth ha rfl
  · refine fun closure isInit k m₁ _ => .const fun hx => ?_
    unfold Evaluation.callResult at hx
    cases isInit with
    | false => cases k <;> cases hx
    | true =>
      rw [if_pos rfl, Run.read_bind_apply] at hx
      cases hthis : m₁.store.getAt? closure 0 Resolution.thisName with
      | some v => rw [hthis] at hx; cases hx
      | none => rw [hthis] at hx; cases hx; exact .unbound rfl
  · rintro f args g receiver rfl hf
    exact .const fun hx => .method (.method hf hx)

/-- A layer that crashes where the other one fails comes to the same ends. -/
theorem refines_alter {r : Inner} {b : Activity} {m₁ m₂ : Machine} (hb : b.via r m₁ = .fail e m₂) :
    r.Refines (r.alter m₁ b .crash) := by
  intro b' a m m' hdone
  by_cases heq : b' = b ∧ m = m₁
  · obtain ⟨rfl, rfl⟩ := heq
    rw [hb] at hdone
    cases hdone
  · rw [via_alter_of_ne r .crash heq]
    exact hdone

/-- A run that fails makes the error on the spot, or enters a run that fails with it. -/
theorem raises_or_enters (h : a.run c (n + 1) m = .fail e m') :
    a.Raises e m ∨ ∃ b m₁ m₂, a.Enters c n m b m₁ ∧ b.run c n m₁ = .fail e m₂ := by
  rw [run_succ] at h
  refine ((traced_step c (Evaluation.layer c n) a m).fail h).imp_right ?_
  rintro ⟨b, m₁, m₂, hb, hcrash⟩
  refine ⟨b, m₁, m₂, ?_, hb⟩
  -- Whatever `a` comes to over a layer that crashes in the place of `b`, it is not this failure.
  refine ⟨(Evaluation.layer c n).alter m₁ b .crash,
    fun d m₃ hne => (via_alter_of_ne _ .crash hne).symm, ?_⟩
  have halter := hcrash _ (refines_alter hb) (via_alter _ m₁ b .crash)
  rw [h]
  exact fun heq => Outcome.noConfusion rfl (heq_of_eq (heq.trans halter))

/-- Errors of host methods are made by host methods. -/
theorem Raises.makes (h : a.Raises e m) (he : e.ofHostMethod = true) : a.Makes e m := by
  have hcall : e.ofCall = true := by rw [RuntimeError.ofCall, he, Bool.or_true]
  cases h with
  | silent h => exact absurd ((RuntimeError.ofCall_of_line? h).symm.trans hcall) Bool.noConfusion
  | own h => exact absurd (h.ofCall.symm.trans hcall) Bool.noConfusion
  | depth _ h | unbound h => cases h; cases he
  | method h => exact h

/-- A run that fails with an error of a host method gets to a call of the method. -/
theorem exists_makes (h : a.run c n m = .fail e m') (he : e.ofHostMethod = true) :
    ∃ b m₁, Reaches c n a m b m₁ ∧ b.Makes e m₁ := by
  induction n generalizing a m m' with
  | zero =>
    rw [run_zero] at h
    cases h
  | succ n ih =>
    rcases raises_or_enters h with hraises | ⟨b, m₁, m₂, henters, hb⟩
    · exact ⟨a, m, .here, hraises.makes he⟩
    · obtain ⟨b', m₃, hreach, hmakes⟩ := ih hb
      exact ⟨b', m₃, .inside henters hreach, hmakes⟩

end Activity

/-- So does a program. -/
theorem ProgramReaches.exists_makes {c : Context} {n : Nat} {stmts : List Stmt} {m m' : Machine}
    {e : RuntimeError} (h : Evaluation.program c n stmts m = .fail e m')
    (he : e.ofHostMethod = true) :
    ∃ b m₁, ProgramReaches c n stmts m b m₁ ∧ b.Makes e m₁ := by
  induction stmts generalizing m with
  | nil => cases h
  | cons s rest ih =>
    rcases Run.bind_eq_fail (x := (Activity.exec s).run c n) h with hs | ⟨k, m₁, hs, h⟩
    · obtain ⟨b, m₂, hreach, hmakes⟩ := Activity.exists_makes hs he
      exact ⟨b, m₂, .first hreach, hmakes⟩
    · obtain ⟨b, m₂, hreach, hmakes⟩ := ih h
      exact ⟨b, m₂, .later hs hreach, hmakes⟩

end HostScript
