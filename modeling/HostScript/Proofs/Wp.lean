import HostScript.Machine.Evaluation

/-!
# Weakest preconditions

`Run.wp x P m`: the computation `x`, started on `m`, can only end as `P` asks. Running out of fuel is
no end, so nothing is asked of it. Each way to build a computation has a rule that takes its `wp`
apart; the rules are `simp` lemmas.
-/

namespace HostScript

/-- What is asked of the end of a computation. -/
structure Post (α : Type) where
  done : α → Machine → Prop
  fail : RuntimeError → Machine → Prop
  crash : Prop

/-- Whether an end is as asked. -/
def Outcome.Meets {α : Type} (P : Post α) : Outcome α → Prop
  | .done a m => P.done a m
  | .fail e m => P.fail e m
  | .crash => P.crash
  | .outOfFuel => True

namespace Run

variable {α β : Type} {P : Post α} {m : Machine}

def wp (x : Run α) (P : Post α) (m : Machine) : Prop :=
  (x m).Meets P

theorem wp_mono {x : Run α} {P P' : Post α} (h : x.wp P m)
    (hd : ∀ a m', P.done a m' → P'.done a m') (hf : ∀ e m', P.fail e m' → P'.fail e m')
    (hc : P.crash → P'.crash) : x.wp P' m := by
  unfold wp at h ⊢
  cases hx : x m with
  | done a m' => rw [hx] at h; exact hd a m' h
  | fail e m' => rw [hx] at h; exact hf e m' h
  | crash => rw [hx] at h; exact hc h
  | outOfFuel => trivial

@[simp] theorem wp_pure (a : α) : (pure a : Run α).wp P m ↔ P.done a m := Iff.rfl

@[simp] theorem wp_pure' (a : α) : (Run.pure a).wp P m ↔ P.done a m := Iff.rfl

@[simp] theorem wp_fail (e : RuntimeError) : (Run.fail e : Run α).wp P m ↔ P.fail e m := Iff.rfl

@[simp] theorem wp_failHere (f : TypeFault) :
    (Run.failHere f : Run α).wp P m ↔ P.fail (.type m.line f) m := Iff.rfl

@[simp] theorem wp_read (f : Machine → α) : (Run.read f).wp P m ↔ P.done (f m) m := Iff.rfl

@[simp] theorem wp_update {P : Post Unit} (f : Machine → Machine) :
    (Run.update f).wp P m ↔ P.done () (f m) := Iff.rfl

theorem bind_apply (x : Run α) (f : α → Run β) (m : Machine) :
    (x >>= f) m = match x m with
      | .done a m' => f a m'
      | .fail e m' => .fail e m'
      | .crash => .crash
      | .outOfFuel => .outOfFuel := rfl

@[simp] theorem wp_bind (x : Run α) (f : α → Run β) (P : Post β) :
    (x >>= f).wp P m ↔ x.wp ⟨fun a m' => (f a).wp P m', P.fail, P.crash⟩ m := by
  unfold wp
  rw [bind_apply]
  cases x m <;> exact Iff.rfl

@[simp] theorem wp_demand {P : Post Unit} (p : Machine → Bool) :
    (Run.demand p).wp P m ↔ if p m = true then P.done () m else P.crash := by
  unfold wp Run.demand
  split <;> exact Iff.rfl

@[simp] theorem wp_present_some (a : α) : (Run.present (some a)).wp P m ↔ P.done a m := Iff.rfl

@[simp] theorem wp_present_none : (Run.present (none : Option α)).wp P m ↔ P.crash := Iff.rfl

@[simp] theorem wp_ofOption_some (a : α) (e : RuntimeError) :
    (Run.ofOption (some a) e).wp P m ↔ P.done a m := Iff.rfl

@[simp] theorem wp_ofOption_none (e : RuntimeError) :
    (Run.ofOption (none : Option α) e).wp P m ↔ P.fail e m := Iff.rfl

@[simp] theorem wp_ofExcept_ok {ε : Type} (a : α) (error : ε → RuntimeError) :
    (Run.ofExcept (.ok a) error).wp P m ↔ P.done a m := Iff.rfl

@[simp] theorem wp_ofExcept_error {ε : Type} (e : ε) (error : ε → RuntimeError) :
    (Run.ofExcept (.error e : Except ε α) error).wp P m ↔ P.fail (error e) m := Iff.rfl

@[simp] theorem wp_here_ok (a : α) : (Run.here (.ok a)).wp P m ↔ P.done a m := Iff.rfl

@[simp] theorem wp_here_error (e : ValueError) :
    (Run.here (.error e : Except ValueError α)).wp P m ↔ P.fail (.type m.line (.value e)) m :=
  Iff.rfl

theorem wp_inScope (s : ScopeId) (x : Run α) :
    (Run.inScope s x).wp P m ↔
      x.wp ⟨fun a m' => P.done a { m' with env := m.env },
        fun e m' => P.fail e { m' with env := m.env }, P.crash⟩ { m with env := s } := by
  unfold wp Run.inScope
  cases x { m with env := s } <;> exact Iff.rfl

theorem wp_deeper (x : Run α) :
    (Run.deeper x).wp P m ↔
      x.wp ⟨fun a m' => P.done a { m' with depth := m'.depth - 1 },
        fun e m' => P.fail e { m' with depth := m'.depth - 1 }, P.crash⟩
        { m with depth := m.depth + 1 } := by
  unfold wp Run.deeper
  cases x { m with depth := m.depth + 1 } <;> exact Iff.rfl

theorem bind_eq_done {x : Run α} {f : α → Run β} {b : β} {m' : Machine}
    (h : (x >>= f) m = .done b m') : ∃ a m₁, x m = .done a m₁ ∧ f a m₁ = .done b m' := by
  rw [bind_apply] at h
  cases hx : x m with
  | done a m₁ => rw [hx] at h; exact ⟨a, m₁, rfl, h⟩
  | fail e m₁ => rw [hx] at h; cases h
  | crash => rw [hx] at h; cases h
  | outOfFuel => rw [hx] at h; cases h

theorem bind_eq_fail {x : Run α} {f : α → Run β} {e : RuntimeError} {m' : Machine}
    (h : (x >>= f) m = .fail e m') :
    x m = .fail e m' ∨ ∃ a m₁, x m = .done a m₁ ∧ f a m₁ = .fail e m' := by
  rw [bind_apply] at h
  cases hx : x m with
  | done a m₁ => rw [hx] at h; exact .inr ⟨a, m₁, rfl, h⟩
  | fail e₁ m₁ => rw [hx] at h; cases h; exact .inl rfl
  | crash | outOfFuel => rw [hx] at h; cases h

theorem bind_eq_fail_iff {x : Run α} {f : α → Run β} {e : RuntimeError} {m' : Machine} :
    (x >>= f) m = .fail e m' ↔
      x m = .fail e m' ∨ ∃ a m₁, x m = .done a m₁ ∧ f a m₁ = .fail e m' := by
  refine ⟨bind_eq_fail, ?_⟩
  rintro (hx | ⟨a, m₁, hx, hf⟩)
  · rw [bind_apply, hx]
  · rw [bind_apply, hx]
    exact hf

/-- What only gives a value in the end fails as what comes before it does. -/
theorem bind_pure_eq_fail_iff {x : Run α} {f : α → β} {e : RuntimeError} {m' : Machine} :
    (x >>= fun a => pure (f a)) m = .fail e m' ↔ x m = .fail e m' := by
  rw [bind_eq_fail_iff, or_iff_left]
  rintro ⟨_, _, -, ⟨⟩⟩

theorem read_bind_apply (f : Machine → α) (g : α → Run β) : (Run.read f >>= g) m = g (f m) m := rfl

theorem demand_bind_apply {p : Machine → Bool} {f : Unit → Run α} (h : p m = true) :
    (Run.demand p >>= f) m = f () m := by
  rw [bind_apply, Run.demand, if_pos h]

theorem demand_eq_done {p : Machine → Bool} {u : Unit} {m' : Machine}
    (h : Run.demand p m = .done u m') : p m = true ∧ m' = m := by
  unfold Run.demand at h
  split at h <;> cases h
  exact ⟨‹_›, rfl⟩

theorem ofOption_eq_done {o : Option α} {e : RuntimeError} {a : α} {m' : Machine}
    (h : Run.ofOption o e m = .done a m') : o = some a ∧ m' = m := by
  cases o <;> cases h
  exact ⟨rfl, rfl⟩

theorem ofExcept_eq_done {ε : Type} {x : Except ε α} {f : ε → RuntimeError} {a : α} {m' : Machine}
    (h : Run.ofExcept x f m = .done a m') : x = .ok a ∧ m' = m := by
  cases x <;> cases h
  exact ⟨rfl, rfl⟩

theorem inScope_eq_done {s : ScopeId} {x : Run α} {a : α} {m' : Machine}
    (h : Run.inScope s x m = .done a m') :
    ∃ m₁, x { m with env := s } = .done a m₁ ∧ m' = { m₁ with env := m.env } := by
  unfold Run.inScope at h
  cases hx : x { m with env := s } with
  | done b m₁ => rw [hx] at h; cases h; exact ⟨m₁, rfl, rfl⟩
  | fail e m₁ => rw [hx] at h; cases h
  | crash => rw [hx] at h; cases h
  | outOfFuel => rw [hx] at h; cases h

theorem deeper_eq_done {x : Run α} {a : α} {m' : Machine} (h : Run.deeper x m = .done a m') :
    ∃ m₁, x { m with depth := m.depth + 1 } = .done a m₁ ∧
      m' = { m₁ with depth := m₁.depth - 1 } := by
  unfold Run.deeper at h
  cases hx : x { m with depth := m.depth + 1 } with
  | done b m₁ => rw [hx] at h; cases h; exact ⟨m₁, rfl, rfl⟩
  | fail e m₁ => rw [hx] at h; cases h
  | crash => rw [hx] at h; cases h
  | outOfFuel => rw [hx] at h; cases h

theorem inScope_eq_fail {s : ScopeId} {x : Run α} {e : RuntimeError} {m' : Machine}
    (h : Run.inScope s x m = .fail e m') :
    ∃ m₁, x { m with env := s } = .fail e m₁ ∧ m' = { m₁ with env := m.env } := by
  unfold Run.inScope at h
  cases hx : x { m with env := s } with
  | done a m₁ => rw [hx] at h; cases h
  | fail e₁ m₁ => rw [hx] at h; cases h; exact ⟨m₁, rfl, rfl⟩
  | crash => rw [hx] at h; cases h
  | outOfFuel => rw [hx] at h; cases h

theorem deeper_eq_fail {x : Run α} {e : RuntimeError} {m' : Machine}
    (h : Run.deeper x m = .fail e m') :
    ∃ m₁, x { m with depth := m.depth + 1 } = .fail e m₁ ∧
      m' = { m₁ with depth := m₁.depth - 1 } := by
  unfold Run.deeper at h
  cases hx : x { m with depth := m.depth + 1 } with
  | done a m₁ => rw [hx] at h; cases h
  | fail e₁ m₁ => rw [hx] at h; cases h; exact ⟨m₁, rfl, rfl⟩
  | crash => rw [hx] at h; cases h
  | outOfFuel => rw [hx] at h; cases h

/-- What is run in a scope matters there only. -/
theorem inScope_congr {s : ScopeId} {x y : Run α} (h : x { m with env := s } = y { m with env := s }) :
    Run.inScope s x m = Run.inScope s y m := by
  unfold Run.inScope
  rw [h]

theorem deeper_congr {x y : Run α}
    (h : x { m with depth := m.depth + 1 } = y { m with depth := m.depth + 1 }) :
    Run.deeper x m = Run.deeper y m := by
  unfold Run.deeper
  rw [h]

end Run

end HostScript
