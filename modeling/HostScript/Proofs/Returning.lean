import HostScript.Proofs.Activity
import HostScript.Proofs.Wp
import HostScript.Resolution

/-!
# Statements that return

A value that is returned goes to the nearest call. A statement outside every function that would return one
is refused by resolution, so what runs there is always completed.
-/

namespace HostScript

mutual

/-- Whether a statement may return, apart from the functions that are declared in it. -/
def Stmt.returns : Stmt → Bool
  | .return_ _ _ => true
  | .var _ _ _ | .print _ _ | .expr _ _ | .function _ | .class_ _ _ _ _ => false
  | .block body _ => Stmt.listReturns body
  | .ifElse _ t none _ => t.returns
  | .ifElse _ t (some e) _ => t.returns || e.returns
  | .while_ _ body _ => body.returns

def Stmt.listReturns : List Stmt → Bool
  | [] => false
  | s :: rest => s.returns || Stmt.listReturns rest

end

/-! ### Resolution -/

namespace Resolution

theorem faults_append_eq_nil {a b : Resolution} (h : (a ++ b).faults = []) :
    a.faults = [] ∧ b.faults = [] :=
  List.append_eq_nil_iff.mp h

mutual

theorem returns_of_faultless (c : ClassMode) (ss : StaticScopes) :
    ∀ s : Stmt, (ofStmt ⟨.none, c⟩ ss s).2.faults = [] → s.returns = false
  | .var _ _ _, _ | .print _ _, _ | .expr _ _, _ | .function _, _ | .class_ _ _ _ _, _ => rfl
  | .return_ v sp, h => by
    rw [ofStmt] at h
    obtain ⟨hreturn, -⟩ := faults_append_eq_nil h
    obtain ⟨houtside, -⟩ := faults_append_eq_nil hreturn
    cases houtside
  | .block body _, h => by
    rw [ofStmt] at h
    exact listReturns_of_faultless c _ body h
  | .ifElse cond t none _, h => by
    rw [ofStmt] at h
    obtain ⟨-, ht⟩ := faults_append_eq_nil h
    exact returns_of_faultless c ss t ht
  | .ifElse cond t (some e) _, h => by
    rw [ofStmt] at h
    obtain ⟨hfirst, he⟩ := faults_append_eq_nil h
    obtain ⟨-, ht⟩ := faults_append_eq_nil hfirst
    rw [Stmt.returns, returns_of_faultless c ss t ht, returns_of_faultless c _ e he]
    rfl
  | .while_ cond body _, h => by
    rw [ofStmt] at h
    obtain ⟨-, hbody⟩ := faults_append_eq_nil h
    exact returns_of_faultless c ss body hbody

theorem listReturns_of_faultless (c : ClassMode) (ss : StaticScopes) :
    ∀ body : List Stmt, (ofStmts ⟨.none, c⟩ ss body).2.faults = [] →
      Stmt.listReturns body = false
  | [], _ => rfl
  | s :: rest, h => by
    rw [ofStmts] at h
    obtain ⟨hs, hrest⟩ := faults_append_eq_nil h
    rw [Stmt.listReturns, returns_of_faultless c ss s hs, listReturns_of_faultless c _ rest hrest]
    rfl

end

end Resolution

theorem Stmt.returns_of_mem {s : Stmt} {body : List Stmt} (hs : s ∈ body)
    (h : Stmt.listReturns body = false) : s.returns = false := by
  induction body with
  | nil => cases hs
  | cons t rest ih =>
    rw [Stmt.listReturns, Bool.or_eq_false_iff] at h
    rcases List.mem_cons.mp hs with rfl | hs
    · exact h.1
    · exact ih hs h.2

/-! ### Evaluation -/

namespace Run

/-- The computation never ends with a value on its way to a call. -/
def Completes (x : Run Completion) : Prop :=
  ∀ m v m', x m ≠ .done (.returning v) m'

theorem Completes.pure : (Pure.pure .completed : Run Completion).Completes :=
  fun _ _ _ => nofun

theorem Completes.bind {α : Type} (x : Run α) {f : α → Run Completion} (hf : ∀ a, (f a).Completes) :
    (x >>= f).Completes := by
  intro m v m' h
  obtain ⟨a, m₁, -, h⟩ := bind_eq_done h
  exact hf a m₁ v m' h

/-- Behind a computation that completes, it is completed. -/
theorem Completes.then {x : Run Completion} {f : Completion → Run Completion} (hx : x.Completes)
    (hf : (f .completed).Completes) : (x >>= f).Completes := by
  intro m v m' h
  obtain ⟨k, m₁, hk, h⟩ := bind_eq_done h
  cases k with
  | completed => exact hf m₁ v m' h
  | returning w => exact hx m w m₁ hk

theorem Completes.inScope {e : ScopeId} {x : Run Completion} (hx : x.Completes) :
    (Run.inScope e x).Completes := by
  intro m v m' h
  obtain ⟨m₁, hm₁, -⟩ := inScope_eq_done h
  exact hx _ v m₁ hm₁

end Run

namespace Evaluation

/-- The layer completes code that does not return. -/
structure Completes (r : Inner) : Prop where
  exec : ∀ s, s.returns = false → (r.exec s).Completes
  block : ∀ body, Stmt.listReturns body = false → (r.block body).Completes
  loop : ∀ cond body, body.returns = false → (r.loop cond body).Completes

variable {r : Inner}

theorem completes_execWith (hr : Completes r) {s : Stmt} (hs : s.returns = false) :
    (execWith r s).Completes := by
  cases s with
  | expr e sp => exact .bind _ fun _ => .pure
  | print e sp => exact .bind _ fun _ => .bind _ fun _ => .bind _ fun _ => .pure
  | var x init sp =>
    cases init with
    | none => exact .bind _ fun _ => .pure
    | some e => exact .bind _ fun _ => .bind _ fun _ => .pure
  | block body sp =>
    rw [Stmt.returns] at hs
    exact .bind _ fun _ => .bind _ fun _ => (hr.block body hs).inScope
  | ifElse cond t e sp =>
    refine .bind _ fun v => .bind _ fun truth => ?_
    cases e with
    | none =>
      rw [Stmt.returns] at hs
      split
      · exact hr.exec t hs
      · exact .pure
    | some e =>
      rw [Stmt.returns, Bool.or_eq_false_iff] at hs
      split
      · exact hr.exec t hs.1
      · exact hr.exec e hs.2
  | while_ cond body sp =>
    rw [Stmt.returns] at hs
    exact hr.loop cond body hs
  | function d => exact .bind _ fun _ => .bind _ fun _ => .bind _ fun _ => .pure
  | class_ x super ms sp => exact .bind _ fun _ => .pure
  | return_ value sp => rw [Stmt.returns] at hs; cases hs

theorem completes_blockWith (hr : Completes r) {body : List Stmt}
    (hb : Stmt.listReturns body = false) : (blockWith r body).Completes := by
  cases body with
  | nil => exact .pure
  | cons s rest =>
    rw [Stmt.listReturns, Bool.or_eq_false_iff] at hb
    exact (hr.exec s hb.1).then (hr.block rest hb.2)

theorem completes_loopWith (hr : Completes r) (cond : Expr) {body : Stmt}
    (hb : body.returns = false) : (loopWith r cond body).Completes := by
  refine .bind _ fun v => .bind _ fun truth => ?_
  split
  · exact (hr.exec body hb).then (hr.loop cond body hb)
  · exact .pure

theorem completes_layer (c : Context) (n : Nat) : Completes (layer c n) := by
  induction n with
  | zero => exact ⟨fun _ _ _ _ _ => nofun, fun _ _ _ _ _ => nofun, fun _ _ _ _ _ _ => nofun⟩
  | succ n ih =>
    exact ⟨fun _ hs => completes_execWith ih hs, fun _ hb => completes_blockWith ih hb,
      fun cond _ hb => completes_loopWith ih cond hb⟩

end Evaluation

end HostScript
