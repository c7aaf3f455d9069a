import HostScript.Proofs.Wp

/-!
# What evaluation comes to

An activity is something that evaluation sets out to do. `Enters c n a m b m'` says that the activity
`a` on the machine `m` itself starts the activity `b` on `m'`: if `b` on `m'` came to something else,
then so might `a` on `m`. `Reaches` follows such steps inward, to everything that is started while `a`
is under way, so that a property of all that `a` reaches on `m` is a property of every state in which
an expression is evaluated, a statement or a body is run, a loop goes into a round, or a value is
called.
-/

namespace HostScript

/-- Something that evaluation sets out to do. -/
inductive Activity where
  | eval (e : Expr)
  | exec (s : Stmt)
  | block (body : List Stmt)
  | loop (cond : Expr) (body : Stmt)
  | call (callee : Value) (args : List Value)

namespace Activity

@[reducible] def Result : Activity → Type
  | eval _ | call _ _ => Value
  | exec _ | block _ | loop _ _ => Completion

/-- The activity, left to a layer. -/
def via (r : Inner) : (a : Activity) → Run a.Result
  | eval e => r.eval e
  | exec s => r.exec s
  | block body => r.block body
  | loop cond body => r.loop cond body
  | call f args => r.call f args

/-- The activity, carried out over a layer. -/
def step (c : Context) (r : Inner) : (a : Activity) → Run a.Result
  | eval e => Evaluation.evalWith c r e
  | exec s => Evaluation.execWith r s
  | block body => Evaluation.blockWith r body
  | loop cond body => Evaluation.loopWith r cond body
  | call f args => Evaluation.callWith c r f args

/-- The activity with a given amount of fuel. -/
def run (c : Context) (n : Nat) (a : Activity) : Run a.Result :=
  a.via (Evaluation.layer c n)

theorem run_zero (c : Context) (a : Activity) (m : Machine) : a.run c 0 m = .outOfFuel := by
  cases a <;> rfl

theorem run_succ (c : Context) (n : Nat) (a : Activity) :
    a.run c (n + 1) = a.step c (Evaluation.layer c n) := by
  cases a <;> rfl

/-- With one unit of fuel above `n`, the activity `a` on `m` starts the activity `b` on `m'`: what
it comes to depends on what `b` on `m'` comes to. -/
def Enters (c : Context) (n : Nat) (a : Activity) (m : Machine) (b : Activity) (m' : Machine) :
    Prop :=
  ∃ r : Inner,
    (∀ d m₁, ¬ (d = b ∧ m₁ = m') → d.via (Evaluation.layer c n) m₁ = d.via r m₁) ∧
      a.step c (Evaluation.layer c n) m ≠ a.step c r m

/-- While the activity `a` is under way on `m`, the activity `b` is started on `m'`. -/
inductive Reaches (c : Context) : Nat → Activity → Machine → Activity → Machine → Prop where
  | here {n : Nat} {a : Activity} {m : Machine} : Reaches c n a m a m
  | inside {n : Nat} {a b d : Activity} {m m' m₁ : Machine} (h : Enters c n a m b m')
      (hd : Reaches c n b m' d m₁) : Reaches c (n + 1) a m d m₁

end Activity

/-- While a program runs on `m`, the activity `b` is started on `m'`. -/
inductive ProgramReaches (c : Context) (n : Nat) :
    List Stmt → Machine → Activity → Machine → Prop where
  | first {s : Stmt} {rest : List Stmt} {m m' : Machine} {b : Activity}
      (h : Activity.Reaches c n (.exec s) m b m') : ProgramReaches c n (s :: rest) m b m'
  | later {s : Stmt} {rest : List Stmt} {m m₁ m' : Machine} {b : Activity} {k : Completion}
      (h : Evaluation.exec c n s m = .done k m₁) (hr : ProgramReaches c n rest m₁ b m') :
      ProgramReaches c n (s :: rest) m b m'

end HostScript
