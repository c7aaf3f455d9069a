import HostScript.Proofs.Regime

/-!
# What is run is started

An activity starts those that it runs: where its outcome is made from that of another activity, and
crashes and lack of fuel are passed on, it depends on that activity. So what a run starts can be followed
from a statement down to a node inside the body of a function that it calls.
-/

namespace HostScript

open Classical in
/-- A layer that differs in what one activity comes to on one machine. -/
noncomputable def Inner.alter (r : Inner) (m : Machine) : (b : Activity) → Outcome b.Result → Inner
  | .eval e, o => { r with eval := fun e' m' => if e' = e ∧ m' = m then o else r.eval e' m' }
  | .exec s, o => { r with exec := fun s' m' => if s' = s ∧ m' = m then o else r.exec s' m' }
  | .block body, o =>
    { r with block := fun b' m' => if b' = body ∧ m' = m then o else r.block b' m' }
  | .loop cond s, o =>
    { r with loop := fun e' s' m' => if (e' = cond ∧ s' = s) ∧ m' = m then o else r.loop e' s' m' }
  | .call f as, o =>
    { r with call := fun f' as' m' => if (f' = f ∧ as' = as) ∧ m' = m then o else r.call f' as' m' }

namespace Activity

variable {c : Context} {n : Nat} {m m' m₁ m₂ : Machine} {a b : Activity}

theorem via_alter (r : Inner) (m : Machine) (b : Activity) (o : Outcome b.Result) :
    b.via (r.alter m b o) m = o := by
  cases b <;> simp [Inner.alter, via]

theorem via_alter_of_ne (r : Inner) (o : Outcome b.Result) {d : Activity} {m₁ : Machine}
    (h : ¬ (d = b ∧ m₁ = m)) : d.via (r.alter m b o) m₁ = d.via r m₁ := by
  cases b <;> cases d <;> simp_all [Inner.alter, via]

/-- A layer that may differ in what `b` comes to on `m`, and nowhere else. -/
def AgreesBut (c : Context) (n : Nat) (b : Activity) (m : Machine) (r : Inner) : Prop :=
  ∀ d m₁, ¬ (d = b ∧ m₁ = m) → d.via (Evaluation.layer c n) m₁ = d.via r m₁

theorem enters_of_step_eq (k : Inner → Outcome b.Result → Outcome a.Result)
    (hcrash : ∀ r, k r .crash = .crash) (hfuel : ∀ r, k r .outOfFuel = .outOfFuel)
    (h : ∀ r, AgreesBut c n b m' r → a.step c r m = k r (b.via r m')) : a.Enters c n m b m' := by
  have hagree : ∀ o, AgreesBut c n b m' ((Evaluation.layer c n).alter m' b o) :=
    fun o d m₁ hne => (via_alter_of_ne _ o hne).symm
  have halter : ∀ o, a.step c ((Evaluation.layer c n).alter m' b o) m =
      k ((Evaluation.layer c n).alter m' b o) o := by
    intro o
    rw [h _ (hagree o), via_alter]
  -- Of the two outcomes that are passed on, one is not the outcome of `a`.
  by_cases hc : a.step c (Evaluation.layer c n) m = .crash
  · refine ⟨_, hagree .outOfFuel, ?_⟩
    rw [hc, halter, hfuel]
    nofun
  · refine ⟨_, hagree .crash, ?_⟩
    rw [halter, hcrash]
    exact hc

/-- An activity starts what it begins with. -/
theorem enters_of_step_eq_bind (g : Inner → b.Result → Run a.Result)
    (h : ∀ r, a.step c r m = (b.via r >>= g r) m) : a.Enters c n m b m := by
  let k (r : Inner) (o : Outcome b.Result) := ((fun _ => o : Run b.Result) >>= g r) m
  exact enters_of_step_eq k (fun _ => rfl) (fun _ => rfl) fun r _ => h r

theorem enters_expr (e : Expr) (sp : Span) : (exec (.expr e sp)).Enters c n m (eval e) m :=
  enters_of_step_eq_bind (b := eval e) (fun _ _ => pure .completed) fun _ => rfl

theorem enters_return (e : Expr) (sp : Span) :
    (exec (.return_ (some e) sp)).Enters c n m (eval e) m :=
  enters_of_step_eq_bind (b := eval e) (fun _ v => pure (.returning v)) fun _ => rfl

/-- A block runs its statements in a scope of its own. -/
theorem enters_block (body : List Stmt) (sp : Span) :
    (exec (.block body sp)).Enters c n m (block body) (m.enter ⟨.empty, some m.env⟩) := by
  let opened := m.store.open ⟨.empty, some m.env⟩
  let k (_ : Inner) (o : Outcome Completion) :=
    Run.inScope opened.1 (fun _ => o) { m with store := opened.2 }
  exact enters_of_step_eq (b := block body) k (fun _ => rfl) (fun _ => rfl) fun _ _ => rfl

theorem enters_initializer (x : Ident) (e : Expr) (sp : Span) :
    (exec (.var x (some e) sp)).Enters c n m (eval e) m :=
  enters_of_step_eq_bind (b := eval e)
    (fun _ v => Evaluation.declare x.name v >>= fun _ => pure .completed) fun _ => rfl

theorem enters_head (s : Stmt) (rest : List Stmt) :
    (block (s :: rest)).Enters c n m (exec s) m :=
  enters_of_step_eq_bind (b := exec s) _ fun _ => rfl

theorem enters_callee (k : Mark) (f : Expr) (as : List Expr) :
    (eval (.call k f as)).Enters c n m (eval f) m :=
  enters_of_step_eq_bind (b := eval f)
    (fun r v => do
      let vs ← Evaluation.arguments r.eval as
      Run.update fun m => { m with line := k.span.line }
      let v ← r.call v vs
      Run.read fun m => v.detach m.store.cells) fun _ => rfl

/-- A call expression calls the value of its callee with those of its arguments. -/
theorem enters_call (k : Mark) {f : Expr} {as : List Expr} {v : Value} {vs : List Value}
    (hf : Evaluation.eval c n f m = .done v m₁)
    (has : Evaluation.arguments (Evaluation.eval c n) as m₁ = .done vs m₂) :
    (eval (.call k f as)).Enters c n m (call v vs) { m₂ with line := k.span.line } := by
  let k (_ : Inner) (o : Outcome Value) :=
    ((fun _ => o : Run Value) >>= fun v => Run.read fun m => v.detach m.store.cells) m₂
  refine enters_of_step_eq (b := call v vs) k (fun _ => rfl) (fun _ => rfl) fun r hr => ?_
  have heval : Evaluation.eval c n = r.eval := by
    funext e m
    exact hr (eval e) m nofun
  rw [heval] at hf has
  simp only [step, Evaluation.evalWith, Run.bind_apply, hf, has]
  rfl

/-- A call of a script function runs its body in a scope of its own. -/
theorem enters_body {f : CallableId} {args : List Value} {d : FunctionDecl} {closure : ScopeId}
    {isInit : Bool} (hf : m.heap.hasCallable f = true)
    (hc : m.heap.callable f = .script d closure isInit) (hargs : d.arity = args.length)
    (hdepth : m.depth < c.maxDepth) :
    (call (.function f) args).Enters c n m (block d.body) (m.enterCall d closure args) := by
  let opened := m.store.open ⟨.ofList ((d.params.map (·.name)).zip args), some closure⟩
  let k (_ : Inner) (o : Outcome Completion) :=
    (Run.deeper (Run.inScope opened.1 fun _ => o) >>= Evaluation.callResult closure isInit)
      { m with store := opened.2 }
  refine enters_of_step_eq (b := block d.body) k (fun _ => rfl) (fun _ => rfl) fun r _ => ?_
  have harity : (Callable.script d closure isInit).arity = args.length := hargs
  simp only [step, Evaluation.callWith, Evaluation.callFunction, Run.bind_apply, Run.demand, hf,
    Run.read, Evaluation.checkArity, harity, if_true, hc, Evaluation.callScript,
    Evaluation.checkDepth, hdepth]
  rfl

/-- A call of a function that begins by returning what a call gives gets to the callee of that one. -/
theorem reaches_callee_in_body (k : Mark) (sp : Span) {k' : Mark} {sp' : Span} {f e : Expr}
    {as : List Expr} {rest : List Stmt} {g : CallableId} {d : FunctionDecl} {closure : ScopeId}
    {isInit : Bool}
    (hf : Evaluation.eval c (n + 4) f m = .done (.function g) m₁)
    (hg : m₁.heap.hasCallable g = true) (hc : m₁.heap.callable g = .script d closure isInit)
    (hargs : d.arity = 0) (hdepth : m₁.depth < c.maxDepth)
    (hbody : d.body = .return_ (some (.call k' e as)) sp' :: rest) :
    Reaches c (n + 6) (exec (.expr (.call k f []) sp)) m (eval e)
      ({ m₁ with line := k.span.line }.enterCall d closure []) := by
  refine .inside (enters_expr _ _) (.inside (enters_call k hf rfl) (.inside
    (enters_body (m := { m₁ with line := k.span.line }) hg hc hargs hdepth) ?_))
  rw [hbody]
  exact .inside (enters_head _ _) (.inside (enters_return _ _) (.inside (enters_callee _ _ _) .here))

end Activity

end HostScript
