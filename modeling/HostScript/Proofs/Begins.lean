import HostScript.Proofs.Quiet
import HostScript.Proofs.Regime.Sound

/-!
# What one step rests on

`a.Begins c r m b m'`: while `a` is carried out on `m` over the layer `r`, it can come to the layer to
carry out `b` on `m'`. It is said case by case, so it shows how the syntax and the machine of `b` come
out of those of `a`.

A `Walk` is whatever can be followed through a step: if it holds of all that `a` begins, and allows the
errors that `a` may make on the spot, it holds of `a`. The first use is for cuts. A `Cut` sets some ends of
computations apart: lack of fuel, or errors of script calls. Two layers that come to the same up to a cut,
on all that `a` begins, make steps that come to the same up to the cut. With two layers this compares two
runs; with one layer twice, and a cut that must not be reached, it shows that a run ends otherwise.
-/

namespace HostScript

open Evaluation (arguments checkDepth callResult)

namespace Activity

inductive Begins (c : Context) (r : Inner) : Activity → Machine → Activity → Machine → Prop where
  /-- Operands are evaluated in order, each on the machine that those before it left. -/
  | operand {e e' : Expr} {before after : List Expr} {m m' : Machine} {vs : List Value}
      (hsplit : e.children = before ++ e' :: after) (h : arguments r.eval before m = .done vs m') :
      Begins c r (.eval e) m (.eval e') m'
  | call {k : Mark} {f : Expr} {as : List Expr} {m m' : Machine} {v : Value} {vs : List Value}
      (h : arguments r.eval (f :: as) m = .done (v :: vs) m') :
      Begins c r (.eval (.call k f as)) m (.call v vs) { m' with line := k.span.line }
  | expr {s : Stmt} {e : Expr} {m : Machine} (he : e ∈ s.exprs) : Begins c r (.exec s) m (.eval e) m
  | branch {cond : Expr} {t s : Stmt} {e : Option Stmt} {sp : Span} {m m' : Machine} {v : Value}
      (h : r.eval cond m = .done v m') (hs : s ∈ (Stmt.ifElse cond t e sp).branches) :
      Begins c r (.exec (.ifElse cond t e sp)) m (.exec s) m'
  | loop {cond : Expr} {body : Stmt} {sp : Span} {m : Machine} :
      Begins c r (.exec (.while_ cond body sp)) m (.loop cond body) m
  | block {body : List Stmt} {sp : Span} {m : Machine} :
      Begins c r (.exec (.block body sp)) m (.block body) (m.enter ⟨.empty, some m.env⟩)
  | parent {x : Ident} {p : Superclass} {ms : List FunctionDecl} {sp : Span} {m : Machine} :
      Begins c r (.exec (.class_ x (some p) ms sp)) m (.eval p.toExpr) (m.bind m.env x.name .null)
  | first {s : Stmt} {rest : List Stmt} {m : Machine} :
      Begins c r (.block (s :: rest)) m (.exec s) m
  | rest {s : Stmt} {rest : List Stmt} {m m' : Machine} (h : r.exec s m = .done .completed m') :
      Begins c r (.block (s :: rest)) m (.block rest) m'
  | cond {cond : Expr} {body : Stmt} {m : Machine} : Begins c r (.loop cond body) m (.eval cond) m
  | round {cond : Expr} {body : Stmt} {m m' : Machine} {v : Value} (h : r.eval cond m = .done v m') :
      Begins c r (.loop cond body) m (.exec body) m'
  | again {cond : Expr} {body : Stmt} {m m₁ m' : Machine} {v : Value}
      (h : r.eval cond m = .done v m₁) (h' : r.exec body m₁ = .done .completed m') :
      Begins c r (.loop cond body) m (.loop cond body) m'
  | body {f : CallableId} {args : List Value} {d : FunctionDecl} {closure : ScopeId} {isInit : Bool}
      {m : Machine} (hd : m.heap.callable f = .script d closure isInit)
      (hlen : args.length = d.arity) (hdepth : m.depth < c.maxDepth) :
      Begins c r (.call (.function f) args) m (.block d.body) (m.enterCall d closure args)
  | apply {f : CallableId} {args : List Value} {x : String} {n : Nat} {g v : Value} {m : Machine}
      (hf : m.heap.callable f = .native x n .apply) (hg : args[0]? = some g)
      (hv : args[1]? = some v) :
      Begins c r (.call (.function f) args) m (.call (g.detach m.store.cells) [v])
        { m with line := 0 }
  /-- A new instance is there, and the initializer is bound to it. -/
  | init {k : ClassId} {args : List Value} {f g : CallableId} {m m' : Machine}
      (hf : m.heap.findMethod k initName = some f)
      (h : Machine.bindMethod f m.nextInstance m.line (m.addInstance (.plain k)) = .done g m') :
      Begins c r (.call (.class_ k) args) m (.call (.function g) args) m'

/-- The body of the script function that is called on `m` has come to `k`, and what the call gives is
read off `m'`. -/
inductive Ends (c : Context) (r : Inner) :
    Activity → Machine → ScopeId → Bool → Completion → Machine → Prop where
  | body {f : CallableId} {args : List Value} {d : FunctionDecl} {closure : ScopeId} {isInit : Bool}
      {m m' : Machine} {k : Completion} (hd : m.heap.callable f = .script d closure isInit)
      (hlen : args.length = d.arity) (hdepth : m.depth < c.maxDepth)
      (hbody : r.block d.body (m.enterCall d closure args) = .done k m') :
      Ends c r (.call (.function f) args) m closure isInit k
        { m' with env := m.env, depth := m'.depth - 1 }

/-- The lines against which a statement of its own fails: those of the name of a class and of its
superclass. -/
def blamed : Stmt → List Nat
  | .class_ x super _ _ => x.span.line :: (super.map (·.mark.span.line)).toList
  | _ => []

/-- The errors that an activity may make on the spot: those of a node against its line, those of a call
against the line of the call. -/
def Blames : Activity → Machine → RuntimeError → Prop
  | eval e, m => (Blame.line e.span.line).Admits m.line
  | exec s, m => fun e => ∃ l ∈ blamed s, (Blame.line l).Admits m.line e
  | block _, _ | loop _ _, _ => fun _ => False
  | call _ _, m => Blame.call.Admits m.line

theorem Blames.ofCall {a : Activity} {m : Machine} {e : RuntimeError} (h : a.Blames m e) :
    e.ofCall = false := by
  cases a with
  | eval => exact RuntimeError.ofCall_of_needsCall h.2
  | call => exact h.2
  | exec s =>
    obtain ⟨l, -, hl⟩ := h
    exact hl.ofCall
  | block | loop => exact h.elim

end Activity

namespace Evaluation

variable {eval : Expr → Run Value} {e : Expr} {es : List Expr} {m m₁ m' : Machine} {v : Value}
  {vs : List Value}

theorem arguments_cons_eq_done (he : eval e m = .done v m₁)
    (hes : arguments eval es m₁ = .done vs m') : arguments eval (e :: es) m = .done (v :: vs) m' := by
  unfold arguments
  rw [Run.bind_apply, he]
  dsimp only
  rw [Run.bind_apply, hes]
  rfl

theorem checkArity_eq_done {expected got : Nat} {u : Unit}
    (h : checkArity expected got m = .done u m') : expected = got ∧ m' = m := by
  unfold checkArity at h
  split at h <;> cases h
  exact ⟨‹_›, rfl⟩

theorem checkDepth_eq_done {c : Context} {u : Unit} (h : checkDepth c m = .done u m') :
    m.depth < c.maxDepth ∧ m' = m := by
  unfold checkDepth at h
  split at h <;> cases h
  exact ⟨‹_›, rfl⟩

end Evaluation

/-! ### Following a step -/

/-- What can be followed through a computation over a layer: it holds of a computation on a machine
if it holds of all that the computation is made of, each part on the machine that those before it left.
The computation is given for every layer and every limit on the depth of calls, and it is followed as it
goes over `r` with the limit `d`. -/
structure Walk (r : Inner) (d : Nat) where
  Holds : {α : Type} → (Inner → Nat → Run α) → Machine → Prop
  /-- The errors that may be made on the spot. -/
  allows : RuntimeError → Prop
  silent : ∀ {e : RuntimeError}, e.line? = none → allows e
  quiet : ∀ {α : Type} {p : Blame} {x : Run α} {m : Machine}, x.Quiet p →
    (∀ e, p.Admits m.line e → allows e) → Holds (fun _ _ => x) m
  line : ∀ {l : Nat} {m : Machine}, Holds (fun _ _ => Run.update fun m => { m with line := l }) m
  bind : ∀ {α β : Type} {x : Inner → Nat → Run α} {f : Inner → Nat → α → Run β} {m : Machine},
    Holds x m → (∀ a m', x r d m = .done a m' → Holds (fun r' d' => f r' d' a) m') →
    Holds (fun r' d' => x r' d' >>= f r' d') m
  inScope : ∀ {α : Type} {s : ScopeId} {x : Inner → Nat → Run α} {m : Machine},
    Holds x { m with env := s } → Holds (fun r' d' => Run.inScope s (x r' d')) m
  deeper : ∀ {α : Type} {x : Inner → Nat → Run α} {m : Machine},
    Holds x { m with depth := m.depth + 1 } → Holds (fun r' d' => Run.deeper (x r' d')) m

namespace Walk

section
variable {r : Inner} {d : Nat} {W : Walk r d} {α β : Type} {m : Machine}

/-- Computations that rest on no layer and do not fail, unless the console does. -/
theorem still {x : Run α} (hx : x.Quiet .nowhere) : W.Holds (fun _ _ => x) m :=
  W.quiet hx fun _ he => W.silent he

theorem still_bind {x : Run α} {f : Inner → Nat → α → Run β} (hx : x.Quiet .nowhere)
    (hf : ∀ a m', x m = .done a m' → W.Holds (fun r' d' => f r' d' a) m') :
    W.Holds (fun r' d' => x >>= f r' d') m :=
  W.bind (still hx) hf

theorem line_bind {l : Nat} {f : Inner → Nat → Unit → Run β}
    (h : W.Holds (fun r' d' => f r' d' ()) { m with line := l }) :
    W.Holds (fun r' d' => (Run.update fun m => { m with line := l }) >>= f r' d') m := by
  refine W.bind W.line ?_
  rintro _ _ ⟨⟩
  exact h

theorem read_bind {f : Machine → α} {g : Inner → Nat → α → Run β}
    (h : W.Holds (fun r' d' => g r' d' (f m)) m) :
    W.Holds (fun r' d' => Run.read f >>= g r' d') m := by
  refine still_bind (.read f) ?_
  rintro _ _ ⟨⟩
  exact h

theorem demand_bind {p : Machine → Bool} {g : Inner → Nat → Unit → Run β}
    (h : W.Holds (fun r' d' => g r' d' ()) m) :
    W.Holds (fun r' d' => Run.demand p >>= g r' d') m := by
  refine still_bind (.demand p) fun _ m' hm => ?_
  unfold Run.demand at hm
  split at hm <;> cases hm
  exact h

theorem holds_arguments {es : List Expr}
    (h : ∀ before e after vs m', es = before ++ e :: after →
      arguments r.eval before m = .done vs m' → W.Holds (fun r' _ => r'.eval e) m') :
    W.Holds (fun r' _ => arguments r'.eval es) m := by
  induction es generalizing m with
  | nil => exact still (.pure _)
  | cons e es ih =>
    refine W.bind (h [] e es [] m rfl rfl) fun v m₁ hv => ?_
    have hes : W.Holds (fun r' _ => arguments r'.eval es) m₁ := by
      refine ih fun before e' after vs m' heq hvs => ?_
      have hsplit : e :: es = (e :: before) ++ e' :: after := by rw [heq, List.cons_append]
      exact h _ e' after _ m' hsplit (Evaluation.arguments_cons_eq_done hv hvs)
    exact W.bind hes fun vs m₂ _ => still (.pure _)

end

variable {c : Context} {r : Inner} {W : Walk r c.maxDepth} {m : Machine}

/-! ### Expressions -/

section
variable {e : Expr}

theorem holds_evalWith
    (h : ∀ b m', Activity.Begins c r (.eval e) m b m' → W.Holds (fun r' _ => b.via r') m')
    (hown : ∀ err, Activity.Blames (.eval e) m err → W.allows err) :
    W.Holds (fun r' d => Evaluation.evalWith { c with maxDepth := d } r' e) m := by
  have hfirst : ∀ {e₁ after}, e.children = e₁ :: after → W.Holds (fun r' _ => r'.eval e₁) m := by
    intro e₁ after heq
    have hsplit : e.children = [] ++ e₁ :: after := heq
    exact h (.eval e₁) m (.operand hsplit rfl)
  have hsecond : ∀ {e₁ e₂ after v m₁}, e.children = e₁ :: e₂ :: after → r.eval e₁ m = .done v m₁ →
      W.Holds (fun r' _ => r'.eval e₂) m₁ := by
    intro e₁ e₂ after v m₁ heq hv
    have hbefore : arguments r.eval [e₁] m = .done [v] m₁ :=
      Evaluation.arguments_cons_eq_done hv rfl
    have hsplit : e.children = [e₁] ++ e₂ :: after := heq
    exact h (.eval e₂) m₁ (.operand hsplit hbefore)
  have hline : ∀ {here : Nat} err, (Blame.line e.span.line).Admits here err → W.allows err := hown
  cases e with
  | literal k l => exact still (.pure _)
  | grouping k inner => exact hfirst rfl
  | var k x => exact W.quiet (Evaluation.quiet_lookUp c k.id x.name _) hline
  | this k => exact W.quiet (Evaluation.quiet_lookUp c k.id _ _) hline
  | super k x => exact W.quiet (Evaluation.quiet_superMethod c k.id x.name _) hline
  | assign k x value =>
    refine W.bind (hfirst rfl) fun v m₁ _ => ?_
    exact W.quiet ((Evaluation.quiet_assignVariable c k.id x.name v _).bind fun _ => .pure v) hline
  | binary k left op right =>
    refine W.bind (hfirst rfl) fun a m₁ ha => W.bind (hsecond rfl ha) fun b m₂ _ => ?_
    exact W.quiet ((Run.Quiet.read _).bind fun _ => .ofExcept _ fun _ => ⟨rfl, rfl⟩) hline
  | unary k op operand =>
    refine W.bind (hfirst rfl) fun a m₁ _ => ?_
    exact W.quiet ((Run.Quiet.read _).bind fun _ => .ofExcept _ fun _ => ⟨rfl, rfl⟩) hline
  | logical k left op right =>
    refine W.bind (hfirst rfl) fun a m₁ ha => read_bind ?_
    split
    · exact still (.pure a)
    · exact hsecond rfl ha
  | call k callee args =>
    refine W.bind (hfirst rfl) fun f m₁ hf => ?_
    have hargs : W.Holds (fun r' _ => arguments r'.eval args) m₁ := by
      refine holds_arguments fun before e after vs m' heq hvs => ?_
      have hsplit : (Expr.call k callee args).children = (callee :: before) ++ e :: after := by
        rw [heq]
        rfl
      exact h (.eval e) m' (.operand hsplit (Evaluation.arguments_cons_eq_done hf hvs))
    refine W.bind hargs fun vs m₂ hvs => line_bind ?_
    have hcall := h _ _ (.call (Evaluation.arguments_cons_eq_done hf hvs))
    exact W.bind hcall fun v m₃ _ => still (.read _)
  | get k object x =>
    refine W.bind (hfirst rfl) fun o m₁ _ => W.quiet ?_ hline
    exact (Evaluation.quiet_instanceOf o _ fun _ => rfl).bind fun i =>
      Machine.quiet_getProperty i x.name _
  | set k object x value =>
    refine W.bind (hfirst rfl) fun o m₁ ho => ?_
    unfold Evaluation.instanceOf
    split
    · refine still_bind (.pure _) ?_
      rintro _ _ ⟨⟩
      refine W.bind (hsecond rfl ho) fun v m₂ _ => W.quiet ?_ hline
      exact (Machine.quiet_setField _ x.name v _).bind fun _ => .pure v
    · exact W.bind (W.quiet (.fail rfl rfl) hline) nofun

end

/-! ### Statements -/

section
variable {s : Stmt} {body : List Stmt}

theorem holds_declareClass {x : Ident} {super : Option Superclass} {ms : List FunctionDecl} {sp : Span}
    (h : ∀ p, super = some p → W.Holds (fun r' _ => r'.eval p.toExpr) (m.bind m.env x.name .null))
    (hown : ∀ err, Activity.Blames (.exec (.class_ x super ms sp)) m err → W.allows err) :
    W.Holds (fun r' _ => Evaluation.declareClass r'.eval x super ms) m := by
  have hline : ∀ {l}, l ∈ Activity.blamed (.class_ x super ms sp) → ∀ {m' : Machine} err,
      (Blame.line l).Admits m'.line err → W.allows err := fun hl _ err he => hown err ⟨_, hl, he⟩
  refine still_bind (Evaluation.quiet_declare x.name .null) ?_
  rintro _ _ ⟨⟩
  have hparent : W.Holds (fun r' _ => Evaluation.parentOf r'.eval super)
      (m.bind m.env x.name .null) := by
    cases super with
    | none => exact still (.pure none)
    | some p =>
      have hmark : p.mark.span.line ∈ Activity.blamed (.class_ x (some p) ms sp) :=
        List.mem_cons_of_mem _ List.mem_cons_self
      refine W.bind (h p rfl) fun v m₁ _ => W.quiet ?_ (hline hmark)
      split
      · exact .pure _
      · exact .fail rfl rfl
  refine W.bind hparent fun parent m₁ _ => W.quiet ?_ (hline List.mem_cons_self)
  refine (Evaluation.quiet_newScriptClass x.name parent ms).bind fun k => ?_
  exact (Run.Quiet.read _).bind fun place => Machine.quiet_assignIn place x.name _ _

theorem holds_execWith
    (h : ∀ b m', Activity.Begins c r (.exec s) m b m' → W.Holds (fun r' _ => b.via r') m')
    (hown : ∀ err, Activity.Blames (.exec s) m err → W.allows err) :
    W.Holds (fun r' _ => Evaluation.execWith r' s) m := by
  have hexpr : ∀ {e}, e ∈ s.exprs → W.Holds (fun r' _ => r'.eval e) m := fun he =>
    h (.eval _) m (.expr he)
  cases s with
  | expr e sp => exact W.bind (hexpr List.mem_cons_self) fun _ _ _ => still (.pure _)
  | print e sp =>
    refine W.bind (hexpr List.mem_cons_self) fun v m₁ _ => still ?_
    refine (Builtin.quiet_text v).bind fun t => ?_
    exact (Evaluation.quiet_printLine t).bind fun _ => .pure _
  | var x init sp =>
    cases init with
    | none => exact still ((Evaluation.quiet_declare x.name .undefined).bind fun _ => .pure _)
    | some e =>
      refine W.bind (hexpr List.mem_cons_self) fun v m₁ _ => still ?_
      exact (Evaluation.quiet_declare x.name v).bind fun _ => .pure _
  | block body sp =>
    refine read_bind (still_bind (fun _ => rfl) ?_)
    rintro _ _ ⟨⟩
    exact W.inScope (h _ _ .block)
  | ifElse cond t e sp =>
    refine W.bind (hexpr List.mem_cons_self) fun v m₁ hv => read_bind ?_
    split
    · have ht : t ∈ (Stmt.ifElse cond t e sp).branches := by cases e <;> exact List.mem_cons_self
      exact h _ _ (.branch hv ht)
    · cases e with
      | none => exact still (.pure _)
      | some e => exact h _ _ (.branch hv (List.mem_cons_of_mem _ List.mem_cons_self))
  | while_ cond body sp => exact h _ _ .loop
  | function declared =>
    refine read_bind (still (Run.Quiet.bind (fun _ => rfl) fun f => ?_))
    exact (Evaluation.quiet_declare declared.name.name _).bind fun _ => .pure _
  | class_ x super ms sp =>
    refine W.bind (holds_declareClass ?_ hown) fun _ _ _ => still (.pure _)
    rintro p rfl
    exact h _ _ .parent
  | return_ value sp =>
    cases value with
    | none => exact still (.pure _)
    | some e => exact W.bind (hexpr List.mem_cons_self) fun v m₁ _ => still (.pure _)

theorem holds_blockWith
    (h : ∀ b m', Activity.Begins c r (.block body) m b m' → W.Holds (fun r' _ => b.via r') m') :
    W.Holds (fun r' _ => Evaluation.blockWith r' body) m := by
  cases body with
  | nil => exact still (.pure _)
  | cons s rest =>
    have hs := h (.exec s) m .first
    refine W.bind hs fun k m₁ hk => ?_
    cases k with
    | completed => exact h _ _ (.rest hk)
    | returning v => exact still (.pure _)

theorem holds_loopWith {cond : Expr}
    (h : ∀ b m', Activity.Begins c r (.loop cond s) m b m' → W.Holds (fun r' _ => b.via r') m') :
    W.Holds (fun r' _ => Evaluation.loopWith r' cond s) m := by
  have hcond := h (.eval cond) m .cond
  refine W.bind hcond fun v m₁ hv => read_bind ?_
  split
  · have hs := h (.exec s) m₁ (.round hv)
    refine W.bind hs fun k m₂ hk => ?_
    cases k with
    | completed => exact h _ _ (.again hv hk)
    | returning w => exact still (.pure _)
  · exact still (.pure _)

end

/-! ### Calls -/

section
variable {f : CallableId} {k : ClassId} {args : List Value}

theorem holds_callScript {decl : FunctionDecl} {closure : ScopeId} {isInit : Bool}
    (hd : m.heap.callable f = .script decl closure isInit) (hlen : args.length = decl.arity)
    (h : ∀ b m', Activity.Begins c r (.call (.function f) args) m b m' →
      W.Holds (fun r' _ => b.via r') m')
    (hdepth : W.Holds (fun _ d => checkDepth { c with maxDepth := d }) m)
    (hresult : ∀ closure isInit k m',
      Activity.Ends c r (.call (.function f) args) m closure isInit k m' →
      W.Holds (fun _ _ => callResult closure isInit k) m') :
    W.Holds (fun r' d =>
      Evaluation.callScript { c with maxDepth := d } r' decl closure isInit args) m := by
  refine W.bind hdepth fun _ m₁ hm => ?_
  obtain ⟨hlt, rfl⟩ := Evaluation.checkDepth_eq_done hm
  refine still_bind (fun _ => rfl) ?_
  rintro _ _ ⟨⟩
  have hbody := h _ _ (.body hd hlen hlt)
  refine W.bind (W.deeper (W.inScope hbody)) fun ended m₂ hend => ?_
  obtain ⟨m₃, hm₃, rfl⟩ := Run.deeper_eq_done hend
  obtain ⟨m₄, hm₄, rfl⟩ := Run.inScope_eq_done hm₃
  have hended : r.block decl.body (m₁.enterCall decl closure args) = .done ended m₄ := hm₄
  have hgiven := hresult _ _ _ _ (.body hd hlen hlt hended)
  exact hgiven

/-- Of the functions of the host, only `apply` calls back. -/
theorem holds_builtin {g : Builtin} (hown : ∀ err, Blame.call.Admits m.line err → W.allows err)
    (h : g = .apply → ∀ f v, args[0]? = some f → args[1]? = some v →
      W.Holds (fun r' _ => r'.call (f.detach m.store.cells) [v]) { m with line := 0 }) :
    W.Holds (fun r' _ => g.run r'.call args) m := by
  by_cases hg : g = .apply
  · subst hg
    dsimp only [Builtin.run]
    cases hf : args[0]? with
    | none => exact still_bind (.present none) nofun
    | some f =>
      refine still_bind (.pure f) ?_
      rintro _ _ ⟨⟩
      cases hv : args[1]? with
      | none => exact still_bind (.present none) nofun
      | some v =>
        refine still_bind (.pure v) ?_
        rintro _ _ ⟨⟩
        exact line_bind (read_bind (h rfl f v hf hv))
  · have hsame : (fun (r' : Inner) (_ : Nat) => g.run r'.call args) = fun _ _ => g.run r.call args := by
      funext r' _
      exact Builtin.run_congr hg r'.call r.call args
    rw [hsame]
    exact W.quiet (Builtin.quiet_run hg r.call args) hown

theorem holds_callFunction
    (h : ∀ b m', Activity.Begins c r (.call (.function f) args) m b m' →
      W.Holds (fun r' _ => b.via r') m')
    (hown : ∀ err, Blame.call.Admits m.line err → W.allows err)
    (hdepth : W.Holds (fun _ d => checkDepth { c with maxDepth := d }) m)
    (hresult : ∀ closure isInit k m',
      Activity.Ends c r (.call (.function f) args) m closure isInit k m' →
      W.Holds (fun _ _ => callResult closure isInit k) m')
    (hmethod : ∀ g receiver, m.heap.callable f = .method g receiver →
      W.Holds (fun _ _ => g.run receiver args) m) :
    W.Holds (fun r' d => Evaluation.callFunction { c with maxDepth := d } r' f args) m := by
  refine demand_bind (read_bind (W.bind (W.quiet (Evaluation.quiet_checkArity _ _) hown) ?_))
  intro _ m₁ hm
  obtain ⟨hlen, rfl⟩ := Evaluation.checkArity_eq_done hm
  cases hc : m₁.heap.callable f with
  | method g receiver => exact hmethod g receiver hc
  | script decl closure isInit =>
    rw [hc] at hlen
    exact holds_callScript hc hlen.symm h hdepth hresult
  | native x n g =>
    refine holds_builtin hown ?_
    rintro rfl g v hg hv
    exact h _ _ (.apply hc hg hv)

theorem holds_instantiate
    (h : ∀ b m', Activity.Begins c r (.call (.class_ k) args) m b m' →
      W.Holds (fun r' _ => b.via r') m')
    (hown : ∀ err, Blame.call.Admits m.line err → W.allows err) :
    W.Holds (fun r' _ => Evaluation.instantiate r' k args) m := by
  refine demand_bind (read_bind (W.bind (W.quiet (Evaluation.quiet_checkArity _ _) hown) ?_))
  intro _ m₁ hm
  obtain ⟨-, rfl⟩ := Evaluation.checkArity_eq_done hm
  refine read_bind ?_
  cases hf : m₁.heap.findMethod k initName with
  | none => exact W.quiet (Evaluation.quiet_construct k args) hown
  | some f =>
    refine still_bind (fun _ => rfl) ?_
    rintro _ _ ⟨⟩
    -- The initializer is bound against the line of the call.
    have hline : ∀ err, (Blame.line m₁.line).Admits m₁.line err → W.allows err := fun err he =>
      hown err ⟨fun l hl => Option.some.inj (hl.symm.trans he.1), he.ofCall⟩
    refine read_bind (W.bind (W.quiet (Machine.quiet_bindMethod _ _ _) hline) fun g m₂ hg => ?_)
    have hcall := h _ _ (.init hf hg)
    exact W.bind hcall fun _ _ _ => still (.pure _)

end

/-- What holds of all that an activity begins, and of what calls of functions do beside, holds of the
activity, if it allows the errors of the activity itself. -/
theorem holds_step {a : Activity}
    (h : ∀ b m', a.Begins c r m b m' → W.Holds (fun r' _ => b.via r') m')
    (hown : ∀ err, a.Blames m err → W.allows err)
    (hdepth : ∀ f args, a = .call (.function f) args →
      W.Holds (fun _ d => checkDepth { c with maxDepth := d }) m)
    (hresult : ∀ closure isInit k m', a.Ends c r m closure isInit k m' →
      W.Holds (fun _ _ => callResult closure isInit k) m')
    (hmethod : ∀ f args g receiver, a = .call (.function f) args →
      m.heap.callable f = .method g receiver → W.Holds (fun _ _ => g.run receiver args) m) :
    W.Holds (fun r' d => a.step { c with maxDepth := d } r') m := by
  cases a with
  | eval e => exact holds_evalWith h hown
  | exec s => exact holds_execWith h hown
  | block body => exact holds_blockWith h
  | loop cond body => exact holds_loopWith h
  | call f args =>
    cases f with
    | function f =>
      exact holds_callFunction h hown (hdepth f args rfl) hresult fun g receiver =>
        hmethod f args g receiver rfl
    | class_ k => exact holds_instantiate h hown
    | _ => exact W.quiet (.failHere fun _ => rfl) hown

end Walk

/-! ### Cuts -/

/-- Ends of computations that are set apart. -/
structure Cut where
  fuel : Prop
  error : RuntimeError → Prop
  /-- What it would show if such an end were reached. -/
  shows : Prop
  ofScriptCall : ∀ {e}, error e → e.ofScriptCall = true

def Outcome.IsCut {α : Type} (C : Cut) : Outcome α → Prop
  | .done _ _ | .crash => False
  | .fail e _ => C.error e
  | .outOfFuel => C.fuel

namespace Cut

variable {C : Cut} {α β : Type} {m : Machine}

/-- On `m` the two come to the same, unless the first is cut. -/
structure Agree (C : Cut) (x y : Run α) (m : Machine) : Prop where
  cut : (x m).IsCut C → C.shows
  same : ¬ (x m).IsCut C → x m = y m

theorem Agree.of_not_cut {x : Run α} (h : ¬ (x m).IsCut C) : C.Agree x x m :=
  ⟨fun hcut => absurd hcut h, fun _ => rfl⟩

theorem not_cut_of_quiet {p : Blame} {here : Nat} {o : Outcome α} (h : o.Quiet p here) :
    ¬ o.IsCut C := by
  intro hcut
  cases o with
  | done a m' | crash => exact hcut
  | outOfFuel => exact h
  | fail e m' =>
    have hcall : (e.ofScriptCall || e.ofHostMethod) = false := Blame.Admits.ofCall h
    rw [C.ofScriptCall hcut] at hcall
    cases hcall

/-- Computations that rest on no layer are not cut. -/
theorem Agree.quiet {p : Blame} {x : Run α} (hx : x.Quiet p) : C.Agree x x m :=
  .of_not_cut (not_cut_of_quiet (hx m))

theorem Agree.pure (a : α) : C.Agree (Pure.pure a) (Pure.pure a) m :=
  .of_not_cut id

theorem Agree.update (f : Machine → Machine) : C.Agree (Run.update f) (Run.update f) m :=
  .of_not_cut id

/-- Methods of the host are not cut. -/
theorem Agree.hostMethod (g : HostMethod) (receiver : Option InstanceId) (args : List Value) :
    C.Agree (g.run receiver args) (g.run receiver args) m := by
  refine .of_not_cut ?_
  rcases g.run_cases receiver args m with hquiet | ⟨hfail, -⟩ | ⟨hfail, -⟩
  · exact not_cut_of_quiet hquiet
  · rw [hfail]
    exact fun hcut => Bool.noConfusion (C.ofScriptCall hcut)
  · rw [hfail]
    exact fun hcut => Bool.noConfusion (C.ofScriptCall hcut)

theorem Agree.bind {x y : Run α} {f g : α → Run β} (h : C.Agree x y m)
    (hf : ∀ a m', x m = .done a m' → C.Agree (f a) (g a) m') : C.Agree (x >>= f) (y >>= g) m := by
  obtain ⟨hcut, hsame⟩ := h
  cases hend : x m with
  | done a m' =>
    have hy : y m = .done a m' := (hsame (by rw [hend]; exact id)).symm.trans hend
    obtain ⟨hcut', hsame'⟩ := hf a m' hend
    constructor
    · rw [Run.bind_apply, hend]
      exact hcut'
    · rw [Run.bind_apply, Run.bind_apply, hend, hy]
      exact hsame'
  | fail e m' | crash | outOfFuel =>
    rw [hend] at hcut hsame
    constructor
    · rw [Run.bind_apply, hend]
      exact hcut
    · rw [Run.bind_apply, Run.bind_apply, hend]
      intro hno
      rw [← hsame hno]

theorem Agree.read_bind {f : Machine → α} {g k : α → Run β} (h : C.Agree (g (f m)) (k (f m)) m) :
    C.Agree (Run.read f >>= g) (Run.read f >>= k) m :=
  ⟨h.cut, h.same⟩

theorem Agree.inScope {s : ScopeId} {x y : Run α} (h : C.Agree x y { m with env := s }) :
    C.Agree (Run.inScope s x) (Run.inScope s y) m := by
  have hcut : (Run.inScope s x m).IsCut C ↔ (x { m with env := s }).IsCut C := by
    unfold Run.inScope
    cases x { m with env := s } <;> exact Iff.rfl
  exact ⟨fun hc => h.cut (hcut.mp hc), fun hc => Run.inScope_congr (h.same (mt hcut.mpr hc))⟩

theorem Agree.deeper {x y : Run α} (h : C.Agree x y { m with depth := m.depth + 1 }) :
    C.Agree (Run.deeper x) (Run.deeper y) m := by
  have hcut : (Run.deeper x m).IsCut C ↔ (x { m with depth := m.depth + 1 }).IsCut C := by
    unfold Run.deeper
    cases x { m with depth := m.depth + 1 } <;> exact Iff.rfl
  exact ⟨fun hc => h.cut (hcut.mp hc), fun hc => Run.deeper_congr (h.same (mt hcut.mpr hc))⟩

/-- To follow a step over two layers that come to the same up to a cut. -/
def walk (C : Cut) (r r' : Inner) (d d' : Nat) : Walk r d where
  Holds x m := C.Agree (x r d) (x r' d') m
  allows _ := True
  silent _ := trivial
  quiet hx _ := .quiet hx
  line := .update _
  bind := .bind
  inScope := .inScope
  deeper := .deeper

/-- Layers that come to the same up to a cut, on all that an activity begins, make steps that come to
the same up to the cut. -/
theorem agree_step {c : Context} {d : Nat} {r r' : Inner} {a : Activity}
    (h : ∀ b m', a.Begins c r m b m' → C.Agree (b.via r) (b.via r') m')
    (hdepth : C.Agree (checkDepth c) (checkDepth { c with maxDepth := d }) m)
    (hresult : ∀ closure isInit k m', a.Ends c r m closure isInit k m' →
      C.Agree (callResult closure isInit k) (callResult closure isInit k) m') :
    C.Agree (a.step c r) (a.step { c with maxDepth := d } r') m :=
  Walk.holds_step (W := C.walk r r' c.maxDepth d) h (fun _ _ => trivial) (fun _ _ _ => hdepth) hresult
    fun _ args g receiver _ _ => .hostMethod g receiver args

end Cut

/-! ### Begun under a regime -/

theorem Frame.Keeps.done {F : Frame} {α : Type} {x y : Run α} {Q : α → Machine → Prop} {a : α}
    {m m' : Machine} (h : F.Keeps x y Q m) (hx : x m = .done a m') :
    F.inv m' ∧ F.le m m' ∧ Q a m' := by
  have hpost := h.2
  unfold Run.wp at hpost
  rw [hx] at hpost
  exact hpost

theorem Frame.Keeps.failed {F : Frame} {α : Type} {x y : Run α} {Q : α → Machine → Prop}
    {e : RuntimeError} {m m' : Machine} (h : F.Keeps x y Q m) (hx : x m = .fail e m') :
    F.inv m' ∧ F.le m m' := by
  have hpost := h.2
  unfold Run.wp at hpost
  rw [hx] at hpost
  exact hpost

namespace Regime

variable {c : Context} {R : Regime c} {m m' : Machine} {n : Nat} {a b : Activity}

/-- What is begun under a regime is ready. -/
theorem ready_of_begins (h : a.Begins c (Evaluation.layer c n) m b m') (ha : R.Ready a m) :
    R.Ready b m' := by
  obtain ⟨hi, hfits⟩ := ha
  have hagree := R.agree_layer n
  cases h with
  | @operand e e' before after m m' vs hsplit hvs =>
    have hbefore : ∀ e₁ ∈ before, R.atExpr m e₁ := fun e₁ he₁ =>
      R.atExpr_child hfits (by simp [hsplit, he₁])
    obtain ⟨hi', hle, -⟩ := (R.keeps_arguments hagree hi hbefore).done hvs
    exact ⟨hi', R.atExpr_le hle (R.atExpr_child hfits (by simp [hsplit]))⟩
  | @call k f as m m' v vs hvs =>
    obtain ⟨hi', -, hok⟩ := (R.keeps_arguments hagree hi fun e he => R.atExpr_child hfits he).done hvs
    obtain ⟨hi'', hle⟩ := R.line hi' k.span.line
    obtain ⟨hv, hvs⟩ := List.forall_mem_cons.mp hok
    exact ⟨hi'', R.ok_le hle hv, fun w hw => R.ok_le hle (hvs w hw)⟩
  | expr he => exact ⟨hi, R.atStmt_expr hfits he⟩
  | branch hv hs =>
    have hcond := R.atStmt_expr hfits List.mem_cons_self
    obtain ⟨hi', hle, -⟩ := (hagree.eval hi hcond).done hv
    exact ⟨hi', R.atStmt_branch (R.atStmt_le hle hfits) hs⟩
  | @loop cond body sp => exact ⟨hi, sp, hfits⟩
  | block =>
    obtain ⟨hi', hb⟩ := R.enterBlock hi hfits
    exact ⟨hi', hb⟩
  | parent =>
    obtain ⟨hi', hle⟩ := R.declare hi (R.name_declares hfits rfl) (R.ok_plain (v := .null) rfl)
    exact ⟨hi', R.atStmt_parent (R.atStmt_le hle hfits) (R.after_declare hi hfits rfl)⟩
  | first => exact ⟨hi, R.atBlock_head hfits⟩
  | rest hs =>
    obtain ⟨hi', hle, -, hafter⟩ := (hagree.exec hi (R.atBlock_head hfits)).done hs
    exact ⟨hi', R.atBlock_tail hfits hle (hafter rfl)⟩
  | cond =>
    obtain ⟨sp, hs⟩ := hfits
    exact ⟨hi, R.atStmt_expr hs List.mem_cons_self⟩
  | round hv =>
    obtain ⟨sp, hs⟩ := hfits
    obtain ⟨hi', hle, -⟩ := (hagree.eval hi (R.atStmt_expr hs List.mem_cons_self)).done hv
    exact ⟨hi', R.atStmt_branch (R.atStmt_le hle hs) List.mem_cons_self⟩
  | again hv hk =>
    obtain ⟨sp, hs⟩ := hfits
    obtain ⟨hi₁, hle₁, -⟩ := (hagree.eval hi (R.atStmt_expr hs List.mem_cons_self)).done hv
    have hs₁ := R.atStmt_le hle₁ hs
    obtain ⟨hi₂, hle₂, -⟩ := (hagree.exec hi₁ (R.atStmt_branch hs₁ List.mem_cons_self)).done hk
    exact ⟨hi₂, sp, R.atStmt_le hle₂ hs₁⟩
  | body hd hlen hdepth =>
    obtain ⟨hi', hb⟩ := R.enterCall hi hfits.1 hd hlen hfits.2 hdepth
    exact ⟨hi', hb⟩
  | apply hf hg hv =>
    have hargs : ∀ w ∈ [_], R.ok m w := fun w hw =>
      hfits.2 w (List.mem_singleton.mp hw ▸ List.mem_of_getElem? hv)
    exact R.ready_callByHost hi (hfits.2 _ (List.mem_of_getElem? hg)) hargs
  | @init k args f g m m' hf hg =>
    obtain ⟨hi₁, hle₁, hnew⟩ := R.newInstance hi (o := .plain k) hfits.1 (Instance.fresh_plain k)
      (.plain (.inl (Option.isSome_of_mem hf)))
    have hm := R.okMethod_le hle₁ (R.okMethod_of_findMethod hi hf)
    obtain ⟨hi₂, hle₂, hok⟩ := (R.keeps_bindMethod hi₁ hm hnew (m.offers_init hf)).done hg
    exact ⟨hi₂, hok, fun v hv => R.ok_le hle₂ (R.ok_le hle₁ (hfits.2 v hv))⟩

/-- When the body of a function has come to its end, the call is back within the regime. -/
theorem keeps_of_ends {closure : ScopeId} {isInit : Bool} {k : Completion}
    (h : a.Ends c (Evaluation.layer c n) m closure isInit k m') (ha : R.Ready a m) :
    R.inv m' ∧ R.le m m' := by
  cases h with
  | body hd hlen hdepth hbody =>
    have hready := R.ready_of_begins (n := n) (.body hd hlen hdepth) ha
    obtain ⟨hi, hle, -⟩ := (R.agree_layer n (.block _) _ hready).done hbody
    exact R.leaveCall ha.inv hle hi

end Regime

end HostScript
