import HostScript.Proofs.Regime.Host

/-!
# Evaluation under a regime

Whatever evaluation does keeps to a regime, and whatever it reaches starts within it.

`Ready a m` is what the regime asks for when the activity `a` is started on `m`. The step lemma takes
two layers that come to the same on everything that is ready, and shows that one more layer over each
comes to the same on everything that is ready. With both layers alike, it gives by induction on the
fuel that runs keep to the regime. With two layers that differ at one activity only, it gives that an
activity which is started is ready: were it not, then what it comes to could not matter.
-/

namespace HostScript.Regime

variable {c : Context} {R : Regime c} {m : Machine} {r r' : Inner}

/-! ### What is asked and what is given -/

/-- What has to hold of the machine on which an activity is started. -/
structure Ready (R : Regime c) (a : Activity) (m : Machine) : Prop where
  inv : R.inv m
  fits : match a with
    | .eval e => R.atExpr m e
    | .exec s => R.atStmt m s
    | .block body => R.atBlock m body
    | .loop cond body => ∃ sp, R.atStmt m (.while_ cond body sp)
    | .call f args => R.ok m f ∧ ∀ v ∈ args, R.ok m v

/-- A value on its way to the nearest call may be around. -/
def okCompletion (R : Regime c) (m : Machine) : Completion → Prop
  | .completed => True
  | .returning v => R.ok m v

theorem okCompletion_env {k : Completion} (e : ScopeId) (d : Nat) (h : R.okCompletion m k) :
    R.okCompletion { m with env := e, depth := d } k := by
  cases k with
  | completed => trivial
  | returning v => exact R.ok_env e d h

/-- What holds of the result of an activity and of the machine that it leaves. -/
def Yields (R : Regime c) : (a : Activity) → a.Result → Machine → Prop
  | .eval _, v, m | .call _ _, v, m => R.ok m v
  | .exec s, k, m => R.okCompletion m k ∧ (k = .completed → R.after s m)
  | .block _, k, m | .loop _ _, k, m => R.okCompletion m k

/-- Two layers come to the same, within the regime, on everything that is ready. -/
def Agree (R : Regime c) (r r' : Inner) : Prop :=
  ∀ a m, R.Ready a m → R.Keeps (a.via r) (a.via r') (R.Yields a) m

theorem Agree.eval (h : R.Agree r r') {e : Expr} (hi : R.inv m) (he : R.atExpr m e) :
    R.Keeps (r.eval e) (r'.eval e) (fun v m' => R.ok m' v) m :=
  h (.eval e) m ⟨hi, he⟩

theorem Agree.exec (h : R.Agree r r') {s : Stmt} (hi : R.inv m) (hs : R.atStmt m s) :
    R.Keeps (r.exec s) (r'.exec s)
      (fun k m' => R.okCompletion m' k ∧ (k = .completed → R.after s m')) m :=
  h (.exec s) m ⟨hi, hs⟩

theorem Agree.block (h : R.Agree r r') {body : List Stmt} (hi : R.inv m) (hb : R.atBlock m body) :
    R.Keeps (r.block body) (r'.block body) (fun k m' => R.okCompletion m' k) m :=
  h (.block body) m ⟨hi, hb⟩

theorem Agree.loop (h : R.Agree r r') {cond : Expr} {body : Stmt} {sp : Span} (hi : R.inv m)
    (hs : R.atStmt m (.while_ cond body sp)) :
    R.Keeps (r.loop cond body) (r'.loop cond body) (fun k m' => R.okCompletion m' k) m :=
  h (.loop cond body) m ⟨hi, sp, hs⟩

theorem Agree.call (h : R.Agree r r') {f : Value} {args : List Value} (hi : R.inv m)
    (hf : R.ok m f) (hargs : ∀ v ∈ args, R.ok m v) :
    R.Keeps (r.call f args) (r'.call f args) (fun v m' => R.ok m' v) m :=
  h (.call f args) m ⟨hi, hf, hargs⟩

/-! ### Expressions -/

theorem keeps_arguments (h : R.Agree r r') {es : List Expr} (hi : R.inv m)
    (hes : ∀ e ∈ es, R.atExpr m e) :
    R.Keeps (Evaluation.arguments r.eval es) (Evaluation.arguments r'.eval es)
      (fun vs m' => ∀ v ∈ vs, R.ok m' v) m := by
  induction es generalizing m with
  | nil => exact .pure hi nofun
  | cons e es ih =>
    refine (h.eval hi (hes e List.mem_cons_self)).bind fun v m₁ hi₁ hle₁ hv => ?_
    have hes₁ : ∀ e ∈ es, R.atExpr m₁ e := fun e he =>
      R.atExpr_le hle₁ (hes e (List.mem_cons_of_mem _ he))
    refine (ih hi₁ hes₁).bind fun vs m₂ hi₂ hle₂ hvs => .pure hi₂ ?_
    exact List.forall_mem_cons.mpr ⟨R.ok_le hle₂ hv, hvs⟩

theorem keeps_instanceOf {v : Value} {line : Nat} {fault : Kind → TypeFault} (hi : R.inv m)
    (hv : R.ok m v) :
    R.Keeps (Evaluation.instanceOf v line fault) (Evaluation.instanceOf v line fault)
      (fun i m' => m' = m ∧ R.ok m (.instance_ i)) m := by
  unfold Evaluation.instanceOf
  split
  · exact .pure hi ⟨rfl, hv⟩
  · exact .fail hi

theorem keeps_evalWith (h : R.Agree r r') {e : Expr} (hi : R.inv m) (he : R.atExpr m e) :
    R.Keeps (Evaluation.evalWith c r e) (Evaluation.evalWith c r' e) (fun v m' => R.ok m' v) m := by
  have hchild : ∀ {e'}, e' ∈ e.children → R.atExpr m e' := R.atExpr_child he
  cases e with
  | literal k l => exact .pure hi (R.ok_plain (Evaluation.plain_literal l))
  | grouping k inner => exact h.eval hi (hchild List.mem_cons_self)
  | var k x => exact R.keeps_lookUp k.id x.name _ hi
  | this k => exact R.keeps_lookUp k.id _ _ hi
  | super k x => exact R.keeps_superMethod k.id x.name _ hi
  | assign k x value =>
    refine (h.eval hi (hchild List.mem_cons_self)).bind fun v m₁ hi₁ _ hv => ?_
    refine (R.keeps_assignVariable hi₁ (R.name_assign he) hv).bind fun _ m₂ hi₂ hle₂ _ => ?_
    exact .pure hi₂ (R.ok_le hle₂ hv)
  | binary k left op right =>
    refine (h.eval hi (hchild List.mem_cons_self)).bind fun a m₁ hi₁ hle₁ _ => ?_
    have hright := R.atExpr_le hle₁ (hchild (List.mem_cons_of_mem _ List.mem_cons_self))
    refine (h.eval hi₁ hright).bind fun b m₂ hi₂ _ _ => .read_bind ?_
    refine (Frame.Keeps.ofExcept hi₂ (q := R.ok m₂) fun v hv => ?_).mono fun v m₃ _ _ hq => ?_
    · exact R.ok_plain (Value.plain_of_scalar (BinOp.scalar_of_apply hv))
    · exact hq.1 ▸ hq.2
  | unary k op operand =>
    refine (h.eval hi (hchild List.mem_cons_self)).bind fun a m₁ hi₁ _ _ => .read_bind ?_
    refine (Frame.Keeps.ofExcept hi₁ (q := R.ok m₁) fun v hv => ?_).mono fun v m₂ _ _ hq => ?_
    · exact R.ok_plain (Value.plain_of_scalar (UnaryOp.scalar_of_apply hv))
    · exact hq.1 ▸ hq.2
  | logical k left op right =>
    refine (h.eval hi (hchild List.mem_cons_self)).bind fun a m₁ hi₁ hle₁ ha => .read_bind ?_
    have hright := R.atExpr_le hle₁ (hchild (List.mem_cons_of_mem _ List.mem_cons_self))
    split
    · exact .pure hi₁ ha
    · exact h.eval hi₁ hright
  | call k callee args =>
    refine (h.eval hi (hchild List.mem_cons_self)).bind fun f m₁ hi₁ hle₁ hf => ?_
    have hargs : ∀ e ∈ args, R.atExpr m₁ e := fun e he' =>
      R.atExpr_le hle₁ (hchild (List.mem_cons_of_mem _ he'))
    refine (R.keeps_arguments h hi₁ hargs).bind fun vs m₂ hi₂ hle₂ hvs => ?_
    obtain ⟨hi₃, hle₃⟩ := R.line hi₂ k.span.line
    refine .update_bind hi₃ hle₃ ((h.call hi₃ (R.ok_le hle₃ (R.ok_le hle₂ hf))
      fun v hv => R.ok_le hle₃ (hvs v hv)).bind fun v m₄ hi₄ _ hv => ?_)
    exact .read hi₄ (R.ok_detach _ hv)
  | get k object x =>
    refine (h.eval hi (hchild List.mem_cons_self)).bind fun o m₁ hi₁ _ ho => ?_
    exact (R.keeps_instanceOf hi₁ ho).bind_still fun i hn => R.keeps_getProperty hi₁ hn
  | set k object x value =>
    refine (h.eval hi (hchild List.mem_cons_self)).bind fun o m₁ hi₁ hle₁ ho => ?_
    refine (R.keeps_instanceOf hi₁ ho).bind_still fun i hn => ?_
    have hvalue := R.atExpr_le hle₁ (hchild (List.mem_cons_of_mem _ List.mem_cons_self))
    refine (h.eval hi₁ hvalue).bind fun v m₂ hi₂ hle₂ hv => ?_
    refine (R.keeps_setField hi₂ (R.ok_le hle₂ hn) hv).bind fun _ m₃ hi₃ hle₃ _ => ?_
    exact .pure hi₃ (R.ok_le hle₃ hv)

/-! ### Statements -/

/-- Run in a new scope, and be back. -/
theorem keeps_inScope {sc : Scope} {x y : Run Completion} (hi : R.inv m)
    (h : R.Keeps x y (fun k m' => R.okCompletion m' k) (m.enter sc)) :
    R.Keeps (Machine.openScope sc >>= fun e => Run.inScope e x)
      (Machine.openScope sc >>= fun e => Run.inScope e y) (fun k m' => R.okCompletion m' k) m := by
  refine ⟨Run.inScope_congr h.1, ?_⟩
  rw [Run.wp_bind]
  refine (Run.wp_inScope _ x).mpr (Run.wp_mono h.2 ?_ ?_ id)
  · rintro k m' ⟨hi', hle, hk⟩
    obtain ⟨hi'', hle'⟩ := R.leaveBlock hi hle hi'
    exact ⟨hi'', hle', R.okCompletion_env m.env m'.depth hk⟩
  · rintro err m' ⟨hi', hle⟩
    exact R.leaveBlock hi hle hi'

theorem keeps_parentOf (h : R.Agree r r') {super : Option Superclass} (hi : R.inv m)
    (hp : ∀ p, super = some p → R.atExpr m p.toExpr) :
    R.Keeps (Evaluation.parentOf r.eval super) (Evaluation.parentOf r'.eval super)
      (fun parent m' => parent.isSome = super.isSome ∧
        ∀ k, parent = some k → R.ok m' (.class_ k)) m := by
  cases super with
  | none => exact .pure hi ⟨rfl, nofun⟩
  | some p =>
    refine (h.eval hi (hp p rfl)).bind fun v m₁ hi₁ _ hv => ?_
    split
    · exact .pure hi₁ ⟨rfl, fun k hk => by cases hk; exact hv⟩
    · exact .fail hi₁

/-- The name of a class is bound before its superclass is looked up, and stays bound. -/
theorem keeps_declareClass (h : R.Agree r r') {x : Ident} {super : Option Superclass}
    {ms : List FunctionDecl} {sp : Span} (hi : R.inv m)
    (hs : R.atStmt m (.class_ x super ms sp)) :
    R.Keeps (Evaluation.declareClass r.eval x super ms) (Evaluation.declareClass r'.eval x super ms)
      (fun _ m' => R.after (.class_ x super ms sp) m') m := by
  have hx : R.name x.name := R.name_declares hs rfl
  unfold Evaluation.declareClass
  refine (R.keeps_declare hi hx (R.ok_plain rfl)).bind ?_
  rintro _ m₁ hi₁ hle₁ rfl
  have hs₁ := R.atStmt_le hle₁ hs
  have hafter := R.after_declare hi hs (v := .null) rfl
  refine (R.keeps_parentOf h hi₁ fun p hp => ?_).bind fun parent m₂ hi₂ hle₂ ⟨hsome, hparent⟩ => ?_
  · subst hp
    exact R.atStmt_parent hs₁ hafter
  have hafter₂ := R.after_le hle₂ hafter
  obtain ⟨table, ht, hrun⟩ := Machine.newScriptClass_apply x.name parent ms m₂
  obtain ⟨hi₃, hle₃, hk⟩ := R.newClass hi₂ (R.atStmt_le hle₂ hs₁) hafter₂ hsome hparent ht
  have hclass : R.Keeps (Evaluation.newScriptClass x.name parent ms)
      (Evaluation.newScriptClass x.name parent ms)
      (fun k m' => R.ok m' (.class_ k) ∧ R.after (.class_ x super ms sp) m') m₂ := by
    refine ⟨rfl, ?_⟩
    unfold Run.wp
    rw [hrun]
    exact ⟨hi₃, hle₃, hk, R.after_le hle₃ hafter₂⟩
  refine hclass.bind fun k m₄ hi₄ _ ⟨hk₄, hafter₄⟩ => .read_bind ?_
  exact (R.keeps_assignIn hi₄ hx hk₄).mono fun _ m₅ _ hle₅ _ => R.after_le hle₅ hafter₄

theorem keeps_printLine (s : String) (hi : R.inv m) :
    R.Keeps (Evaluation.printLine s) (Evaluation.printLine s) (fun _ _ => True) m := by
  refine ⟨rfl, ?_⟩
  unfold Run.wp Evaluation.printLine
  split
  · obtain ⟨hi', hle⟩ := R.console hi ‹_›
    exact ⟨hi', hle, trivial⟩
  · exact ⟨hi, R.le_refl m⟩

theorem keeps_execWith (h : R.Agree r r') {s : Stmt} (hi : R.inv m) (hs : R.atStmt m s) :
    R.Keeps (Evaluation.execWith r s) (Evaluation.execWith r' s)
      (fun k m' => R.okCompletion m' k ∧ (k = .completed → R.after s m')) m := by
  have hexpr : ∀ {e}, e ∈ s.exprs → R.atExpr m e := R.atStmt_expr hs
  cases s with
  | expr e sp =>
    refine (h.eval hi (hexpr List.mem_cons_self)).bind fun _ m₁ hi₁ _ _ => .pure hi₁ ⟨trivial, ?_⟩
    exact fun _ => R.after_undeclaring rfl
  | print e sp =>
    refine (h.eval hi (hexpr List.mem_cons_self)).bind fun v m₁ hi₁ _ hv => ?_
    refine (R.keeps_text hi₁ hv).bind_still fun t _ => ?_
    refine (R.keeps_printLine t hi₁).bind fun _ m₂ hi₂ _ _ => .pure hi₂ ⟨trivial, ?_⟩
    exact fun _ => R.after_undeclaring rfl
  | var x init sp =>
    have hx : R.name x.name := R.name_declares hs rfl
    cases init with
    | none =>
      refine (R.keeps_declare hi hx (R.ok_plain rfl)).bind ?_
      rintro _ m₁ hi₁ - rfl
      exact .pure hi₁ ⟨trivial, fun _ => R.after_declare hi hs rfl⟩
    | some e =>
      refine (h.eval hi (hexpr List.mem_cons_self)).bind fun v m₁ hi₁ hle₁ hv => ?_
      refine (R.keeps_declare hi₁ hx hv).bind ?_
      rintro _ m₂ hi₂ - rfl
      exact .pure hi₂ ⟨trivial, fun _ => R.after_declare hi₁ (R.atStmt_le hle₁ hs) rfl⟩
  | block body sp =>
    obtain ⟨hi₁, hb⟩ := R.enterBlock hi hs
    refine .read_bind ((R.keeps_inScope hi (h.block hi₁ hb)).mono fun k m' _ _ hk => ⟨hk, ?_⟩)
    exact fun _ => R.after_undeclaring rfl
  | ifElse cond t e sp =>
    refine (h.eval hi (hexpr List.mem_cons_self)).bind fun v m₁ hi₁ hle₁ _ => .read_bind ?_
    have hs₁ := R.atStmt_le hle₁ hs
    split
    · have ht : t ∈ (Stmt.ifElse cond t e sp).branches := by cases e <;> exact List.mem_cons_self
      refine (h.exec hi₁ (R.atStmt_branch hs₁ ht)).mono fun k m' _ _ hk => ⟨hk.1, ?_⟩
      exact fun _ => R.after_undeclaring rfl
    · cases e with
      | none => exact .pure hi₁ ⟨trivial, fun _ => R.after_undeclaring rfl⟩
      | some e =>
        have he := R.atStmt_branch hs₁ (List.mem_cons_of_mem _ List.mem_cons_self)
        refine (h.exec hi₁ he).mono fun k m' _ _ hk => ⟨hk.1, ?_⟩
        exact fun _ => R.after_undeclaring rfl
  | while_ cond body sp =>
    exact (h.loop hi hs).mono fun k m' _ _ hk => ⟨hk, fun _ => R.after_undeclaring rfl⟩
  | function d =>
    obtain ⟨hi', hle, hafter⟩ := R.function hi hs
    exact ⟨rfl, hi', hle, trivial, fun _ => hafter⟩
  | class_ x super ms sp =>
    refine (R.keeps_declareClass h hi hs).bind fun _ m₁ hi₁ _ hafter => ?_
    exact .pure hi₁ ⟨trivial, fun _ => hafter⟩
  | return_ value sp =>
    cases value with
    | none => exact .pure hi ⟨R.ok_plain rfl, nofun⟩
    | some e =>
      refine (h.eval hi (hexpr List.mem_cons_self)).bind fun v m₁ hi₁ _ hv => ?_
      exact .pure hi₁ ⟨hv, nofun⟩

theorem keeps_blockWith (h : R.Agree r r') {body : List Stmt} (hi : R.inv m)
    (hb : R.atBlock m body) :
    R.Keeps (Evaluation.blockWith r body) (Evaluation.blockWith r' body)
      (fun k m' => R.okCompletion m' k) m := by
  cases body with
  | nil => exact .pure hi trivial
  | cons s rest =>
    refine (h.exec hi (R.atBlock_head hb)).bind fun k m₁ hi₁ hle₁ ⟨hk, hafter⟩ => ?_
    cases k with
    | completed => exact h.block hi₁ (R.atBlock_tail hb hle₁ (hafter rfl))
    | returning v => exact .pure hi₁ hk

theorem keeps_loopWith (h : R.Agree r r') {cond : Expr} {body : Stmt} {sp : Span} (hi : R.inv m)
    (hs : R.atStmt m (.while_ cond body sp)) :
    R.Keeps (Evaluation.loopWith r cond body) (Evaluation.loopWith r' cond body)
      (fun k m' => R.okCompletion m' k) m := by
  have hcond := R.atStmt_expr hs List.mem_cons_self
  refine (h.eval hi hcond).bind fun v m₁ hi₁ hle₁ _ => .read_bind ?_
  have hs₁ := R.atStmt_le hle₁ hs
  split
  · have hbody := R.atStmt_branch hs₁ List.mem_cons_self
    refine (h.exec hi₁ hbody).bind fun k m₂ hi₂ hle₂ ⟨hk, _⟩ => ?_
    cases k with
    | completed => exact h.loop hi₂ (R.atStmt_le hle₂ hs₁)
    | returning v => exact .pure hi₂ hk
  · exact .pure hi₁ trivial

/-! ### Calls -/

theorem keeps_checkArity {n k : Nat} (hi : R.inv m) :
    R.Keeps (Evaluation.checkArity n k) (Evaluation.checkArity n k)
      (fun _ m' => m' = m ∧ n = k) m := by
  refine ⟨rfl, ?_⟩
  unfold Run.wp Evaluation.checkArity
  split
  · exact ⟨hi, R.le_refl m, rfl, ‹_›⟩
  · exact ⟨hi, R.le_refl m⟩

theorem keeps_checkDepth (hi : R.inv m) :
    R.Keeps (Evaluation.checkDepth c) (Evaluation.checkDepth c)
      (fun _ m' => m' = m ∧ m.depth < c.maxDepth) m := by
  refine ⟨rfl, ?_⟩
  unfold Run.wp Evaluation.checkDepth
  split
  · exact ⟨hi, R.le_refl m, rfl, ‹_›⟩
  · exact ⟨hi, R.le_refl m⟩

theorem keeps_callResult {closure : ScopeId} {isInit : Bool} {ended : Completion} (hi : R.inv m)
    (hk : R.okCompletion m ended) :
    R.Keeps (Evaluation.callResult closure isInit ended) (Evaluation.callResult closure isInit ended)
      (fun v m' => R.ok m' v) m := by
  unfold Evaluation.callResult
  cases isInit with
  | true =>
    refine .read_bind ?_
    split
    · obtain ⟨p, hp⟩ := Store.own?_of_getAt? ‹_›
      exact .pure hi (R.ok_own hi hp)
    · exact .failHere hi
  | false =>
    cases ended with
    | completed => exact .pure hi (R.ok_plain rfl)
    | returning v => exact .pure hi hk

/-- The body of a function runs in the scope of the call, one call deeper. -/
theorem keeps_body {d : FunctionDecl} {closure : ScopeId} {args : List Value}
    {x y : Run Completion} (hi : R.inv m)
    (h : R.Keeps x y (fun k m' => R.okCompletion m' k) (m.enterCall d closure args)) :
    let sc : Scope := ⟨.ofList ((d.params.map (·.name)).zip args), some closure⟩
    R.Keeps (Machine.openScope sc >>= fun e => Run.deeper (Run.inScope e x))
      (Machine.openScope sc >>= fun e => Run.deeper (Run.inScope e y))
      (fun k m' => R.okCompletion m' k) m := by
  refine ⟨Run.deeper_congr (Run.inScope_congr h.1), ?_⟩
  rw [Run.wp_bind]
  refine (Run.wp_deeper _).mpr ((Run.wp_inScope _ x).mpr (Run.wp_mono h.2 ?_ ?_ id))
  · rintro k m' ⟨hi', hle, hk⟩
    obtain ⟨hi'', hle'⟩ := R.leaveCall hi hle hi'
    have hk' := R.okCompletion_env m.env (m'.depth - 1) hk
    exact ⟨hi'', hle', hk'⟩
  · rintro err m' ⟨hi', hle⟩
    obtain ⟨hi'', hle'⟩ := R.leaveCall hi hle hi'
    exact ⟨hi'', hle'⟩

theorem keeps_callScript (h : R.Agree r r') {f : CallableId} {d : FunctionDecl} {closure : ScopeId}
    {isInit : Bool} {args : List Value} (hi : R.inv m) (hf : R.ok m (.function f))
    (hd : m.heap.callable f = .script d closure isInit) (hlen : args.length = d.arity)
    (hargs : ∀ v ∈ args, R.ok m v) :
    R.Keeps (Evaluation.callScript c r d closure isInit args)
      (Evaluation.callScript c r' d closure isInit args) (fun v m' => R.ok m' v) m := by
  refine (R.keeps_checkDepth hi).bind_still fun _ hdepth => ?_
  obtain ⟨hi₁, hb⟩ := R.enterCall hi hf hd hlen hargs hdepth
  exact (R.keeps_body hi (h.block hi₁ hb)).bind fun k m₂ hi₂ _ hk => R.keeps_callResult hi₂ hk

theorem keeps_callFunction (h : R.Agree r r') {f : CallableId} {args : List Value} (hi : R.inv m)
    (hf : R.ok m (.function f)) (hargs : ∀ v ∈ args, R.ok m v) :
    R.Keeps (Evaluation.callFunction c r f args) (Evaluation.callFunction c r' f args)
      (fun v m' => R.ok m' v) m := by
  unfold Evaluation.callFunction
  refine .demand_bind hi (R.has_callable hi hf) (.read_bind ?_)
  refine (R.keeps_checkArity hi).bind_still fun _ hlen => ?_
  cases hc : m.heap.callable f with
  | native x n g =>
    rw [hc] at hlen
    have hn : R.crash ∨ args.length = g.arity :=
      (R.native_arity hi hf hc).imp_right fun e => hlen.symm.trans e
    exact R.keeps_builtin hi hargs hn fun f args m hi hf hargs => h.call hi hf hargs
  | method g rc =>
    rw [hc] at hlen
    refine R.keeps_hostMethod hi (fun i hrc => ?_) hargs hlen.symm
    exact R.ok_receiver hi hf (hrc ▸ hc)
  | script d closure isInit =>
    rw [hc] at hlen
    exact R.keeps_callScript h hi hf hc hlen.symm hargs

/-- The class that a search stops at answers the question. -/
theorem exists_of_search {β : Type} {heap : Heap} {ask : ClassId → Class → Option β} {k : ClassId}
    {b : β} (h : heap.search ask k = some b) : ∃ k', ask k' (heap.class_ k') = some b := by
  fun_induction Heap.search with
  | case1 k b' hk => cases h; exact ⟨k, hk⟩
  | case2 k hk p hp ih => exact ih h
  | case3 k hk hp => cases h

theorem keeps_construct {k : ClassId} {args : List Value} (hi : R.inv m)
    (hk : R.ok m (.class_ k)) (hargs : ∀ v ∈ args, R.ok m v)
    (hlen : ∀ n t, m.heap.nativeConstructor k = some (n, t) → n = args.length) :
    R.Keeps (Evaluation.construct k args) (Evaluation.construct k args) (fun v m' => R.ok m' v)
      m := by
  unfold Evaluation.construct
  refine .demand_bind hi (R.has_class hi hk) (.read_bind ?_)
  cases hn : m.heap.nativeConstructor k with
  | none =>
    refine (R.keeps_newInstance hi (by exact hk) (Instance.fresh_plain k) (.plain (.inr hn))).bind ?_
    exact fun i m' hi' _ hok => .pure hi' hok
  | some nt =>
    obtain ⟨n, t⟩ := nt
    obtain ⟨k', hk'⟩ := exists_of_search hn
    have ht : R.crash ∨ args.length = t.arity :=
      (R.constructor_arity hi hk').imp_right fun e => (hlen n t hn).symm.trans e
    refine (R.keeps_hostConstruct hi hargs ht).bind fun o m₁ hi₁ hle₁ ⟨ho, hheap⟩ => ?_
    have hwraps : m₁.Wraps k o.type := .inr ⟨n, by rw [hheap, ho, hn]⟩
    refine (R.keeps_newInstance hi₁ (R.ok_le hle₁ hk) (Instance.fresh_ofHost k o) (.host hwraps)).bind ?_
    exact fun i m' hi' _ hok => .pure hi' hok

theorem keeps_instantiate (h : R.Agree r r') {k : ClassId} {args : List Value} (hi : R.inv m)
    (hk : R.ok m (.class_ k)) (hargs : ∀ v ∈ args, R.ok m v) :
    R.Keeps (Evaluation.instantiate r k args) (Evaluation.instantiate r' k args)
      (fun v m' => R.ok m' v) m := by
  have hthere : R.crash ∨ m.heap.hasConstructor k = true := by
    unfold Heap.hasConstructor
    rcases R.has_class hi hk with hc | hk'
    · exact .inl hc
    · cases hf : m.heap.findMethod k initName with
      | none => exact .inr (by simp [hk'])
      | some f =>
        refine (R.has_method hi (R.okMethod_of_findMethod hi hf)).imp_right fun hf' => ?_
        simp [hk', hf']
  unfold Evaluation.instantiate
  refine .demand_bind hi hthere (.read_bind ?_)
  refine (R.keeps_checkArity hi).bind_still fun _ hlen => .read_bind ?_
  cases hf : m.heap.findMethod k initName with
  | none =>
    refine R.keeps_construct hi hk hargs fun n t hn => ?_
    rw [← hlen]
    unfold Heap.constructorArity
    rw [hf, hn]
  | some f =>
    have hm := R.okMethod_of_findMethod hi hf
    obtain ⟨hi₁, hle₁, hn⟩ := R.newInstance hi (o := .plain k) hk (Instance.fresh_plain k)
      (.plain (.inl (Option.isSome_of_mem hf)))
    have hnew : R.Keeps (Machine.newInstance (.plain k)) (Machine.newInstance (.plain k))
        (fun i m' => i = m.nextInstance ∧ m' = m.addInstance (.plain k)) m :=
      ⟨rfl, hi₁, hle₁, rfl, rfl⟩
    refine hnew.bind ?_
    rintro _ _ - - ⟨rfl, rfl⟩
    have hoffers := m.offers_init hf
    refine .read_bind ((R.keeps_bindMethod hi₁ (R.okMethod_le hle₁ hm) hn hoffers).bind ?_)
    intro g m₂ hi₂ hle₂ hg
    have hargs₂ : ∀ v ∈ args, R.ok m₂ v := fun v hv => R.ok_le hle₂ (R.ok_le hle₁ (hargs v hv))
    refine (h.call hi₂ hg hargs₂).bind fun _ m₃ hi₃ hle₃ _ => ?_
    exact .pure hi₃ (R.ok_le hle₃ (R.ok_le hle₂ hn))

theorem keeps_callWith (h : R.Agree r r') {f : Value} {args : List Value} (hi : R.inv m)
    (hf : R.ok m f) (hargs : ∀ v ∈ args, R.ok m v) :
    R.Keeps (Evaluation.callWith c r f args) (Evaluation.callWith c r' f args)
      (fun v m' => R.ok m' v) m := by
  cases f with
  | function f => exact R.keeps_callFunction h hi hf hargs
  | class_ k => exact R.keeps_instantiate h hi hf hargs
  | _ => exact .failHere hi

/-! ### Runs -/

/-- One more layer. -/
theorem keeps_step (h : R.Agree r r') {a : Activity} (ha : R.Ready a m) :
    R.Keeps (a.step c r) (a.step c r') (R.Yields a) m := by
  cases a with
  | eval e => exact R.keeps_evalWith h ha.inv ha.fits
  | exec s => exact R.keeps_execWith h ha.inv ha.fits
  | block body => exact R.keeps_blockWith h ha.inv ha.fits
  | loop cond body =>
    obtain ⟨hi, sp, hs⟩ := ha
    exact R.keeps_loopWith h hi hs
  | call f args => exact R.keeps_callWith h ha.inv ha.fits.1 ha.fits.2

theorem agree_layer (R : Regime c) (n : Nat) :
    R.Agree (Evaluation.layer c n) (Evaluation.layer c n) := by
  induction n with
  | zero =>
    intro a m _
    refine ⟨rfl, ?_⟩
    have hrun : a.via (Evaluation.layer c 0) m = .outOfFuel := a.run_zero c m
    unfold Run.wp
    rw [hrun]
    trivial
  | succ n ih =>
    -- One more unit of fuel is one step over the layer below.
    intro a m ha
    have hrun : a.via (Evaluation.layer c (n + 1)) = a.step c (Evaluation.layer c n) :=
      a.run_succ c n
    rw [hrun]
    exact R.keeps_step ih ha

/-- What runs with any amount of fuel keeps to the regime. -/
theorem keeps_run (n : Nat) {a : Activity} (ha : R.Ready a m) :
    R.Keeps (a.run c n) (a.run c n) (R.Yields a) m :=
  R.agree_layer n a m ha

/-- The host calls a copy of the value, from no line of a script. -/
theorem ready_callByHost {f : Value} {args : List Value} (hi : R.inv m) (hf : R.ok m f)
    (hargs : ∀ v ∈ args, R.ok m v) :
    R.Ready (.call (f.detach m.store.cells) args) { m with line := 0 } := by
  obtain ⟨hi', hle⟩ := R.line hi 0
  exact ⟨hi', R.ok_detach _ (R.ok_le hle hf), fun v hv => R.ok_le hle (hargs v hv)⟩

theorem keeps_callByHost (n : Nat) {f : Value} {args : List Value} (hi : R.inv m) (hf : R.ok m f)
    (hargs : ∀ v ∈ args, R.ok m v) :
    R.Keeps (Evaluation.callFromHost c n f args) (Evaluation.callFromHost c n f args)
      (fun v m' => R.ok m' v) m :=
  R.keeps_callFromHost hi hf hargs fun f args _ hi hf hargs =>
    R.keeps_run n (a := .call f args) ⟨hi, hf, hargs⟩

/-- An activity that is started is ready. If it were not, then a layer that comes to something else
there agrees on everything that is ready, and nothing would depend on it. -/
theorem ready_of_enters {n : Nat} {a b : Activity} {m' : Machine} (h : a.Enters c n m b m')
    (ha : R.Ready a m) : R.Ready b m' := by
  obtain ⟨r, hr, hne⟩ := h
  refine Classical.byContradiction fun hb => ?_
  have hagree : R.Agree (Evaluation.layer c n) r := by
    intro d m₁ hd
    have hother : ¬ (d = b ∧ m₁ = m') := by
      rintro ⟨rfl, rfl⟩
      exact hb hd
    exact ⟨hr d m₁ hother, (R.agree_layer n d m₁ hd).2⟩
  exact hne (R.keeps_step hagree ha).1

theorem ready_of_reaches {n : Nat} {a b : Activity} {m' : Machine}
    (h : Activity.Reaches c n a m b m') (ha : R.Ready a m) : R.Ready b m' := by
  induction h with
  | here => exact ha
  | inside hab _ ih => exact ih (R.ready_of_enters hab ha)

/-! ### Programs -/

theorem keeps_program (n : Nat) (stmts : List Stmt) (hi : R.inv m)
    (hs : ∀ s ∈ stmts, R.atStmt m s) :
    R.Keeps (Evaluation.program c n stmts) (Evaluation.program c n stmts) (fun _ _ => True) m := by
  induction stmts generalizing m with
  | nil => exact .pure hi trivial
  | cons s rest ih =>
    refine (R.keeps_run n (a := .exec s) ⟨hi, hs s List.mem_cons_self⟩).bind ?_
    intro _ m₁ hi₁ hle₁ _
    exact ih hi₁ fun t ht => R.atStmt_le hle₁ (hs t (List.mem_cons_of_mem _ ht))

/-- Every activity that a program starts is ready. -/
theorem ready_of_programReaches {n : Nat} {stmts : List Stmt} {b : Activity} {m' : Machine}
    (h : ProgramReaches c n stmts m b m') (hi : R.inv m) (hs : ∀ s ∈ stmts, R.atStmt m s) :
    R.Ready b m' := by
  induction h with
  | first h => exact R.ready_of_reaches h ⟨hi, hs _ List.mem_cons_self⟩
  | @later s rest m m₁ _ _ k hrun _ ih =>
    have hkeeps := (R.keeps_run n (a := .exec s) ⟨hi, hs s List.mem_cons_self⟩).2
    have hend : Activity.run c n (.exec s) m = .done k m₁ := hrun
    unfold Run.wp at hkeeps
    rw [hend] at hkeeps
    obtain ⟨hi₁, hle₁, -⟩ := hkeeps
    exact ih hi₁ fun t ht => R.atStmt_le hle₁ (hs t (List.mem_cons_of_mem _ ht))

end HostScript.Regime
