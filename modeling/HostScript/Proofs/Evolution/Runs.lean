import HostScript.Proofs.Begins
import HostScript.Proofs.Evolution.Objects

/-!
# How runs evolve

Whatever evaluation does, with any amount of fuel and however it ends, the machine evolves
(`Activity.evolves_run`), and every state in which an activity is started lies on the way
(`Activity.leads_of_reaches`). Values of expressions and values on their way to a call are owned, and so
are the arguments of every call that is not made by the host.
-/

namespace HostScript

variable {own declares : Prop} {c : Context} {r : Inner} {m m' : Machine} {n : Nat}

/-- A value on its way to the nearest call is owned. -/
def Completion.Owning : Completion → Prop
  | .completed => True
  | .returning v => v.isBound = false

namespace Activity

/-- The arguments of a call are owned. -/
def Owning : Activity → Prop
  | call _ args => ∀ v ∈ args, v.isBound = false
  | _ => True

/-- Whether names may be declared in the innermost scope. -/
def Declares : Activity → Prop
  | eval _ | call _ _ => False
  | exec _ | block _ | loop _ _ => True

/-- What holds of the results of an activity. A call may give back a value that is bound. -/
def Gives : (a : Activity) → a.Result → Prop
  | eval _, v => v.isBound = false
  | call _ _, _ => True
  | exec _, k | block _, k | loop _ _, k => k.Owning

end Activity

/-- On a layer, every activity makes the machine evolve. -/
def Inner.Evolves (own : Prop) (r : Inner) : Prop :=
  ∀ (a : Activity) (m : Machine), (own → a.Owning) → (a.via r).Evolves own a.Declares (fun x _ => a.Gives x) m

namespace Inner.Evolves

variable (h : r.Evolves own)
include h

theorem eval (e : Expr) : (r.eval e).Evolves own declares (fun v _ => v.isBound = false) m :=
  (h (.eval e) m fun _ => trivial).weaken False.elim

theorem exec (s : Stmt) : (r.exec s).Evolves own True (fun k _ => k.Owning) m :=
  h (.exec s) m fun _ => trivial

theorem block (body : List Stmt) : (r.block body).Evolves own True (fun k _ => k.Owning) m :=
  h (.block body) m fun _ => trivial

theorem loop (cond : Expr) (body : Stmt) :
    (r.loop cond body).Evolves own True (fun k _ => k.Owning) m :=
  h (.loop cond body) m fun _ => trivial

theorem call (f : Value) {args : List Value} (hargs : own → ∀ v ∈ args, v.isBound = false) :
    (r.call f args).Evolves own declares (fun _ _ => True) m :=
  (h (.call f args) m hargs).weaken False.elim

/-! ### Expressions -/

theorem arguments (es : List Expr) :
    (Evaluation.arguments r.eval es).Evolves own declares (fun vs _ => ∀ v ∈ vs, v.isBound = false)
      m := by
  induction es generalizing m with
  | nil => exact .pure trivial nofun
  | cons e es ih =>
    refine (h.eval e).bind fun v m₁ _ _ hv => ih.bind fun vs m₂ _ _ hvs => ?_
    exact .pure trivial (List.forall_mem_cons.mpr ⟨hv, hvs⟩)

omit h in
theorem instanceOf (v : Value) (line : Nat) (fault : Kind → TypeFault) :
    (Evaluation.instanceOf v line fault).Evolves own declares (fun _ m' => m' = m ∧ True) m := by
  unfold Evaluation.instanceOf
  split
  · exact .pure trivial ⟨rfl, trivial⟩
  · exact .fail trivial

theorem evalWith (e : Expr) :
    (Evaluation.evalWith c r e).Evolves own declares (fun v _ => v.isBound = false) m := by
  cases e with
  | literal k l => exact .pure trivial (Evaluation.isBound_literal l)
  | grouping k inner => exact h.eval inner
  | var k x => exact Evaluation.evolves_lookUp c k.id x.name _
  | this k => exact Evaluation.evolves_lookUp c k.id _ _
  | super k x => exact Evaluation.evolves_superMethod c k.id x.name _
  | assign k x value =>
    refine (h.eval value).bind fun v m₁ _ _ hv => ?_
    refine Frame.Keeps.bind (.read_bind (Machine.evolves_assignIn _ x.name v _)) ?_
    exact fun _ m₂ _ _ _ => .pure trivial hv
  | binary k left op right =>
    refine (h.eval left).bind fun a m₁ _ _ _ => (h.eval right).bind fun b m₂ _ _ _ => .read_bind ?_
    refine (Frame.Keeps.ofExcept trivial fun v hv => ?_).mono fun _ _ _ _ hq => hq.2
    exact Value.isBound_of_scalar (BinOp.scalar_of_apply hv)
  | unary k op operand =>
    refine (h.eval operand).bind fun a m₁ _ _ _ => .read_bind ?_
    refine (Frame.Keeps.ofExcept trivial fun v hv => ?_).mono fun _ _ _ _ hq => hq.2
    exact Value.isBound_of_scalar (UnaryOp.scalar_of_apply hv)
  | logical k left op right =>
    refine (h.eval left).bind fun a m₁ _ _ ha => .read_bind ?_
    split
    · exact .pure trivial ha
    · exact h.eval right
  | call k callee args =>
    refine (h.eval callee).bind fun f m₁ _ _ _ => (h.arguments args).bind fun vs m₂ _ _ hvs => ?_
    refine Run.Evolves.change_bind (.line k.span.line) ((h.call f fun _ => hvs).bind ?_)
    exact fun v m₃ _ _ _ => .read trivial (Value.isBound_detach _ v)
  | get k object x =>
    refine (h.eval object).bind fun o m₁ _ _ _ => (instanceOf o _ _).bind_still fun i _ => ?_
    exact Machine.evolves_getProperty i x.name _
  | set k object x value =>
    refine (h.eval object).bind fun o m₁ _ _ _ => (instanceOf o _ _).bind_still fun i _ => ?_
    refine (h.eval value).bind fun v m₂ _ _ hv => ?_
    exact (Machine.evolves_setField i x.name v _).bind fun _ m₃ _ _ _ => .pure trivial hv

/-! ### Statements -/

/-- Run in a new scope, and be back. -/
theorem inBlock (body : List Stmt) :
    (Machine.openScope ⟨.empty, some m.env⟩ >>= fun e => Run.inScope e (r.block body)).Evolves own
      declares (fun k _ => k.Owning) m := by
  refine ⟨rfl, ?_⟩
  have hbody := (h.block body (m := m.enter ⟨.empty, some m.env⟩)).2
  rw [Run.wp_bind]
  have hback : ∀ {m'}, Machine.Evolves own True (m.enter ⟨.empty, some m.env⟩) m' →
      Machine.Evolves own declares m { m' with env := m.env } := .block .refl
  refine (Run.wp_inScope _ _).mpr (Run.wp_mono hbody ?_ ?_ id)
  · rintro k m' ⟨-, he, hk⟩
    exact ⟨trivial, hback he, hk⟩
  · rintro e m' ⟨-, he⟩
    exact ⟨trivial, hback he⟩

theorem parentOf (super : Option Superclass) :
    (Evaluation.parentOf r.eval super).Evolves own True (fun _ _ => True) m := by
  cases super with
  | none => exact .pure trivial trivial
  | some p =>
    refine (h.eval p.toExpr).bind fun v m₁ _ _ _ => ?_
    split
    · exact .pure trivial trivial
    · exact .fail trivial

theorem declareClass (x : Ident) (super : Option Superclass) (ms : List FunctionDecl) :
    (Evaluation.declareClass r.eval x super ms).Evolves own True (fun _ _ => True) m := by
  refine (Evaluation.evolves_declare trivial rfl).bind fun _ m₁ _ _ _ => ?_
  refine (h.parentOf super).bind fun parent m₂ _ _ _ => ?_
  refine (Evaluation.evolves_newScriptClass x.name parent ms).bind fun k m₃ _ _ _ => ?_
  exact .read_bind (Machine.evolves_assignIn _ x.name _ _)

theorem execWith (s : Stmt) :
    (Evaluation.execWith r s).Evolves own True (fun k _ => k.Owning) m := by
  cases s with
  | expr e sp => exact (h.eval e).bind fun _ _ _ _ _ => .pure trivial trivial
  | print e sp =>
    refine (h.eval e).bind fun v m₁ _ _ _ => (Builtin.evolves_text v).bind_still fun t _ => ?_
    exact (Evaluation.evolves_printLine t).bind fun _ _ _ _ _ => .pure trivial trivial
  | var x init sp =>
    cases init with
    | none =>
      exact (Evaluation.evolves_declare trivial rfl).bind fun _ _ _ _ _ => .pure trivial trivial
    | some e =>
      refine (h.eval e).bind fun v m₁ _ _ hv => ?_
      exact (Evaluation.evolves_declare trivial hv).bind fun _ _ _ _ _ => .pure trivial trivial
  | block body sp => exact .read_bind (h.inBlock body)
  | ifElse cond t e sp =>
    refine (h.eval cond).bind fun v m₁ _ _ _ => .read_bind ?_
    split
    · exact h.exec t
    · cases e with
      | none => exact .pure trivial trivial
      | some e => exact h.exec e
  | while_ cond body sp => exact h.loop cond body
  | function d =>
    have hadd : Machine.Evolves own True m (m.addCallable (.script d m.env false)) :=
      .of_change (.addFunction d)
    exact ⟨rfl, trivial, hadd.change (.declare trivial rfl), trivial⟩
  | class_ x super ms sp =>
    exact (h.declareClass x super ms).bind fun _ _ _ _ _ => .pure trivial trivial
  | return_ value sp =>
    cases value with
    | none => exact .pure trivial rfl
    | some e => exact (h.eval e).bind fun v m₁ _ _ hv => .pure trivial hv

theorem blockWith (body : List Stmt) :
    (Evaluation.blockWith r body).Evolves own True (fun k _ => k.Owning) m := by
  cases body with
  | nil => exact .pure trivial trivial
  | cons s rest =>
    refine (h.exec s).bind fun k m₁ _ _ hk => ?_
    cases k with
    | completed => exact h.block rest
    | returning v => exact .pure trivial hk

theorem loopWith (cond : Expr) (body : Stmt) :
    (Evaluation.loopWith r cond body).Evolves own True (fun k _ => k.Owning) m := by
  refine (h.eval cond).bind fun v m₁ _ _ _ => .read_bind ?_
  split
  · refine (h.exec body).bind fun k m₂ _ _ hk => ?_
    cases k with
    | completed => exact h.loop cond body
    | returning v => exact .pure trivial hk
  · exact .pure trivial trivial

/-! ### Calls -/

omit h in
theorem checkArity (n k : Nat) :
    (Evaluation.checkArity n k).Evolves own declares (fun _ m' => m' = m ∧ True) m := by
  refine ⟨rfl, ?_⟩
  unfold Run.wp Evaluation.checkArity
  split
  · exact ⟨trivial, .refl, rfl, trivial⟩
  · exact ⟨trivial, .refl⟩

omit h in
theorem checkDepth :
    (Evaluation.checkDepth c).Evolves own declares (fun _ m' => m' = m ∧ True) m := by
  refine ⟨rfl, ?_⟩
  unfold Run.wp Evaluation.checkDepth
  split
  · exact ⟨trivial, .refl, rfl, trivial⟩
  · exact ⟨trivial, .refl⟩

omit h in
theorem callResult (closure : ScopeId) (isInit : Bool) (ended : Completion) :
    (Evaluation.callResult closure isInit ended).Evolves own declares (fun _ _ => True) m := by
  unfold Evaluation.callResult
  cases isInit with
  | true =>
    refine .read_bind ?_
    split
    · exact .pure trivial trivial
    · exact .failHere trivial
  | false => cases ended <;> exact .pure trivial trivial

/-- The body of a function runs in the scope of the call, one call deeper. -/
theorem body {f : CallableId} {d : FunctionDecl} {closure : ScopeId} {isInit : Bool}
    {args : List Value} (hf : m.heap.callable f = .script d closure isInit)
    (hargs : own → ∀ v ∈ args, v.isBound = false) :
    (Machine.openScope ⟨.ofList ((d.params.map (·.name)).zip args), some closure⟩ >>=
      fun e => Run.deeper (Run.inScope e (r.block d.body))).Evolves own declares (fun _ _ => True)
      m := by
  refine ⟨rfl, ?_⟩
  have hbody := (h.block d.body (m := m.enterCall d closure args)).2
  rw [Run.wp_bind]
  have hback : ∀ {m'}, Machine.Evolves own True (m.enterCall d closure args) m' →
      Machine.Evolves own declares m { m' with env := m.env, depth := m'.depth - 1 } :=
    .call .refl hf hargs
  refine (Run.wp_deeper _).mpr ((Run.wp_inScope _ _).mpr (Run.wp_mono hbody ?_ ?_ id))
  · rintro k m' ⟨-, he, -⟩
    have hend := hback he
    exact ⟨trivial, hend, trivial⟩
  · rintro e m' ⟨-, he⟩
    have hend := hback he
    exact ⟨trivial, hend⟩

theorem callFunction (f : CallableId) {args : List Value}
    (hargs : own → ∀ v ∈ args, v.isBound = false) :
    (Evaluation.callFunction c r f args).Evolves own declares (fun _ _ => True) m := by
  refine Run.Evolves.demand_bind fun _ => .read_bind ((checkArity _ _).bind_still fun _ _ => ?_)
  cases hc : m.heap.callable f with
  | native x n g => exact Builtin.evolves_run (fun f args m hargs => h.call f hargs) hargs g
  | method g receiver => exact HostMethod.evolves_run g receiver args
  | script d closure isInit =>
    refine checkDepth.bind_still fun _ _ => ?_
    exact (h.body hc hargs).bind fun k m₂ _ _ _ => callResult closure isInit k

theorem instantiate (k : ClassId) {args : List Value}
    (hargs : own → ∀ v ∈ args, v.isBound = false) :
    (Evaluation.instantiate r k args).Evolves own declares (fun _ _ => True) m := by
  refine Run.Evolves.demand_bind fun _ => .read_bind ((checkArity _ _).bind_still fun _ _ => ?_)
  refine .read_bind ?_
  cases m.heap.findMethod k initName with
  | none => exact Evaluation.evolves_construct k args
  | some f =>
    have hnew : (Machine.newInstance (.plain k)).Evolves own declares (fun _ _ => True) m :=
      ⟨rfl, trivial, .of_change (.addInstance k), trivial⟩
    refine hnew.bind fun i m₁ _ _ _ => .read_bind ?_
    refine (Machine.evolves_bindMethod f i _).bind fun g m₂ _ _ _ => ?_
    exact (h.call (.function g) hargs).bind fun _ _ _ _ _ => .pure trivial trivial

theorem callWith (f : Value) {args : List Value} (hargs : own → ∀ v ∈ args, v.isBound = false) :
    (Evaluation.callWith c r f args).Evolves own declares (fun _ _ => True) m := by
  cases f with
  | function f => exact h.callFunction f hargs
  | class_ k => exact h.instantiate k hargs
  | _ => exact .failHere trivial

/-- One more layer. -/
theorem step (a : Activity) (ha : own → a.Owning) :
    (a.step c r).Evolves own a.Declares (fun x _ => a.Gives x) m := by
  cases a with
  | eval e => exact h.evalWith e
  | exec s => exact h.execWith s
  | block body => exact h.blockWith body
  | loop cond body => exact h.loopWith cond body
  | call f args => exact h.callWith f ha

end Inner.Evolves

/-! ### Runs -/

theorem Evaluation.evolves_layer (own : Prop) (c : Context) (n : Nat) :
    (layer c n).Evolves own := by
  induction n with
  | zero =>
    intro a m _
    have hrun : a.via (layer c 0) m = .outOfFuel := a.run_zero c m
    refine ⟨rfl, ?_⟩
    unfold Run.wp
    rw [hrun]
    trivial
  | succ n ih =>
    intro a m ha
    have hrun : a.via (layer c (n + 1)) = a.step c (layer c n) := a.run_succ c n
    rw [hrun]
    exact ih.step a ha

/-- A block declares its names in a scope of its own. -/
theorem Evaluation.evolves_blockStmt (c : Context) (n : Nat) (body : List Stmt) (sp : Span) :
    Run.Evolves (exec c n (.block body sp)) own False (fun k _ => k.Owning) m := by
  cases n with
  | zero => exact ⟨rfl, trivial⟩
  | succ n => exact .read_bind ((evolves_layer own c n).inBlock body)

theorem Evaluation.evolves_program (c : Context) (n : Nat) (stmts : List Stmt) :
    (program c n stmts).Evolves own True (fun _ _ => True) m := by
  induction stmts generalizing m with
  | nil => exact .pure trivial trivial
  | cons s rest ih => exact ((evolves_layer own c n).exec s).bind fun _ _ _ _ _ => ih

theorem Evaluation.evolves_callByHost (c : Context) (n : Nat) (f : Value) {args : List Value}
    (hargs : own → ∀ v ∈ args, v.isBound = false) :
    (Evaluation.callFromHost c n f args).Evolves own False (fun _ _ => True) m :=
  Builtin.evolves_callFromHost (fun f _ _ hargs => (evolves_layer own c n).call f hargs) hargs f

/-! ### What is started -/

/-- What an activity starts is something that it begins. If it were not, then a layer that comes to
something else there agrees on all that it begins, and nothing would depend on it. -/
theorem Activity.begins_of_enters {a b : Activity} (h : a.Enters c n m b m') :
    a.Begins c (Evaluation.layer c n) m b m' := by
  obtain ⟨r, hr, hne⟩ := h
  refine Classical.byContradiction fun hb => hne ?_
  let C : Cut := ⟨False, fun _ => False, False, False.elim⟩
  have hcut : ∀ {α : Type} (o : Outcome α), ¬ o.IsCut C := by
    rintro _ (_ | _ | _ | _) <;> exact id
  have hbegun : ∀ d m₁, a.Begins c (Evaluation.layer c n) m d m₁ →
      C.Agree (d.via (Evaluation.layer c n)) (d.via r) m₁ := by
    refine fun d m₁ hd => ⟨fun hc => absurd hc (hcut _), fun _ => hr d m₁ ?_⟩
    rintro ⟨rfl, rfl⟩
    exact hb hd
  have hagree := Cut.agree_step (C := C) (d := c.maxDepth) hbegun (.of_not_cut (hcut _))
    fun _ _ _ _ _ => .of_not_cut (hcut _)
  exact hagree.same (hcut _)

namespace Activity

variable {a b : Activity}

theorem leads_of_begins (h : a.Begins c (Evaluation.layer c n) m b m') (ha : own → a.Owning) :
    Machine.Leads own m m' ∧ (own → b.Owning) := by
  have hlayer := Evaluation.evolves_layer own c n
  have heval : ∀ {e m v m₁}, (Evaluation.layer c n).eval e m = .done v m₁ →
      Machine.Evolves own False m m₁ := fun hv => ((hlayer.eval _).done hv).2.1
  have hexec : ∀ {s m k m₁}, (Evaluation.layer c n).exec s m = .done k m₁ →
      Machine.Evolves own True m m₁ := fun hk => ((hlayer.exec _).done hk).2.1
  have hargs : ∀ {es m vs m₁}, Evaluation.arguments (Evaluation.layer c n).eval es m = .done vs m₁ →
      Machine.Evolves own False m m₁ ∧ ∀ v ∈ vs, v.isBound = false :=
    fun hvs => ((hlayer.arguments _).done hvs).2
  cases h with
  | operand hsplit hvs => exact ⟨.evolves .refl (hargs hvs).1, fun _ => trivial⟩
  | call hvs =>
    obtain ⟨he, hown⟩ := hargs hvs
    obtain ⟨-, hvs⟩ := List.forall_mem_cons.mp hown
    exact ⟨.evolves .refl (he.change (.line _)), fun _ => hvs⟩
  | expr he => exact ⟨.refl, fun _ => trivial⟩
  | branch hv hs => exact ⟨.evolves .refl (heval hv), fun _ => trivial⟩
  | loop => exact ⟨.refl, fun _ => trivial⟩
  | block => exact ⟨.block .refl, fun _ => trivial⟩
  | @parent x p ms sp m =>
    have hdeclare : Machine.Evolves own True m (m.bind m.env x.name .null) :=
      .of_change (.declare trivial rfl)
    exact ⟨.evolves .refl hdeclare, fun _ => trivial⟩
  | first => exact ⟨.refl, fun _ => trivial⟩
  | rest hk => exact ⟨.evolves .refl (hexec hk), fun _ => trivial⟩
  | cond => exact ⟨.refl, fun _ => trivial⟩
  | round hv => exact ⟨.evolves .refl (heval hv), fun _ => trivial⟩
  | again hv hk => exact ⟨.evolves (.evolves .refl (heval hv)) (hexec hk), fun _ => trivial⟩
  | body hd hlen hdepth => exact ⟨.call .refl hd ha, fun _ => trivial⟩
  | apply hf hg hv =>
    have hline : Machine.Evolves own False m { m with line := 0 } := .of_change (.line 0)
    refine ⟨.evolves .refl hline, fun ho w hw => ?_⟩
    cases List.mem_singleton.mp hw
    exact ha ho _ (List.mem_of_getElem? hv)
  | @init k args f g m m' hf hg =>
    have hnew : Machine.Evolves own False m (m.addInstance (.plain k)) :=
      .of_change (.addInstance k)
    have hbind : Machine.Evolves own False (m.addInstance (.plain k)) m' :=
      ((Machine.evolves_bindMethod f _ _).done hg).2.1
    exact ⟨.evolves .refl (hnew.trans hbind), ha⟩

theorem leads_of_reaches (h : Reaches c n a m b m') (ha : own → a.Owning) :
    Machine.Leads own m m' ∧ (own → b.Owning) := by
  induction h with
  | here => exact ⟨.refl, ha⟩
  | inside hab _ ih =>
    obtain ⟨hleads, hb⟩ := leads_of_begins (begins_of_enters hab) ha
    obtain ⟨hleads', hd⟩ := ih hb
    exact ⟨hleads.trans hleads', hd⟩

end Activity

theorem ProgramReaches.leads {stmts : List Stmt} {b : Activity}
    (h : ProgramReaches c n stmts m b m') : Machine.Leads own m m' ∧ (own → b.Owning) := by
  induction h with
  | first h => exact Activity.leads_of_reaches h fun _ => trivial
  | later hrun _ ih =>
    obtain ⟨-, he, -⟩ := ((Evaluation.evolves_layer own c n).exec _).done hrun
    exact ⟨(Machine.Leads.evolves .refl he).trans ih.1, ih.2⟩

end HostScript
