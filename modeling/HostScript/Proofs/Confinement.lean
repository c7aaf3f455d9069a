import HostScript.Proofs.Regime.Sound
import HostScript.Proofs.Scoping.Known
import HostScript.Proofs.Stored

/-!
# Which distances are consulted

Evaluation looks up the distance of a node only when it evaluates the node. `K` stands for the numbers of
some code. If all functions on a machine are made of that code, then running more of it leaves no other
functions on the machine, and consults no distance but those of `K`. So two contexts that agree on `K`
make no difference.
-/

namespace HostScript

/-- The nodes have numbers in `K`. -/
def NodesIn (K : Nat → Prop) (nodes : List Expr) : Prop :=
  ∀ n ∈ nodes, K n.id

variable {K K' : Nat → Prop}

theorem NodesIn.subset {nodes nodes' : List Expr} (h : NodesIn K nodes) (hsub : nodes' ⊆ nodes) :
    NodesIn K nodes' :=
  fun n hn => h n (hsub hn)

theorem NodesIn.mono {nodes : List Expr} (h : NodesIn K nodes) (hK : ∀ i, K i → K' i) :
    NodesIn K' nodes :=
  fun n hn => hK n.id (h n hn)

/-! ### Code is made of code -/

theorem Stmt.nodes_subset_of_mem_exprs {t : Stmt} {e : Expr} (h : e ∈ t.exprs) :
    e.nodes ⊆ t.nodes := by
  cases t with
  | var x init sp =>
    cases init with
    | none => cases h
    | some e₁ => cases List.mem_singleton.mp h; simp [Stmt.nodes, Expr.optionNodes]
  | return_ value sp =>
    cases value with
    | none => cases h
    | some e₁ => cases List.mem_singleton.mp h; simp [Stmt.nodes, Expr.optionNodes]
  | ifElse cond t f sp =>
    cases List.mem_singleton.mp h
    cases f <;> simp [Stmt.nodes]
  | while_ | print | expr => cases List.mem_singleton.mp h; simp [Stmt.nodes]
  | _ => cases h

theorem Stmt.nodes_subset_of_mem_branches {t t' : Stmt} (h : t' ∈ t.branches) :
    t'.nodes ⊆ t.nodes := by
  cases t with
  | ifElse cond t₁ f sp =>
    cases f with
    | none => cases List.mem_singleton.mp h; simp [Stmt.nodes]
    | some f =>
      rw [Stmt.nodes]
      rcases List.mem_cons.mp h with rfl | h
      · exact List.subset_append_of_subset_left _ (List.subset_append_right _ _)
      · cases List.mem_singleton.mp h
        exact List.subset_append_right _ _
  | while_ => cases List.mem_singleton.mp h; simp [Stmt.nodes]
  | _ => cases h

theorem FunctionDecl.nodes_subset_listNodes {d : FunctionDecl} {ds : List FunctionDecl}
    (h : d ∈ ds) : d.nodes ⊆ FunctionDecl.listNodes ds := by
  induction ds with
  | nil => cases h
  | cons d' ds ih =>
    rw [FunctionDecl.listNodes]
    rcases List.mem_cons.mp h with rfl | h
    · exact List.subset_append_left _ _
    · exact List.subset_append_of_subset_right _ (ih h)

theorem Stmt.nodes_subset_listNodes {t : Stmt} {ts : List Stmt} (h : t ∈ ts) :
    t.nodes ⊆ Stmt.listNodes ts := by
  induction ts with
  | nil => cases h
  | cons t' ts ih =>
    rw [Stmt.listNodes]
    rcases List.mem_cons.mp h with rfl | h
    · exact List.subset_append_left _ _
    · exact List.subset_append_of_subset_right _ (ih h)

/-! ### Functions made of the code -/

/-- The functions of scripts on a heap are made of nodes with numbers in `K`. -/
def Heap.Confined (K : Nat → Prop) (h : Heap) : Prop :=
  ∀ f d closure isInit, h.callable f = .script d closure isInit → NodesIn K d.nodes

namespace Heap.Confined

variable {h : Heap}

theorem mono (hh : h.Confined K) (hK : ∀ i, K i → K' i) : h.Confined K' :=
  Heap.Scripts.mono hh fun _ hd => hd.mono hK

theorem newCallable (hh : h.Confined K) {g : Callable}
    (hg : ∀ d closure isInit, g = .script d closure isInit → NodesIn K d.nodes) :
    (h.newCallable g).2.Confined K :=
  Heap.Scripts.newCallable hh hg

theorem newScript (hh : h.Confined K) {d : FunctionDecl} (hd : NodesIn K d.nodes)
    (closure : ScopeId) (isInit : Bool) :
    (h.newCallable (.script d closure isInit)).2.Confined K :=
  Heap.Scripts.newScript hh hd closure isInit

theorem withScripts (hh : h.Confined K) {ms : List FunctionDecl} (closure : ScopeId)
    (hms : NodesIn K (FunctionDecl.listNodes ms)) : (h.withScripts closure ms).Confined K :=
  Heap.Scripts.withScripts hh closure fun _ hd =>
    hms.subset (FunctionDecl.nodes_subset_listNodes hd)

end Heap.Confined

namespace Regime

/-- What runs is made of nodes with numbers in `K`. -/
def confined (c : Context) (K : Nat → Prop) : Regime c where
  inv m := m.heap.Confined K
  le _ _ := True
  crash := True
  le_refl _ := trivial
  le_trans _ _ := trivial
  ok _ _ := True
  okMethod _ _ := True
  name _ := True
  atExpr _ e := NodesIn K e.nodes
  atStmt _ t := NodesIn K t.nodes
  atBlock _ body := NodesIn K (Stmt.listNodes body)
  after _ _ := True
  ok_le _ _ := trivial
  ok_env _ _ _ := trivial
  okMethod_le _ _ := trivial
  atExpr_le _ h := h
  atStmt_le _ h := h
  atExpr_child h he := h.subset (Expr.nodes_subset_of_mem_children he)
  atStmt_expr h he := h.subset (Stmt.nodes_subset_of_mem_exprs he)
  atStmt_branch h ht := h.subset (Stmt.nodes_subset_of_mem_branches ht)
  atStmt_parent h _ := by
    rw [Stmt.nodes] at h
    refine h.subset (List.subset_append_of_subset_left _ ?_)
    simp [Superclass.toExpr, Expr.nodes, Superclass.optionNodes]
  atBlock_head h := by
    rw [Stmt.listNodes] at h
    exact h.subset (List.subset_append_left _ _)
  atBlock_tail h _ _ := by
    rw [Stmt.listNodes] at h
    exact h.subset (List.subset_append_right _ _)
  ok_plain _ := trivial
  ok_own _ _ := trivial
  ok_field _ _ := trivial
  ok_bound _ _ := trivial
  ok_table _ _ := trivial
  ok_class _ _ := trivial
  ok_hostClass _ _ := trivial
  ok_receiver _ _ _ := trivial
  has_class _ _ := .inl trivial
  has_instance _ _ := .inl trivial
  has_callable _ _ := .inl trivial
  has_method _ _ := .inl trivial
  native_arity _ _ _ := .inl trivial
  constructor_arity _ _ := .inl trivial
  line hi _ := ⟨hi, trivial⟩
  console hi _ := ⟨hi, trivial⟩
  cells hi _ := ⟨hi, trivial⟩
  declare hi _ _ := ⟨hi, trivial⟩
  assign hi _ _ _ := ⟨hi, trivial⟩
  putField hi _ := ⟨hi, trivial⟩
  putBound _ hi _ _ := ⟨hi, trivial⟩
  bindScript hi _ hf _ _ := ⟨hi.newScript (hi _ _ _ _ hf) _ _, trivial, trivial⟩
  bindHost hi _ _ _ _ := ⟨hi.newCallable nofun, trivial, trivial⟩
  function hi ht := by
    rw [Stmt.nodes] at ht
    exact ⟨hi.newScript ht _ _, trivial, trivial⟩
  newClass hi ht _ _ _ _ := by
    rw [Stmt.nodes] at ht
    exact ⟨hi.withScripts _ (ht.subset (List.subset_append_right _ _)), trivial, trivial⟩
  newInstance hi _ _ _ := ⟨hi, trivial, trivial⟩
  enterBlock hi ht := by
    rw [Stmt.nodes] at ht
    exact ⟨hi, ht⟩
  enterCall hi _ hf _ _ _ := ⟨hi, FunctionDecl.nodes_eq _ ▸ hi _ _ _ _ hf⟩
  leaveBlock _ _ hi' := ⟨hi', trivial⟩
  leaveCall _ _ hi' := ⟨hi', trivial⟩

end Regime

/-! ### Contexts that agree -/

/-- The contexts have the same limit, and the same distances for the numbers in `K`. -/
structure Context.Alike (K : Nat → Prop) (c c' : Context) : Prop where
  maxDepth : c'.maxDepth = c.maxDepth
  locals : ∀ i, K i → c'.locals i = c.locals i

namespace Evaluation

variable {c c' : Context} {id : Nat}

theorem lookUp_congr (h : c'.locals id = c.locals id) (x : String) (line : Nat) :
    lookUp c id x line = lookUp c' id x line := by
  unfold lookUp
  rw [h]

theorem assignVariable_congr (h : c'.locals id = c.locals id) (x : String) (v : Value) (line : Nat) :
    assignVariable c id x v line = assignVariable c' id x v line := by
  have htarget : target? c id x = target? c' id x := by
    unfold target?
    rw [h]
  unfold assignVariable
  rw [htarget]

theorem superMethod_congr (h : c'.locals id = c.locals id) (x : String) (line : Nat) :
    superMethod c id x line = superMethod c' id x line := by
  unfold superMethod
  rw [h]

theorem callWith_congr (h : c'.maxDepth = c.maxDepth) (r : Inner) (f : Value) (args : List Value) :
    callWith c r f args = callWith c' r f args := by
  have hdepth : checkDepth c = checkDepth c' := by
    unfold checkDepth
    rw [h]
  unfold callWith callFunction callScript
  rw [hdepth]

end Evaluation

namespace Activity

variable {c c' : Context} {m : Machine}

/-- One layer consults the distance of the node that it evaluates, and no other. -/
theorem step_congr (hmax : c'.maxDepth = c.maxDepth) (r : Inner) (a : Activity)
    (hlocals : ∀ e, a = .eval e → c'.locals e.id = c.locals e.id) : a.step c r = a.step c' r := by
  cases a with
  | eval e =>
    have hlocal := hlocals e rfl
    cases e with
    | var k x => exact Evaluation.lookUp_congr hlocal x.name _
    | this k => exact Evaluation.lookUp_congr hlocal _ _
    | super k x => exact Evaluation.superMethod_congr hlocal x.name _
    | assign k x v =>
      have hassign := Evaluation.assignVariable_congr hlocal x.name
      exact congrArg (fun f => r.eval v >>= fun w => f w k.span.line >>= fun _ => pure w)
        (funext fun w => funext fun line => hassign w line)
    | _ => rfl
  | call f args => exact Evaluation.callWith_congr hmax r f args
  | exec | block | loop => rfl

theorem run_congr (h : Context.Alike K c c') (n : Nat) {a : Activity}
    (ha : (Regime.confined c K).Ready a m) : a.run c n m = a.run c' n m := by
  induction n generalizing a m with
  | zero => rw [run_zero, run_zero]
  | succ n ih =>
    -- The layers differ in their context only, so below this step they do the same.
    have hagree : (Regime.confined c K).Agree (Evaluation.layer c n) (Evaluation.layer c' n) :=
      fun b m₁ hb => ⟨ih hb, (Regime.keeps_run n hb).2⟩
    have hlocals : ∀ e, a = .eval e → c'.locals e.id = c.locals e.id := by
      rintro e rfl
      exact h.locals e.id (ha.fits e e.mem_nodes_self)
    rw [run_succ, run_succ, (Regime.keeps_step hagree ha).1, step_congr h.maxDepth _ a hlocals]

end Activity

theorem Run.bind_assoc {α β γ : Type} (x : Run α) (f : α → Run β) (g : β → Run γ) :
    x >>= f >>= g = x >>= fun a => f a >>= g := by
  funext m
  rw [Run.bind_apply, Run.bind_apply, Run.bind_apply]
  cases x m <;> rfl

namespace Evaluation

variable {c c' : Context} {m : Machine}

/-- A program does the same in contexts that agree on its nodes and on those of the functions that are
there. -/
theorem keeps_program_congr (h : Context.Alike K c c') (n : Nat) (ts : List Stmt)
    (hm : m.heap.Confined K) (hts : NodesIn K (Stmt.listNodes ts)) :
    (Regime.confined c K).Keeps (program c n ts) (program c' n ts) (fun _ _ => True) m := by
  induction ts generalizing m with
  | nil => exact .pure hm trivial
  | cons t ts ih =>
    rw [Stmt.listNodes] at hts
    have hready : (Regime.confined c K).Ready (.exec t) m :=
      ⟨hm, hts.subset (List.subset_append_left _ _)⟩
    have hexec : (Regime.confined c K).Keeps (exec c n t) (exec c' n t) (fun _ _ => True) m :=
      ⟨Activity.run_congr h n hready,
        (Frame.Keeps.mono (Regime.keeps_run n hready) fun _ _ _ _ _ => trivial).2⟩
    refine hexec.bind fun _ m₁ hm₁ _ _ => ?_
    exact ih hm₁ (hts.subset (List.subset_append_right _ _))

/-- A program that is run in two parts. -/
theorem program_append (c : Context) (n : Nat) (ts us : List Stmt) :
    program c n (ts ++ us) = program c n ts >>= fun _ => program c n us := by
  induction ts with
  | nil => rfl
  | cons t ts ih =>
    rw [List.cons_append, program, ih, program]
    exact (Run.bind_assoc (exec c n t) (fun _ => program c n ts) _).symm

end Evaluation

end HostScript
