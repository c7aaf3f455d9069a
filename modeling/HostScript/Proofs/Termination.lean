import HostScript.Proofs.Begins
import HostScript.Proofs.Handles

/-!
# Code without loops comes to an end

Functions of scripts may call each other as they like. What stops them is that every call of one goes a
step deeper, and that calls beyond the limit are refused. Between two such calls evaluation only goes
into parts of what it is at, unless there is a loop.

So there is a bound on the fuel that is needed. It is made of the calls that are left before the limit,
each worth the size of the largest body that is around, and of the size of the code at hand. One step
into whatever an activity begins makes it smaller.
-/

namespace HostScript

/-! ### More fuel -/

/-- The fuel was not enough. -/
def Cut.fuelOut (shows : Prop) : Cut where
  fuel := True
  error _ := False
  shows := shows
  ofScriptCall := nofun

namespace Cut

variable {C : Cut} {α : Type} {x : Run α} {m : Machine} {shows : Prop}

theorem isCut_fuelOut {o : Outcome α} : o.IsCut (fuelOut shows) ↔ o = .outOfFuel := by
  cases o <;> simp [Outcome.IsCut, fuelOut]

/-- What is not the business of a layer has fuel enough. -/
theorem fuelOut_checkDepth (c : Context) :
    (fuelOut shows).Agree (Evaluation.checkDepth c) (Evaluation.checkDepth c) m := by
  refine .of_not_cut ?_
  unfold Evaluation.checkDepth
  split <;> exact id

theorem fuelOut_callResult (closure : ScopeId) (isInit : Bool) (k : Completion) :
    (fuelOut shows).Agree (Evaluation.callResult closure isInit k)
      (Evaluation.callResult closure isInit k) m := by
  refine .of_not_cut ?_
  unfold Evaluation.callResult
  cases isInit with
  | true =>
    rw [if_pos rfl, Run.bind_apply]
    dsimp only [Run.read]
    cases m.store.getAt? closure 0 Resolution.thisName <;> exact id
  | false => cases k <;> exact id

end Cut

/-- Computations that are the same with more fuel, once they have enough. -/
theorem Cut.eq_of_le {α : Type} {x : Nat → Run α} {m : Machine}
    (hx : ∀ n, (Cut.fuelOut True).Agree (x n) (x (n + 1)) m) {n k : Nat}
    (h : x n m ≠ .outOfFuel) (hle : n ≤ k) : x k m = x n m := by
  induction hle with
  | refl => rfl
  | @step k _ ih =>
    have hsame := (hx k).same <| by
      rw [ih]
      exact fun hcut => h (Cut.isCut_fuelOut.mp hcut)
    exact hsame.symm.trans ih

theorem Activity.agree_run_succ (c : Context) (n : Nat) (a : Activity) (m : Machine) :
    (Cut.fuelOut True).Agree (a.run c n) (a.run c (n + 1)) m := by
  induction n generalizing a m with
  | zero =>
    refine ⟨fun _ => trivial, fun hno => ?_⟩
    exact absurd (Cut.isCut_fuelOut.mpr (a.run_zero c m)) hno
  | succ n ih =>
    rw [run_succ, run_succ c (n + 1)]
    exact Cut.agree_step (d := c.maxDepth) (fun b m' _ => ih b m') (Cut.fuelOut_checkDepth c)
      fun closure isInit k _ _ => Cut.fuelOut_callResult closure isInit k

theorem Evaluation.agree_program_succ (c : Context) (n : Nat) (stmts : List Stmt) (m : Machine) :
    (Cut.fuelOut True).Agree (program c n stmts) (program c (n + 1) stmts) m := by
  induction stmts generalizing m with
  | nil => exact .pure ()
  | cons s rest ih =>
    have hs := Activity.agree_run_succ c n (.exec s) m
    exact hs.bind fun _ m' _ => ih m'

/-! ### Code without loops -/

mutual

def Stmt.loopFree : Stmt → Bool
  | .while_ _ _ _ => false
  | .var _ _ _ | .print _ _ | .return_ _ _ | .expr _ _ => true
  | .block body _ => Stmt.listLoopFree body
  | .ifElse _ t none _ => t.loopFree
  | .ifElse _ t (some e) _ => t.loopFree && e.loopFree
  | .function d => d.loopFree
  | .class_ _ _ ms _ => FunctionDecl.listLoopFree ms

def Stmt.listLoopFree : List Stmt → Bool
  | [] => true
  | s :: rest => s.loopFree && Stmt.listLoopFree rest

def FunctionDecl.loopFree : FunctionDecl → Bool
  | ⟨_, _, body, _⟩ => Stmt.listLoopFree body

def FunctionDecl.listLoopFree : List FunctionDecl → Bool
  | [] => true
  | d :: ds => d.loopFree && FunctionDecl.listLoopFree ds

end

def Program.loopFree (p : Program) : Bool :=
  Stmt.listLoopFree p.stmts

def Callable.loopFree : Callable → Bool
  | .script d _ _ => d.loopFree
  | .native _ _ _ | .method _ _ => true

/-- No function or method on the heap has a loop. -/
def Heap.loopFree (h : Heap) : Bool :=
  h.callables.all Callable.loopFree

/-- Code without loops, of a size up to `H`. -/
def Stmt.Within (H : Nat) (s : Stmt) : Prop :=
  s.loopFree = true ∧ sizeOf s ≤ H

def Stmt.ListWithin (H : Nat) (body : List Stmt) : Prop :=
  Stmt.listLoopFree body = true ∧ sizeOf body ≤ H

def FunctionDecl.Within (H : Nat) (d : FunctionDecl) : Prop :=
  Stmt.ListWithin H d.body

theorem FunctionDecl.within_of_loopFree {H : Nat} {d : FunctionDecl} (h : d.loopFree = true)
    (hsize : sizeOf d ≤ H) : d.Within H := by
  obtain ⟨x, params, body, sp⟩ := d
  rw [FunctionDecl.loopFree] at h
  simp only [FunctionDecl.mk.sizeOf_spec] at hsize
  exact ⟨h, by dsimp only; omega⟩

theorem FunctionDecl.loopFree_of_mem {d : FunctionDecl} {ms : List FunctionDecl} (hd : d ∈ ms)
    (h : FunctionDecl.listLoopFree ms = true) : d.loopFree = true := by
  induction ms with
  | nil => cases hd
  | cons d' ms ih =>
    rw [FunctionDecl.listLoopFree, Bool.and_eq_true_iff] at h
    rcases List.mem_cons.mp hd with rfl | hd
    · exact h.1
    · exact ih hd h.2

theorem Expr.sizeOf_lt_of_mem_children {e e' : Expr} (h : e' ∈ e.children) :
    sizeOf e' < sizeOf e := by
  cases e with
  | call k f as =>
    rw [Expr.call.sizeOf_spec]
    rcases List.mem_cons.mp h with rfl | h
    · omega
    · have hlt := List.sizeOf_lt_of_mem h
      omega
  | literal | var | this | super => cases h
  | assign | unary | get | grouping =>
    cases List.mem_singleton.mp h
    simp only [assign.sizeOf_spec, unary.sizeOf_spec, get.sizeOf_spec, grouping.sizeOf_spec]
    omega
  | binary | logical | set =>
    rcases List.mem_cons.mp h with rfl | h
    · simp only [binary.sizeOf_spec, logical.sizeOf_spec, set.sizeOf_spec]
      omega
    · cases List.mem_singleton.mp h
      simp only [binary.sizeOf_spec, logical.sizeOf_spec, set.sizeOf_spec]
      omega

namespace Stmt

variable {H : Nat} {s t : Stmt} {rest body : List Stmt}

theorem sizeOf_lt_of_mem_exprs {e : Expr} (h : e ∈ s.exprs) : sizeOf e < sizeOf s := by
  cases s with
  | var x init sp =>
    cases init with
    | none => cases h
    | some e₁ => cases List.mem_singleton.mp h; simp; omega
  | return_ value sp =>
    cases value with
    | none => cases h
    | some e₁ => cases List.mem_singleton.mp h; simp; omega
  | ifElse | while_ | print | expr => cases List.mem_singleton.mp h; simp; omega
  | _ => cases h

theorem sizeOf_lt_of_mem_branches (h : t ∈ s.branches) : sizeOf t < sizeOf s := by
  cases s with
  | ifElse cond t₁ f sp =>
    cases f with
    | none => cases List.mem_singleton.mp h; simp; omega
    | some f =>
      rcases List.mem_cons.mp h with rfl | h
      · simp; omega
      · cases List.mem_singleton.mp h; simp; omega
  | while_ => cases List.mem_singleton.mp h; simp; omega
  | _ => cases h

theorem Within.branch (hs : s.Within H) (h : t ∈ s.branches) : t.Within H := by
  refine ⟨?_, Nat.le_trans (Nat.le_of_lt (sizeOf_lt_of_mem_branches h)) hs.2⟩
  have hfree := hs.1
  cases s with
  | ifElse cond t₁ f sp =>
    cases f with
    | none =>
      cases List.mem_singleton.mp h
      rwa [loopFree] at hfree
    | some f =>
      rw [loopFree, Bool.and_eq_true_iff] at hfree
      rcases List.mem_cons.mp h with rfl | h
      · exact hfree.1
      · cases List.mem_singleton.mp h
        exact hfree.2
  | while_ => rw [loopFree] at hfree; cases hfree
  | _ => cases h

theorem ListWithin.head (h : ListWithin H (s :: rest)) : s.Within H := by
  obtain ⟨hfree, hsize⟩ := h
  rw [listLoopFree, Bool.and_eq_true_iff] at hfree
  simp only [List.cons.sizeOf_spec] at hsize
  exact ⟨hfree.1, by omega⟩

theorem ListWithin.tail (h : ListWithin H (s :: rest)) : ListWithin H rest := by
  obtain ⟨hfree, hsize⟩ := h
  rw [listLoopFree, Bool.and_eq_true_iff] at hfree
  simp only [List.cons.sizeOf_spec] at hsize
  exact ⟨hfree.2, by omega⟩

theorem Within.block {sp : Span} (h : (Stmt.block body sp).Within H) : ListWithin H body := by
  obtain ⟨hfree, hsize⟩ := h
  rw [loopFree] at hfree
  simp only [Stmt.block.sizeOf_spec] at hsize
  exact ⟨hfree, by omega⟩

theorem Within.function {d : FunctionDecl} (h : (Stmt.function d).Within H) : d.Within H := by
  obtain ⟨hfree, hsize⟩ := h
  rw [loopFree] at hfree
  simp only [Stmt.function.sizeOf_spec] at hsize
  exact FunctionDecl.within_of_loopFree hfree (by omega)

theorem Within.method {x : Ident} {super : Option Superclass} {ms : List FunctionDecl} {sp : Span}
    (h : (Stmt.class_ x super ms sp).Within H) {d : FunctionDecl} (hd : d ∈ ms) : d.Within H := by
  obtain ⟨hfree, hsize⟩ := h
  rw [loopFree] at hfree
  simp only [Stmt.class_.sizeOf_spec] at hsize
  have hlt := List.sizeOf_lt_of_mem hd
  exact FunctionDecl.within_of_loopFree (FunctionDecl.loopFree_of_mem hd hfree) (by omega)

end Stmt

/-! ### The regime -/

/-- What runs is within `H`, and so are the functions that are there. The depth is given back. -/
def Regime.within (c : Context) (H : Nat) : Regime c where
  inv m := m.heap.Scripts (·.Within H)
  le m m' := m'.depth = m.depth
  crash := True
  le_refl _ := rfl
  le_trans h h' := h'.trans h
  ok _ _ := True
  okMethod _ _ := True
  name _ := True
  atExpr _ _ := True
  atStmt _ s := s.Within H
  atBlock _ body := Stmt.ListWithin H body
  after _ _ := True
  ok_le _ _ := trivial
  ok_env _ _ _ := trivial
  okMethod_le _ _ := trivial
  atStmt_le _ h := h
  atStmt_branch h ht := h.branch ht
  atBlock_head h := h.head
  atBlock_tail h _ _ := h.tail
  ok_plain _ := trivial
  ok_own _ _ := trivial
  ok_field _ _ := trivial
  ok_bound _ _ := trivial
  ok_table _ _ := trivial
  ok_class _ _ := trivial
  ok_hostClass _ _ := trivial
  ok_receiver _ _ _ := trivial
  has_class _ _ := .inl trivial
  has_instance _ _ := .inl trivial
  has_callable _ _ := .inl trivial
  has_method _ _ := .inl trivial
  native_arity _ _ _ := .inl trivial
  constructor_arity _ _ := .inl trivial
  line hi _ := ⟨hi, rfl⟩
  console hi _ := ⟨hi, rfl⟩
  cells hi _ := ⟨hi, rfl⟩
  declare hi _ _ := ⟨hi, rfl⟩
  assign hi _ _ _ := ⟨hi, rfl⟩
  putField hi _ := ⟨hi, rfl⟩
  putBound _ hi _ _ := ⟨hi, rfl⟩
  bindScript hi _ hf _ _ := ⟨hi.newScript (hi _ _ _ _ hf) _ _, rfl, trivial⟩
  bindHost hi _ _ _ _ := ⟨hi.newCallable nofun, rfl, trivial⟩
  function hi hs := ⟨hi.newScript hs.function _ _, rfl, trivial⟩
  newClass hi hs _ _ _ _ := ⟨hi.withScripts _ fun _ hd => hs.method hd, rfl, trivial⟩
  newInstance hi _ _ _ := ⟨hi, rfl, trivial⟩
  enterBlock hi hs := ⟨hi, hs.block⟩
  enterCall hi _ hf _ _ _ := ⟨hi, hi _ _ _ _ hf⟩
  leaveBlock _ hle hi' := ⟨hi', hle⟩
  leaveCall _ hle hi' := ⟨hi', Nat.sub_eq_of_eq_add hle⟩

/-! ### The bound -/

/-- How many calls a call can come to before a body is entered. The host's `apply` gives one argument, so
it does not call itself; a class calls a method that was bound to an instance. -/
def Machine.callRank (m : Machine) : Value → List Value → Nat
  | .class_ _, _ => 2
  | .function f, args =>
    match m.heap.callable f with
    | .native _ _ .apply => if args.length = 1 then 1 else 3
    | _ => 1
  | _, _ => 1

theorem Machine.callRank_bounds (m : Machine) (f : Value) (args : List Value) :
    1 ≤ m.callRank f args ∧ m.callRank f args ≤ 3 := by
  unfold callRank
  split
  · decide
  · split
    · split <;> decide
    · decide
  · decide

theorem Machine.callRank_singleton (m : Machine) (f v : Value) : m.callRank f [v] ≤ 2 := by
  unfold callRank
  split
  · decide
  · split
    · simp
    · decide
  · decide

/-- A call of a method that was bound to an instance comes to no other call before its body. -/
theorem Machine.callRank_of_bindMethod {m m' : Machine} {f g : CallableId} {i : InstanceId} {line : Nat}
    (h : Machine.bindMethod f i line m = .done g m') (args : List Value) :
    m'.callRank (.function g) args = 1 := by
  obtain ⟨rfl, ⟨d, closure, isInit, -, rfl⟩ | ⟨x, rc, -, rfl⟩⟩ := Machine.bindMethod_cases h
  · simp [callRank, bindScript, nextCallable, Heap.callable_newCallable]
  · simp [callRank, addCallable, nextCallable, Heap.callable_newCallable]

/-- The size of what an activity is at. -/
noncomputable def Activity.size (m : Machine) : Activity → Nat
  | .eval e => sizeOf e + 3
  | .exec s => sizeOf s + 3
  | .block body => sizeOf body + 3
  | .loop _ _ => 1
  | .call f args => m.callRank f args

/-- A bound on the fuel that an activity needs. -/
noncomputable def Activity.need (c : Context) (H : Nat) (a : Activity) (m : Machine) : Nat :=
  (c.maxDepth - m.depth) * (H + 3) + a.size m

namespace Activity

variable {c : Context} {H n : Nat} {a b : Activity} {m m' : Machine}

theorem need_pos : 0 < a.need c H m := by
  have hsize : 0 < a.size m := by
    cases a with
    | call f args => exact (m.callRank_bounds f args).1
    | _ => simp [size]
  unfold need
  omega

theorem need_lt_of_size_lt (hdepth : m'.depth = m.depth) (h : b.size m' < a.size m) :
    b.need c H m' < a.need c H m := by
  unfold need
  rw [hdepth]
  omega

/-- In a body, one call fewer is left, and that is worth more than the body. -/
theorem need_body_lt {f : CallableId} {args : List Value} {d : FunctionDecl} {closure : ScopeId}
    (hd : d.Within H) (hdepth : m.depth < c.maxDepth) :
    (block d.body).need c H (m.enterCall d closure args) < (call (.function f) args).need c H m := by
  have hbody : sizeOf d.body ≤ H := hd.2
  have hrank := (m.callRank_bounds (.function f) args).1
  have hleft : c.maxDepth - m.depth = (c.maxDepth - (m.depth + 1)) + 1 := by omega
  have hdeeper : (m.enterCall d closure args).depth = m.depth + 1 := rfl
  unfold need size
  rw [hdeeper, hleft, Nat.add_mul]
  dsimp only
  omega

/-- Whatever is begun needs less. -/
theorem need_lt_of_begins (h : a.Begins c (Evaluation.layer c n) m b m')
    (ha : (Regime.within c H).Ready a m) : b.need c H m' < a.need c H m := by
  obtain ⟨hi, hfits⟩ := ha
  have hagree := (Regime.within c H).agree_layer n
  cases h with
  | @operand e e' before after m m' vs hsplit hvs =>
    obtain ⟨-, hdepth, -⟩ := (Regime.keeps_arguments hagree hi fun _ _ => trivial).done hvs
    have hlt : sizeOf e' < sizeOf e := Expr.sizeOf_lt_of_mem_children (by simp [hsplit])
    exact need_lt_of_size_lt hdepth (Nat.add_lt_add_right hlt 3)
  | @call k f as m m' v vs hvs =>
    obtain ⟨-, hdepth, -⟩ := (Regime.keeps_arguments hagree hi fun _ _ => trivial).done hvs
    refine need_lt_of_size_lt hdepth ?_
    have hrank := (Machine.callRank_bounds { m' with line := k.span.line } v vs).2
    have hpos : 0 < sizeOf (Expr.call k f as) := by rw [Expr.call.sizeOf_spec]; omega
    exact Nat.lt_of_le_of_lt hrank (Nat.lt_add_of_pos_left hpos)
  | expr he =>
    exact need_lt_of_size_lt rfl (Nat.add_lt_add_right (Stmt.sizeOf_lt_of_mem_exprs he) 3)
  | branch hv hs =>
    obtain ⟨-, hdepth, -⟩ := (hagree.eval hi trivial).done hv
    exact need_lt_of_size_lt hdepth (Nat.add_lt_add_right (Stmt.sizeOf_lt_of_mem_branches hs) 3)
  | loop => cases hfits.1
  | block =>
    refine need_lt_of_size_lt rfl ?_
    simp only [size, Stmt.block.sizeOf_spec]
    omega
  | @parent x p ms sp m =>
    obtain ⟨k, y⟩ := p
    refine need_lt_of_size_lt rfl ?_
    simp only [size, Superclass.toExpr, Expr.var.sizeOf_spec, Stmt.class_.sizeOf_spec,
      Option.some.sizeOf_spec, Superclass.mk.sizeOf_spec]
    omega
  | first =>
    refine need_lt_of_size_lt rfl ?_
    simp only [size, List.cons.sizeOf_spec]
    omega
  | rest hs =>
    obtain ⟨-, hdepth, -⟩ := (hagree.exec hi hfits.head).done hs
    refine need_lt_of_size_lt hdepth ?_
    simp only [size, List.cons.sizeOf_spec]
    omega
  | cond | round | again =>
    obtain ⟨sp, hs⟩ := hfits
    cases hs.1
  | @body f args d closure isInit m hd hlen hdepth =>
    exact need_body_lt (hi _ _ _ _ hd) hdepth
  | @apply f args x k g v m hf hg hv =>
    refine need_lt_of_size_lt rfl (Nat.lt_of_le_of_lt (Machine.callRank_singleton _ _ v) ?_)
    have hlen : args.length ≠ 1 := by
      have := (List.getElem?_eq_some_iff.mp hv).1
      omega
    simp [size, Machine.callRank, hf, hlen]
  | @init k args f g m m' hf hg =>
    obtain ⟨-, hdepth, -⟩ := (Regime.keeps_bindMethod (R := Regime.within c H)
      (m := m.addInstance (.plain k)) hi trivial trivial (m.offers_init hf)).done hg
    refine need_lt_of_size_lt hdepth ?_
    have hrank : m'.callRank (.function g) args = 1 := Machine.callRank_of_bindMethod hg args
    exact Nat.lt_of_le_of_lt (Nat.le_of_eq hrank) (Nat.lt_succ_self 1)

/-- Fuel up to the bound is enough. -/
theorem run_ne_outOfFuel (ha : (Regime.within c H).Ready a m) (hn : a.need c H m ≤ n) :
    a.run c n m ≠ .outOfFuel := by
  induction n generalizing a m with
  | zero => exact absurd need_pos (Nat.not_lt.mpr hn)
  | succ n ih =>
    intro hout
    have hbegun : ∀ b m', a.Begins c (Evaluation.layer c n) m b m' →
        (Cut.fuelOut False).Agree (b.via (Evaluation.layer c n)) (b.via (Evaluation.layer c n))
          m' := by
      intro b m' hb
      have hlt := need_lt_of_begins hb ha
      refine .of_not_cut fun hcut => ?_
      exact ih (Regime.ready_of_begins hb ha) (by omega) (Cut.isCut_fuelOut.mp hcut)
    have hstep := Cut.agree_step (d := c.maxDepth) hbegun (Cut.fuelOut_checkDepth c)
      fun closure isInit k _ _ => Cut.fuelOut_callResult closure isInit k
    rw [run_succ] at hout
    exact hstep.cut (Cut.isCut_fuelOut.mpr hout)

end Activity

namespace Evaluation

variable {c : Context} {H n : Nat} {m : Machine} {stmts : List Stmt}

theorem agree_program (hm : m.heap.Scripts (·.Within H)) (hs : Stmt.ListWithin H stmts)
    (hn : (c.maxDepth - m.depth) * (H + 3) + (H + 3) ≤ n) :
    (Cut.fuelOut False).Agree (program c n stmts) (program c n stmts) m := by
  induction stmts generalizing m with
  | nil => exact .pure ()
  | cons s rest ih =>
    have hready : (Regime.within c H).Ready (.exec s) m := ⟨hm, hs.head⟩
    have hneed : (Activity.exec s).need c H m ≤ n := by
      have hsize := hs.head.2
      unfold Activity.need Activity.size
      dsimp only
      omega
    have hexec : (Cut.fuelOut False).Agree (exec c n s) (exec c n s) m :=
      .of_not_cut fun hcut =>
        Activity.run_ne_outOfFuel hready hneed (Cut.isCut_fuelOut.mp hcut)
    refine hexec.bind fun k m₁ hk => ?_
    obtain ⟨hm₁, hdepth, -⟩ := (Regime.keeps_run n hready).done hk
    have hdepth : m₁.depth = m.depth := hdepth
    exact ih hm₁ hs.tail (hdepth ▸ hn)

end Evaluation

/-- A heap is finite, so the functions on it are within some size. -/
theorem Heap.exists_within {h : Heap} (hh : h.loopFree = true) (L : Nat) :
    ∃ H, L ≤ H ∧ h.Scripts (·.Within H) := by
  refine ⟨L + sizeOf h.callables.toList, Nat.le_add_right _ _, ?_⟩
  intro f d closure isInit hf
  have hmem : Callable.script d closure isInit ∈ h.callables := by
    by_cases hlt : f.index < h.callables.size
    · rw [← hf, Heap.callable, Array.getD_eq_getD_getElem?, Array.getElem?_eq_getElem hlt]
      exact Array.getElem_mem hlt
    · rw [Heap.callable, Array.getD_eq_getD_getElem?, Array.getElem?_eq_none (by omega)] at hf
      cases hf
  have hfree : d.loopFree = true := Array.all_eq_true_iff_forall_mem.mp hh _ hmem
  have hlt := List.sizeOf_lt_of_mem (Array.mem_toList_iff.mpr hmem)
  simp only [Callable.script.sizeOf_spec] at hlt
  exact FunctionDecl.within_of_loopFree hfree (by omega)

/-- Statements without loops, on a heap without loops, come to one end with all the fuel from some
amount on. -/
theorem Evaluation.exists_program_eq (c : Context) {m : Machine} {stmts : List Stmt}
    (hm : m.heap.loopFree = true) (hs : Stmt.listLoopFree stmts = true) :
    ∃ n o, o ≠ .outOfFuel ∧ ∀ k, n ≤ k → program c k stmts m = o := by
  obtain ⟨H, hH, hscripts⟩ := Heap.exists_within hm (sizeOf stmts)
  have hagree := agree_program (c := c) hscripts ⟨hs, hH⟩ (Nat.le_refl _)
  have hne : program c ((c.maxDepth - m.depth) * (H + 3) + (H + 3)) stmts m ≠ .outOfFuel :=
    fun hout => hagree.cut (Cut.isCut_fuelOut.mpr hout)
  exact ⟨_, _, hne, fun k hk => Cut.eq_of_le (fun n => agree_program_succ c n stmts m) hne hk⟩

/-- An end that is neither a crash nor lack of fuel. -/
def Outcome.Ended {α : Type} : Outcome α → Prop
  | .done _ _ | .fail _ _ => True
  | .crash | .outOfFuel => False

theorem Evaluation.exists_program_ended (c : Context) {m : Machine} {stmts : List Stmt}
    (hclosed : m.Closed) (hm : m.heap.loopFree = true) (hs : Stmt.listLoopFree stmts = true) :
    ∃ n o, o.Ended ∧ ∀ k, n ≤ k → program c k stmts m = o := by
  obtain ⟨n, o, hne, hrun⟩ := exists_program_eq c hm hs
  refine ⟨n, o, ?_, hrun⟩
  have hkeeps := (Regime.keeps_program (R := Regime.closed c) n stmts hclosed fun _ _ => trivial).2
  unfold Run.wp at hkeeps
  rw [hrun n (Nat.le_refl n)] at hkeeps
  cases o with
  | done _ _ | fail _ _ => trivial
  | crash => exact hkeeps
  | outOfFuel => exact hne rfl

namespace Session

/-- Code without loops always comes to an end, whatever the limit on the depth of calls: with all the fuel
from some amount on, a program ends, well or with an error, and always in the same way. This holds in every
session that runs of scripts lead to, and in every state that a further run reaches, as long as no function
there has a loop. The fuel is enough from any machine at all. -/
theorem loopFree_ends {s : Session} (hs : s.Reachable) :
    (∀ p locals, s.machine.heap.loopFree = true → p.loopFree = true →
      ∃ fuel r s', ∀ k, fuel ≤ k → s.interpret k p locals = some (r, s')) ∧
    (∀ fuel src b m, s.Starts fuel src b m → m.heap.loopFree = true → ∀ c p,
      Program.loopFree p = true →
      ∃ n o, o.Ended ∧ ∀ k, n ≤ k → Evaluation.program c k p.stmts m = o) ∧
    (∀ c m p, m.heap.loopFree = true → Program.loopFree p = true →
      ∃ n o, o ≠ .outOfFuel ∧ ∀ k, n ≤ k → Evaluation.program c k p.stmts m = o) := by
  refine ⟨fun p locals hheap hp => ?_, fun fuel src b m hm hheap c p hp => ?_, fun c m p hheap hp => ?_⟩
  · obtain ⟨n, o, hended, hrun⟩ :=
      Evaluation.exists_program_ended (s.learn locals).context hs.closed hheap hp
    cases o with
    | done u m => exact ⟨n, _, _, fun k hk => interpret_of_done (hrun k hk)⟩
    | fail e m => exact ⟨n, _, _, fun k hk => interpret_of_fail (hrun k hk)⟩
    | crash => exact hended.elim
    | outOfFuel => exact hended.elim
  · exact Evaluation.exists_program_ended c (hm.grounded hs.closed).1 hheap hp
  · exact Evaluation.exists_program_eq c hheap hp

/-- Functions, methods and initializers that call each other without end. -/
def endlessScript : Source :=
  ⟨"endless", "func f(n) \x7b return A(n).m(f); \x7d " ++
    "class A \x7b init(n) \x7b this.n = n; \x7d m(g) \x7b g(this.n + 1); \x7d \x7d"⟩

/-- A call of them. -/
def endlessCall : Program where
  stmts :=
    let sp := Span.point 1 1
    [.expr (.call ⟨100, sp⟩ (.var ⟨101, sp⟩ ⟨"f", sp⟩) [.literal ⟨102, sp⟩ (.int 0)]) sp]
  span := .point 1 1

theorem loopFree_ends_endlessCall :
    ∃ s, (Session.new 9 (.ofInput [])).run 40 endlessScript = some (.ok (), s) ∧
      s.machine.heap.loopFree = true ∧
      ∃ fuel r s', ∀ k, fuel ≤ k → s.interpret k endlessCall [] = some (r, s') := by
  have hruns : ((Session.new 9 (.ofInput [])).run 40 endlessScript).any
      (fun r => r.1 matches .ok _ && r.2.machine.heap.loopFree) = true := by
    decide +kernel
  obtain ⟨⟨r, s⟩, hrun, hr⟩ := Option.any_eq_true _ _ |>.mp hruns
  cases r with
  | error e => cases hr
  | ok u =>
    have hs : s.Reachable := .run (.new 9 (.ofInput [])) hrun
    have hheap : s.machine.heap.loopFree = true := by simpa using hr
    exact ⟨s, hrun, hheap, (loopFree_ends hs).1 endlessCall [] hheap (by decide +kernel)⟩

end Session

end HostScript
