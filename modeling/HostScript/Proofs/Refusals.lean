import HostScript.Proofs.Inheritance
import HostScript.Proofs.Writes

/-!
# Refused assignments and calls

An assignment is refused where there is nothing to assign to, or where a place does not take the value. A
call is refused where what is called cannot be, or for the number of its arguments. `Refused` says when,
and on which machine the node then fails: the one that its last evaluated part left. Nothing was changed
in between, and nothing was made.

A class checks the number of its arguments for the initializer that it finds, before that is bound. What
is called in the end takes as many, so the number is not at fault again.
-/

namespace HostScript

/-! ### Code of the host does not count its arguments -/

/-- The computation does not fail for a number of arguments. -/
def Run.Uncounted {α : Type} (x : Run α) : Prop :=
  ∀ m l expected got m', x m ≠ .fail (.arity l expected got) m'

namespace Run.Uncounted

variable {α β : Type} {x : Run α} {f : α → Run β}

theorem bind (hx : x.Uncounted) (hf : ∀ a, (f a).Uncounted) : (x >>= f).Uncounted := by
  intro m l expected got m' h
  rcases Run.bind_eq_fail h with h | ⟨a, m₁, -, h⟩
  · exact hx m l expected got m' h
  · exact hf a m₁ l expected got m' h

theorem pure (a : α) : (Pure.pure a : Run α).Uncounted :=
  fun _ _ _ _ _ => nofun

theorem read (f : Machine → α) : (Run.read f).Uncounted :=
  fun _ _ _ _ _ => nofun

theorem failHere (f : TypeFault) : (Run.failHere f : Run α).Uncounted :=
  fun _ _ _ _ _ => nofun

theorem demand (p : Machine → Bool) : (Run.demand p).Uncounted := by
  intro m l expected got m'
  unfold Run.demand
  split <;> nofun

theorem present (x : Option α) : (Run.present x).Uncounted := by
  cases x <;> exact fun _ _ _ _ _ => nofun

theorem here (x : Except ValueError α) : (Run.here x).Uncounted := by
  cases x <;> exact fun _ _ _ _ _ => nofun

end Run.Uncounted

open Run

theorem Machine.uncounted_wrap (o : HostObject) : (wrap o).Uncounted := by
  refine (Uncounted.read _).bind fun k => ?_
  cases k with
  | none => exact .failHere _
  | some k => exact fun _ _ _ _ _ => nofun

namespace HostMethod

theorem uncounted_floatArg (v : Value) : (floatArg v).Uncounted :=
  (Uncounted.read _).bind fun _ => .here _

theorem uncounted_intArg (v : Value) : (intArg v).Uncounted :=
  (Uncounted.read _).bind fun _ => .here _

theorem uncounted_floatArgs (vs : List Value) : (floatArgs vs).Uncounted := by
  induction vs with
  | nil => exact .pure _
  | cons v vs ih => exact (uncounted_floatArg v).bind fun _ => ih.bind fun _ => .pure _

theorem uncounted_vectorArg (n : Nat) (v : Value) : (vectorArg n v).Uncounted := by
  refine (Uncounted.demand _).bind fun _ => (Uncounted.read _).bind fun host => ?_
  split
  · split
    · exact .read _
    · exact .failHere _
  · exact .failHere _

theorem uncounted_wrapVector (xs : List Float32) : (wrapVector xs).Uncounted :=
  Uncounted.bind (fun _ _ _ _ _ => nofun) fun _ => Machine.uncounted_wrap _

theorem uncounted_runVector (n : Nat) (f : VectorMethod) (w : HostVector) (arg : Value) :
    (runVector n f w arg).Uncounted := by
  refine (Uncounted.read _).bind fun xs => ?_
  cases f with
  | add | sub => exact (uncounted_vectorArg n arg).bind fun _ => uncounted_wrapVector _
  | scale | div => exact (uncounted_floatArg arg).bind fun _ => uncounted_wrapVector _
  | dot => exact (uncounted_vectorArg n arg).bind fun _ => .pure _

theorem uncounted_runCounter (f : CounterMethod) (count label enabled : Nat) (args : List Value) :
    (runCounter f count label enabled args).Uncounted := by
  refine (Uncounted.read _).bind fun s => ?_
  cases f with
  | bump =>
    refine (Uncounted.present _).bind fun v => (uncounted_intArg v).bind fun n => ?_
    exact Uncounted.bind (fun _ _ _ _ _ => nofun) fun _ => .pure _
  | describe => exact .pure _
  | twin => exact Machine.uncounted_wrap _

theorem uncounted_run (f : HostMethod) (receiver : Option InstanceId) (args : List Value) :
    (f.run receiver args).Uncounted := by
  refine (Uncounted.demand _).bind fun _ => (Uncounted.read _).bind fun host => ?_
  split
  · exact .failHere _
  · split
    · split
      · exact (Uncounted.present _).bind fun w => uncounted_runVector _ _ _ w
      · exact .failHere _
    · exact uncounted_runCounter _ _ _ _ args
    · exact .failHere _

end HostMethod

theorem HostType.uncounted_construct (t : HostType) (args : List Value) : (t.construct args).Uncounted := by
  cases t with
  | vector n =>
    refine (HostMethod.uncounted_floatArgs _).bind fun xs => ?_
    exact Uncounted.bind (fun _ _ _ _ _ => nofun) fun _ => .pure _
  | counter =>
    refine (Uncounted.present _).bind fun v => (HostMethod.uncounted_intArg v).bind fun n => ?_
    exact fun _ _ _ _ _ => nofun
  | byte => exact .pure _

namespace Evaluation

variable {c : Context} {r : Inner} {n : Nat} {k : ClassId} {args : List Value} {m m' : Machine}

theorem uncounted_construct (k : ClassId) (args : List Value) : (construct k args).Uncounted := by
  refine (Uncounted.demand _).bind fun _ => (Uncounted.read _).bind fun native => ?_
  cases native with
  | none => exact fun _ _ _ _ _ => nofun
  | some nt => exact (HostType.uncounted_construct nt.2 args).bind fun _ _ _ _ _ _ => nofun

theorem uncounted_callResult (closure : ScopeId) (isInit : Bool) (ended : Completion) :
    (callResult closure isInit ended).Uncounted := by
  unfold callResult
  cases isInit with
  | true =>
    refine (Uncounted.read _).bind fun this => ?_
    cases this with
    | none => exact .failHere _
    | some v => exact .pure _
  | false => cases ended <;> exact .pure _

/-! ### Numbers of arguments in the call of a class -/

/-- A call of a script function that was given its arguments finds a number at fault in the body only. -/
theorem body_of_callScript {d : FunctionDecl} {closure : ScopeId} {isInit : Bool} {l expected got : Nat}
    (h : callScript c r d closure isInit args m = .fail (.arity l expected got) m') :
    ∃ m₁, r.block d.body (m.enterCall d closure args) = .fail (.arity l expected got) m₁ := by
  unfold callScript at h
  rcases Run.bind_eq_fail h with hdepth | ⟨_, m₁, hdepth, hopened⟩
  · unfold checkDepth at hdepth
    split at hdepth <;> cases hdepth
  obtain ⟨-, rfl⟩ := checkDepth_eq_done hdepth
  rcases Run.bind_eq_fail hopened with hopen | ⟨_, m₂, hopen, hran⟩ <;> cases hopen
  rcases Run.bind_eq_fail hran with hbody | ⟨ended, m₃, -, hend⟩
  · obtain ⟨m₃, hbody, -⟩ := Run.deeper_eq_fail hbody
    obtain ⟨m₄, hbody, -⟩ := Run.inScope_eq_fail hbody
    exact ⟨m₄, hbody⟩
  · exact absurd hend (uncounted_callResult closure isInit ended _ _ _ _ _)

/-- A call with the right number of arguments goes on to what the function does. -/
theorem callFunction_of_arity {f : CallableId} (hf : m.heap.hasCallable f = true)
    (hlen : (m.heap.callable f).arity = args.length) :
    callFunction c r f args m =
      match m.heap.callable f with
      | .native _ _ g => g.run r.call args m
      | .method g receiver => g.run receiver args m
      | .script d closure isInit => callScript c r d closure isInit args m := by
  unfold callFunction
  rw [Run.demand_bind_apply hf, Run.read_bind_apply, Run.bind_apply, checkArity, if_pos hlen]
  cases m.heap.callable f <;> rfl

/-- A method that was bound takes as many arguments as before, so that in a call of it a number can be at
fault in its body only. -/
theorem body_of_bound {f g : CallableId} {i : InstanceId} {line l expected got : Nat} {m₁ : Machine}
    (hlen : (m.heap.callable f).arity = args.length)
    (hg : Machine.bindMethod f i line m = .done g m₁)
    (h : call c n (.function g) args m₁ = .fail (.arity l expected got) m') :
    ∃ j d closure isInit m₂, n = j + 1 ∧ m.heap.callable f = .script d closure isInit ∧
      block c j d.body ((m.bindScript d closure isInit i).enterCall d m.nextScope args) =
        .fail (.arity l expected got) m₂ := by
  cases n with
  | zero => cases h
  | succ j =>
    have hrun : callFunction c (layer c j) g args m₁ = .fail (.arity l expected got) m' := h
    obtain ⟨rfl, ⟨d, closure, isInit, hf, rfl⟩ | ⟨x, receiver, hf, rfl⟩⟩ := Machine.bindMethod_cases hg
    · have hbound : (m.bindScript d closure isInit i).heap.callable m.nextCallable =
          .script d m.nextScope isInit :=
        (m.heap.callable_newCallable _ _).trans (if_pos rfl)
      rw [callFunction_of_arity (m.heap.hasCallable_newCallable _) (by rw [hbound, ← hlen, hf]; rfl),
        hbound] at hrun
      obtain ⟨m₂, hbody⟩ := body_of_callScript hrun
      exact ⟨j, d, closure, isInit, m₂, rfl, hf, hbody⟩
    · have hbound := m.callable_addCallable (.method x (some i))
      rw [callFunction_of_arity (m.heap.hasCallable_newCallable _) (by rw [hbound, ← hlen, hf]; rfl),
        hbound] at hrun
      exact absurd hrun (HostMethod.uncounted_run x (some i) args _ _ _ _ _)

/-- The initializer of a class was bound to a new instance, and its body fails. -/
def InitializerFails (c : Context) (n : Nat) (k : ClassId) (args : List Value) (m : Machine)
    (err : RuntimeError) : Prop :=
  ∃ f d closure isInit m', m.heap.findMethod k initName = some f ∧
    m.heap.callable f = .script d closure isInit ∧
    block c n d.body
      (((m.addInstance (.plain k)).bindScript d closure isInit m.nextInstance).enterCall d m.nextScope
        args) = .fail err m'

/-- Once a class was given as many arguments as it takes, a number can be at fault in the body of its
initializer only. -/
theorem initializerFails_of_arity {l expected got : Nat}
    (hlen : m.heap.constructorArity k = args.length)
    (h : call c n (.class_ k) args m = .fail (.arity l expected got) m') :
    ∃ j, n = j + 2 ∧ InitializerFails c j k args m (.arity l expected got) := by
  cases n with
  | zero => cases h
  | succ n =>
    have hrun : instantiate (layer c n) k args m = .fail (.arity l expected got) m' := h
    unfold instantiate at hrun
    rcases Run.bind_eq_fail hrun with hdemand | ⟨_, m₁, hdemand, hcount⟩
    · exact absurd hdemand (Uncounted.demand _ _ _ _ _ _)
    obtain ⟨-, rfl⟩ := Run.demand_eq_done hdemand
    rw [Run.read_bind_apply, Run.bind_apply, checkArity, if_pos hlen] at hcount
    dsimp only at hcount
    rw [Run.read_bind_apply] at hcount
    cases hinit : m₁.heap.findMethod k initName with
    | none =>
      rw [hinit] at hcount
      exact absurd hcount (uncounted_construct k args _ _ _ _ _)
    | some f =>
      rw [hinit] at hcount
      have harity : (m₁.heap.callable f).arity = args.length := by
        rw [← hlen, Heap.constructorArity, hinit]
      rcases Run.bind_eq_fail hcount with hnew | ⟨i, m₂, hnew, hbinds⟩ <;> cases hnew
      rw [Run.read_bind_apply] at hbinds
      rcases Run.bind_eq_fail hbinds with hbind | ⟨g, m₂, hbind, hcalls⟩
      · cases ((Machine.quiet_bindMethod _ _ _).admits hbind).2
      rcases Run.bind_eq_fail hcalls with hcall | ⟨_, _, -, hend⟩
      · obtain ⟨j, d, closure, isInit, m₃, rfl, hf, hbody⟩ :=
          body_of_bound (m := m₁.addInstance (.plain k)) harity hbind hcall
        exact ⟨j, rfl, f, d, closure, isInit, m₃, hinit, hf, hbody⟩
      · cases hend

end Evaluation

/-! ### What is refused -/

/-- How many arguments a call of a value takes, if the value can be called. -/
def Heap.arity? (h : Heap) : Value → Option Nat
  | .function f => some (h.callable f).arity
  | .class_ k => some (h.constructorArity k)
  | _ => none

/-- A call is refused for what is called, or for the number of its arguments. -/
inductive Machine.Rejects (m : Machine) (f : Value) (args : List Value) : RuntimeError → Prop where
  | callee (h : m.heap.arity? f = none) : m.Rejects f args (.type m.line (.callee f.kind))
  | count {n : Nat} (h : m.heap.arity? f = some n) (hlen : n ≠ args.length) :
      m.Rejects f args (.arity m.line n args.length)

namespace Evaluation

/-- What is bound to the name that a node assigns to. -/
def slot? (c : Context) (id : Nat) (x : String) (m : Machine) : Option Value :=
  (target? c id x m).bind fun p => m.store.own? p x

/-- The parts of a node that it comes to were evaluated, and what is left to do is refused. The node fails
on the machine that the last of them left. -/
inductive Refused (c : Context) (n : Nat) : Expr → Machine → RuntimeError → Machine → Prop where
  | unbound {k : Mark} {x : Ident} {value : Expr} {v : Value} {m m₁ : Machine}
      (hvalue : eval c n value m = .done v m₁) (hslot : slot? c k.id x.name m₁ = none) :
      Refused c n (.assign k x value) m (.undefinedName k.span.line x.name) m₁
  | name {k : Mark} {x : Ident} {value : Expr} {slot v : Value} {e : ValueError} {m m₁ : Machine}
      (hvalue : eval c n value m = .done v m₁) (hslot : slot? c k.id x.name m₁ = some slot)
      (h : slot.Refuses v e) : Refused c n (.assign k x value) m (.type k.span.line (.value e)) m₁
  /-- A field is assigned to on what is no instance, and the value is not looked at. -/
  | object {k : Mark} {object value : Expr} {x : Ident} {o : Value} {m m₁ : Machine}
      (hobject : eval c n object m = .done o m₁) (h : ∀ i, o ≠ .instance_ i) :
      Refused c n (.set k object x value) m (.type k.span.line (.fields o.kind)) m₁
  | field {k : Mark} {object value : Expr} {x : Ident} {i : InstanceId} {slot v : Value}
      {e : ValueError} {m m₁ m₂ : Machine} (hobject : eval c n object m = .done (.instance_ i) m₁)
      (hvalue : eval c n value m₁ = .done v m₂)
      (hslot : (m₂.heap.instance_ i).fields.get? x.name = some slot) (h : slot.Refuses v e) :
      Refused c n (.set k object x value) m (.type k.span.line (.value e)) m₂
  /-- Of a call, the machine keeps its line. -/
  | call {k : Mark} {callee : Expr} {args : List Expr} {f : Value} {vs : List Value}
      {err : RuntimeError} {m m₁ m₂ : Machine} (hcallee : eval c n callee m = .done f m₁)
      (hargs : arguments (eval c n) args m₁ = .done vs m₂)
      (h : { m₂ with line := k.span.line }.Rejects f vs err) :
      Refused c n (.call k callee args) m err { m₂ with line := k.span.line }

variable {c : Context} {n : Nat} {m m' : Machine} {err : RuntimeError} {k : Mark} {x : Ident}

/-! ### Assignments -/

theorem assignVariable_eq_fail_iff {id line : Nat} {x : String} {v : Value} :
    assignVariable c id x v line m = .fail err m' ↔
      m' = m ∧ ((slot? c id x m = none ∧ err = .undefinedName line x) ∨
        ∃ slot e, slot? c id x m = some slot ∧ slot.Refuses v e ∧ err = .type line (.value e)) := by
  have hassign : assignVariable c id x v line m = Machine.assignIn (target? c id x m) x v line m := rfl
  rw [hassign, Machine.assignIn_eq]
  constructor
  · intro h
    cases hend : m.store.assignIn (target? c id x m) x v with
    | ok s => rw [hend] at h; cases h
    | error e =>
      rw [hend] at h
      cases e with
      | unbound =>
        cases h
        exact ⟨rfl, .inl ⟨Store.assignIn_eq_unbound_iff.mp hend, rfl⟩⟩
      | value e =>
        cases h
        obtain ⟨slot, hslot, hrefuses⟩ := Store.assignIn_eq_value_iff.mp hend
        exact ⟨rfl, .inr ⟨slot, e, hslot, hrefuses, rfl⟩⟩
  · rintro ⟨rfl, ⟨hnone, rfl⟩ | ⟨slot, e, hslot, hrefuses, rfl⟩⟩
    · rw [Store.assignIn_eq_unbound_iff.mpr hnone]
    · rw [Store.assignIn_eq_value_iff.mpr ⟨slot, hslot, hrefuses⟩]

theorem setField_eq_fail_iff {i : InstanceId} {x : String} {v : Value} {line : Nat} :
    Machine.setField i x v line m = .fail err m' ↔
      m' = m ∧ ∃ slot e, (m.heap.instance_ i).fields.get? x = some slot ∧ slot.Refuses v e ∧
        err = .type line (.value e) := by
  unfold Machine.setField
  constructor
  · intro h
    rcases Run.bind_eq_fail h with hdemand | ⟨_, m₁, hdemand, hwrite⟩
    · unfold Run.demand at hdemand
      split at hdemand <;> cases hdemand
    obtain ⟨-, rfl⟩ := Run.demand_eq_done hdemand
    unfold Machine.writeField at hwrite
    split at hwrite
    · cases hwrite
    · rename_i slot hslot
      split at hwrite <;> cases hwrite
      rename_i e hplan
      exact ⟨rfl, slot, e, hslot, Cells.plan_eq_error_iff.mp hplan, rfl⟩
  · rintro ⟨rfl, slot, e, hslot, hrefuses, rfl⟩
    have hthere : m'.heap.hasInstance i = true := by
      refine Heap.hasInstance_of_ne fun hnone => ?_
      rw [hnone] at hslot
      cases hslot
    rw [Run.demand_bind_apply hthere, Machine.writeField, hslot]
    dsimp only
    rw [Cells.plan_of_refuses hrefuses]

/-- An assignment to a name fails with its value, or because it is refused. -/
theorem eval_assign_eq_fail_iff {value : Expr} :
    eval c (n + 1) (.assign k x value) m = .fail err m' ↔
      eval c n value m = .fail err m' ∨ Refused c n (.assign k x value) m err m' := by
  have hnode : eval c (n + 1) (.assign k x value) m = (do
      let v ← (layer c n).eval value
      assignVariable c k.id x.name v k.span.line
      return v : Run Value) m := rfl
  rw [hnode, Run.bind_eq_fail_iff]
  refine or_congr_right ⟨?_, fun h => ?_⟩
  · rintro ⟨v, m₁, hvalue, hrest⟩
    obtain ⟨rfl, ⟨hslot, rfl⟩ | ⟨slot, e, hslot, hrefuses, rfl⟩⟩ :=
      assignVariable_eq_fail_iff.mp (Run.bind_pure_eq_fail_iff.mp hrest)
    · exact .unbound hvalue hslot
    · exact .name hvalue hslot hrefuses
  · cases h with
    | unbound hvalue hslot =>
      exact ⟨_, _, hvalue, Run.bind_pure_eq_fail_iff.mpr
        (assignVariable_eq_fail_iff.mpr ⟨rfl, .inl ⟨hslot, rfl⟩⟩)⟩
    | name hvalue hslot hrefuses =>
      exact ⟨_, _, hvalue, Run.bind_pure_eq_fail_iff.mpr
        (assignVariable_eq_fail_iff.mpr ⟨rfl, .inr ⟨_, _, hslot, hrefuses, rfl⟩⟩)⟩

theorem instanceOf_of_ne {o : Value} {line : Nat} {fault : Kind → TypeFault}
    (h : ∀ i, o ≠ .instance_ i) :
    instanceOf o line fault m = .fail (.type line (fault o.kind)) m := by
  cases o with
  | instance_ i => exact absurd rfl (h i)
  | _ => rfl

/-- An assignment to a field fails with one of its parts, or because it is refused. -/
theorem eval_set_eq_fail_iff {object value : Expr} :
    eval c (n + 1) (.set k object x value) m = .fail err m' ↔
      eval c n object m = .fail err m' ∨
      (∃ i m₁, eval c n object m = .done (.instance_ i) m₁ ∧ eval c n value m₁ = .fail err m') ∨
      Refused c n (.set k object x value) m err m' := by
  have hnode : eval c (n + 1) (.set k object x value) m = (do
      let o ← (layer c n).eval object
      let i ← instanceOf o k.span.line .fields
      let v ← (layer c n).eval value
      Machine.setField i x.name v k.span.line
      return v : Run Value) m := rfl
  rw [hnode, Run.bind_eq_fail_iff]
  refine or_congr_right ⟨?_, ?_⟩
  · rintro ⟨o, m₁, hobject, hrest⟩
    by_cases hi : ∃ i, o = .instance_ i
    · obtain ⟨i, rfl⟩ := hi
      rcases Run.bind_eq_fail hrest with hend | ⟨_, _, hend, hrest⟩ <;> cases hend
      rcases Run.bind_eq_fail hrest with hvalue | ⟨v, m₂, hvalue, hset⟩
      · exact .inl ⟨i, m₁, hobject, hvalue⟩
      · obtain ⟨rfl, slot, e, hslot, hrefuses, rfl⟩ :=
          setField_eq_fail_iff.mp (Run.bind_pure_eq_fail_iff.mp hset)
        exact .inr (.field hobject hvalue hslot hrefuses)
    · have hne : ∀ i, o ≠ .instance_ i := fun i ho => hi ⟨i, ho⟩
      rw [Run.bind_apply, instanceOf_of_ne hne] at hrest
      cases hrest
      exact .inr (.object hobject hne)
  · rintro (⟨i, m₁, hobject, hvalue⟩ | hrefused)
    · refine ⟨_, m₁, hobject, ?_⟩
      exact Run.bind_eq_fail_iff.mpr (.inr ⟨i, m₁, rfl, Run.bind_eq_fail_iff.mpr (.inl hvalue)⟩)
    · cases hrefused with
      | @object _ _ _ _ o _ _ hobject hne =>
        exact ⟨o, m', hobject, Run.bind_eq_fail_iff.mpr (.inl (instanceOf_of_ne hne))⟩
      | @field _ _ _ _ i _ _ _ _ m₁ _ hobject hvalue hslot hrefuses =>
        refine ⟨_, m₁, hobject, Run.bind_eq_fail_iff.mpr (.inr ⟨i, m₁, rfl, ?_⟩)⟩
        refine Run.bind_eq_fail_iff.mpr (.inr ⟨_, m', hvalue, Run.bind_pure_eq_fail_iff.mpr ?_⟩)
        exact setField_eq_fail_iff.mpr ⟨rfl, _, _, hslot, hrefuses, rfl⟩

/-! ### Calls -/

/-- A call whose parts were evaluated fails as what is called does. -/
theorem eval_call_eq_fail_of_done {callee : Expr} {es : List Expr} {f : Value} {vs : List Value}
    {m₁ m₂ : Machine} (hcallee : eval c n callee m = .done f m₁)
    (hargs : arguments (eval c n) es m₁ = .done vs m₂) :
    eval c (n + 1) (.call k callee es) m = .fail err m' ↔
      call c n f vs { m₂ with line := k.span.line } = .fail err m' := by
  have hnode : eval c (n + 1) (.call k callee es) m = (do
      let f ← (layer c n).eval callee
      let vs ← arguments (layer c n).eval es
      Run.update fun m => { m with line := k.span.line }
      let v ← (layer c n).call f vs
      Run.read fun m => v.detach m.store.cells : Run Value) m := rfl
  have hcallee' : (layer c n).eval callee m = .done f m₁ := hcallee
  have hargs' : arguments (layer c n).eval es m₁ = .done vs m₂ := hargs
  rw [hnode, Run.bind_apply, hcallee']
  dsimp only
  rw [Run.bind_apply, hargs']
  dsimp only
  rw [Run.bind_apply]
  refine Run.bind_eq_fail_iff.trans (or_iff_left ?_)
  rintro ⟨_, _, -, ⟨⟩⟩

end Evaluation

theorem Machine.exists_rejects {m : Machine} {f : Value} {args : List Value}
    (h : m.heap.arity? f ≠ some args.length) : ∃ err, m.Rejects f args err := by
  cases harity : m.heap.arity? f with
  | none => exact ⟨_, .callee harity⟩
  | some n => exact ⟨_, .count harity fun hlen => h (harity.trans (congrArg some hlen))⟩

namespace Machine.Closed

variable {c : Context} {n : Nat} {m m' : Machine} {e : Expr} {es : List Expr} {v f : Value}
  {vs args : List Value} {err : RuntimeError}

theorem eval_eq_done (hm : m.Closed) (h : Evaluation.eval c n e m = .done v m') :
    m'.Closed ∧ m'.heap.has v = true := by
  have hkeeps := Regime.keeps_run (R := Regime.closed c) n (a := .eval e) ⟨hm, trivial⟩
  obtain ⟨hm', -, hv⟩ := hkeeps.done h
  exact ⟨hm', hv⟩

theorem arguments_eq_done (hm : m.Closed)
    (h : Evaluation.arguments (Evaluation.eval c n) es m = .done vs m') :
    m'.Closed ∧ m.heap.Within m'.heap := by
  have hkeeps := Regime.keeps_arguments ((Regime.closed c).agree_layer n) hm
    fun e (_ : e ∈ es) => trivial
  obtain ⟨hm', hle, -⟩ := hkeeps.done h
  exact ⟨hm', hle⟩

theorem hasConstructor (hm : m.Closed) {k : ClassId} (hk : m.heap.hasClass k = true) :
    m.heap.hasConstructor k = true := by
  unfold Heap.hasConstructor
  cases hf : m.heap.findMethod k initName with
  | none => simp [hk]
  | some f =>
    obtain ⟨k', hk'⟩ := Regime.exists_of_search hf
    simp [hk, hm.stores.methods hk']

/-- A call that is refused fails at once. -/
theorem call_of_rejects (hm : m.Closed) (hf : m.heap.has f = true) (h : m.Rejects f args err)
    (c : Context) (n : Nat) : Evaluation.call c (n + 1) f args m = .fail err m := by
  cases h with
  | callee hnone =>
    cases f with
    | function f => cases hnone
    | class_ k => cases hnone
    | _ => rfl
  | count hsome hlen =>
    cases f with
    | function f =>
      cases hsome
      exact Evaluation.callFunction_of_arity_ne c _ hf hlen
    | class_ k =>
      cases hsome
      exact Evaluation.instantiate_of_arity_ne _ (hm.hasConstructor hf) hlen
    | _ => cases hsome

/-- A call fails with one of its parts, because it is refused, or in what is called with as many
arguments as it takes. -/
theorem eval_call_eq_fail_iff (hm : m.Closed) {k : Mark} {callee : Expr} :
    Evaluation.eval c (n + 1) (.call k callee es) m = .fail err m' ↔
      Evaluation.eval c n callee m = .fail err m' ∨
      (∃ f m₁, Evaluation.eval c n callee m = .done f m₁ ∧
        Evaluation.arguments (Evaluation.eval c n) es m₁ = .fail err m') ∨
      Evaluation.Refused c n (.call k callee es) m err m' ∨
      ∃ f vs m₁ m₂, Evaluation.eval c n callee m = .done f m₁ ∧
        Evaluation.arguments (Evaluation.eval c n) es m₁ = .done vs m₂ ∧
        m₂.heap.arity? f = some vs.length ∧
        Evaluation.call c n f vs { m₂ with line := k.span.line } = .fail err m' := by
  have hrejects : ∀ {f vs m₁ m₂ err'}, Evaluation.eval c n callee m = .done f m₁ →
      Evaluation.arguments (Evaluation.eval c n) es m₁ = .done vs m₂ →
      { m₂ with line := k.span.line }.Rejects f vs err' →
      Evaluation.call c n f vs { m₂ with line := k.span.line } =
        .fail err' { m₂ with line := k.span.line } := by
    intro f vs m₁ m₂ err' hcallee hargs hrejects
    obtain ⟨hm₁, hf⟩ := hm.eval_eq_done hcallee
    obtain ⟨hm₂, hle⟩ := hm₁.arguments_eq_done hargs
    cases n with
    | zero => cases hcallee
    | succ n =>
      have hclosed := ((Regime.closed c).line hm₂ k.span.line).1
      exact hclosed.call_of_rejects (hle.has hf) hrejects c n
  constructor
  · intro h
    rcases Run.bind_eq_fail (x := (Evaluation.layer c n).eval callee) h with
      hcallee | ⟨f, m₁, hcallee, hrest⟩
    · exact .inl hcallee
    rcases Run.bind_eq_fail hrest with hargs | ⟨vs, m₂, hargs, -⟩
    · exact .inr (.inl ⟨f, m₁, hcallee, hargs⟩)
    have hcall := (Evaluation.eval_call_eq_fail_of_done hcallee hargs).mp h
    by_cases harity : m₂.heap.arity? f = some vs.length
    · exact .inr (.inr (.inr ⟨f, vs, m₁, m₂, hcallee, hargs, harity, hcall⟩))
    · obtain ⟨err', hrej⟩ := exists_rejects (m := { m₂ with line := k.span.line }) harity
      cases (hrejects hcallee hargs hrej).symm.trans hcall
      exact .inr (.inr (.inl (.call hcallee hargs hrej)))
  · rintro (hcallee | ⟨f, m₁, hcallee, hargs⟩ | hrefused | ⟨f, vs, m₁, m₂, hcallee, hargs, -, hcall⟩)
    · exact Run.bind_eq_fail_iff.mpr (.inl hcallee)
    · exact Run.bind_eq_fail_iff.mpr (.inr ⟨f, m₁, hcallee, Run.bind_eq_fail_iff.mpr (.inl hargs)⟩)
    · cases hrefused with
      | call hcallee hargs hrej =>
        exact (Evaluation.eval_call_eq_fail_of_done hcallee hargs).mpr (hrejects hcallee hargs hrej)
    · exact (Evaluation.eval_call_eq_fail_of_done hcallee hargs).mpr hcall

end Machine.Closed

/-! ### Sessions -/

namespace Session

variable {s : Session} {held : List Value} {m : Machine}

theorem Occurs.closed (hm : s.Occurs held m) (hs : s.InOrder held) : m.Closed := by
  obtain ⟨_, hinv⟩ := hm.inv (R := Regime.closed) (fun _ h => ⟨h.inv, h.fits⟩)
    (fun _ => hs.closed) (fun _ => hs.held) fun _ _ _ _ _ => trivial
  exact hinv

theorem UnderWay.grounded {b : Activity} (h : s.UnderWay held b m) (hs : s.InOrder held)
    (c : Context) : (Regime.closed c).Ready b m :=
  h.ready (R := Regime.closed) (fun _ h => ⟨h.inv, h.fits⟩) (fun _ => hs.closed) (fun _ => hs.held)
    (fun _ _ _ _ _ => trivial) c

end Session

open Evaluation (eval arguments call Refused InitializerFails)

/-- Wherever a session comes to, an assignment fails with one of its parts, or it is refused on the
machine that they left. So does a call, unless it fails in what is called with as many arguments as it
takes. Any call that is refused leaves the machine as it is. In the call of a class, the number of
arguments is checked once: after that, it takes the initializer's body to find another one at fault. -/
theorem refused_without_effect {s : Session} {held : List Value} {lent : List InstanceId}
    (hs : s.Hosted held lent) :
    (∀ m, s.Occurs held m → ∀ c n err m',
      (∀ k x value, eval c (n + 1) (.assign k x value) m = .fail err m' ↔
        eval c n value m = .fail err m' ∨ Refused c n (.assign k x value) m err m') ∧
      (∀ k object x value, eval c (n + 1) (.set k object x value) m = .fail err m' ↔
        eval c n object m = .fail err m' ∨
        (∃ i m₁, eval c n object m = .done (.instance_ i) m₁ ∧ eval c n value m₁ = .fail err m') ∨
        Refused c n (.set k object x value) m err m') ∧
      (∀ k callee es, eval c (n + 1) (.call k callee es) m = .fail err m' ↔
        eval c n callee m = .fail err m' ∨
        (∃ f m₁, eval c n callee m = .done f m₁ ∧ arguments (eval c n) es m₁ = .fail err m') ∨
        Refused c n (.call k callee es) m err m' ∨
        ∃ f vs m₁ m₂, eval c n callee m = .done f m₁ ∧ arguments (eval c n) es m₁ = .done vs m₂ ∧
          m₂.heap.arity? f = some vs.length ∧
          call c n f vs { m₂ with line := k.span.line } = .fail err m')) ∧
    (∀ f vs m err, s.UnderWay held (.call f vs) m → m.Rejects f vs err →
      ∀ c n, call c (n + 1) f vs m = .fail err m) ∧
    (∀ k vs m l expected got m' c n, m.heap.constructorArity k = vs.length →
      call c n (.class_ k) vs m = .fail (.arity l expected got) m' →
      ∃ j, n = j + 2 ∧ InitializerFails c j k vs m (.arity l expected got)) := by
  refine ⟨fun m hm c n err m' => ⟨fun k x value => Evaluation.eval_assign_eq_fail_iff,
    fun k object x value => Evaluation.eval_set_eq_fail_iff,
    fun k callee es => (hm.closed hs.inOrder).eval_call_eq_fail_iff⟩, ?_, ?_⟩
  · intro f vs m err hunder hrejects c n
    have hready := hunder.grounded hs.inOrder c
    exact hready.inv.call_of_rejects hready.fits.1 hrejects c n
  · intro k vs m l expected got m' c n hlen hcall
    exact Evaluation.initializerFails_of_arity hlen hcall

/-- A class that inherits its initializer. -/
def heirScript : Source :=
  ⟨"heir", "class A \x7b init(x) \x7b this.x = x; \x7d \x7d class B < A \x7b \x7d"⟩

theorem refused_without_effect_heirScript :
    ∃ s : Session, s.Hosted [] [] ∧ s.machine.store.get? .globals "B" = some (.class_ ⟨4⟩) ∧
      ∀ c : Context, c.locals 0 = none →
        eval c 2 (.call ⟨1, ⟨7, 0, 7, 0⟩⟩ (.var ⟨0, ⟨7, 0, 7, 0⟩⟩ ⟨"B", ⟨7, 0, 7, 0⟩⟩) []) s.machine =
          .fail (.arity 7 1 0) { s.machine with line := 7 } := by
  have hrun : ((Session.new 8 (.ofInput [])).run 20 heirScript).any (fun r =>
      r.2.machine.store.get? .globals "B" = some (.class_ ⟨4⟩) &&
      r.2.machine.heap.constructorArity ⟨4⟩ = 1) = true := by decide +kernel
  obtain ⟨⟨r, s⟩, hs, hclasses⟩ := (Option.any_eq_true _ _).mp hrun
  simp only [Bool.and_eq_true, decide_eq_true_eq] at hclasses
  obtain ⟨hB, harity⟩ := hclasses
  have hhosted : s.Hosted [] [] := ⟨8, .ofInput [], .ran .here hs⟩
  refine ⟨s, hhosted, hB, fun c hc => ?_⟩
  have hcallee : eval c 1 (.var ⟨0, ⟨7, 0, 7, 0⟩⟩ ⟨"B", ⟨7, 0, 7, 0⟩⟩) s.machine =
      .done (.class_ ⟨4⟩) s.machine := by
    have hlook : eval c 1 (.var ⟨0, ⟨7, 0, 7, 0⟩⟩ ⟨"B", ⟨7, 0, 7, 0⟩⟩) s.machine =
      Evaluation.lookUp c 0 "B" 7 s.machine := rfl
    rw [hlook, Evaluation.lookUp, hc]
    dsimp only
    rw [hB]
    rfl
  refine (((refused_without_effect hhosted).1 s.machine .rest c 1 _ _).2.2 _ _ _).mpr
    (.inr (.inr (.inl (.call hcallee rfl ?_))))
  exact .count (congrArg some harity) (by decide)

end HostScript
