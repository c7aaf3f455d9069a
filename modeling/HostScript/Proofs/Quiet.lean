import HostScript.Proofs.Wp

/-!
# Computations that rest on no layer

Some errors come from calls of functions only. Calls of script functions go too deep, or an initializer
has no instance; a method of the host has no host object, or one that is not of its type. And only a layer
runs out of fuel. A computation is quiet if it does none of that, on any machine. All that evaluation is
made of is quiet, apart from the layers, the calls of script functions and the methods of the host.

Quiet computations leave the line of the last call as it is. What they report their faults against is their
`Blame`: a line that they are given, or the line of the last call.
-/

namespace HostScript

namespace RuntimeError

/-- Whether an error comes from calls of script functions only. -/
def ofScriptCall : RuntimeError → Bool
  | stackOverflow _ _ | type _ .loneInitializer => true
  | _ => false

/-- Whether an error comes from methods of the host only, for want of the object that they work on. -/
def ofHostMethod : RuntimeError → Bool
  | type _ (.hostless _) | type _ (.receiver _) => true
  | _ => false

def ofCall (e : RuntimeError) : Bool :=
  e.ofScriptCall || e.ofHostMethod

/-- Whether an error is made in calls only. -/
def needsCall : RuntimeError → Bool
  | arity _ _ _ | stackOverflow _ _ | type _ (.callee _) | type _ (.hostless _) | type _ (.receiver _)
  | type _ .loneInitializer | type _ (.unreadableText _ _) | type _ (.inconvertible _ _)
  | type _ (.vector _ _) | type _ (.unregistered _) => true
  | _ => false

theorem ofCall_of_needsCall {e : RuntimeError} (h : e.needsCall = false) : e.ofCall = false := by
  cases e with
  | type l f => cases f <;> first | rfl | cases h
  | stackOverflow => cases h
  | arity | undefinedName | io => rfl

theorem ofCall_of_line? {e : RuntimeError} (h : e.line? = none) : e.ofCall = false := by
  cases e with
  | io => rfl
  | type | arity | undefinedName | stackOverflow => cases h

end RuntimeError

/-- What a computation reports its faults against. -/
inductive Blame where
  /-- Nothing: only the console fails. -/
  | nowhere
  | line (l : Nat)
  /-- The line of the last call. -/
  | call

/-- A computation with this place may fail so, where the last call was made in the line `here`. -/
def Blame.Admits : Blame → Nat → RuntimeError → Prop
  | nowhere, _, e => e.line? = none
  | line l, _, e => e.line? = some l ∧ e.needsCall = false
  | call, here, e => (∀ l ∈ e.line?, l = here) ∧ e.ofCall = false

theorem Blame.Admits.ofCall {p : Blame} {here : Nat} {e : RuntimeError} (h : p.Admits here e) :
    e.ofCall = false := by
  cases p with
  | nowhere => exact RuntimeError.ofCall_of_line? h
  | line l => exact RuntimeError.ofCall_of_needsCall h.2
  | call => exact h.2

/-- An end that is neither lack of fuel nor an error of a call. -/
def Outcome.Quiet {α : Type} (p : Blame) (here : Nat) : Outcome α → Prop
  | .done _ m => m.line = here
  | .crash => True
  | .fail e _ => p.Admits here e
  | .outOfFuel => False

/-- The computation ends so on every machine. -/
def Run.Quiet {α : Type} (p : Blame) (x : Run α) : Prop :=
  ∀ m, (x m).Quiet p m.line

namespace Run

variable {α β : Type} {p : Blame}

theorem Quiet.pure (a : α) : (Pure.pure a : Run α).Quiet p :=
  fun _ => rfl

theorem Quiet.bind {x : Run α} {f : α → Run β} (hx : x.Quiet p) (hf : ∀ a, (f a).Quiet p) :
    (x >>= f).Quiet p := by
  intro m
  have h := hx m
  rw [bind_apply]
  cases hend : x m with
  | done a m' =>
    rw [hend] at h
    have hline : m'.line = m.line := h
    have hrest := hf a m'
    rwa [hline] at hrest
  | fail e m' => rw [hend] at h; exact h
  | crash => trivial
  | outOfFuel => rw [hend] at h; exact h

theorem Quiet.admits {x : Run α} (hx : x.Quiet p) {m m' : Machine} {e : RuntimeError}
    (h : x m = .fail e m') : p.Admits m.line e := by
  have hend := hx m
  rw [h] at hend
  exact hend

theorem Quiet.line_eq {x : Run α} (hx : x.Quiet p) {m m' : Machine} {a : α} (h : x m = .done a m') :
    m'.line = m.line := by
  have hend := hx m
  rw [h] at hend
  exact hend

theorem Quiet.fail {e : RuntimeError} {l : Nat} (hl : e.line? = some l) (he : e.needsCall = false) :
    (Run.fail e : Run α).Quiet (.line l) :=
  fun _ => ⟨hl, he⟩

theorem Quiet.failHere {f : TypeFault} (h : ∀ line, (RuntimeError.type line f).ofCall = false) :
    (Run.failHere f : Run α).Quiet .call :=
  fun m => ⟨by rintro _ ⟨⟩; rfl, h m.line⟩

theorem Quiet.read (f : Machine → α) : (Run.read f).Quiet p :=
  fun _ => rfl

theorem Quiet.update (f : Machine → Machine) (h : ∀ m, (f m).line = m.line) : (Run.update f).Quiet p :=
  h

theorem Quiet.demand (q : Machine → Bool) : (Run.demand q).Quiet p := by
  intro m
  unfold Run.demand
  split
  · rfl
  · trivial

theorem Quiet.present (x : Option α) : (Run.present x).Quiet p := by
  cases x with
  | none => exact fun _ => trivial
  | some a => exact fun _ => rfl

theorem Quiet.ofOption (x : Option α) {e : RuntimeError} {l : Nat} (hl : e.line? = some l)
    (he : e.needsCall = false) : (Run.ofOption x e).Quiet (.line l) := by
  cases x with
  | none => exact .fail hl he
  | some a => exact .pure a

theorem Quiet.ofExcept {ε : Type} (x : Except ε α) {error : ε → RuntimeError} {l : Nat}
    (h : ∀ e, (error e).line? = some l ∧ (error e).needsCall = false) :
    (Run.ofExcept x error).Quiet (.line l) := by
  cases x with
  | error e => exact .fail (h e).1 (h e).2
  | ok a => exact .pure a

theorem Quiet.here (x : Except ValueError α) : (Run.here x).Quiet .call := by
  cases x with
  | error e => exact .failHere fun _ => rfl
  | ok a => exact .pure a

end Run

open Run

/-! ### Objects -/

namespace Machine

theorem quiet_assignIn (place : Option ScopeId) (x : String) (v : Value) (line : Nat) :
    (assignIn place x v line).Quiet (.line line) := by
  intro m
  unfold assignIn
  split
  · exact rfl
  · exact ⟨rfl, rfl⟩
  · exact ⟨rfl, rfl⟩

theorem quiet_bindMethod (f : CallableId) (i : InstanceId) (line : Nat) :
    (bindMethod f i line).Quiet (.line line) := by
  refine (Quiet.demand _).bind fun _ => (Quiet.read _).bind fun callable => ?_
  cases callable with
  | native x n g => exact .fail rfl rfl
  | script d closure isInit => exact fun _ => rfl
  | method g rc => exact fun _ => rfl

theorem quiet_bindFound (k : ClassId) (x : String) (i : InstanceId) (line : Nat) :
    (bindFound k x i line).Quiet (.line line) := by
  refine (Quiet.demand _).bind fun _ => (Quiet.read _).bind fun found => ?_
  cases found with
  | none => exact .fail rfl rfl
  | some f => exact quiet_bindMethod f i line

theorem quiet_getProperty (i : InstanceId) (x : String) (line : Nat) :
    (getProperty i x line).Quiet (.line line) := by
  refine (Quiet.demand _).bind fun _ => (Quiet.read _).bind fun field => ?_
  cases field with
  | some v => exact .pure v
  | none =>
    refine (Quiet.read _).bind fun bound => ?_
    cases bound with
    | some f => exact .pure _
    | none =>
      refine (Quiet.read _).bind fun k => (quiet_bindFound k x i line).bind fun f => ?_
      exact Quiet.bind (.update _ fun _ => rfl) fun _ => .pure _

theorem quiet_setField (i : InstanceId) (x : String) (v : Value) (line : Nat) :
    (setField i x v line).Quiet (.line line) := by
  refine (Quiet.demand _).bind fun _ m => ?_
  unfold writeField
  split
  · exact rfl
  · split
    · exact ⟨rfl, rfl⟩
    · exact rfl
    · exact rfl

theorem quiet_wrap (o : HostObject) : (wrap o).Quiet .call := by
  refine (Quiet.read _).bind fun k => ?_
  cases k with
  | none => exact .failHere fun _ => rfl
  | some k => exact fun _ => rfl

end Machine

/-! ### The host -/

namespace Builtin

theorem quiet_convert {α : Type} (target : Kind) (f : Value → Option α) (v : Value) :
    (convert target f v).Quiet .call := by
  refine (Quiet.read _).bind fun w => ?_
  split
  · exact .pure _
  · refine .failHere fun _ => ?_
    cases w <;> rfl

theorem quiet_text {p : Blame} (v : Value) : (text v).Quiet p :=
  (Quiet.demand _).bind fun _ => .read _

theorem quiet_readLine : readLine.Quiet .call := by
  intro m
  unfold readLine
  split
  · exact rfl
  · exact rfl
  · exact ⟨nofun, rfl⟩

/-- Of the functions of the host, only `apply` rests on a layer. -/
theorem run_congr {g : Builtin} (hg : g ≠ .apply) (call call' : Value → List Value → Run Value)
    (args : List Value) : g.run call args = g.run call' args := by
  cases g with
  | apply => exact absurd rfl hg
  | _ => rfl

theorem quiet_run {g : Builtin} (hg : g ≠ .apply) (call : Value → List Value → Run Value)
    (args : List Value) : (g.run call args).Quiet .call := by
  cases g with
  | int | float =>
    exact (Quiet.present _).bind fun v => (quiet_convert _ _ v).bind fun _ => .pure _
  | string => exact (Quiet.present _).bind fun v => (quiet_text v).bind fun _ => .pure _
  | bool => exact (Quiet.present _).bind fun v => .read _
  | input => exact quiet_readLine
  | apply => exact absurd rfl hg

end Builtin

namespace HostMethod

theorem quiet_floatArg (v : Value) : (floatArg v).Quiet .call :=
  (Quiet.read _).bind fun _ => .here _

theorem quiet_intArg (v : Value) : (intArg v).Quiet .call :=
  (Quiet.read _).bind fun _ => .here _

theorem quiet_floatArgs (vs : List Value) : (floatArgs vs).Quiet .call := by
  induction vs with
  | nil => exact .pure _
  | cons v vs ih => exact (quiet_floatArg v).bind fun _ => ih.bind fun _ => .pure _

theorem quiet_vectorArg (n : Nat) (v : Value) : (vectorArg n v).Quiet .call := by
  refine (Quiet.demand _).bind fun _ => (Quiet.read _).bind fun host => ?_
  have hfail : (Run.failHere (.vector n v.kind) : Run (List Float32)).Quiet .call :=
    .failHere fun _ => rfl
  split
  · split
    · exact .read _
    · exact hfail
  · exact hfail

theorem quiet_wrapVector (xs : List Float32) : (wrapVector xs).Quiet .call :=
  Quiet.bind (fun _ => rfl) fun _ => Machine.quiet_wrap _

theorem quiet_runVector (n : Nat) (f : VectorMethod) (w : HostVector) (arg : Value) :
    (runVector n f w arg).Quiet .call := by
  refine (Quiet.read _).bind fun xs => ?_
  cases f with
  | add | sub => exact (quiet_vectorArg n arg).bind fun _ => quiet_wrapVector _
  | scale | div => exact (quiet_floatArg arg).bind fun _ => quiet_wrapVector _
  | dot => exact (quiet_vectorArg n arg).bind fun _ => .pure _

theorem quiet_runCounter (f : CounterMethod) (count label enabled : Nat) (args : List Value) :
    (runCounter f count label enabled args).Quiet .call := by
  refine (Quiet.read _).bind fun s => ?_
  cases f with
  | bump =>
    refine (Quiet.present _).bind fun v => (quiet_intArg v).bind fun n => ?_
    exact Quiet.bind (.update _ fun _ => rfl) fun _ => .pure _
  | describe => exact .pure _
  | twin => exact Machine.quiet_wrap _

/-- A method of the host is quiet, unless its receiver has no host object, or one of another type. -/
theorem run_cases (f : HostMethod) (receiver : Option InstanceId) (args : List Value) (m : Machine) :
    (f.run receiver args m).Quiet .call m.line ∨
      (f.run receiver args m = .fail (.type m.line (.hostless f.name)) m ∧
        (receiver.bind fun i => (m.heap.instance_ i).host) = none) ∨
      (f.run receiver args m = .fail (.type m.line (.receiver f.type)) m ∧
        ∃ o, (receiver.bind fun i => (m.heap.instance_ i).host) = some o ∧ o.type ≠ f.type) := by
  unfold run
  rw [Run.bind_apply]
  cases hthere : Run.demand (fun m => receiver.all m.heap.hasInstance) m with
  | crash => exact .inl trivial
  | outOfFuel | fail => unfold Run.demand at hthere; split at hthere <;> cases hthere
  | done u m₁ =>
    obtain rfl : m₁ = m := by unfold Run.demand at hthere; split at hthere <;> cases hthere; rfl
    dsimp only
    rw [Run.bind_apply]
    dsimp only [Run.read]
    cases ho : receiver.bind fun i => (m₁.heap.instance_ i).host with
    | none => exact .inr (.inl ⟨rfl, rfl⟩)
    | some o =>
      dsimp only
      split
      · rename_i n g v
        by_cases hn : v.size = n
        · rw [if_pos hn]
          exact .inl ((Quiet.present _).bind (fun w => quiet_runVector _ _ _ w) m₁)
        · rw [if_neg hn]
          exact .inr (.inr ⟨rfl, _, rfl, fun ht => hn (HostType.vector.inj ht)⟩)
      · exact .inl (quiet_runCounter _ _ _ _ args m₁)
      · rename_i hvector hcounter
        refine .inr (.inr ⟨rfl, o, rfl, fun ht => ?_⟩)
        cases f with
        | vector n g =>
          cases o with
          | vector v => exact hvector n g v rfl rfl
          | counter | byte => cases ht
        | counter g =>
          cases o with
          | counter a b e => exact hcounter g a b e rfl rfl
          | vector | byte => cases ht

end HostMethod

theorem HostType.quiet_construct (t : HostType) (args : List Value) :
    (t.construct args).Quiet .call := by
  cases t with
  | vector n =>
    refine (HostMethod.quiet_floatArgs _).bind fun xs => ?_
    exact Quiet.bind (fun _ => rfl) fun _ => .pure _
  | counter =>
    refine (Quiet.present _).bind fun v => (HostMethod.quiet_intArg v).bind fun n => ?_
    exact fun _ => rfl
  | byte => exact .pure _

/-! ### Parts of evaluation -/

namespace Evaluation

theorem quiet_lookUp (c : Context) (id : Nat) (x : String) (line : Nat) :
    (lookUp c id x line).Quiet (.line line) := by
  intro m
  unfold lookUp
  dsimp only
  split
  · exact rfl
  · exact ⟨rfl, rfl⟩

theorem quiet_declare {p : Blame} (x : String) (v : Value) : (declare x v).Quiet p :=
  .update _ fun _ => rfl

theorem quiet_assignVariable (c : Context) (id : Nat) (x : String) (v : Value) (line : Nat) :
    (assignVariable c id x v line).Quiet (.line line) :=
  (Quiet.read _).bind fun place => Machine.quiet_assignIn place x v line

theorem quiet_superclass (d line : Nat) : (superclass d line).Quiet (.line line) := by
  refine (Quiet.read _).bind fun found => (Quiet.ofOption found rfl rfl).bind fun v => ?_
  exact .ofExcept _ fun _ => ⟨rfl, rfl⟩

theorem quiet_receiver (d line : Nat) : (receiver d line).Quiet (.line line) := by
  refine (Quiet.read _).bind fun found => (Quiet.ofOption found rfl rfl).bind fun v => ?_
  exact .ofExcept _ fun _ => ⟨rfl, rfl⟩

theorem quiet_superMethod (c : Context) (id : Nat) (x : String) (line : Nat) :
    (superMethod c id x line).Quiet (.line line) := by
  unfold superMethod
  cases c.locals id with
  | none => exact .fail rfl rfl
  | some d =>
    refine (quiet_superclass d line).bind fun k => (quiet_receiver d line).bind fun i => ?_
    exact (Machine.quiet_bindFound k x i line).bind fun _ => .pure _

theorem quiet_instanceOf (v : Value) (line : Nat) {fault : Kind → TypeFault}
    (h : ∀ k, (RuntimeError.type line (fault k)).needsCall = false) :
    (instanceOf v line fault).Quiet (.line line) := by
  unfold instanceOf
  split
  · exact .pure _
  · exact .fail rfl (h _)

theorem quiet_newMethods {p : Blame} (closure : ScopeId) (ms : List FunctionDecl)
    (table : Bindings CallableId) : (ms.foldlM (addMethod closure) table).Quiet p := by
  induction ms generalizing table with
  | nil => exact .pure table
  | cons d ms ih =>
    rw [List.foldlM_cons]
    exact Quiet.bind (fun _ => rfl) ih

theorem quiet_newScriptClass {p : Blame} (x : String) (parent : Option ClassId)
    (ms : List FunctionDecl) : (newScriptClass x parent ms).Quiet p := by
  have hscope : (methodScope parent).Quiet p := by
    cases parent <;> exact fun _ => rfl
  refine hscope.bind fun closure => (quiet_newMethods closure ms .empty).bind fun table => ?_
  exact fun _ => rfl

theorem quiet_printLine (s : String) : (printLine s).Quiet .nowhere := by
  intro m
  unfold printLine
  split
  · exact rfl
  · exact rfl

theorem quiet_checkArity (expected got : Nat) : (checkArity expected got).Quiet .call := by
  intro m
  unfold checkArity
  split
  · exact rfl
  · exact ⟨by rintro _ ⟨⟩; rfl, rfl⟩

theorem quiet_construct (k : ClassId) (args : List Value) : (construct k args).Quiet .call := by
  refine (Quiet.demand _).bind fun _ => (Quiet.read _).bind fun native => ?_
  cases native with
  | none => exact fun _ => rfl
  | some nt => exact (HostType.quiet_construct nt.2 args).bind fun _ _ => rfl

end Evaluation

end HostScript
