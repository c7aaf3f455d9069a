import HostScript.Proofs.Regime

/-!
# Objects under a regime

`Keeps x y Q m`: on `m` the computations `x` and `y` do the same, and whatever they come to is within
the regime, with `Q` of the result. Two computations are compared because they may rest on different
layers; for one that rests on no layer, `x` and `y` are the same. Here are the computations that rest
on no layer: looking names up, assigning, properties, methods of the host.
-/

namespace HostScript

namespace Frame

variable {F : Frame} {α β : Type} {m : Machine} {Q : α → Machine → Prop} {q : α → Prop}

/-- What a computation that started on `m` has to come to. -/
def post (F : Frame) (m : Machine) (Q : α → Machine → Prop) : Post α :=
  ⟨fun a m' => F.inv m' ∧ F.le m m' ∧ Q a m', fun _ m' => F.inv m' ∧ F.le m m', F.crash⟩

def Keeps (F : Frame) (x y : Run α) (Q : α → Machine → Prop) (m : Machine) : Prop :=
  x m = y m ∧ x.wp (F.post m Q) m

theorem Keeps.mono {x y : Run α} {Q' : α → Machine → Prop} (h : F.Keeps x y Q m)
    (hQ : ∀ a m', F.inv m' → F.le m m' → Q a m' → Q' a m') : F.Keeps x y Q' m :=
  ⟨h.1, Run.wp_mono h.2 (fun a m' ⟨hi, hle, hq⟩ => ⟨hi, hle, hQ a m' hi hle hq⟩)
    (fun _ _ h => h) id⟩

theorem Keeps.bind {x y : Run α} {f g : α → Run β} {Q' : β → Machine → Prop}
    (h : F.Keeps x y Q m)
    (hf : ∀ a m', F.inv m' → F.le m m' → Q a m' → F.Keeps (f a) (g a) Q' m') :
    F.Keeps (x >>= f) (y >>= g) Q' m := by
  obtain ⟨heq, hw⟩ := h
  unfold Keeps
  rw [Run.bind_apply, Run.bind_apply, ← heq, Run.wp, Run.bind_apply]
  unfold Run.wp at hw
  cases hx : x m with
  | done a m' =>
    rw [hx] at hw
    obtain ⟨hi, hle, hq⟩ := hw
    obtain ⟨heq', hw'⟩ := hf a m' hi hle hq
    exact ⟨heq', Run.wp_mono hw' (fun _ _ ⟨hi', hle', hq'⟩ => ⟨hi', F.le_trans hle hle', hq'⟩)
      (fun _ _ ⟨hi', hle'⟩ => ⟨hi', F.le_trans hle hle'⟩) id⟩
  | fail e m' => rw [hx] at hw; exact ⟨rfl, hw⟩
  | crash => rw [hx] at hw; exact ⟨rfl, hw⟩
  | outOfFuel => exact ⟨rfl, trivial⟩

/-- What is known of a result, with the computation that led to it. -/
theorem Keeps.also {x y : Run α} (h : F.Keeps x y Q m) :
    F.Keeps x y (fun a m' => Q a m' ∧ x m = .done a m') m := by
  obtain ⟨heq, hw⟩ := h
  refine ⟨heq, ?_⟩
  unfold Run.wp at hw ⊢
  cases hx : x m with
  | done a m' =>
    rw [hx] at hw
    obtain ⟨hi, hle, hq⟩ := hw
    exact ⟨hi, hle, hq, rfl⟩
  | fail e m' => rw [hx] at hw; exact hw
  | crash => rw [hx] at hw; exact hw
  | outOfFuel => trivial

/-- Behind a computation that leaves the machine as it is. -/
theorem Keeps.bind_still {x y : Run α} {f g : α → Run β} {Q' : β → Machine → Prop}
    (h : F.Keeps x y (fun a m' => m' = m ∧ q a) m)
    (hf : ∀ a, q a → F.Keeps (f a) (g a) Q' m) : F.Keeps (x >>= f) (y >>= g) Q' m :=
  h.bind fun a _ _ _ ⟨hm, hq⟩ => hm ▸ hf a hq

theorem Keeps.pure {a : α} (hi : F.inv m) (hq : Q a m) : F.Keeps (Pure.pure a) (Pure.pure a) Q m :=
  ⟨rfl, hi, F.le_refl m, hq⟩

theorem Keeps.fail {e : RuntimeError} (hi : F.inv m) : F.Keeps (Run.fail e) (Run.fail e) Q m :=
  ⟨rfl, hi, F.le_refl m⟩

theorem Keeps.failHere {f : TypeFault} (hi : F.inv m) :
    F.Keeps (Run.failHere f) (Run.failHere f) Q m :=
  ⟨rfl, hi, F.le_refl m⟩

theorem Keeps.read {f : Machine → α} (hi : F.inv m) (hq : Q (f m) m) :
    F.Keeps (Run.read f) (Run.read f) Q m :=
  ⟨rfl, hi, F.le_refl m, hq⟩

/-- What is read off the machine is known behind the reading. -/
theorem Keeps.read_bind {f : Machine → α} {g k : α → Run β} {Q : β → Machine → Prop}
    (h : F.Keeps (g (f m)) (k (f m)) Q m) : F.Keeps (Run.read f >>= g) (Run.read f >>= k) Q m :=
  h

theorem Keeps.update {f : Machine → Machine} {Q : Unit → Machine → Prop} (hi : F.inv (f m))
    (hle : F.le m (f m)) (hq : Q () (f m)) : F.Keeps (Run.update f) (Run.update f) Q m :=
  ⟨rfl, hi, hle, hq⟩

theorem Keeps.update_bind {f : Machine → Machine} {g k : Unit → Run β} {Q : β → Machine → Prop}
    (hi : F.inv (f m)) (hle : F.le m (f m)) (h : F.Keeps (g ()) (k ()) Q (f m)) :
    F.Keeps (Run.update f >>= g) (Run.update f >>= k) Q m :=
  (Keeps.update hi hle (Q := fun _ m' => m' = f m) rfl).bind fun _ _ _ _ hm => hm ▸ h

/-- A demand is met, or crashes are not ruled out. -/
theorem Keeps.demand {p : Machine → Bool} (hi : F.inv m) (hp : F.crash ∨ p m = true) :
    F.Keeps (Run.demand p) (Run.demand p) (fun _ m' => m' = m) m := by
  refine ⟨rfl, ?_⟩
  rw [Run.wp_demand]
  split
  · exact ⟨hi, F.le_refl m, rfl⟩
  · exact hp.resolve_right ‹_›

theorem Keeps.demand_bind {p : Machine → Bool} {g k : Unit → Run β} {Q : β → Machine → Prop}
    (hi : F.inv m) (hp : F.crash ∨ p m = true)
    (h : F.Keeps (g ()) (k ()) Q m) : F.Keeps (Run.demand p >>= g) (Run.demand p >>= k) Q m :=
  (Keeps.demand hi hp).bind fun _ _ _ _ hm => hm ▸ h

theorem Keeps.present {x : Option α} (hi : F.inv m) (hx : F.crash ∨ x.isSome = true)
    (hq : ∀ a, x = some a → q a) :
    F.Keeps (Run.present x) (Run.present x) (fun a m' => m' = m ∧ q a) m := by
  cases x with
  | none => exact ⟨rfl, hx.resolve_right (by simp)⟩
  | some a => exact ⟨rfl, hi, F.le_refl m, rfl, hq a rfl⟩

theorem Keeps.ofOption {x : Option α} {e : RuntimeError} (hi : F.inv m)
    (hq : ∀ a, x = some a → q a) :
    F.Keeps (Run.ofOption x e) (Run.ofOption x e) (fun a m' => m' = m ∧ q a) m := by
  cases x with
  | none => exact ⟨rfl, hi, F.le_refl m⟩
  | some a => exact ⟨rfl, hi, F.le_refl m, rfl, hq a rfl⟩

theorem Keeps.ofExcept {ε : Type} {x : Except ε α} {error : ε → RuntimeError} (hi : F.inv m)
    (hq : ∀ a, x = .ok a → q a) :
    F.Keeps (Run.ofExcept x error) (Run.ofExcept x error) (fun a m' => m' = m ∧ q a) m := by
  cases x with
  | error e => exact ⟨rfl, hi, F.le_refl m⟩
  | ok a => exact ⟨rfl, hi, F.le_refl m, rfl, hq a rfl⟩

theorem Keeps.here {x : Except ValueError α} (hi : F.inv m) :
    F.Keeps (Run.here x) (Run.here x) (fun _ m' => m' = m ∧ True) m := by
  cases x with
  | error e => exact ⟨rfl, hi, F.le_refl m⟩
  | ok a => exact ⟨rfl, hi, F.le_refl m, rfl, trivial⟩

end Frame

/-! ### Plain values -/

namespace Value

/-- A number, a truth or a text that is owned. -/
def scalar : Value → Bool
  | int _ | float _ | bool _ | string _ => true
  | _ => false

theorem plain_of_scalar {v : Value} (h : v.scalar = true) : v.plain = true := by
  cases v <;> first | rfl | cases h

theorem isBound_of_scalar {v : Value} (h : v.scalar = true) : v.isBound = false := by
  cases v <;> first | rfl | cases h

theorem plain_load (s : Cells) (c : HostCell) : (s.load c).plain = true := by
  cases c <;> rfl

theorem detach_eq_or_plain (s : Cells) (v : Value) : v.detach s = v ∨ (v.detach s).plain = true := by
  cases v with
  | bound c => exact .inr (plain_load s c)
  | _ => exact .inl rfl

end Value

theorem Evaluation.plain_literal (l : Literal) : (Evaluation.literal l).plain = true := by
  cases l <;> rfl

namespace BinOp

variable {op : BinOp} {l r v : Value}

theorem scalar_of_onNumbers {f : Int32 → Int32 → Value} {g : Float32 → Float32 → Value}
    (hf : ∀ a b, (f a b).scalar = true) (hg : ∀ a b, (g a b).scalar = true)
    (h : op.onNumbers f g l r = .ok v) : v.scalar = true := by
  unfold onNumbers at h
  split at h
  · cases h; exact hf _ _
  · cases h; exact hg _ _
  · cases h

theorem scalar_of_onInts {f : Int32 → Int32 → Int32} (h : op.onInts f l r = .ok v) :
    v.scalar = true := by
  unfold onInts at h
  split at h <;> cases h
  rfl

theorem scalar_of_onStrings {f : String → String → String} (h : op.onStrings f l r = .ok v) :
    v.scalar = true := by
  unfold onStrings at h
  split at h <;> cases h
  rfl

theorem scalar_of_apply {s : Cells} (h : op.apply s l r = .ok v) : v.scalar = true := by
  unfold apply applyOwning at h
  cases op with
  | eq | notEq => cases h; rfl
  | div =>
    dsimp only at h
    split at h
    · cases h
    · exact scalar_of_onNumbers (fun _ _ => rfl) (fun _ _ => rfl) h
  | mod =>
    dsimp only at h
    split at h
    · cases h
    · exact scalar_of_onInts h
  | add | sub | mul | less | greater | lessEq | greaterEq =>
    exact scalar_of_onNumbers (fun _ _ => rfl) (fun _ _ => rfl) h
  | bitAnd | bitOr | bitXor | shl | shr => exact scalar_of_onInts h
  | concat => exact scalar_of_onStrings h

end BinOp

theorem UnaryOp.scalar_of_apply {op : UnaryOp} {s : Cells} {v w : Value}
    (h : op.apply s v = .ok w) : w.scalar = true := by
  unfold apply applyOwning at h
  split at h <;> cases h <;> rfl

/-! ### Places in the store -/

namespace Store

variable {s : Store} {e : ScopeId} {x : String} {v : Value}

theorem own?_of_get? (h : s.get? e x = some v) : ∃ p, s.own? p x = some v := by
  obtain ⟨p, -, hp⟩ := Option.bind_eq_some_iff.mp h
  exact ⟨p, hp⟩

theorem own?_of_getAt? {d : Nat} (h : s.getAt? e d x = some v) : ∃ p, s.own? p x = some v := by
  obtain ⟨p, -, hp⟩ := Option.bind_eq_some_iff.mp h
  exact ⟨p, hp⟩

end Store

/-- The value that a planned write gives to its place is the source, detached. -/
theorem Cells.eq_detach_of_plan {s : Cells} {slot v w : Value}
    (h : s.plan slot v = .ok (.slot w)) : w = v.detach s := by
  unfold plan at h
  split at h <;> dsimp only at h
  · split at h <;> cases h
  · split at h <;> cases h
    rfl
  · cases h; rfl

/-! ### The methods of a class -/

namespace Machine

variable {n : Nat} {ds : List FunctionDecl} {table : Bindings CallableId}

theorem MethodTable.snoc (h : MethodTable n ds table) (d : FunctionDecl) {f : CallableId}
    (hf : f.index = n + ds.length) : MethodTable n (ds ++ [d]) (table.insert d.name.name f) := by
  intro x g hg
  rw [Bindings.get?_insert] at hg
  split at hg
  · cases hg
    exact ⟨ds.length, d, by simp, by simp [*], hf⟩
  · obtain ⟨j, d', hj, hx, hg⟩ := h x g hg
    have hlt : j < ds.length := (List.getElem?_eq_some_iff.mp hj).1
    exact ⟨j, d', by rw [List.getElem?_append_left hlt, hj], hx, hg⟩

/-- Put further methods of a class on the heap. -/
theorem foldlM_addMethod (closure : ScopeId) (ms : List FunctionDecl) {m : Machine}
    (ht : MethodTable n ds table) (hn : m.heap.callables.size = n + ds.length) :
    ∃ table', MethodTable n (ds ++ ms) table' ∧
      ms.foldlM (Evaluation.addMethod closure) table m =
        .done table' { m with heap := m.heap.withScripts closure ms } := by
  induction ms generalizing ds table m with
  | nil => exact ⟨table, by simpa using ht, by simp [Heap.withScripts]; rfl⟩
  | cons d ms ih =>
    have hsize : (m.addCallable (.script d closure d.isInit)).heap.callables.size =
        n + (ds ++ [d]).length := by
      simp [addCallable, Heap.newCallable, hn, Nat.add_assoc]
    obtain ⟨table', ht', hrun⟩ := ih (ht.snoc d (f := m.nextCallable) hn) hsize
    refine ⟨table', by simpa using ht', ?_⟩
    rw [List.foldlM_cons]
    refine hrun.trans ?_
    simp [addCallable, Heap.newCallable, Heap.withScripts]

theorem newMethods_apply (closure : ScopeId) (ms : List FunctionDecl) (m : Machine) :
    ∃ table, MethodTable m.heap.callables.size ms table ∧
      Evaluation.newMethods closure ms m =
        .done table { m with heap := m.heap.withScripts closure ms } :=
  have hempty : MethodTable m.heap.callables.size [] .empty := fun _ _ => nofun
  foldlM_addMethod closure ms hempty rfl

theorem methodScope_apply (parent : Option ClassId) (m : Machine) :
    Evaluation.methodScope parent m =
      .done (m.methodStore parent).1 { m with store := (m.methodStore parent).2 } := by
  cases parent <;> rfl

theorem newScriptClass_apply (x : String) (parent : Option ClassId) (ms : List FunctionDecl)
    (m : Machine) :
    ∃ table, MethodTable m.heap.callables.size ms table ∧
      Evaluation.newScriptClass x parent ms m = .done m.nextClass (m.addClass x parent ms table) := by
  obtain ⟨table, ht, hrun⟩ := newMethods_apply (m.methodStore parent).1 ms
    { m with store := (m.methodStore parent).2 }
  refine ⟨table, ht, ?_⟩
  unfold Evaluation.newScriptClass
  rw [Run.bind_apply, methodScope_apply]
  dsimp only
  rw [Run.bind_apply, hrun]
  rfl

/-- A method that was bound is a script method over a new scope, or a method of the host with a
receiver. -/
theorem bindMethod_cases {f g : CallableId} {i : InstanceId} {line : Nat} {m m' : Machine}
    (h : bindMethod f i line m = .done g m') :
    g = m.nextCallable ∧
      ((∃ d closure isInit, m.heap.callable f = .script d closure isInit ∧
        m' = m.bindScript d closure isInit i) ∨
      ∃ x rc, m.heap.callable f = .method x rc ∧ m' = m.addCallable (.method x (some i))) := by
  obtain ⟨_, m₁, hdemand, hrest⟩ := Run.bind_eq_done h
  obtain ⟨-, rfl⟩ := Run.demand_eq_done hdemand
  obtain ⟨_, _, ⟨⟩, hfound⟩ := Run.bind_eq_done hrest
  dsimp only at hfound
  cases hc : m₁.heap.callable f with
  | native x n b => rw [hc] at hfound; cases hfound
  | script d closure isInit =>
    rw [hc] at hfound
    cases hfound
    exact ⟨rfl, .inl ⟨d, closure, isInit, rfl, rfl⟩⟩
  | method x rc =>
    rw [hc] at hfound
    cases hfound
    exact ⟨rfl, .inr ⟨x, rc, rfl, rfl⟩⟩

end Machine

namespace Regime

variable {c : Context} {R : Regime c} {m : Machine}

theorem ok_detach {v : Value} (s : Cells) (h : R.ok m v) : R.ok m (v.detach s) := by
  rcases v.detach_eq_or_plain s with hv | hv
  · rwa [hv]
  · exact R.ok_plain hv

/-! ### Names -/

theorem keeps_lookUp (id : Nat) (x : String) (line : Nat) (hi : R.inv m) :
    R.Keeps (Evaluation.lookUp c id x line) (Evaluation.lookUp c id x line) (fun v m' => R.ok m' v)
      m := by
  refine ⟨rfl, ?_⟩
  unfold Run.wp Evaluation.lookUp
  cases c.locals id with
  | some d =>
    dsimp only
    cases hv : m.store.getAt? m.env d x with
    | none => exact ⟨hi, R.le_refl m⟩
    | some v =>
      obtain ⟨p, hp⟩ := Store.own?_of_getAt? hv
      exact ⟨hi, R.le_refl m, R.ok_detach _ (R.ok_own hi hp)⟩
  | none =>
    dsimp only
    cases hv : m.store.get? .globals x with
    | none => exact ⟨hi, R.le_refl m⟩
    | some v =>
      obtain ⟨p, hp⟩ := Store.own?_of_get? hv
      exact ⟨hi, R.le_refl m, R.ok_detach _ (R.ok_own hi hp)⟩

theorem keeps_assignIn {place : Option ScopeId} {x : String} {v : Value} {line : Nat}
    (hi : R.inv m) (hx : R.name x) (hv : R.ok m v) :
    R.Keeps (Machine.assignIn place x v line) (Machine.assignIn place x v line) (fun _ _ => True)
      m := by
  refine ⟨rfl, ?_⟩
  unfold Run.wp Machine.assignIn Store.plan
  cases place with
  | none => exact ⟨hi, R.le_refl m⟩
  | some e =>
    dsimp only
    cases hs : m.store.own? e x with
    | none => exact ⟨hi, R.le_refl m⟩
    | some slot =>
      dsimp only
      cases hp : m.store.cells.plan slot v with
      | error err => exact ⟨hi, R.le_refl m⟩
      | ok w =>
        cases w with
        | slot w =>
          have hw : R.ok m w := Cells.eq_detach_of_plan hp ▸ R.ok_detach _ hv
          obtain ⟨hi', hle⟩ := R.assign hi hx hs hw
          exact ⟨hi', hle, trivial⟩
        | cell a w =>
          obtain ⟨hi', hle⟩ := R.cells hi (m.store.cells.put a w)
          exact ⟨hi', hle, trivial⟩

theorem keeps_assignVariable {id : Nat} {x : String} {v : Value} {line : Nat} (hi : R.inv m)
    (hx : R.name x) (hv : R.ok m v) :
    R.Keeps (Evaluation.assignVariable c id x v line) (Evaluation.assignVariable c id x v line)
      (fun _ _ => True) m :=
  .read_bind (R.keeps_assignIn hi hx hv)

theorem keeps_declare {x : String} {v : Value} (hi : R.inv m) (hx : R.name x) (hv : R.ok m v) :
    R.Keeps (Evaluation.declare x v) (Evaluation.declare x v)
      (fun _ m' => m' = m.bind m.env x v) m := by
  obtain ⟨hi', hle⟩ := R.declare hi hx hv
  exact .update hi' hle rfl

/-! ### Methods and properties -/

theorem okMethod_of_findMethod {k : ClassId} {x : String} {f : CallableId} (hi : R.inv m)
    (h : m.heap.findMethod k x = some f) : R.okMethod m f := by
  unfold Heap.findMethod at h
  fun_induction Heap.search with
  | case1 k f' hk => cases h; exact R.ok_table hi hk
  | case2 k hk p hp ih => exact ih h
  | case3 k hk hp => cases h

theorem keeps_bindMethod {f : CallableId} {i : InstanceId} {line : Nat} (hi : R.inv m)
    (hf : R.okMethod m f) (hn : R.ok m (.instance_ i)) (ho : m.Offers f i) :
    R.Keeps (Machine.bindMethod f i line) (Machine.bindMethod f i line)
      (fun f' m' => R.ok m' (.function f')) m := by
  unfold Machine.bindMethod
  refine .demand_bind hi (R.has_method hi hf) (.read_bind ?_)
  cases hc : m.heap.callable f with
  | native x n g => exact .fail hi
  | script d closure isInit =>
    obtain ⟨hi', hle, hok⟩ := R.bindScript hi hf hc hn ho
    exact ⟨rfl, hi', hle, hok⟩
  | method g rc =>
    obtain ⟨hi', hle, hok⟩ := R.bindHost hi hf hc hn ho
    exact ⟨rfl, hi', hle, hok⟩

theorem keeps_bindFound {k : ClassId} {x : String} {i : InstanceId} {line : Nat} (hi : R.inv m)
    (hk : R.ok m (.class_ k)) (hn : R.ok m (.instance_ i))
    (ho : ∀ f, m.heap.findMethod k x = some f → m.Offers f i) :
    R.Keeps (Machine.bindFound k x i line) (Machine.bindFound k x i line)
      (fun f' m' => R.ok m' (.function f')) m := by
  unfold Machine.bindFound
  refine .demand_bind hi (R.has_class hi hk) (.read_bind ?_)
  cases hf : m.heap.findMethod k x with
  | none => exact .fail hi
  | some f => exact R.keeps_bindMethod hi (R.okMethod_of_findMethod hi hf) hn (ho f hf)

theorem keeps_getProperty {i : InstanceId} {x : String} {line : Nat} (hi : R.inv m)
    (hn : R.ok m (.instance_ i)) :
    R.Keeps (Machine.getProperty i x line) (Machine.getProperty i x line) (fun v m' => R.ok m' v)
      m := by
  unfold Machine.getProperty
  refine .demand_bind hi (R.has_instance hi hn) (.read_bind ?_)
  cases hv : (m.heap.instance_ i).field? m.store.cells x with
  | some v =>
    obtain ⟨w, hw, rfl⟩ := Option.map_eq_some_iff.mp hv
    exact .pure hi (R.ok_detach _ (R.ok_field hi hw))
  | none =>
    refine .read_bind ?_
    cases hb : (m.heap.instance_ i).bound.get? x with
    | some f => exact .pure hi (R.ok_bound hi hb)
    | none =>
      refine .read_bind ((R.keeps_bindFound hi (R.ok_class hi hn) hn fun _ hf => .own hf).also.bind ?_)
      intro f m₁ hi₁ _ ⟨hf, hbound⟩
      obtain ⟨hi₂, hle₂⟩ := R.putBound hi hi₁ hf hbound
      exact .update_bind hi₂ hle₂ (.pure hi₂ (R.ok_le hle₂ hf))

theorem keeps_setField {i : InstanceId} {x : String} {v : Value} {line : Nat} (hi : R.inv m)
    (hn : R.ok m (.instance_ i)) (hv : R.ok m v) :
    R.Keeps (Machine.setField i x v line) (Machine.setField i x v line) (fun _ _ => True) m := by
  unfold Machine.setField
  refine .demand_bind hi (R.has_instance hi hn) ⟨rfl, ?_⟩
  unfold Run.wp Machine.writeField
  cases hs : (m.heap.instance_ i).fields.get? x with
  | none =>
    obtain ⟨hi', hle⟩ := R.putField hi (R.ok_detach m.store.cells hv) (i := i) (x := x)
    exact ⟨hi', hle, trivial⟩
  | some slot =>
    dsimp only
    cases hp : m.store.cells.plan slot v with
    | error err => exact ⟨hi, R.le_refl m⟩
    | ok w =>
      cases w with
      | slot w =>
        have hw : R.ok m w := Cells.eq_detach_of_plan hp ▸ R.ok_detach _ hv
        obtain ⟨hi', hle⟩ := R.putField hi hw (i := i) (x := x)
        exact ⟨hi', hle, trivial⟩
      | cell a w =>
        obtain ⟨hi', hle⟩ := R.cells hi (m.store.cells.put a w)
        exact ⟨hi', hle, trivial⟩

/-! ### The superclass -/

theorem keeps_superclass (d line : Nat) (hi : R.inv m) :
    R.Keeps (Evaluation.superclass d line) (Evaluation.superclass d line)
      (fun k m' => m' = m ∧ m.store.getAt? m.env d Resolution.superName = some (.class_ k)) m := by
  unfold Evaluation.superclass
  refine .read_bind ((Frame.Keeps.ofOption hi fun v hv => hv).bind_still fun v hv => ?_)
  refine .ofExcept hi fun k hk => ?_
  cases v <;> cases hk
  exact hv

theorem keeps_receiver (d line : Nat) (hi : R.inv m) :
    R.Keeps (Evaluation.receiver (d + 1) line) (Evaluation.receiver (d + 1) line)
      (fun i m' => m' = m ∧ m.store.getAt? m.env d Resolution.thisName = some (.instance_ i)) m := by
  unfold Evaluation.receiver
  refine .read_bind ((Frame.Keeps.ofOption hi fun v hv => hv).bind_still fun v hv => ?_)
  refine .ofExcept hi fun i hn => ?_
  cases v <;> cases hn
  exact hv

theorem ok_getAt? {d : Nat} {x : String} {v : Value} (hi : R.inv m)
    (h : m.store.getAt? m.env d x = some v) : R.ok m v := by
  obtain ⟨p, hp⟩ := Store.own?_of_getAt? h
  exact R.ok_own hi hp

theorem keeps_superMethod (id : Nat) (x : String) (line : Nat) (hi : R.inv m) :
    R.Keeps (Evaluation.superMethod c id x line) (Evaluation.superMethod c id x line)
      (fun v m' => R.ok m' v) m := by
  unfold Evaluation.superMethod
  cases c.locals id with
  | none => exact .fail hi
  | some d =>
    refine (R.keeps_superclass d line hi).bind_still fun k hk => ?_
    cases d with
    | zero => exact .fail hi
    | succ d =>
      refine (R.keeps_receiver d line hi).bind_still fun i hn => ?_
      refine (R.keeps_bindFound hi (R.ok_getAt? hi hk) (R.ok_getAt? hi hn) ?_).bind ?_
      · exact fun f hf => .super hk hn hf
      · exact fun f m₁ hi₁ _ hf => .pure hi₁ hf

end Regime

end HostScript
