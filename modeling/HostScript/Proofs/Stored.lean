import HostScript.Proofs.Regime

/-!
# What is stored on a machine

Values and handles of objects are kept in scopes, in fields, among the bound methods of an instance,
as its class, in the tables of classes, as superclasses, as receivers of host methods and as the
classes of host types. `Machine.Stores P T` says that all of them have a property: `P` of values, `T`
of the callables in tables. For each change of a machine, the property has to be shown of what is new.
-/

namespace HostScript

/-! ### Tables that grow -/

section Tables

variable {α : Type}

theorem getD_push (xs : Array α) (x d : α) (i : Nat) :
    (xs.push x).getD i d = if i = xs.size then x else xs.getD i d := by
  rw [Array.getD_eq_getD_getElem?, Array.getElem?_push, Array.getD_eq_getD_getElem?]
  split <;> rfl

theorem getD_modify (xs : Array α) (f : α → α) (d : α) (i j : Nat) :
    (xs.modify j f).getD i d = if i = j ∧ j < xs.size then f (xs.getD j d) else xs.getD i d := by
  rw [Array.getD_eq_getD_getElem?, Array.getElem?_modify, Array.getD_eq_getD_getElem?,
    Array.getD_eq_getD_getElem?]
  by_cases hij : j = i
  · subst hij
    by_cases hj : j < xs.size <;> simp [hj]
  · simp [hij, Ne.symm hij]

theorem getD_append_left {xs ys : Array α} {d : α} {i : Nat} (h : i < xs.size) :
    (xs ++ ys).getD i d = xs.getD i d := by
  rw [Array.getD_eq_getD_getElem?, Array.getElem?_append, if_pos h, Array.getD_eq_getD_getElem?]

theorem mem_of_lookup {β : Type} [BEq α] [LawfulBEq α] {xs : List (α × β)} {a : α} {b : β}
    (h : xs.lookup a = some b) : (a, b) ∈ xs := by
  obtain ⟨before, after, hsplit, -⟩ := List.lookup_eq_some_iff.mp h
  exact hsplit ▸ List.mem_append_right before List.mem_cons_self

end Tables

namespace Store

variable (s : Store) {e e' : ScopeId} {x y : String} {v w : Value} {sc : Scope}

theorem scope_open (sc : Scope) (e : ScopeId) :
    (s.open sc).2.scope e = if e.index = s.scopes.size then sc else s.scope e :=
  getD_push s.scopes sc default e.index

theorem scope_define (e e' : ScopeId) (x : String) (v : Value) :
    (s.define e x v).scope e' =
      if e' = e ∧ e.index < s.scopes.size then
        { s.scope e with vars := (s.scope e).vars.insert x v } else s.scope e' := by
  have heq : e'.index = e.index ↔ e' = e := by
    cases e; cases e'; simp
  simp only [← heq]
  exact getD_modify s.scopes _ default e'.index e.index

/-- What a scope binds behind a definition is new or was there. -/
theorem own?_define_cases (h : (s.define e x v).own? e' y = some w) :
    w = v ∨ s.own? e' y = some w := by
  unfold own? at h ⊢
  rw [scope_define] at h
  split at h
  · rename_i he
    rw [Bindings.get?_insert] at h
    split at h
    · cases h; exact .inl rfl
    · exact .inr (he.1 ▸ h)
  · exact .inr h

theorem own?_open_cases (h : (s.open sc).2.own? e y = some w) :
    sc.vars.get? y = some w ∨ s.own? e y = some w := by
  unfold own? at h ⊢
  rw [scope_open] at h
  split at h
  · exact .inl h
  · exact .inr h

variable {s} in
/-- Only scopes that were opened bind names. -/
theorem index_lt_size_of_own? (h : s.own? e x = some v) : e.index < s.scopes.size := by
  refine Nat.lt_of_not_le fun hle => ?_
  unfold own? scope at h
  rw [Array.getD_eq_getD_getElem?, Array.getElem?_eq_none hle] at h
  cases h

end Store

namespace Heap

variable (h : Heap)

theorem instance_modify (i j : InstanceId) (f : Instance → Instance) :
    { h with instances := h.instances.modify i.index f }.instance_ j =
      if j = i ∧ i.index < h.instances.size then f (h.instance_ i) else h.instance_ j := by
  have heq : j.index = i.index ↔ j = i := by
    cases i; cases j; simp
  simp only [← heq]
  exact getD_modify h.instances f default j.index i.index

theorem instance_newInstance (o : Instance) (j : InstanceId) :
    (h.newInstance o).2.instance_ j = if j.index = h.instances.size then o else h.instance_ j :=
  getD_push h.instances o default j.index

theorem class_newClass (k : Class) (j : ClassId) :
    (h.newClass k).2.class_ j = if j.index = h.classes.size then k else h.class_ j :=
  getD_push h.classes k default j.index

theorem callable_newCallable (f : Callable) (j : CallableId) :
    (h.newCallable f).2.callable j = if j.index = h.callables.size then f else h.callable j :=
  getD_push h.callables f default j.index

theorem hasClass_newClass (k : Class) :
    (h.newClass k).2.hasClass ⟨h.classes.size⟩ = true := by
  simp [newClass, hasClass]

theorem hasInstance_newInstance (o : Instance) :
    (h.newInstance o).2.hasInstance ⟨h.instances.size⟩ = true := by
  simp [newInstance, hasInstance]

theorem hasCallable_newCallable (f : Callable) :
    (h.newCallable f).2.hasCallable ⟨h.callables.size⟩ = true := by
  simp [newCallable, hasCallable]

variable {h} in
/-- There is nothing at a number that no class has. -/
theorem hasClass_of_ne {k : ClassId} (hk : h.class_ k ≠ default) : h.hasClass k = true := by
  refine decide_eq_true (Nat.lt_of_not_le fun hle => hk ?_)
  rw [class_, Array.getD_eq_getD_getElem?, Array.getElem?_eq_none hle]
  rfl

variable {h} in
/-- There is nothing at a number that no instance has. -/
theorem hasInstance_of_ne {i : InstanceId} (hi : h.instance_ i ≠ default) :
    h.hasInstance i = true := by
  refine decide_eq_true (Nat.lt_of_not_le fun hle => hi ?_)
  rw [instance_, Array.getD_eq_getD_getElem?, Array.getElem?_eq_none hle]
  rfl

/-- The functions put on a heap come behind those that were there. -/
theorem callable_withScripts (closure : ScopeId) {ms : List FunctionDecl} {f : CallableId} {j : Nat}
    {d : FunctionDecl} (hj : ms[j]? = some d) (hf : f.index = h.callables.size + j) :
    (h.withScripts closure ms).callable f = .script d closure d.isInit := by
  rw [callable, withScripts, Array.getD_eq_getD_getElem?, Array.getElem?_append,
    if_neg (by omega)]
  simp [hf, hj]

/-- A callable on a heap with further functions was there before, or is one of them. -/
theorem callable_withScripts_cases (closure : ScopeId) (ms : List FunctionDecl) (f : CallableId) :
    (h.withScripts closure ms).callable f = h.callable f ∨
      ∃ j d, ms[j]? = some d ∧ f.index = h.callables.size + j ∧
        (h.withScripts closure ms).callable f = .script d closure d.isInit := by
  by_cases hlt : f.index < h.callables.size
  · exact .inl (getD_append_left hlt)
  · have hrest : (h.withScripts closure ms).callable f =
        ((ms[f.index - h.callables.size]?).map fun d =>
          Callable.script d closure d.isInit).getD default := by
      rw [callable, withScripts, Array.getD_eq_getD_getElem?, Array.getElem?_append, if_neg hlt]
      simp
    cases hd : ms[f.index - h.callables.size]? with
    | none =>
      have hf : h.callable f = default := by
        rw [callable, Array.getD_eq_getD_getElem?, Array.getElem?_eq_none (Nat.le_of_not_lt hlt)]
        rfl
      rw [hd] at hrest
      exact .inl (hrest.trans hf.symm)
    | some d =>
      rw [hd] at hrest
      exact .inr ⟨f.index - h.callables.size, d, hd, by omega, hrest⟩

/-- One step of a search. -/
theorem search_step {β : Type} (ask : ClassId → Class → Option β) (c : ClassId) :
    h.search ask c = (ask c (h.class_ c)).or ((h.superclass? c).bind (h.search ask)) := by
  rw [search]
  cases ask c (h.class_ c) with
  | some b => rfl
  | none =>
    dsimp only
    split <;> rename_i hp <;> rw [hp] <;> rfl

/-- An answer comes from a class and those above it, which are older. -/
theorem search_congr {β : Type} {h h' : Heap} {ask : ClassId → Class → Option β} {k : ClassId}
    (hk : ∀ j : ClassId, j.index ≤ k.index → h'.class_ j = h.class_ j) :
    h'.search ask k = h.search ask k := by
  have hself := hk k (Nat.le_refl _)
  have hsuper : h'.superclass? k = h.superclass? k := by
    rw [superclass?, superclass?, hself]
  rw [search_step, search_step, hself, hsuper]
  cases hp : h.superclass? k with
  | none => rfl
  | some p =>
    have hlt := index_lt_of_superclass? hp
    have hup : h'.search ask p = h.search ask p :=
      search_congr fun j hj => hk j (Nat.le_trans hj (Nat.le_of_lt hlt))
    rw [Option.bind_some, Option.bind_some, hup]
termination_by k.index

end Heap

/-- No callable is replaced by another. -/
def Heap.Keeps (h h' : Heap) : Prop :=
  ∀ f, h.hasCallable f = true → h'.hasCallable f = true ∧ h'.callable f = h.callable f

namespace Heap.Keeps

variable {h h' h'' : Heap}

theorem refl (h : Heap) : h.Keeps h :=
  fun _ hf => ⟨hf, rfl⟩

theorem trans (a : h.Keeps h') (b : h'.Keeps h'') : h.Keeps h'' := by
  intro f hf
  obtain ⟨hf', heq⟩ := a f hf
  obtain ⟨hf'', heq'⟩ := b f hf'
  exact ⟨hf'', heq'.trans heq⟩

theorem newCallable (h : Heap) (g : Callable) : h.Keeps (h.newCallable g).2 := by
  intro f hf
  simp only [hasCallable, decide_eq_true_eq] at hf
  refine ⟨?_, ?_⟩
  · simp only [hasCallable, Heap.newCallable, Array.size_push, decide_eq_true_eq]
    omega
  · rw [callable_newCallable, if_neg (Nat.ne_of_lt hf)]

theorem withScripts (h : Heap) (closure : ScopeId) (ms : List FunctionDecl) :
    h.Keeps (h.withScripts closure ms) := by
  intro f hf
  simp only [hasCallable, decide_eq_true_eq] at hf
  refine ⟨?_, getD_append_left hf⟩
  simp only [hasCallable, Heap.withScripts, Array.size_append, decide_eq_true_eq]
  omega

end Heap.Keeps

/-- The functions of scripts on a heap are declared as `P` asks. -/
def Heap.Scripts (P : FunctionDecl → Prop) (h : Heap) : Prop :=
  ∀ f d closure isInit, h.callable f = .script d closure isInit → P d

namespace Heap.Scripts

variable {P P' : FunctionDecl → Prop} {h : Heap}

theorem mono (hh : h.Scripts P) (hP : ∀ d, P d → P' d) : h.Scripts P' :=
  fun f d closure isInit hf => hP d (hh f d closure isInit hf)

theorem newCallable (hh : h.Scripts P) {g : Callable}
    (hg : ∀ d closure isInit, g = .script d closure isInit → P d) : (h.newCallable g).2.Scripts P := by
  intro f d closure isInit hf
  rw [Heap.callable_newCallable] at hf
  split at hf
  · exact hg d closure isInit hf
  · exact hh f d closure isInit hf

theorem newScript (hh : h.Scripts P) {d : FunctionDecl} (hd : P d) (closure : ScopeId)
    (isInit : Bool) : (h.newCallable (.script d closure isInit)).2.Scripts P := by
  refine hh.newCallable ?_
  rintro _ _ _ ⟨⟩
  exact hd

theorem withScripts (hh : h.Scripts P) {ms : List FunctionDecl} (closure : ScopeId)
    (hms : ∀ d ∈ ms, P d) : (h.withScripts closure ms).Scripts P := by
  intro f d closure' isInit hf
  obtain hold | ⟨j, d', hj, -, hnew⟩ := Heap.callable_withScripts_cases (h := h) closure ms f
  · exact hh f d closure' isInit (hold ▸ hf)
  · cases hnew.symm.trans hf
    exact hms _ (List.mem_of_getElem? hj)

end Heap.Scripts

/-- Whether a function calls what it is given. -/
def Callable.callsBack : Callable → Bool
  | .native _ _ .apply => true
  | _ => false

/-- Nothing on the heap calls back, so all calls are made by nodes and by classes. -/
def Heap.Direct (h : Heap) : Prop :=
  ∀ f, (h.callable f).callsBack = false

namespace Heap.Direct

variable {h : Heap}

theorem newCallable (hh : h.Direct) {g : Callable} (hg : g.callsBack = false) :
    (h.newCallable g).2.Direct := by
  intro f
  rw [Heap.callable_newCallable]
  split
  · exact hg
  · exact hh f

theorem withScripts (hh : h.Direct) (closure : ScopeId) (ms : List FunctionDecl) :
    (h.withScripts closure ms).Direct := by
  intro f
  rcases h.callable_withScripts_cases closure ms f with hold | ⟨j, d, -, -, hnew⟩
  · rw [hold]
    exact hh f
  · rw [hnew]
    rfl

end Heap.Direct

namespace Machine

theorem callable_addCallable (m : Machine) (g : Callable) :
    (m.addCallable g).heap.callable m.nextCallable = g := by
  rw [addCallable, Heap.callable_newCallable]
  exact if_pos rfl

theorem class_newClass (m : Machine) (k : Class) : (m.heap.newClass k).2.class_ m.nextClass = k := by
  rw [Heap.class_newClass]
  exact if_pos rfl

/-- All values on a machine have the property `P`, and all callables in tables of classes have `T`. -/
structure Stores (P : Value → Prop) (T : CallableId → Prop) (m : Machine) : Prop where
  vars : ∀ {e x v}, m.store.own? e x = some v → P v
  fields : ∀ {i x v}, (m.heap.instance_ i).fields.get? x = some v → P v
  bound : ∀ {i x f}, (m.heap.instance_ i).bound.get? x = some f → P (.function f)
  classOf : ∀ {i}, m.heap.hasInstance i = true → P (.class_ (m.heap.instance_ i).class_)
  methods : ∀ {k x f}, (m.heap.class_ k).methods.get? x = some f → T f
  superclass : ∀ {k p}, (m.heap.class_ k).superclass = some p → P (.class_ p)
  receiver : ∀ {f g i}, m.heap.callable f = .method g (some i) → P (.instance_ i)
  hostClasses : ∀ {t k}, (t, k) ∈ m.hostClasses → P (.class_ k)

namespace Stores

variable {P P' : Value → Prop} {T T' : CallableId → Prop} {m m' : Machine}

theorem mono (h : m.Stores P T) (hP : ∀ v, P v → P' v) (hT : ∀ f, T f → T' f) : m.Stores P' T' where
  vars hv := hP _ (h.vars hv)
  fields hv := hP _ (h.fields hv)
  bound hf := hP _ (h.bound hf)
  classOf hi := hP _ (h.classOf hi)
  methods hf := hT _ (h.methods hf)
  superclass hp := hP _ (h.superclass hp)
  receiver hi := hP _ (h.receiver hi)
  hostClasses hk := hP _ (h.hostClasses hk)

/-- Other scopes, with nothing but such values. -/
theorem withStore {s : Store} (h : m.Stores P T) (hs : ∀ {e x v}, s.own? e x = some v → P v) :
    { m with store := s }.Stores P T :=
  { h with vars := hs }

theorem bind (h : m.Stores P T) {e : ScopeId} {x : String} {v : Value} (hv : P v) :
    (m.bind e x v).Stores P T := by
  refine h.withStore fun hw => ?_
  rcases m.store.own?_define_cases hw with rfl | hw
  · exact hv
  · exact h.vars hw

theorem «open» (h : m.Stores P T) {sc : Scope} (hsc : ∀ {x v}, sc.vars.get? x = some v → P v) :
    { m with store := (m.store.open sc).2 }.Stores P T := by
  refine h.withStore fun hw => ?_
  rcases m.store.own?_open_cases hw with hw | hw
  · exact hsc hw
  · exact h.vars hw

/-- A change of one instance, which stays one of its class. -/
theorem modifyInstance (h : m.Stores P T) {i : InstanceId} {f : Instance → Instance}
    (hclass : (f (m.heap.instance_ i)).class_ = (m.heap.instance_ i).class_)
    (hfields : ∀ {x v}, (f (m.heap.instance_ i)).fields.get? x = some v → P v)
    (hbound : ∀ {x g}, (f (m.heap.instance_ i)).bound.get? x = some g → P (.function g)) :
    { m with heap := { m.heap with instances := m.heap.instances.modify i.index f } }.Stores P T := by
  refine { h with fields := ?_, bound := ?_, classOf := ?_ }
  · intro j x v hv
    rw [Heap.instance_modify] at hv
    split at hv
    · exact hfields hv
    · exact h.fields hv
  · intro j x g hg
    rw [Heap.instance_modify] at hg
    split at hg
    · exact hbound hg
    · exact h.bound hg
  · intro j hj
    have hj' : m.heap.hasInstance j = true := by simpa [Heap.hasInstance] using hj
    rw [Heap.instance_modify]
    split
    · rename_i hji
      rw [hclass, ← hji.1]
      exact h.classOf hj'
    · exact h.classOf hj'

theorem putField (h : m.Stores P T) {i : InstanceId} {x : String} {v : Value} (hv : P v) :
    { m with heap := m.heap.putField i x v }.Stores P T := by
  refine h.modifyInstance rfl (fun {y w} hw => ?_) h.bound
  rw [Bindings.get?_insert] at hw
  split at hw
  · cases hw; exact hv
  · exact h.fields hw

theorem putBound (h : m.Stores P T) {i : InstanceId} {x : String} {f : CallableId}
    (hf : P (.function f)) : { m with heap := m.heap.putBound i x f }.Stores P T := by
  refine h.modifyInstance rfl h.fields fun {y g} hg => ?_
  rw [Bindings.get?_insert] at hg
  split at hg
  · cases hg; exact hf
  · exact h.bound hg

theorem addInstance (h : m.Stores P T) {o : Instance} (ho : o.Fresh)
    (hplain : ∀ v, v.plain = true → P v) (hk : P (.class_ o.class_)) :
    (m.addInstance o).Stores P T := by
  refine { h with fields := ?_, bound := ?_, classOf := ?_ }
  · intro j x v hv
    rw [Machine.addInstance, Heap.instance_newInstance] at hv
    split at hv
    · exact hplain v (ho.fields x v hv)
    · exact h.fields hv
  · intro j x g hg
    rw [Machine.addInstance, Heap.instance_newInstance] at hg
    split at hg
    · rw [ho.bound] at hg; cases hg
    · exact h.bound hg
  · intro j hj
    have hj' : j.index < m.heap.instances.size + 1 := by
      simpa [Machine.addInstance, Heap.newInstance, Heap.hasInstance] using hj
    rw [Machine.addInstance, Heap.instance_newInstance]
    split
    · exact hk
    · exact h.classOf (by simp only [Heap.hasInstance, decide_eq_true_eq]; omega)

theorem addCallable (h : m.Stores P T) {f : Callable}
    (hf : ∀ {g i}, f = .method g (some i) → P (.instance_ i)) : (m.addCallable f).Stores P T := by
  refine { h with receiver := fun {j g i} hj => ?_ }
  rw [Machine.addCallable, Heap.callable_newCallable] at hj
  split at hj
  · exact hf hj
  · exact h.receiver hj

theorem withScripts (h : m.Stores P T) (closure : ScopeId) (ms : List FunctionDecl) :
    { m with heap := m.heap.withScripts closure ms }.Stores P T := by
  refine { h with receiver := fun {f g i} hf => ?_ }
  rcases m.heap.callable_withScripts_cases closure ms f with hold | ⟨j, d, -, -, hnew⟩
  · exact h.receiver (hold.symm.trans hf)
  · cases hnew.symm.trans hf

/-- A new class, with its table and what it lies below. -/
theorem newClass (h : m.Stores P T) {k : Class}
    (ht : ∀ {x f}, k.methods.get? x = some f → T f)
    (hp : ∀ {p}, k.superclass = some p → P (.class_ p)) :
    { m with heap := (m.heap.newClass k).2 }.Stores P T := by
  refine { h with methods := ?_, superclass := ?_ }
  · intro j x f hf
    rw [Heap.class_newClass] at hf
    split at hf
    · exact ht hf
    · exact h.methods hf
  · intro j p hj
    rw [Heap.class_newClass] at hj
    split at hj
    · exact hp hj
    · exact h.superclass hj

theorem bindScript (h : m.Stores P T) {d : FunctionDecl} {closure : ScopeId} {isInit : Bool}
    {i : InstanceId} (hi : P (.instance_ i)) : (m.bindScript d closure isInit i).Stores P T := by
  refine (h.open fun {x v} hv => ?_).addCallable nofun
  cases List.mem_singleton.mp (Bindings.mem_of_get?_ofList hv)
  exact hi

theorem declareFunction (h : m.Stores P T) {d : FunctionDecl} (hf : P (.function m.nextCallable)) :
    (m.declareFunction d).Stores P T :=
  (h.addCallable (f := .script d m.env false) nofun).bind hf

theorem withMethodStore (h : m.Stores P T) {parent : Option ClassId}
    (hp : ∀ k, parent = some k → P (.class_ k)) :
    { m with store := (m.methodStore parent).2 }.Stores P T := by
  cases parent with
  | none => exact h
  | some k =>
    refine h.open fun {x v} hv => ?_
    cases List.mem_singleton.mp (Bindings.mem_of_get?_ofList hv)
    exact hp k rfl

theorem enter (h : m.Stores P T) {sc : Scope} (hsc : ∀ {x v}, sc.vars.get? x = some v → P v) :
    (m.enter sc).Stores P T :=
  { h.open hsc with }

theorem enterCall (h : m.Stores P T) {d : FunctionDecl} {closure : ScopeId} {args : List Value}
    (hargs : ∀ v ∈ args, P v) : (m.enterCall d closure args).Stores P T := by
  refine { h.open fun {x v} hv => ?_ with }
  exact hargs v (List.of_mem_zip (Bindings.mem_of_get?_ofList hv)).2

end Stores

end Machine

end HostScript
