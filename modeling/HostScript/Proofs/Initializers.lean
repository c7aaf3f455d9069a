import HostScript.Proofs.Begins
import HostScript.Proofs.Scoping.Histories

/-!
# Initializers and their instances

A method is bound to an instance by a scope that binds `this`. No script can bind that name again, so the
method stays bound to the instance, and what an initializer gives is read off that scope.

`m.Initialized m₀`: the machine `m` is later than `m₀`, and on it all functions that are initializers are
bound to an instance, those that were remembered by an instance are bound to it, and of the methods in
tables those named `init` are the initializers. Evaluation keeps to that.
-/

namespace HostScript

open Resolution (thisName superName)

/-- The host has no initializers. -/
theorem HostMethod.name_ne_initName (g : HostMethod) : g.name ≠ initName := by
  cases g with
  | vector n g => cases g <;> simp [name, initName]
  | counter g => cases g <;> simp [name, initName]

namespace Heap

variable {h h' : Heap} {f : CallableId} {x : String} {d : FunctionDecl} {closure : ScopeId}
  {isInit : Bool}

/-- The function was declared as a method named `init`. -/
def IsInitializer (h : Heap) (f : CallableId) : Prop :=
  ∃ d closure, h.callable f = .script d closure true

/-- A method under a name, which is an initializer if the name says so. -/
def HasMethod (h : Heap) (x : String) (f : CallableId) : Prop :=
  h.hasCallable f = true ∧ (h.IsInitializer f ↔ x = initName)

theorem isInitializer_script (hc : h.callable f = .script d closure isInit) :
    h.IsInitializer f ↔ isInit = true := by
  constructor
  · rintro ⟨d', closure', hd⟩
    cases hc.symm.trans hd
    rfl
  · rintro rfl
    exact ⟨d, closure, hc⟩

theorem not_isInitializer_of_isNative (hc : (h.callable f).isNative = true) :
    ¬ h.IsInitializer f := by
  rintro ⟨d, closure, hd⟩
  rw [hd] at hc
  cases hc

theorem IsInitializer.of_eq (hf : h'.IsInitializer f) (heq : h'.callable f = h.callable f) :
    h.IsInitializer f := by
  obtain ⟨d, closure, hd⟩ := hf
  exact ⟨d, closure, heq ▸ hd⟩

theorem HasMethod.mono (hf : h.HasMethod x f) (hk : h.Keeps h') : h'.HasMethod x f := by
  obtain ⟨hthere, hinit⟩ := hf
  obtain ⟨hthere', heq⟩ := hk f hthere
  exact ⟨hthere', fun hi => hinit.mp (hi.of_eq heq), fun hx => (hinit.mpr hx).of_eq heq.symm⟩

end Heap

namespace Machine

variable {m m' m'' m₀ : Machine} {f g : CallableId} {i : InstanceId} {x : String}

/-- The method is bound to the instance: a script method by a scope with `this`, a method of the host by
its receiver. -/
def BoundTo (m : Machine) (f : CallableId) (i : InstanceId) : Prop :=
  m.heap.hasCallable f = true ∧
    match m.heap.callable f with
    | .script _ closure _ => m.store.own? closure thisName = some (.instance_ i)
    | .method _ receiver => receiver = some i
    | .native _ _ _ => False

/-- A function that is an initializer is bound to an instance. -/
def Settled (m : Machine) (v : Value) : Prop :=
  ∀ f, v = .function f →
    m.heap.hasCallable f = true ∧ (m.heap.IsInitializer f → ∃ i, m.BoundTo f i)

theorem BoundTo.mono (h : m.BoundTo f i) (hg : m.Grows m') : m'.BoundTo f i := by
  obtain ⟨hf, hb⟩ := h
  obtain ⟨hf', heq⟩ := hg.heap f hf
  refine ⟨hf', ?_⟩
  rw [heq]
  cases hc : m.heap.callable f with
  | script d closure isInit =>
    rw [hc] at hb
    exact hg.store.reserved (.inl rfl) hb
  | method g receiver => rw [hc] at hb; exact hb
  | native y n g => rw [hc] at hb; exact hb

theorem Settled.mono {v : Value} (h : m.Settled v) (hg : m.Grows m') : m'.Settled v := by
  intro f hf
  obtain ⟨hthere, hbound⟩ := h f hf
  obtain ⟨hthere', heq⟩ := hg.heap f hthere
  refine ⟨hthere', fun hf' => ?_⟩
  obtain ⟨i, hi⟩ := hbound (hf'.of_eq heq)
  exact ⟨i, hi.mono hg⟩

theorem settled_plain {v : Value} (hv : v.plain = true) : m.Settled v := by
  rintro f rfl
  cases hv

theorem settled_class (k : ClassId) : m.Settled (.class_ k) := by
  rintro f ⟨⟩

theorem settled_instance (i : InstanceId) : m.Settled (.instance_ i) := by
  rintro f ⟨⟩

/-- A function that is no initializer. -/
theorem settled_of_script {d : FunctionDecl} {closure : ScopeId} (hf : m.heap.hasCallable f = true)
    (hc : m.heap.callable f = .script d closure false) : m.Settled (.function f) := by
  rintro _ ⟨⟩
  refine ⟨hf, fun hinit => ?_⟩
  cases (Heap.isInitializer_script hc).mp hinit

/-- A method that is bound. -/
theorem BoundTo.settled (h : m.BoundTo f i) : m.Settled (.function f) := by
  rintro _ ⟨⟩
  exact ⟨h.1, fun _ => ⟨i, h⟩⟩

/-! ### Binding -/

theorem boundTo_bindScript (m : Machine) (d : FunctionDecl) (closure : ScopeId) (isInit : Bool)
    (i : InstanceId) :
    (m.bindScript d closure isInit i).BoundTo m.nextCallable i ∧
      (m.bindScript d closure isInit i).heap.callable m.nextCallable =
        .script d m.nextScope isInit := by
  have hc : (m.bindScript d closure isInit i).heap.callable m.nextCallable =
      .script d m.nextScope isInit := callable_addCallable { m with store := _ } _
  refine ⟨⟨?_, ?_⟩, hc⟩
  · simp [bindScript, Heap.hasCallable, Heap.newCallable, nextCallable]
  · rw [hc]
    have hown : (m.bindScript d closure isInit i).store.own? m.nextScope thisName =
        some (.instance_ i) := by
      have hnew : m.nextScope.index = m.store.scopes.size := rfl
      unfold bindScript Store.own?
      dsimp only
      rw [Store.scope_open, if_pos hnew]
      rfl
    exact hown

theorem boundTo_bindHost (m : Machine) (g : HostMethod) (i : InstanceId) :
    (m.addCallable (.method g (some i))).BoundTo m.nextCallable i ∧
      (m.addCallable (.method g (some i))).heap.callable m.nextCallable = .method g (some i) := by
  have hc := m.callable_addCallable (.method g (some i))
  refine ⟨⟨?_, ?_⟩, hc⟩
  · simp [addCallable, Heap.hasCallable, Heap.newCallable, nextCallable]
  · rw [hc]

/-- A method that was bound is bound to the instance, and an initializer if it was one. -/
theorem boundTo_of_bindMethod {line : Nat} (hf : m.heap.HasMethod x f)
    (h : bindMethod f i line m = .done g m') : m'.BoundTo g i ∧ m'.heap.HasMethod x g := by
  obtain ⟨rfl, ⟨d, closure, isInit, hc, rfl⟩ | ⟨y, rc, hc, rfl⟩⟩ := bindMethod_cases h
  · obtain ⟨hb, hc'⟩ := m.boundTo_bindScript d closure isInit i
    exact ⟨hb, hb.1, (Heap.isInitializer_script hc').trans
      ((Heap.isInitializer_script hc).symm.trans hf.2)⟩
  · obtain ⟨hb, hc'⟩ := m.boundTo_bindHost y i
    have hnone : ¬ m.heap.IsInitializer f := by
      refine Heap.not_isInitializer_of_isNative ?_
      rw [hc]
      rfl
    have hnone' : ¬ (m.addCallable (.method y (some i))).heap.IsInitializer m.nextCallable := by
      refine Heap.not_isInitializer_of_isNative ?_
      rw [hc']
      rfl
    exact ⟨hb, hb.1, iff_of_false hnone' fun hx => hnone (hf.2.mpr hx)⟩

theorem bindFound_cases {k : ClassId} {line : Nat} (h : bindFound k x i line m = .done g m') :
    ∃ f, m.heap.findMethod k x = some f ∧ bindMethod f i line m = .done g m' := by
  obtain ⟨_, m₁, hdemand, hrest⟩ := Run.bind_eq_done h
  obtain ⟨-, rfl⟩ := Run.demand_eq_done hdemand
  obtain ⟨_, _, ⟨⟩, hfound⟩ := Run.bind_eq_done hrest
  dsimp only at hfound
  cases hf : m₁.heap.findMethod k x with
  | none => rw [hf] at hfound; cases hfound
  | some f => rw [hf] at hfound; exact ⟨f, rfl, hfound⟩

/-! ### The invariant -/

/-- Functions and methods are in order on a machine that is later than `m₀`. -/
structure Initialized (m₀ m : Machine) : Prop where
  later : m₀.Grows m
  scripts : m.heap.Scripts fun d => ∃ c ss, d.Known (fun _ => True) c ss
  values : m.Stores m.Settled fun _ => True
  tables : ∀ k x f, (m.heap.class_ k).methods.get? x = some f → m.heap.HasMethod x f
  remembered : ∀ i x f, (m.heap.instance_ i).bound.get? x = some f →
    m.BoundTo f i ∧ m.heap.HasMethod x f

namespace Initialized

theorem findMethod (h : m₀.Initialized m) {k : ClassId} (hf : m.heap.findMethod k x = some f) :
    m.heap.HasMethod x f := by
  obtain ⟨k', hk'⟩ := Regime.exists_of_search hf
  exact h.tables k' x f hk'

theorem boundTo_of_bindFound (h : m₀.Initialized m) {k : ClassId} {line : Nat}
    (hg : bindFound k x i line m = .done g m') : m'.BoundTo g i ∧ m'.heap.HasMethod x g := by
  obtain ⟨f, hf, hbind⟩ := bindFound_cases hg
  exact boundTo_of_bindMethod (h.findMethod hf) hbind

/-- What is stored, as seen from a later machine. -/
theorem valuesIn (h : m₀.Initialized m) (hg : m.Grows m') : m.Stores m'.Settled fun _ => True :=
  h.values.mono (fun _ hv => hv.mono hg) fun _ => id

/-- A later machine with the same classes, on which instances remember the same methods. -/
theorem grow (h : m₀.Initialized m) (hg : m.Grows m')
    (hscripts : m'.heap.Scripts fun d => ∃ c ss, d.Known (fun _ => True) c ss)
    (hvalues : m'.Stores m'.Settled fun _ => True)
    (hclasses : ∀ k, (m'.heap.class_ k).methods = (m.heap.class_ k).methods)
    (hinstances : ∀ i, (m'.heap.instance_ i).bound = (m.heap.instance_ i).bound) :
    m₀.Initialized m' where
  later := h.later.trans hg
  scripts := hscripts
  values := hvalues
  tables k x f hf := (h.tables k x f (hclasses k ▸ hf)).mono hg.heap
  remembered i x f hf := by
    obtain ⟨hb, hm⟩ := h.remembered i x f (hinstances i ▸ hf)
    exact ⟨hb.mono hg, hm.mono hg.heap⟩

theorem bind (h : m₀.Initialized m) (e : ScopeId) (hx : ¬ Reserved x) {v : Value}
    (hv : m.Settled v) : m₀.Initialized (m.bind e x v) := by
  have hg := m.grows_bind e hx v
  exact h.grow hg h.scripts ((h.valuesIn hg).bind (hv.mono hg)) (fun _ => rfl) fun _ => rfl

theorem enter (h : m₀.Initialized m) {sc : Scope}
    (hsc : ∀ {y v}, sc.vars.get? y = some v → m.Settled v) : m₀.Initialized (m.enter sc) := by
  have hg := m.grows_enter sc
  exact h.grow hg h.scripts ((h.valuesIn hg).enter fun hv => (hsc hv).mono hg) (fun _ => rfl)
    fun _ => rfl

/-- Where a machine is, and how deep, does not matter. -/
theorem moved (h : m₀.Initialized m) (e : ScopeId) (d : Nat) :
    m₀.Initialized { m with env := e, depth := d } :=
  ⟨⟨h.later.store, h.later.heap⟩, h.scripts, { h.values with }, h.tables, h.remembered⟩

theorem bindScript (h : m₀.Initialized m) {d : FunctionDecl} {closure : ScopeId} {isInit : Bool}
    (hc : m.heap.callable f = .script d closure isInit) (i : InstanceId) :
    m₀.Initialized (m.bindScript d closure isInit i) := by
  have hg := m.grows_bindScript d closure isInit i
  have hnew := h.scripts.newScript (h.scripts f d closure isInit hc) m.nextScope isInit
  exact h.grow hg hnew ((h.valuesIn hg).bindScript nofun) (fun _ => rfl) fun _ => rfl

theorem bindHost (h : m₀.Initialized m) (y : HostMethod) (i : InstanceId) :
    m₀.Initialized (m.addCallable (.method y (some i))) := by
  have hg := m.grows_addCallable (.method y (some i))
  have hnew : (m.addCallable (.method y (some i))).heap.Scripts
      fun d => ∃ c ss, d.Known (fun _ => True) c ss := h.scripts.newCallable nofun
  exact h.grow hg hnew ((h.valuesIn hg).addCallable fun _ => nofun) (fun _ => rfl) fun _ => rfl

theorem declareFunction (h : m₀.Initialized m) {d : FunctionDecl} {c : Surroundings}
    {ss : StaticScopes} (hd : (Stmt.function d).Known (fun _ => True) c ss) :
    m₀.Initialized (m.declareFunction d) := by
  have hg := m.grows_declareFunction (hd.declares rfl)
  have hnew : (m.declareFunction d).heap.Scripts fun d => ∃ c ss, d.Known (fun _ => True) c ss :=
    h.scripts.newScript ⟨_, _, hd.function⟩ m.env false
  have hc : (m.declareFunction d).heap.callable m.nextCallable = .script d m.env false :=
    m.callable_addCallable _
  have hthere : (m.declareFunction d).heap.hasCallable m.nextCallable = true := by
    simp [Machine.declareFunction, Machine.bind, addCallable, Heap.hasCallable, Heap.newCallable,
      nextCallable]
  exact h.grow hg hnew ((h.valuesIn hg).declareFunction (settled_of_script hthere hc))
    (fun _ => rfl) fun _ => rfl

theorem addClass (h : m₀.Initialized m) {y : Ident} {super : Option Superclass}
    {ms : List FunctionDecl} {sp : Span} {parent : Option ClassId} {table : Bindings CallableId}
    {c : Surroundings} {ss : StaticScopes}
    (hk : (Stmt.class_ y super ms sp).Known (fun _ => True) c ss)
    (ht : MethodTable m.heap.callables.size ms table) :
    m₀.Initialized (m.addClass y.name parent ms table) := by
  have hg := m.grows_addClass y.name parent ms table
  have hclass : ∀ k, parent = some k → (m.addClass y.name parent ms table).Settled (.class_ k) :=
    fun k _ => settled_class k
  have hvalues := ((h.valuesIn hg).withMethodStore hclass).withScripts (m.methodStore parent).1 ms
  have hscripts : (m.addClass y.name parent ms table).heap.Scripts
      fun d => ∃ c ss, d.Known (fun _ => True) c ss :=
    h.scripts.withScripts _ fun d hd => ⟨_, _, hk.method hd⟩
  have hinstances : ∀ i, ((m.addClass y.name parent ms table).heap.instance_ i).bound =
      (m.heap.instance_ i).bound := fun _ => rfl
  refine ⟨h.later.trans hg, hscripts,
    hvalues.newClass (fun _ => trivial) fun _ => settled_class _, ?_, ?_⟩
  · intro k x f hf
    rw [Machine.addClass, Heap.class_newClass] at hf
    split at hf
    · obtain ⟨j, d, hj, rfl, hindex⟩ := ht x f hf
      have hlt : j < ms.length := (List.getElem?_eq_some_iff.mp hj).1
      have hc : (m.addClass y.name parent ms table).heap.callable f =
          .script d (m.methodStore parent).1 d.isInit :=
        m.heap.callable_withScripts _ hj hindex
      refine ⟨?_, (Heap.isInitializer_script hc).trans beq_iff_eq⟩
      simp [Machine.addClass, Heap.newClass, Heap.hasCallable, Heap.withScripts, hindex, hlt]
    · exact (h.tables k x f hf).mono hg.heap
  · intro i x f hf
    obtain ⟨hb, hm⟩ := h.remembered i x f (hinstances i ▸ hf)
    exact ⟨hb.mono hg, hm.mono hg.heap⟩

theorem addInstance (h : m₀.Initialized m) {o : Instance} (ho : o.Fresh) :
    m₀.Initialized (m.addInstance o) := by
  have hvalues := h.values.addInstance ho (fun _ => settled_plain) (settled_class _)
  refine ⟨⟨h.later.store, h.later.heap⟩, h.scripts, hvalues, h.tables, fun i x f hf => ?_⟩
  rw [Machine.addInstance, Heap.instance_newInstance] at hf
  split at hf
  · rw [ho.bound] at hf; cases hf
  · exact h.remembered i x f hf

theorem putField (h : m₀.Initialized m) {v : Value} (hv : m.Settled v) :
    m₀.Initialized { m with heap := m.heap.putField i x v } := by
  have hvalues := h.values.putField (i := i) (x := x) hv
  refine ⟨⟨h.later.store, h.later.heap⟩, h.scripts, hvalues, h.tables, fun j y f hf => ?_⟩
  dsimp only at hf
  rw [Heap.putField, Heap.instance_modify] at hf
  split at hf
  · rename_i hji
    exact h.remembered j y f (hji.1 ▸ hf)
  · exact h.remembered j y f hf

theorem putBound (h : m₀.Initialized m) (hb : m.BoundTo f i) (hm : m.heap.HasMethod x f) :
    m₀.Initialized { m with heap := m.heap.putBound i x f } := by
  have hvalues := h.values.putBound (i := i) (x := x) hb.settled
  refine ⟨⟨h.later.store, h.later.heap⟩, h.scripts, hvalues, h.tables, fun j y g hg => ?_⟩
  dsimp only at hg
  rw [Heap.putBound, Heap.instance_modify] at hg
  split at hg
  · rename_i hji
    obtain ⟨rfl, -⟩ := hji
    dsimp only at hg
    rw [Bindings.get?_insert] at hg
    split at hg
    · rename_i hyx
      cases hg
      exact ⟨hb, hyx ▸ hm⟩
    · exact h.remembered j y g hg
  · exact h.remembered j y g hg

end Initialized

end Machine

/-- Evaluation keeps functions and methods in order. -/
def Regime.initialized (c : Context) (m₀ : Machine) : Regime c where
  inv := m₀.Initialized
  le m m' := m.Grows m'
  crash := True
  le_refl m := .refl m
  le_trans h h' := h.trans h'
  ok m v := m.Settled v
  okMethod _ _ := True
  name x := ¬ Reserved x
  atExpr _ e := ∃ c ss, e.Known (fun _ => True) c ss
  atStmt _ s := ∃ c ss, s.Known (fun _ => True) c ss
  atBlock _ body := ∃ c ss, Stmt.ListKnown (fun _ => True) c ss body
  after _ _ := True
  ok_le h hv := hv.mono h
  ok_env _ _ hv := hv
  okMethod_le _ _ := trivial
  atExpr_le _ he := he
  atStmt_le _ hs := hs
  atExpr_child := by
    rintro m e e' ⟨c, ss, hk⟩ he
    exact ⟨c, ss, hk.child he⟩
  name_assign := by
    rintro m k x e ⟨c, ss, hk⟩
    refine hk.unreserved x.name (List.mem_filterMap.mpr ⟨.assign k x e, ?_, rfl⟩)
    rw [Expr.nodes]
    exact List.mem_append_right _ List.mem_cons_self
  atStmt_expr := by
    rintro m s e ⟨c, ss, hk⟩ he
    rcases hk.expr he with hk | ⟨x, -, hk⟩
    · exact ⟨c, ss, hk⟩
    · exact ⟨c, ss.declare x, hk⟩
  atStmt_branch := by
    rintro m s t ⟨c, ss, hk⟩ ht
    exact ⟨c, ss, hk.branch ht⟩
  atStmt_parent := by
    rintro m x p ms sp ⟨c, ss, hk⟩ -
    exact ⟨c, ss.introduce x.name, hk.parent⟩
  name_declares := by
    rintro m s x ⟨c, ss, hk⟩ hx
    exact hk.declares hx
  atBlock_head := by
    rintro m s rest ⟨c, ss, hk⟩
    exact ⟨c, ss, hk.head⟩
  atBlock_tail := by
    rintro m m' s rest ⟨c, ss, hk⟩ - -
    exact ⟨c, ss.after s, hk.tail⟩
  ok_plain hv := Machine.settled_plain hv
  ok_own hi hv := hi.values.vars hv
  ok_field hi hv := hi.values.fields hv
  ok_bound hi hf := hi.values.bound hf
  ok_table _ _ := trivial
  ok_class _ _ := Machine.settled_class _
  ok_hostClass _ _ := Machine.settled_class _
  ok_receiver _ _ _ := Machine.settled_instance _
  has_class _ _ := .inl trivial
  has_instance _ _ := .inl trivial
  has_callable _ _ := .inl trivial
  has_method _ _ := .inl trivial
  native_arity _ _ _ := .inl trivial
  constructor_arity _ _ := .inl trivial
  line hi _ := ⟨⟨⟨hi.later.store, hi.later.heap⟩, hi.scripts, { hi.values with }, hi.tables,
    hi.remembered⟩, .refl _, .refl _⟩
  console hi _ := ⟨⟨⟨hi.later.store, hi.later.heap⟩, hi.scripts, { hi.values with }, hi.tables,
    hi.remembered⟩, .refl _, .refl _⟩
  cells {m} hi cs :=
    have hg : m.Grows (m.withCells cs) := ⟨.withCells _ cs, .refl _⟩
    ⟨hi.grow hg hi.scripts { hi.valuesIn hg with } (fun _ => rfl) fun _ => rfl, hg⟩
  declare {m x v} hi hx hv := ⟨hi.bind m.env hx hv, m.grows_bind m.env hx v⟩
  assign {m e x _ v} hi hx _ hv := ⟨hi.bind e hx hv, m.grows_bind e hx v⟩
  putField hi hv := ⟨hi.putField hv, .refl _, .refl _⟩
  putBound hi₀ hi _ hbound := by
    obtain ⟨hb, hm⟩ := hi₀.boundTo_of_bindFound hbound
    exact ⟨hi.putBound hb hm, .refl _, .refl _⟩
  bindScript {m _ d closure isInit i} hi _ hc _ _ :=
    ⟨hi.bindScript hc i, m.grows_bindScript d closure isInit i,
      (m.boundTo_bindScript d closure isInit i).1.settled⟩
  bindHost {m _ g i _} hi _ _ _ _ :=
    ⟨hi.bindHost g i, m.grows_addCallable _, (m.boundTo_bindHost g i).1.settled⟩
  function := by
    rintro m d hi ⟨c, ss, hk⟩
    exact ⟨hi.declareFunction hk, m.grows_declareFunction (hk.declares rfl), trivial⟩
  newClass := by
    rintro m x super ms sp parent table hi ⟨c, ss, hk⟩ - - - ht
    exact ⟨hi.addClass hk ht, m.grows_addClass _ _ _ _, fun _ => nofun⟩
  newInstance hi _ ho _ := ⟨hi.addInstance ho, ⟨.refl _, .refl _⟩, fun _ => nofun⟩
  enterBlock := by
    rintro m body sp hi ⟨c, ss, hk⟩
    exact ⟨hi.enter nofun, c, Bindings.empty :: ss, hk.block⟩
  enterCall := by
    intro m f d closure isInit args hi _ hc _ hargs _
    obtain ⟨c, ss, hd⟩ := hi.scripts f d closure isInit hc
    let sc : Scope := ⟨.ofList ((d.params.map (·.name)).zip args), some closure⟩
    have hentered : m₀.Initialized (m.enter sc) :=
      hi.enter fun {x v} hv => hargs v (List.of_mem_zip (Bindings.mem_of_get?_ofList hv)).2
    exact ⟨hentered.moved _ _, c, _, hd.body⟩
  leaveBlock {m m' sc} _ h hi' :=
    ⟨hi'.moved m.env m'.depth, (m.grows_enter sc).trans ⟨h.store, h.heap⟩⟩
  leaveCall {m m' _ _ _} _ h hi' :=
    ⟨hi'.moved m.env (m'.depth - 1), (m.grows_enter _).trans ⟨h.store, h.heap⟩⟩

end HostScript
