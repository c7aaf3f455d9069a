import HostScript.Proofs.Scoping.Alignment

/-!
# Code that runs in line

A script function may be around if its scope is in line with the static scopes in which its body was
visited. A method in the table of a class lacks the scope with `this`, which it gets when it is bound to
an instance. Evaluation keeps to that, so all code runs in a scope that is in line with the visits of
its nodes.
-/

namespace HostScript

open Resolution (thisName superName)

/-- The scope of a bound method, around the scope of a call. -/
def thisScope : StaticScope :=
  Bindings.empty.insert thisName true

/-- The scope around the methods of a subclass. -/
def superScope : StaticScope :=
  Bindings.empty.insert superName true

/-- A script function lies in a scope that is in line with the scopes around its visits; `around`
stands for scopes that are still to be opened. -/
def Callable.InLine (V : Visit → Prop) (S : Store) (around : StaticScopes) : Callable → Prop
  | .script d closure _ => ∃ c ss, S.Aligned closure ss ∧ d.Known V c (around ++ ss)
  | _ => True

namespace Machine

/-- A later machine. -/
structure Grows (m m' : Machine) : Prop where
  store : m.store.Grows m'.store
  heap : m.heap.Keeps m'.heap

/-- The callable is there and in line. -/
def InLine (V : Visit → Prop) (around : StaticScopes) (m : Machine) (f : CallableId) : Prop :=
  m.heap.hasCallable f = true ∧ (m.heap.callable f).InLine V m.store around

/-- A value that may be around. -/
def Around (V : Visit → Prop) (m : Machine) (v : Value) : Prop :=
  ∀ f, v = .function f → m.InLine V [] f

/-- The innermost scope is in line with scopes of which something is known. -/
def At (m : Machine) (known : Surroundings → StaticScopes → Prop) : Prop :=
  ∃ c ss, m.store.Aligned m.env ss ∧ known c ss

/-- All functions and methods on a machine are in line. -/
structure AllInLine (V : Visit → Prop) (m : Machine) : Prop where
  globals : 0 < m.store.scopes.size
  stores : m.Stores (m.Around V) (m.InLine V [thisScope])

variable {V : Visit → Prop} {around : StaticScopes} {m m' m'' : Machine} {f : CallableId}

theorem Grows.refl (m : Machine) : m.Grows m :=
  ⟨.refl _, .refl _⟩

theorem Grows.trans (h : m.Grows m') (h' : m'.Grows m'') : m.Grows m'' :=
  ⟨h.store.trans h'.store, h.heap.trans h'.heap⟩

theorem InLine.mono (h : m.InLine V around f) (hg : m.Grows m') : m'.InLine V around f := by
  obtain ⟨hf, hline⟩ := h
  obtain ⟨hf', heq⟩ := hg.heap f hf
  refine ⟨hf', ?_⟩
  rw [heq]
  cases hc : m.heap.callable f with
  | script d closure isInit =>
    rw [hc] at hline
    obtain ⟨c, ss, hss, hd⟩ := hline
    exact ⟨c, ss, hss.mono hg.store, hd⟩
  | native | method => trivial

/-- With more visits, what was in line is in line. -/
theorem InLine.widen {V' : Visit → Prop} (h : m.InLine V around f) (hV : ∀ v, V v → V' v) :
    m.InLine V' around f := by
  obtain ⟨hf, hline⟩ := h
  refine ⟨hf, ?_⟩
  cases hc : m.heap.callable f with
  | script d closure isInit =>
    rw [hc] at hline
    obtain ⟨c, ss, hss, hd⟩ := hline
    exact ⟨c, ss, hss, hd.mono hV⟩
  | native | method => trivial

theorem Around.widen {V' : Visit → Prop} {v : Value} (h : m.Around V v)
    (hV : ∀ v, V v → V' v) : m.Around V' v :=
  fun f hf => (h f hf).widen hV

theorem AllInLine.widen {V' : Visit → Prop} (h : m.AllInLine V) (hV : ∀ v, V v → V' v) :
    m.AllInLine V' :=
  ⟨h.globals, h.stores.mono (fun _ hv => hv.widen hV) fun _ hf => hf.widen hV⟩

theorem Around.mono {v : Value} (h : m.Around V v) (hg : m.Grows m') : m'.Around V v :=
  fun f hv => (h f hv).mono hg

theorem around_plain {v : Value} (hv : v.plain = true) : m.Around V v := by
  rintro f rfl
  cases hv

/-- What is stored, as seen from a later machine. -/
theorem AllInLine.storesIn (h : m.AllInLine V) (hg : m.Grows m') :
    m.Stores (m'.Around V) (m'.InLine V [thisScope]) :=
  h.stores.mono (fun _ hv => hv.mono hg) fun _ hf => hf.mono hg

theorem inLine_newCallable (m : Machine) {g : Callable} {S : Store}
    (hg : g.InLine V S around) :
    { m with store := S, heap := (m.heap.newCallable g).2 }.InLine V around m.nextCallable := by
  have heq : (m.heap.newCallable g).2.callable m.nextCallable = g := by
    rw [Heap.callable_newCallable]
    exact if_pos rfl
  refine ⟨?_, ?_⟩
  · simp [Heap.hasCallable, Heap.newCallable, nextCallable]
  · dsimp only
    rw [heq]
    exact hg

/-! ### The changes -/

theorem grows_bind (m : Machine) (e : ScopeId) {x : String} (hx : ¬ Reserved x) (v : Value) :
    m.Grows (m.bind e x v) :=
  ⟨m.store.grows_define e hx v, .refl _⟩

theorem grows_addCallable (m : Machine) (g : Callable) : m.Grows (m.addCallable g) :=
  ⟨.refl _, .newCallable _ _⟩

theorem grows_declareFunction (m : Machine) {d : FunctionDecl} (hx : ¬ Reserved d.name.name) :
    m.Grows (m.declareFunction d) :=
  (m.grows_addCallable _).trans (grows_bind _ m.env hx _)

theorem grows_bindScript (m : Machine) (d : FunctionDecl) (closure : ScopeId) (isInit : Bool)
    (i : InstanceId) : m.Grows (m.bindScript d closure isInit i) :=
  ⟨m.store.grows_open _, .newCallable _ _⟩

theorem grows_enter (m : Machine) (sc : Scope) : m.Grows (m.enter sc) :=
  ⟨m.store.grows_open sc, .refl _⟩

theorem grows_methodStore (m : Machine) (parent : Option ClassId) :
    m.store.Grows (m.methodStore parent).2 := by
  cases parent with
  | none => exact .refl _
  | some k => exact m.store.grows_open _

theorem grows_addClass (m : Machine) (x : String) (parent : Option ClassId)
    (ms : List FunctionDecl) (table : Bindings CallableId) :
    m.Grows (m.addClass x parent ms table) :=
  ⟨m.grows_methodStore parent, .withScripts _ _ _⟩

namespace AllInLine

theorem bind (h : m.AllInLine V) (e : ScopeId) {x : String} (hx : ¬ Reserved x) {v : Value}
    (hv : m.Around V v) : (m.bind e x v).AllInLine V := by
  have hg := m.grows_bind e hx v
  exact ⟨Nat.lt_of_lt_of_le h.globals hg.store.size, (h.storesIn hg).bind (hv.mono hg)⟩

theorem addCallable (h : m.AllInLine V) (g : Callable) : (m.addCallable g).AllInLine V :=
  ⟨h.globals, (h.storesIn (m.grows_addCallable g)).addCallable fun _ => nofun⟩

theorem bindScript (h : m.AllInLine V) (d : FunctionDecl) (closure : ScopeId) (isInit : Bool)
    (i : InstanceId) : (m.bindScript d closure isInit i).AllInLine V := by
  have hg := m.grows_bindScript d closure isInit i
  exact ⟨Nat.lt_of_lt_of_le h.globals hg.store.size, (h.storesIn hg).bindScript nofun⟩

/-- A scope is opened and entered. -/
theorem enter (h : m.AllInLine V) {sc : Scope}
    (hsc : ∀ {x v}, sc.vars.get? x = some v → m.Around V v) : (m.enter sc).AllInLine V := by
  have hg := m.grows_enter sc
  exact ⟨Nat.lt_of_lt_of_le h.globals hg.store.size,
    (h.storesIn hg).enter fun hv => (hsc hv).mono hg⟩

end AllInLine

/-- A name that is the only one of a static scope. -/
theorem contains_of_single {x y : String} {v : Value}
    (h : (Bindings.empty.insert x true : StaticScope).get? y = some true) :
    (Bindings.ofList [(x, v)]).contains y = true := by
  rw [Bindings.get?_insert] at h
  split at h
  · rename_i heq
    exact Bindings.contains_ofList (by simp [heq])
  · cases h

/-- A bound method has its `this` around it. -/
theorem inLine_bindScript (h : m.AllInLine V) {d : FunctionDecl} {closure : ScopeId}
    {isInit : Bool} (hf : m.InLine V [thisScope] f)
    (hc : m.heap.callable f = .script d closure isInit) (i : InstanceId) :
    (m.bindScript d closure isInit i).InLine V [] m.nextCallable := by
  obtain ⟨-, hline⟩ := hf
  rw [hc] at hline
  obtain ⟨c, ss, hss, hd⟩ := hline
  refine m.inLine_newCallable ⟨c, thisScope :: ss, hss.open h.globals ?_, hd⟩
  exact m.store.mirrors_open closure (fun _ => contains_of_single) (fun _ => ⟨i, rfl⟩) nofun

/-- A function that was declared is in line with the scopes in which its name is introduced. -/
theorem inLine_declareFunction (h : m.AllInLine V) {d : FunctionDecl} {c : Surroundings}
    {ss : StaticScopes} (hss : m.store.Aligned m.env ss) (hd : (Stmt.function d).Known V c ss) :
    (m.declareFunction d).InLine V [] m.nextCallable := by
  have hx := hd.declares rfl
  refine m.inLine_newCallable ⟨_, ss.introduce d.name.name, ?_, hd.function⟩
  exact (hss.mono (m.store.grows_define m.env hx _)).introduce hx
    (Store.contains_define (hss.index_lt h.globals) _)

theorem AllInLine.declareFunction (h : m.AllInLine V) {d : FunctionDecl} {c : Surroundings}
    {ss : StaticScopes} (hss : m.store.Aligned m.env ss) (hd : (Stmt.function d).Known V c ss) :
    (m.declareFunction d).AllInLine V := by
  have hg := m.grows_declareFunction (hd.declares rfl)
  refine ⟨Nat.lt_of_lt_of_le h.globals hg.store.size, (h.storesIn hg).declareFunction ?_⟩
  rintro f ⟨⟩
  exact inLine_declareFunction h hss hd

/-! ### Classes -/

/-- The scopes around those of `this` in the methods of a class. -/
def methodsAround (ss : StaticScopes) (super : Option Superclass) : StaticScopes :=
  match super with
  | none => ss
  | some _ => superScope :: ss

theorem methodScopes_eq (ss : StaticScopes) (super : Option Superclass) :
    Resolution.methodScopes ss super = [thisScope] ++ methodsAround ss super := by
  cases super <;> rfl

theorem aligned_methodStore (h : m.AllInLine V) {ss : StaticScopes}
    (hss : m.store.Aligned m.env ss) {super : Option Superclass} {parent : Option ClassId}
    (hparent : parent.isSome = super.isSome) :
    (m.methodStore parent).2.Aligned (m.methodStore parent).1 (methodsAround ss super) := by
  cases parent with
  | none =>
    cases super with
    | none => exact hss
    | some p => cases hparent
  | some k =>
    cases super with
    | none => cases hparent
    | some p =>
      refine hss.open h.globals ?_
      exact m.store.mirrors_open m.env (fun _ => contains_of_single) nofun fun _ => ⟨k, rfl⟩

/-- The methods of a new class are in line, once `this` is around them. -/
theorem inLine_addClass (h : m.AllInLine V) {x : Ident} {super : Option Superclass}
    {ms : List FunctionDecl} {sp : Span} {parent : Option ClassId} {table : Bindings CallableId}
    {c : Surroundings} {ss : StaticScopes} (hss : m.store.Aligned m.env (ss.introduce x.name))
    (hk : (Stmt.class_ x super ms sp).Known V c ss) (hparent : parent.isSome = super.isSome)
    {j : Nat} {d : FunctionDecl} (hj : ms[j]? = some d)
    (hf : f.index = m.heap.callables.size + j) :
    (m.addClass x.name parent ms table).InLine V [thisScope] f := by
  have hlt : j < ms.length := (List.getElem?_eq_some_iff.mp hj).1
  have hcallable : (m.addClass x.name parent ms table).heap.callable f =
      .script d (m.methodStore parent).1 d.isInit :=
    m.heap.callable_withScripts _ hj hf
  have hmethod := hk.method (List.mem_of_getElem? hj)
  rw [methodScopes_eq] at hmethod
  refine ⟨?_, ?_⟩
  · simp [addClass, Heap.newClass, Heap.hasCallable, Heap.withScripts, hf, hlt]
  · rw [hcallable]
    exact ⟨_, _, aligned_methodStore h hss hparent, hmethod⟩

theorem AllInLine.addClass (h : m.AllInLine V) {x : Ident} {super : Option Superclass}
    {ms : List FunctionDecl} {sp : Span} {parent : Option ClassId} {table : Bindings CallableId}
    {c : Surroundings} {ss : StaticScopes} (hss : m.store.Aligned m.env (ss.introduce x.name))
    (hk : (Stmt.class_ x super ms sp).Known V c ss) (hparent : parent.isSome = super.isSome)
    (ht : MethodTable m.heap.callables.size ms table) :
    (m.addClass x.name parent ms table).AllInLine V := by
  have hg := m.grows_addClass x.name parent ms table
  refine ⟨Nat.lt_of_lt_of_le h.globals hg.store.size, ?_⟩
  have hclass : ∀ k, parent = some k → (m.addClass x.name parent ms table).Around V (.class_ k) :=
    fun _ _ _ => nofun
  have hstores := ((h.storesIn hg).withMethodStore hclass).withScripts (m.methodStore parent).1 ms
  refine hstores.newClass (fun {y f} hf => ?_) fun _ => nofun
  obtain ⟨j, d, hj, -, hindex⟩ := ht y f hf
  exact inLine_addClass h hss hk hparent hj hindex

/-! ### Calls -/

/-- The scope of a call mirrors the parameters of the function. -/
theorem aligned_enterCall (h : m.AllInLine V) {d : FunctionDecl} {closure : ScopeId}
    {args : List Value} {c : Surroundings} {ss : StaticScopes} (hss : m.store.Aligned closure ss)
    (hd : d.Known V c ss) (hlen : args.length = d.arity) :
    (m.enterCall d closure args).store.Aligned (m.enterCall d closure args).env
      (Resolution.ofParams (Bindings.empty :: ss) d.params).1 := by
  obtain ⟨sc, heq, hget⟩ := StaticScopes.ofParams_cons Bindings.empty ss d.params
  have hnames : ∀ y, sc.contains y = true → y ∈ d.params.map (·.name) := by
    intro y hy
    unfold Bindings.contains at hy
    rw [hget] at hy
    split at hy
    · assumption
    · cases hy
  -- The reserved names are not among the parameters.
  have hfree : ∀ y, Reserved y → sc.contains y = false := by
    intro y hy
    exact Bool.eq_false_iff.mpr fun hc => hd.param (hnames y hc) hy
  rw [heq]
  refine hss.open h.globals (m.store.mirrors_open closure (fun y hy => ?_) ?_ ?_)
  · refine Bindings.contains_ofList ?_
    rw [List.map_fst_zip (by simp [hlen, FunctionDecl.arity])]
    exact hnames y (by rw [Bindings.contains, hy]; rfl)
  · intro ht
    rw [hfree _ (.inl rfl)] at ht
    cases ht
  · intro hs
    rw [hfree _ (.inr rfl)] at hs
    cases hs

theorem At.mono {known : Surroundings → StaticScopes → Prop} (h : m.At known)
    (henv : m'.env = m.env) (hg : m.Grows m') : m'.At known := by
  obtain ⟨c, ss, hss, hk⟩ := h
  refine ⟨c, ss, ?_, hk⟩
  rw [henv]
  exact hss.mono hg.store

theorem At.imp {known known' : Surroundings → StaticScopes → Prop} (h : m.At known)
    (hk : ∀ c ss, known c ss → known' c ss) : m.At known' := by
  obtain ⟨c, ss, hss, hknown⟩ := h
  exact ⟨c, ss, hss, hk c ss hknown⟩

theorem At.expr {s : Stmt} {e : Expr} (h : m.At fun c ss => s.Known V c ss) (he : e ∈ s.exprs) :
    m.At fun c ss => e.Known V c ss := by
  obtain ⟨c, ss, hss, hs⟩ := h
  rcases hs.expr he with hk | ⟨x, hx, hk⟩
  · exact ⟨c, ss, hss, hk⟩
  · exact ⟨c, ss.declare x, hss.declare hx, hk⟩

/-- Behind a statement that has bound its name, the next one is in line. -/
theorem At.tail {s : Stmt} {rest : List Stmt}
    (h : m.At fun c ss => Stmt.ListKnown V c ss (s :: rest))
    (hbound : ∀ x, s.declares = some x → m.store.contains m.env x = true) :
    m.At fun c ss => Stmt.ListKnown V c ss rest := by
  obtain ⟨c, ss, hss, hs⟩ := h
  refine ⟨c, ss.after s, ?_, hs.tail⟩
  unfold StaticScopes.after
  split
  · exact hss
  · rename_i x hx
    exact hss.introduce (hs.head.declares hx) (hbound x hx)

end Machine

/-! ### The regime -/

/-- Evaluation keeps all functions and methods in line, and all code runs in line. -/
def Regime.inLine (c : Context) (V : Visit → Prop) : Regime c where
  inv := Machine.AllInLine V
  le m m' := m'.env = m.env ∧ m.Grows m'
  crash := True
  le_refl m := ⟨rfl, .refl m⟩
  le_trans h h' := ⟨h'.1.trans h.1, h.2.trans h'.2⟩
  ok m v := m.Around V v
  okMethod m f := m.InLine V [thisScope] f
  name x := ¬ Reserved x
  atExpr m e := m.At fun c ss => e.Known V c ss
  atStmt m s := m.At fun c ss => s.Known V c ss
  atBlock m body := m.At fun c ss => Stmt.ListKnown V c ss body
  after s m := ∀ x, s.declares = some x → m.store.contains m.env x = true
  ok_le h hv := hv.mono h.2
  ok_env _ _ hv := hv
  okMethod_le h hf := hf.mono h.2
  atExpr_le h he := he.mono h.1 h.2
  atStmt_le h hs := hs.mono h.1 h.2
  after_le h hs x hx := h.1 ▸ h.2.store.contains (hs x hx)
  atExpr_child he hc := he.imp fun _ _ hk => hk.child hc
  name_assign := by
    rintro m k x e ⟨c, ss, -, hk⟩
    refine hk.unreserved x.name (List.mem_filterMap.mpr ⟨.assign k x e, ?_, rfl⟩)
    rw [Expr.nodes]
    exact List.mem_append_right _ List.mem_cons_self
  atStmt_expr hs he := hs.expr he
  atStmt_branch hs ht := hs.imp fun _ _ hk => hk.branch ht
  atStmt_parent := by
    rintro m x p ms sp ⟨c, ss, hss, hk⟩ hbound
    exact ⟨c, ss.introduce x.name, hss.introduce (hk.declares rfl) (hbound _ rfl), hk.parent⟩
  name_declares := by
    rintro m s x ⟨c, ss, -, hk⟩ hx
    exact hk.declares hx
  atBlock_head hb := hb.imp fun _ _ hk => hk.head
  atBlock_tail hb h hbound := (hb.mono h.1 h.2).tail hbound
  after_undeclaring hs x hx := by rw [hs] at hx; cases hx
  ok_plain hv := Machine.around_plain hv
  ok_own hi hv := hi.stores.vars hv
  ok_field hi hv := hi.stores.fields hv
  ok_bound hi hf := hi.stores.bound hf
  ok_table hi hf := hi.stores.methods hf
  ok_class _ _ := fun _ => nofun
  ok_hostClass _ _ := fun _ => nofun
  ok_receiver _ _ _ := fun _ => nofun
  has_class _ _ := .inl trivial
  has_instance _ _ := .inl trivial
  has_callable _ _ := .inl trivial
  has_method _ _ := .inl trivial
  native_arity _ _ _ := .inl trivial
  constructor_arity _ _ := .inl trivial
  line hi _ := ⟨⟨hi.globals, { hi.stores with }⟩, rfl, .refl _, .refl _⟩
  console hi _ := ⟨⟨hi.globals, { hi.stores with }⟩, rfl, .refl _, .refl _⟩
  cells {m} hi cs :=
    have hg : m.Grows (m.withCells cs) := ⟨.withCells _ cs, .refl _⟩
    ⟨⟨hi.globals, { hi.storesIn hg with }⟩, rfl, hg⟩
  declare {m x v} hi hx hv := ⟨hi.bind m.env hx hv, rfl, m.grows_bind m.env hx v⟩
  after_declare := by
    rintro m s x v hi ⟨c, ss, hss, -⟩ hx y hy
    cases hx.symm.trans hy
    exact Store.contains_define (hss.index_lt hi.globals) v
  assign {m e x _ v} hi hx _ hv := ⟨hi.bind e hx hv, rfl, m.grows_bind e hx v⟩
  putField hi hv := ⟨⟨hi.globals, hi.stores.putField hv⟩, rfl, .refl _, .refl _⟩
  putBound _ hi hf _ := ⟨⟨hi.globals, hi.stores.putBound hf⟩, rfl, .refl _, .refl _⟩
  bindScript {m f d closure isInit i} hi hf hc _ _ := by
    refine ⟨hi.bindScript d closure isInit i, ⟨rfl, m.grows_bindScript d closure isInit i⟩, ?_⟩
    rintro _ ⟨⟩
    exact Machine.inLine_bindScript hi hf hc i
  bindHost {m _ g i _} hi _ _ _ _ := by
    refine ⟨hi.addCallable _, ⟨rfl, m.grows_addCallable _⟩, ?_⟩
    rintro _ ⟨⟩
    exact m.inLine_newCallable (g := .method g (some i)) trivial
  function := by
    rintro m d hi ⟨c, ss, hss, hk⟩
    refine ⟨hi.declareFunction hss hk, ⟨rfl, m.grows_declareFunction (hk.declares rfl)⟩, ?_⟩
    rintro _ ⟨⟩
    exact Store.contains_define (hss.index_lt hi.globals) _
  newClass := by
    rintro m x super ms sp parent table hi ⟨c, ss, hss, hk⟩ hbound hparent _ ht
    have hinner := hss.introduce (hk.declares rfl) (hbound _ rfl)
    exact ⟨hi.addClass hinner hk hparent ht, ⟨rfl, m.grows_addClass _ _ _ _⟩, fun _ => nofun⟩
  newInstance {m o} hi _ ho _ :=
    ⟨⟨hi.globals, hi.stores.addInstance ho (fun _ => Machine.around_plain) fun _ => nofun⟩,
      ⟨rfl, .refl _, .refl _⟩, fun _ => nofun⟩
  enterBlock := by
    rintro m body sp hi ⟨c, ss, hss, hk⟩
    refine ⟨hi.enter nofun, c, Bindings.empty :: ss, hss.open hi.globals ?_, hk.block⟩
    exact m.store.mirrors_open m.env nofun nofun nofun
  enterCall := by
    intro m f d closure isInit args hi hf hc hlen hargs _
    obtain ⟨-, hline⟩ := hf f rfl
    rw [hc] at hline
    obtain ⟨s, ss, hss, hd⟩ := hline
    refine ⟨?_, s, _, Machine.aligned_enterCall hi hss hd hlen, hd.body⟩
    let sc : Scope := ⟨.ofList ((d.params.map (·.name)).zip args), some closure⟩
    have hentered : (m.enter sc).AllInLine V :=
      hi.enter fun {x v} hv => hargs v (List.of_mem_zip (Bindings.mem_of_get?_ofList hv)).2
    exact ⟨hentered.globals, { hentered.stores with }⟩
  leaveBlock {m _ sc} _ h hi' :=
    ⟨⟨hi'.globals, { hi'.stores with }⟩, rfl, (m.grows_enter sc).trans ⟨h.2.store, h.2.heap⟩⟩
  leaveCall {m _ _ _ _} _ h hi' :=
    ⟨⟨hi'.globals, { hi'.stores with }⟩, rfl, (m.grows_enter _).trans ⟨h.2.store, h.2.heap⟩⟩

end HostScript
