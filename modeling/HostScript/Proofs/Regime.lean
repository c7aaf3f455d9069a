import HostScript.Proofs.Activity
import HostScript.Proofs.Tree

/-!
# Regimes

A regime is what it takes for a property of machines to hold throughout every run. It names an
invariant of machines, the values that may be around, the relation between a machine and a later one,
and what has to be known of a piece of code before it runs; and it answers for each way in which
evaluation reads or changes a machine. `Proofs/Regime/Sound.lean` shows that this is enough: evaluation
under a regime keeps to it, and everything it reaches starts within it.
-/

namespace HostScript

/-- A value that is no handle of an object. -/
def Value.plain : Value → Bool
  | class_ _ | instance_ _ | function _ => false
  | _ => true

/-- An instance that holds no handle but that of its class. -/
structure Instance.Fresh (o : Instance) : Prop where
  fields : ∀ x v, o.fields.get? x = some v → v.plain = true
  bound : o.bound = .empty

theorem HostVector.size_ofValues (s : Cells) (xs : List Float32) :
    (ofValues s xs).1.size = xs.length :=
  List.length_range'

/-- The heap with functions of a script put on it, one behind the other. -/
def Heap.withScripts (h : Heap) (closure : ScopeId) (ms : List FunctionDecl) : Heap :=
  { h with callables := h.callables ++
      (ms.map fun d => Callable.script d closure d.isInit).toArray }

namespace Machine

def withCells (m : Machine) (cells : Cells) : Machine :=
  { m with store := { m.store with cells := cells } }

/-- Bind a name in a scope. -/
def bind (m : Machine) (e : ScopeId) (x : String) (v : Value) : Machine :=
  { m with store := m.store.define e x v }

/-- Open a scope and be in it. -/
def enter (m : Machine) (sc : Scope) : Machine :=
  { m with store := (m.store.open sc).2, env := (m.store.open sc).1 }

/-- Open the scope of a call, one call deeper. -/
def enterCall (m : Machine) (d : FunctionDecl) (closure : ScopeId) (args : List Value) : Machine :=
  { m.enter ⟨.ofList ((d.params.map (·.name)).zip args), some closure⟩ with depth := m.depth + 1 }

def addCallable (m : Machine) (f : Callable) : Machine :=
  { m with heap := (m.heap.newCallable f).2 }

def addInstance (m : Machine) (o : Instance) : Machine :=
  { m with heap := (m.heap.newInstance o).2 }

/-- The number of the next callable. -/
def nextCallable (m : Machine) : CallableId := ⟨m.heap.callables.size⟩

def nextInstance (m : Machine) : InstanceId := ⟨m.heap.instances.size⟩

def nextClass (m : Machine) : ClassId := ⟨m.heap.classes.size⟩

def nextScope (m : Machine) : ScopeId := ⟨m.store.scopes.size⟩

/-- Bind a script method to an instance: a scope with `this`, and the method over it. -/
def bindScript (m : Machine) (d : FunctionDecl) (closure : ScopeId) (isInit : Bool)
    (i : InstanceId) : Machine :=
  { m with
    store := (m.store.open ⟨.ofList [(Resolution.thisName, .instance_ i)], some closure⟩).2
    heap := (m.heap.newCallable (.script d m.nextScope isInit)).2 }

/-- Declare a function in the innermost scope. -/
def declareFunction (m : Machine) (d : FunctionDecl) : Machine :=
  (m.addCallable (.script d m.env false)).bind m.env d.name.name (.function m.nextCallable)

/-- The scope of the methods of a class, and the store with it. -/
def methodStore (m : Machine) : Option ClassId → ScopeId × Store
  | none => (m.env, m.store)
  | some k => m.store.open ⟨.ofList [(Resolution.superName, .class_ k)], some m.env⟩

/-- Put a class and its methods on the heap. -/
def addClass (m : Machine) (x : String) (parent : Option ClassId) (methods : List FunctionDecl)
    (table : Bindings CallableId) : Machine :=
  let heap := m.heap.withScripts (m.methodStore parent).1 methods
  { m with
    store := (m.methodStore parent).2
    heap := (heap.newClass ⟨x, parent, table, .script⟩).2 }

/-- The table of the methods of a class, put on the heap from number `n` on. -/
def MethodTable (n : Nat) (methods : List FunctionDecl) (table : Bindings CallableId) : Prop :=
  ∀ x f, table.get? x = some f →
    ∃ j d, methods[j]? = some d ∧ d.name.name = x ∧ f.index = n + j

/-- Instances of the class may be made around host objects of the type: it is the class for the type, or
has a native constructor for it. -/
def Wraps (m : Machine) (k : ClassId) (t : HostType) : Prop :=
  m.hostClasses.lookup t = some k ∨ ∃ n, m.heap.nativeConstructor k = some (n, t)

/-- An instance that evaluation makes. One without a host object is of a class with an initializer, or of
one that makes no host objects. -/
inductive Creates (m : Machine) : Instance → Prop where
  | plain {k : ClassId} (h : (m.heap.findMethod k initName).isSome ∨ m.heap.nativeConstructor k = none) :
      Creates m (.plain k)
  | host {k : ClassId} {o : HostObject} (h : m.Wraps k o.type) : Creates m (.ofHost k o)

/-- A method that evaluation binds to an instance: its class has or inherits it, or `super` does in the
scope around that in which the instance is `this`. -/
inductive Offers (m : Machine) (f : CallableId) (i : InstanceId) : Prop where
  | own {x : String} (hf : m.heap.findMethod (m.heap.instance_ i).class_ x = some f)
  | super {d : Nat} {k : ClassId} {x : String}
      (hk : m.store.getAt? m.env (d + 1) Resolution.superName = some (.class_ k))
      (hi : m.store.getAt? m.env d Resolution.thisName = some (.instance_ i))
      (hf : m.heap.findMethod k x = some f)

end Machine

/-- An invariant, a relation to later machines, and whether crashes are ruled out. -/
structure Frame where
  inv : Machine → Prop
  le : Machine → Machine → Prop
  /-- What a crash would show. -/
  crash : Prop
  le_refl : ∀ m, le m m
  le_trans : ∀ {a b d}, le a b → le b d → le a d

/-- What has to hold for evaluation to keep an invariant. -/
structure Regime (c : Context) extends Frame where
  /-- The values that may be around. -/
  ok : Machine → Value → Prop
  /-- The callables that may be in the table of a class. -/
  okMethod : Machine → CallableId → Prop
  /-- The names that scripts bind. -/
  name : String → Prop
  atExpr : Machine → Expr → Prop
  atStmt : Machine → Stmt → Prop
  atBlock : Machine → List Stmt → Prop
  /-- What a statement that was completed leaves behind. -/
  after : Stmt → Machine → Prop
  -- All of it outlasts later changes.
  ok_le : ∀ {m m' v}, le m m' → ok m v → ok m' v
  ok_env : ∀ {m v} (e : ScopeId) (d : Nat), ok m v → ok { m with env := e, depth := d } v
  okMethod_le : ∀ {m m' f}, le m m' → okMethod m f → okMethod m' f
  atExpr_le : ∀ {m m' e}, le m m' → atExpr m e → atExpr m' e := by intros; trivial
  atStmt_le : ∀ {m m' s}, le m m' → atStmt m s → atStmt m' s := by intros; trivial
  after_le : ∀ {m m' s}, le m m' → after s m → after s m' := by intros; trivial
  -- Code is made of code.
  atExpr_child : ∀ {m e e'}, atExpr m e → e' ∈ e.children → atExpr m e' := by intros; trivial
  name_assign : ∀ {m k x e}, atExpr m (.assign k x e) → name x.name := by intros; trivial
  atStmt_expr : ∀ {m s e}, atStmt m s → e ∈ s.exprs → atExpr m e := by intros; trivial
  atStmt_branch : ∀ {m s t}, atStmt m s → t ∈ s.branches → atStmt m t := by intros; trivial
  atStmt_parent : ∀ {m x p ms sp}, atStmt m (.class_ x (some p) ms sp) →
    after (.class_ x (some p) ms sp) m → atExpr m p.toExpr := by intros; trivial
  name_declares : ∀ {m s x}, atStmt m s → s.declares = some x → name x := by intros; trivial
  atBlock_head : ∀ {m s rest}, atBlock m (s :: rest) → atStmt m s := by intros; trivial
  atBlock_tail : ∀ {m m' s rest}, atBlock m (s :: rest) → le m m' → after s m' → atBlock m' rest
    := by intros; trivial
  after_undeclaring : ∀ {m s}, s.declares = none → after s m := by intros; trivial
  -- What is read off a machine may be around.
  ok_plain : ∀ {m v}, v.plain = true → ok m v
  ok_own : ∀ {m e x v}, inv m → m.store.own? e x = some v → ok m v
  ok_field : ∀ {m i x v}, inv m → (m.heap.instance_ i).fields.get? x = some v → ok m v
  ok_bound : ∀ {m i x f}, inv m → (m.heap.instance_ i).bound.get? x = some f → ok m (.function f)
  ok_table : ∀ {m k x f}, inv m → (m.heap.class_ k).methods.get? x = some f → okMethod m f
  ok_class : ∀ {m i}, inv m → ok m (.instance_ i) → ok m (.class_ (m.heap.instance_ i).class_)
  ok_hostClass : ∀ {m t k}, inv m → m.hostClasses.lookup t = some k → ok m (.class_ k)
  ok_receiver : ∀ {m f g i}, inv m → ok m (.function f) →
    m.heap.callable f = .method g (some i) → ok m (.instance_ i)
  -- No table is read past its end.
  has_class : ∀ {m k}, inv m → ok m (.class_ k) → crash ∨ m.heap.hasClass k = true
  has_instance : ∀ {m i}, inv m → ok m (.instance_ i) → crash ∨ m.heap.hasInstance i = true
  has_callable : ∀ {m f}, inv m → ok m (.function f) → crash ∨ m.heap.hasCallable f = true
  has_method : ∀ {m f}, inv m → okMethod m f → crash ∨ m.heap.hasCallable f = true
  native_arity : ∀ {m f x n g}, inv m → ok m (.function f) → m.heap.callable f = .native x n g →
    crash ∨ n = g.arity
  constructor_arity : ∀ {m k n t}, inv m → (m.heap.class_ k).native? = some (n, t) →
    crash ∨ n = t.arity
  -- The changes.
  line : ∀ {m}, inv m → ∀ l, inv { m with line := l } ∧ le m { m with line := l }
  console : ∀ {m}, inv m → ∀ k, inv { m with console := k } ∧ le m { m with console := k }
  cells : ∀ {m}, inv m → ∀ cs, inv (m.withCells cs) ∧ le m (m.withCells cs)
  declare : ∀ {m x v}, inv m → name x → ok m v → inv (m.bind m.env x v) ∧ le m (m.bind m.env x v)
  after_declare : ∀ {m s x v}, inv m → atStmt m s → s.declares = some x →
    after s (m.bind m.env x v) := by intros; trivial
  assign : ∀ {m e x slot v}, inv m → name x → m.store.own? e x = some slot → ok m v →
    inv (m.bind e x v) ∧ le m (m.bind e x v)
  putField : ∀ {m i x v}, inv m → ok m v →
    inv { m with heap := m.heap.putField i x v } ∧ le m { m with heap := m.heap.putField i x v }
  putBound : ∀ {m₀ m k i x line f}, inv m₀ → inv m → ok m (.function f) →
    Machine.bindFound k x i line m₀ = .done f m →
    inv { m with heap := m.heap.putBound i x f } ∧ le m { m with heap := m.heap.putBound i x f }
  bindScript : ∀ {m f d closure isInit i}, inv m → okMethod m f →
    m.heap.callable f = .script d closure isInit → ok m (.instance_ i) → m.Offers f i →
    inv (m.bindScript d closure isInit i) ∧ le m (m.bindScript d closure isInit i) ∧
      ok (m.bindScript d closure isInit i) (.function m.nextCallable)
  bindHost : ∀ {m f g i} {rc : Option InstanceId}, inv m → okMethod m f →
    m.heap.callable f = .method g rc → ok m (.instance_ i) → m.Offers f i →
    inv (m.addCallable (.method g (some i))) ∧ le m (m.addCallable (.method g (some i))) ∧
      ok (m.addCallable (.method g (some i))) (.function m.nextCallable)
  function : ∀ {m d}, inv m → atStmt m (.function d) →
    inv (m.declareFunction d) ∧ le m (m.declareFunction d) ∧
      after (.function d) (m.declareFunction d)
  newClass : ∀ {m x super ms sp parent table}, inv m → atStmt m (.class_ x super ms sp) →
    after (.class_ x super ms sp) m → parent.isSome = super.isSome →
    (∀ k, parent = some k → ok m (.class_ k)) →
    Machine.MethodTable m.heap.callables.size ms table →
    inv (m.addClass x.name parent ms table) ∧ le m (m.addClass x.name parent ms table) ∧
      ok (m.addClass x.name parent ms table) (.class_ m.nextClass)
  newInstance : ∀ {m o}, inv m → ok m (.class_ o.class_) → o.Fresh → m.Creates o →
    inv (m.addInstance o) ∧ le m (m.addInstance o) ∧
      ok (m.addInstance o) (.instance_ m.nextInstance)
  -- Scopes are entered and left.
  enterBlock : ∀ {m body sp}, inv m → atStmt m (.block body sp) →
    inv (m.enter ⟨.empty, some m.env⟩) ∧ atBlock (m.enter ⟨.empty, some m.env⟩) body
  enterCall : ∀ {m f d closure isInit args}, inv m → ok m (.function f) →
    m.heap.callable f = .script d closure isInit → args.length = d.arity → (∀ v ∈ args, ok m v) →
    m.depth < c.maxDepth →
    inv (m.enterCall d closure args) ∧ atBlock (m.enterCall d closure args) d.body
  leaveBlock : ∀ {m m' sc}, inv m → le (m.enter sc) m' → inv m' →
    inv { m' with env := m.env } ∧ le m { m' with env := m.env }
  leaveCall : ∀ {m m' d closure args}, inv m → le (m.enterCall d closure args) m' → inv m' →
    inv { m' with env := m.env, depth := m'.depth - 1 } ∧
      le m { m' with env := m.env, depth := m'.depth - 1 }

end HostScript
