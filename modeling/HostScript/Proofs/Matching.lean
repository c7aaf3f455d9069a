import HostScript.Proofs.Inheritance
import HostScript.Proofs.Initializers

/-!
# Host objects, classes and methods that match

A class for a host type has a native constructor and methods of the host, all for that type, and nothing
above it. Script classes lie below it, and inherit both. A machine is matched if everything on it is in
line with that: an instance around a host object is of a class for its type or of one below, a method of
the host that has a receiver has one of such a class, and an instance without a host object is of a class
that has an initializer, or makes no host objects.

A method is also found through `super`, in the scope around that in which `this` is bound. So each scope
that binds `this` has to be matched with the one around it, and that asks for what is known of the tables
of classes: the methods of a subclass lie in a scope that binds `super` to the class above.
-/

namespace HostScript

open Resolution (thisName superName)

namespace Heap

variable {h : Heap} {a b k : ClassId} {x : String} {f : CallableId}

/-- The class is there, and is the other one or lies below it. -/
def Below (h : Heap) (a b : ClassId) : Prop :=
  h.hasClass a = true ∧ h.inherits a b = true

theorem below_self (hd : h.Descends) (ha : h.hasClass a = true) : h.Below a a :=
  ⟨ha, hd.inherits_self a⟩

theorem Below.trans (hd : h.Descends) (hab : h.Below a b) (hbk : h.Below b k) : h.Below a k :=
  ⟨hab.1, hd.inherits_trans hab.2 hbk.2⟩

/-- What a search finds is at a class above. -/
theorem exists_below_of_search {β : Type} {ask : ClassId → Class → Option β} {y : β}
    (hd : h.Descends) (ha : h.hasClass a = true) (hy : h.search ask a = some y) :
    ∃ k, h.Below a k ∧ ask k (h.class_ k) = some y := by
  obtain ⟨ks, hks⟩ := hd.exists_chain a
  rw [hd.search_eq hks] at hy
  obtain ⟨k, hk, hask⟩ := List.exists_of_findSome?_eq_some hy
  exact ⟨k, ⟨ha, (hd.inherits_iff hks).mpr hk⟩, hask⟩

/-- Nothing is above a class that has no class above it. -/
theorem Below.chain (hd : h.Descends) (hab : h.Below a b) (hb : (h.class_ b).superclass = none) :
    ∃ ks, h.Chain a (ks ++ [b]) := by
  obtain ⟨ks, hks⟩ := hd.exists_chain a
  obtain ⟨ks', hks', hsuffix⟩ := hks.of_mem ((hd.inherits_iff hks).mp hab.2)
  cases hks'.unique (.top hb)
  obtain ⟨below, rfl⟩ := hsuffix
  exact ⟨below, hks⟩

theorem hasCallable_of_script {d : FunctionDecl} {closure : ScopeId} {isInit : Bool}
    (hf : h.callable f = .script d closure isInit) : h.hasCallable f = true := by
  refine decide_eq_true (Nat.lt_of_not_le fun hle => ?_)
  rw [callable, Array.getD_eq_getD_getElem?, Array.getElem?_eq_none hle] at hf
  cases hf

end Heap

namespace Machine

variable {m m' m₁ : Machine} {v : Value} {f : CallableId} {k : ClassId} {i : InstanceId}
  {e : ScopeId} {x : String} {t : HostType}

/-! ### What persists -/

/-- Apart from cells, all that is on `m` is on `m'`; scopes bind the reserved names that they bound, and
no others. -/
structure Persists (m m' : Machine) : Prop where
  lasts : (m.withCells .empty).Extends (m'.withCells .empty)
  reserved : ∀ {e : ScopeId} {x : String}, Reserved x → e.index < m.store.scopes.size →
    m'.store.own? e x = m.store.own? e x
  types : m.hostClasses ⊆ m'.hostClasses

namespace Persists

theorem refl (m : Machine) : m.Persists m :=
  ⟨.refl _, fun _ _ => rfl, List.Subset.refl _⟩

theorem scopes_le (h : m.Persists m') : m.store.scopes.size ≤ m'.store.scopes.size :=
  h.lasts.scopes_le

theorem trans (h : m.Persists m₁) (h' : m₁.Persists m') : m.Persists m' :=
  ⟨h.lasts.trans h'.lasts,
    fun hx he => (h'.reserved hx (Nat.lt_of_lt_of_le he h.scopes_le)).trans (h.reserved hx he),
    List.Subset.trans h.types h'.types⟩

theorem of_extends (h : m.Extends m')
    (hreserved : ∀ {e : ScopeId} {x : String}, Reserved x → e.index < m.store.scopes.size →
      m'.store.own? e x = m.store.own? e x)
    (htypes : m'.hostClasses = m.hostClasses) : m.Persists m' :=
  ⟨{ h with floats_le := Nat.le_refl _ }, hreserved, fun _ ht => htypes ▸ ht⟩

/-- Where a machine is and what its host does beside does not matter. -/
theorem moved (h : m.Persists m') (e : ScopeId) (d l : Nat) (c : Console) (cells : Cells) :
    m.Persists { m'.withCells cells with env := e, depth := d, line := l, console := c } :=
  ⟨{ h.lasts with floats_le := Nat.le_refl _ }, h.reserved, h.types⟩

theorem outer? (h : m.Persists m') (he : e.index < m.store.scopes.size) :
    m'.store.outer? e = m.store.outer? e := by
  have hparent : (m'.store.scope e).parent = (m.store.scope e).parent := h.lasts.parent e he
  rw [Store.outer?, Store.outer?, hparent]

theorem has (h : m.Persists m') (hv : m.heap.has v = true) : m'.heap.has v = true :=
  have hwithin : m.heap.Within m'.heap := by
    refine ⟨h.lasts.classes_le, h.lasts.instances_le, Nat.le_of_not_lt fun hlt => ?_⟩
    have hf := (h.lasts.heap ⟨m'.heap.callables.size⟩ (decide_eq_true hlt)).1
    exact absurd (of_decide_eq_true hf) (Nat.lt_irrefl _)
  hwithin.has hv

theorem search {β : Type} {ask : ClassId → Class → Option β} (h : m.Persists m')
    (hk : m.heap.hasClass k = true) : m'.heap.search ask k = m.heap.search ask k :=
  Heap.search_congr fun j hj =>
    h.lasts.class_ j (decide_eq_true (Nat.lt_of_le_of_lt hj (of_decide_eq_true hk)))

theorem below {a b : ClassId} (h : m.Persists m') (hab : m.heap.Below a b) : m'.heap.Below a b := by
  refine ⟨h.lasts.hasClass hab.1, ?_⟩
  rw [Heap.inherits, h.search hab.1]
  exact hab.2

end Persists

theorem persists_bind (e : ScopeId) (hx : ¬ Reserved x) (v : Value) : m.Persists (m.bind e x v) := by
  refine .of_extends (extends_bind e x v) (fun {e' y} hy _ => ?_) rfl
  unfold Store.own? Machine.bind
  dsimp only
  rw [Store.scope_define]
  split
  · rename_i heq
    rw [Bindings.get?_insert, if_neg (hy.ne hx), heq.1]
  · rfl

theorem persists_open (sc : Scope) : m.Persists { m with store := (m.store.open sc).2 } := by
  refine .of_extends (extends_open sc) (fun _ he => ?_) rfl
  unfold Store.own?
  dsimp only
  rw [Store.scope_open, if_neg (Nat.ne_of_lt he)]

theorem persists_enter (sc : Scope) : m.Persists (m.enter sc) :=
  (persists_open sc).moved _ m.depth m.line m.console m.store.cells

theorem persists_enterCall (d : FunctionDecl) (closure : ScopeId) (args : List Value) :
    m.Persists (m.enterCall d closure args) :=
  (persists_open _).moved _ (m.depth + 1) m.line m.console m.store.cells

theorem persists_addCallable (g : Callable) : m.Persists (m.addCallable g) :=
  .of_extends (extends_addCallable g) (fun _ _ => rfl) rfl

theorem persists_withScripts (closure : ScopeId) (ms : List FunctionDecl) :
    m.Persists { m with heap := m.heap.withScripts closure ms } :=
  .of_extends { Extends.refl m with heap := .withScripts _ _ _ } (fun _ _ => rfl) rfl

theorem persists_addInstance (o : Instance) : m.Persists (m.addInstance o) :=
  .of_extends (extends_addInstance o) (fun _ _ => rfl) rfl

theorem persists_newClass (k : Class) (ts : List (HostType × ClassId)) :
    m.Persists { m with heap := (m.heap.newClass k).2, hostClasses := ts ++ m.hostClasses } :=
  ⟨{ extends_newClass k with floats_le := Nat.le_refl _ }, fun _ _ => rfl,
    List.subset_append_right _ _⟩

theorem persists_putField (i : InstanceId) (x : String) (v : Value) :
    m.Persists { m with heap := m.heap.putField i x v } :=
  .of_extends (extends_modify (fun _ => rfl) fun _ => rfl) (fun _ _ => rfl) rfl

theorem persists_putBound (i : InstanceId) (x : String) (f : CallableId) :
    m.Persists { m with heap := m.heap.putBound i x f } :=
  .of_extends (extends_modify (fun _ => rfl) fun _ => rfl) (fun _ _ => rfl) rfl

theorem persists_bindScript (d : FunctionDecl) (closure : ScopeId) (isInit : Bool) (i : InstanceId) :
    m.Persists (m.bindScript d closure isInit i) :=
  (persists_open _).trans (persists_addCallable _)

theorem persists_addClass (x : String) (parent : Option ClassId) (ms : List FunctionDecl)
    (table : Bindings CallableId) : m.Persists (m.addClass x parent ms table) := by
  refine .of_extends (extends_addClass x parent ms table) (fun hx he => ?_) rfl
  cases parent with
  | none => rfl
  | some k => exact (persists_open _).reserved hx he

/-! ### What has to match -/

/-- The class of the instance is for the host type, or lies below one that is. -/
def OfType (m : Machine) (i : InstanceId) (t : HostType) : Prop :=
  m.heap.hasInstance i = true ∧
    ∃ k, m.heap.Below (m.heap.instance_ i).class_ k ∧ (t, k) ∈ m.hostClasses

/-- A callable that values may be. A method of the host has a receiver, and a function of a script does
not lie in a scope that binds `super`, as the methods of a subclass do until they are bound. -/
def Presents (m : Machine) (f : CallableId) : Prop :=
  match m.heap.callable f with
  | .native _ _ _ => True
  | .script _ closure _ =>
    closure.index < m.store.scopes.size ∧ m.store.own? closure superName = none
  | .method _ receiver => receiver.isSome = true

def Holds (m : Machine) (v : Value) : Prop :=
  m.heap.has v = true ∧ ∀ f, v = .function f → m.Presents f

/-- A method of the name that may be in the table of a class. -/
def Tabled (m : Machine) (k : ClassId) (x : String) (f : CallableId) : Prop :=
  m.heap.hasCallable f = true ∧
    match m.heap.callable f with
    | .native _ _ _ => False
    | .script _ closure _ =>
      closure.index < m.store.scopes.size ∧
        ∀ a, m.store.own? closure superName = some (.class_ a) → m.heap.Below k a
    | .method g _ => g.name = x ∧ (g.type, k) ∈ m.hostClasses

/-- The class finds an initializer that a script has declared. -/
def HasInitializer (m : Machine) (k : ClassId) : Prop :=
  ∃ f d closure isInit, m.heap.findMethod k initName = some f ∧
    m.heap.callable f = .script d closure isInit

def CallableFits (m : Machine) (f : CallableId) : Prop :=
  match m.heap.callable f with
  | .native _ _ _ => True
  | .script d closure _ =>
    (∃ c ss, d.Known (fun _ => True) c ss) ∧ closure.index < m.store.scopes.size
  | .method g receiver => ∀ i, receiver = some i → m.OfType i g.type

structure ClassFits (m : Machine) (k : ClassId) : Prop where
  older : ∀ p, (m.heap.class_ k).superclass = some p → p.index < k.index
  native : ∀ n t, (m.heap.class_ k).native? = some (n, t) → (t, k) ∈ m.hostClasses
  table : ∀ x f, (m.heap.class_ k).methods.get? x = some f → m.Tabled k x f

def InstanceFits (m : Machine) (i : InstanceId) : Prop :=
  m.heap.hasClass (m.heap.instance_ i).class_ = true ∧
    match (m.heap.instance_ i).host with
    | some o => m.OfType i o.type
    | none => m.HasInitializer (m.heap.instance_ i).class_ ∨
        m.heap.nativeConstructor (m.heap.instance_ i).class_ = none

/-- What `this` is in a scope is of a class below the one that `super` is around it. -/
def ScopeFits (m : Machine) (e : ScopeId) : Prop :=
  ∀ p i a, m.store.own? e thisName = some (.instance_ i) → m.store.outer? e = some p →
    m.store.own? p superName = some (.class_ a) →
    m.heap.hasInstance i = true ∧ m.heap.Below (m.heap.instance_ i).class_ a

def TypeFits (m : Machine) (t : HostType) (k : ClassId) : Prop :=
  m.heap.hasClass k = true ∧ (m.heap.class_ k).superclass = none ∧
    (m.heap.class_ k).native? = some (t.arity, t)

/-- The scope is there and does not bind `super`. -/
def Inside (m : Machine) (e : ScopeId) : Prop :=
  e.index < m.store.scopes.size ∧ m.store.own? e superName = none

structure Matched (m : Machine) : Prop where
  values : m.Stores m.Holds fun _ => True
  env : m.Inside m.env
  globals : m.Inside .globals
  callables : ∀ f, m.heap.hasCallable f = true → m.CallableFits f
  classes : ∀ k, m.heap.hasClass k = true → m.ClassFits k
  instances : ∀ i, m.heap.hasInstance i = true → m.InstanceFits i
  scopes : ∀ e : ScopeId, e.index < m.store.scopes.size → m.ScopeFits e
  types : ∀ t k, (t, k) ∈ m.hostClasses → m.TypeFits t k

/-! ### What matches goes on to match -/

section
variable (h : m.Persists m')
include h

theorem OfType.mono (hi : m.OfType i t) : m'.OfType i t := by
  obtain ⟨hthere, k, hk, ht⟩ := hi
  have hclass : (m'.heap.instance_ i).class_ = (m.heap.instance_ i).class_ := h.lasts.classOf i hthere
  refine ⟨h.lasts.hasInstance hthere, k, ?_, h.types ht⟩
  rw [hclass]
  exact h.below hk

theorem Inside.mono (he : m.Inside e) : m'.Inside e :=
  ⟨Nat.lt_of_lt_of_le he.1 h.scopes_le, (h.reserved (.inr rfl) he.1).trans he.2⟩

theorem Persists.callable (hf : m.heap.hasCallable f = true) :
    m'.heap.hasCallable f = true ∧ m'.heap.callable f = m.heap.callable f :=
  h.lasts.heap f hf

theorem Holds.mono (hv : m.Holds v) : m'.Holds v := by
  refine ⟨h.has hv.1, ?_⟩
  rintro f rfl
  have hpresents := hv.2 f rfl
  unfold Presents at hpresents ⊢
  rw [(h.callable hv.1).2]
  cases hc : m.heap.callable f with
  | native y n g => trivial
  | script d closure isInit => rw [hc] at hpresents; exact Inside.mono h hpresents
  | method g receiver => rw [hc] at hpresents; exact hpresents

theorem Tabled.mono (hf : m.Tabled k x f) : m'.Tabled k x f := by
  obtain ⟨hthere, hentry⟩ := hf
  obtain ⟨hthere', hsame⟩ := h.callable hthere
  refine ⟨hthere', ?_⟩
  rw [hsame]
  cases hc : m.heap.callable f with
  | native y n g => rw [hc] at hentry; exact hentry
  | script d closure isInit =>
    rw [hc] at hentry
    obtain ⟨hclosure, hsuper⟩ := hentry
    refine ⟨Nat.lt_of_lt_of_le hclosure h.scopes_le, fun a ha => h.below (hsuper a ?_)⟩
    rw [← h.reserved (.inr rfl) hclosure]
    exact ha
  | method g receiver =>
    rw [hc] at hentry
    exact ⟨hentry.1, h.types hentry.2⟩

theorem HasInitializer.mono (hk : m.heap.hasClass k = true) (hinit : m.HasInitializer k) :
    m'.HasInitializer k := by
  obtain ⟨f, d, closure, isInit, hf, hc⟩ := hinit
  have hsame := (h.callable (Heap.hasCallable_of_script hc)).2
  exact ⟨f, d, closure, isInit, (h.search hk).trans hf, hsame.trans hc⟩

theorem CallableFits.mono (hf : m.heap.hasCallable f = true) (hfits : m.CallableFits f) :
    m'.CallableFits f := by
  unfold CallableFits at hfits ⊢
  rw [(h.callable hf).2]
  cases hc : m.heap.callable f with
  | native y n g => trivial
  | script d closure isInit =>
    rw [hc] at hfits
    exact ⟨hfits.1, Nat.lt_of_lt_of_le hfits.2 h.scopes_le⟩
  | method g receiver =>
    rw [hc] at hfits
    exact fun i hi => OfType.mono h (hfits i hi)

theorem ClassFits.mono (hk : m.heap.hasClass k = true) (hfits : m.ClassFits k) : m'.ClassFits k := by
  have hsame : m'.heap.class_ k = m.heap.class_ k := h.lasts.class_ k hk
  refine ⟨fun p hp => hfits.older p (hsame ▸ hp), fun n t ht => ?_, fun x f hf => ?_⟩
  · exact h.types (hfits.native n t (hsame ▸ ht))
  · exact Tabled.mono h (hfits.table x f (hsame ▸ hf))

theorem InstanceFits.mono (hi : m.heap.hasInstance i = true) (hfits : m.InstanceFits i) :
    m'.InstanceFits i := by
  have hclass : (m'.heap.instance_ i).class_ = (m.heap.instance_ i).class_ := h.lasts.classOf i hi
  have hhost : (m'.heap.instance_ i).host = (m.heap.instance_ i).host := h.lasts.hostOf i hi
  obtain ⟨hthere, hfits⟩ := hfits
  unfold InstanceFits
  rw [hclass, hhost]
  refine ⟨h.lasts.hasClass hthere, ?_⟩
  cases ho : (m.heap.instance_ i).host with
  | some o => rw [ho] at hfits; exact OfType.mono h hfits
  | none =>
    rw [ho] at hfits
    exact hfits.imp (HasInitializer.mono h hthere) fun hnone => (h.search hthere).trans hnone

theorem ScopeFits.mono (he : e.index < m.store.scopes.size) (hfits : m.ScopeFits e) :
    m'.ScopeFits e := by
  intro p i a hthis houter hsuper
  rw [h.reserved (.inl rfl) he] at hthis
  rw [h.outer? he] at houter
  have hp := Nat.lt_trans (Store.index_lt_of_outer? houter) he
  rw [h.reserved (.inr rfl) hp] at hsuper
  obtain ⟨hi, hbelow⟩ := hfits p i a hthis houter hsuper
  have hclass : (m'.heap.instance_ i).class_ = (m.heap.instance_ i).class_ := h.lasts.classOf i hi
  rw [hclass]
  exact ⟨h.lasts.hasInstance hi, h.below hbelow⟩

theorem TypeFits.mono (hfits : m.TypeFits t k) : m'.TypeFits t k := by
  obtain ⟨hk, hfits⟩ := hfits
  have hsame : m'.heap.class_ k = m.heap.class_ k := h.lasts.class_ k hk
  refine ⟨h.lasts.hasClass hk, ?_⟩
  rw [hsame]
  exact hfits

end

/-- All that is on `m` persists on `m'`, and what is new there fits. -/
structure Accepts (m m' : Machine) : Prop where
  persists : m.Persists m'
  values : m'.Stores m'.Holds fun _ => True
  env : m'.Inside m'.env
  callables : ∀ f, m'.heap.hasCallable f = true → ¬ m.heap.hasCallable f = true → m'.CallableFits f
  classes : ∀ k, m'.heap.hasClass k = true → ¬ m.heap.hasClass k = true → m'.ClassFits k
  instances : ∀ i, m'.heap.hasInstance i = true → ¬ m.heap.hasInstance i = true → m'.InstanceFits i
  scopes : ∀ e : ScopeId, e.index < m'.store.scopes.size → ¬ e.index < m.store.scopes.size →
    m'.ScopeFits e
  types : ∀ t k, (t, k) ∈ m'.hostClasses → (t, k) ∉ m.hostClasses → m'.TypeFits t k

/-- Where nothing is added, nothing new has to fit. -/
theorem nothing_new {α : Type} {there fits : α → Prop} (a : α) (h : there a) (hnew : ¬ there a) : fits a :=
  absurd h hnew

namespace Matched

theorem accept (h : m.Matched) (ha : m.Accepts m') : m'.Matched where
  values := ha.values
  env := ha.env
  globals := h.globals.mono ha.persists
  callables f hf := by
    by_cases hold : m.heap.hasCallable f = true
    · exact (h.callables f hold).mono ha.persists hold
    · exact ha.callables f hf hold
  classes k hk := by
    by_cases hold : m.heap.hasClass k = true
    · exact (h.classes k hold).mono ha.persists hold
    · exact ha.classes k hk hold
  instances i hi := by
    by_cases hold : m.heap.hasInstance i = true
    · exact (h.instances i hold).mono ha.persists hold
    · exact ha.instances i hi hold
  scopes e he := by
    by_cases hold : e.index < m.store.scopes.size
    · exact (h.scopes e hold).mono ha.persists hold
    · exact ha.scopes e he hold
  types t k ht := by
    by_cases hold : (t, k) ∈ m.hostClasses
    · exact (h.types t k hold).mono ha.persists
    · exact ha.types t k ht hold

end Matched

end Machine

end HostScript
