import HostScript.Proofs.Evolution.Runs

/-!
# What a change leaves behind

Each change of `Machine.Change` is looked at once more, from the side of what is on the machine: what
stays (`Change.extends`), what becomes of an instance (`Change.instance_cases`), of a scope
(`Change.scope_cases`) and of the value of a name (`Change.own?_cases`).
-/

namespace HostScript

open Resolution (thisName)

namespace Machine

variable {own declares : Prop} {m m₁ m' : Machine}

/-! ### What stays -/

/-- All that is on `m` is on `m'`: callables and classes as they were, instances of the same class and
around the same host object, scopes within the same scope. -/
structure Extends (m m' : Machine) : Prop where
  heap : m.heap.Keeps m'.heap
  classes_le : m.heap.classes.size ≤ m'.heap.classes.size
  class_ : ∀ k, m.heap.hasClass k = true → m'.heap.class_ k = m.heap.class_ k
  instances_le : m.heap.instances.size ≤ m'.heap.instances.size
  classOf : ∀ i, m.heap.hasInstance i = true →
    (m'.heap.instance_ i).class_ = (m.heap.instance_ i).class_
  hostOf : ∀ i, m.heap.hasInstance i = true →
    (m'.heap.instance_ i).host = (m.heap.instance_ i).host
  scopes_le : m.store.scopes.size ≤ m'.store.scopes.size
  parent : ∀ e : ScopeId, e.index < m.store.scopes.size →
    (m'.store.scope e).parent = (m.store.scope e).parent
  floats_le : m.store.cells.floats.size ≤ m'.store.cells.floats.size

namespace Extends

theorem refl (m : Machine) : m.Extends m :=
  ⟨.refl _, Nat.le_refl _, fun _ _ => rfl, Nat.le_refl _, fun _ _ => rfl, fun _ _ => rfl,
    Nat.le_refl _, fun _ _ => rfl, Nat.le_refl _⟩

theorem hasClass (h : m.Extends m') {k : ClassId} (hk : m.heap.hasClass k = true) :
    m'.heap.hasClass k = true :=
  decide_eq_true (Nat.lt_of_lt_of_le (of_decide_eq_true hk) h.classes_le)

theorem hasInstance (h : m.Extends m') {i : InstanceId} (hi : m.heap.hasInstance i = true) :
    m'.heap.hasInstance i = true :=
  decide_eq_true (Nat.lt_of_lt_of_le (of_decide_eq_true hi) h.instances_le)

theorem trans (h : m.Extends m₁) (h' : m₁.Extends m') : m.Extends m' where
  heap := h.heap.trans h'.heap
  classes_le := Nat.le_trans h.classes_le h'.classes_le
  class_ k hk := (h'.class_ k (h.hasClass hk)).trans (h.class_ k hk)
  instances_le := Nat.le_trans h.instances_le h'.instances_le
  classOf i hi := (h'.classOf i (h.hasInstance hi)).trans (h.classOf i hi)
  hostOf i hi := (h'.hostOf i (h.hasInstance hi)).trans (h.hostOf i hi)
  scopes_le := Nat.le_trans h.scopes_le h'.scopes_le
  parent e he := (h'.parent e (Nat.lt_of_lt_of_le he h.scopes_le)).trans (h.parent e he)
  floats_le := Nat.le_trans h.floats_le h'.floats_le

/-- Where a machine is, and how deep, does not matter. -/
theorem moved (h : m.Extends m') (e : ScopeId) (d : Nat) :
    m.Extends { m' with env := e, depth := d } :=
  { h with }

end Extends

theorem extends_withCells {cells : Cells}
    (h : m.store.cells.floats.size ≤ cells.floats.size) : m.Extends (m.withCells cells) :=
  { Extends.refl m with floats_le := h }

theorem extends_bind (e : ScopeId) (x : String) (v : Value) : m.Extends (m.bind e x v) := by
  refine { Extends.refl m with scopes_le := ?_, parent := fun e' _ => ?_ }
  · exact Nat.le_of_eq Array.size_modify.symm
  · rw [Machine.bind, Store.scope_define]
    split
    · rename_i heq
      rw [heq.1]
    · rfl

theorem extends_open (sc : Scope) : m.Extends { m with store := (m.store.open sc).2 } := by
  refine { Extends.refl m with scopes_le := ?_, parent := fun e he => ?_ }
  · simp [Store.open]
  · rw [Store.scope_open, if_neg (Nat.ne_of_lt he)]

theorem extends_addCallable (g : Callable) : m.Extends (m.addCallable g) :=
  { Extends.refl m with heap := .newCallable m.heap g }

theorem extends_modify {i : InstanceId} {f : Instance → Instance}
    (hclass : ∀ o, (f o).class_ = o.class_) (hhost : ∀ o, (f o).host = o.host) :
    m.Extends { m with heap := { m.heap with instances := m.heap.instances.modify i.index f } } := by
  refine { Extends.refl m with instances_le := ?_, classOf := fun j _ => ?_, hostOf := fun j _ => ?_ }
  · exact Nat.le_of_eq Array.size_modify.symm
  · rw [Heap.instance_modify]
    split
    · rename_i heq
      rw [hclass, heq.1]
    · rfl
  · rw [Heap.instance_modify]
    split
    · rename_i heq
      rw [hhost, heq.1]
    · rfl

theorem extends_addInstance (o : Instance) : m.Extends (m.addInstance o) := by
  have hold : ∀ i, m.heap.hasInstance i = true →
      (m.addInstance o).heap.instance_ i = m.heap.instance_ i := by
    intro i hi
    rw [addInstance, Heap.instance_newInstance, if_neg (Nat.ne_of_lt (of_decide_eq_true hi))]
  refine { Extends.refl m with
    instances_le := ?_, classOf := fun i hi => ?_, hostOf := fun i hi => ?_ }
  · simp [addInstance, Heap.newInstance]
  · rw [hold i hi]
  · rw [hold i hi]

theorem extends_newClass (k : Class) : m.Extends { m with heap := (m.heap.newClass k).2 } := by
  refine { Extends.refl m with classes_le := ?_, class_ := fun j hj => ?_ }
  · simp [Heap.newClass]
  · rw [Heap.class_newClass, if_neg (Nat.ne_of_lt (of_decide_eq_true hj))]

theorem extends_addClass (x : String) (parent : Option ClassId) (ms : List FunctionDecl)
    (table : Bindings CallableId) : m.Extends (m.addClass x parent ms table) := by
  have hscope : m.Extends { m with store := (m.methodStore parent).2 } := by
    cases parent with
    | none => exact .refl m
    | some k => exact extends_open _
  have hscripts : Extends { m with store := (m.methodStore parent).2 }
      { m with
        store := (m.methodStore parent).2
        heap := m.heap.withScripts (m.methodStore parent).1 ms } :=
    { Extends.refl { m with store := (m.methodStore parent).2 } with heap := .withScripts _ _ _ }
  exact (hscope.trans hscripts).trans (extends_newClass _)

end Machine

/-- A new vector has its cells behind those that were there. -/
theorem HostVector.size_floats_ofValues (s : Cells) (xs : List Float32) :
    (ofValues s xs).2.floats.size = s.floats.size + xs.length := by
  rw [← Array.length_toList, ofValues, Array.toList_appendList, List.length_append,
    Array.length_toList]

namespace Cells

variable {s : Cells}

theorem size_floats_put (s : Cells) (a : HostCell) (v : Value) :
    (s.put a v).floats.size = s.floats.size := by
  unfold put
  split <;> simp

theorem Makes.floats_le {o : HostObject} {cells : Cells} (h : s.Makes o cells) :
    s.floats.size ≤ cells.floats.size := by
  cases h with
  | vector xs =>
    rw [HostVector.size_floats_ofValues]
    exact Nat.le_add_right _ _
  | counter n => exact Nat.le_refl _
  | byte => exact Nat.le_refl _

end Cells

namespace Machine

variable {own declares : Prop} {m m₁ m' : Machine}

namespace Binds

variable {f g : CallableId} {i : InstanceId}

/-- Nothing but a callable and a scope is added when a method is bound. -/
theorem instances (h : m.Binds f i g m') : m'.heap.instances = m.heap.instances := by
  cases h <;> rfl

theorem instance_ (h : m.Binds f i g m') (j : InstanceId) :
    m'.heap.instance_ j = m.heap.instance_ j := by
  rw [Heap.instance_, Heap.instance_, h.instances]

theorem env (h : m.Binds f i g m') : m'.env = m.env := by
  cases h <;> rfl

theorem scope (h : m.Binds f i g m') {e : ScopeId} (he : e.index < m.store.scopes.size) :
    m'.store.scope e = m.store.scope e := by
  cases h with
  | script hf hc => rw [bindScript, Store.scope_open, if_neg (Nat.ne_of_lt he)]
  | host hf hc => rfl

end Binds

theorem Binds.extends {f g : CallableId} {i : InstanceId} (h : m.Binds f i g m') : m.Extends m' := by
  cases h with
  | script hf hc => exact (extends_open _).trans (extends_addCallable _)
  | host hf hc => exact extends_addCallable _

theorem Change.extends (h : Change declares m m') : m.Extends m' := by
  cases h with
  | line l => exact { Extends.refl m with }
  | print h => exact { Extends.refl m with }
  | read h => exact { Extends.refl m with }
  | declare hd hv => exact extends_bind _ _ _
  | assign hslot hs hv => exact extends_bind _ _ _
  | putCell a v => exact extends_withCells (Nat.le_of_eq (Cells.size_floats_put _ a v).symm)
  | putField hslot hv => exact extends_modify (fun _ => rfl) fun _ => rfl
  | addFunction d => exact extends_addCallable _
  | bindMethod h => exact h.extends
  | remember hnone hk hfind h => exact h.extends.trans (extends_modify (fun _ => rfl) fun _ => rfl)
  | addClass ht => exact extends_addClass _ _ _ _
  | addInstance k => exact extends_addInstance _
  | addHost ho hk => exact (extends_withCells ho.floats_le).trans (extends_addInstance _)
  | makeHost ho => exact extends_withCells ho.floats_le
  | shareHost hi hk => exact extends_addInstance _

theorem extends_enter (sc : Scope) : m.Extends (m.enter sc) :=
  (extends_open sc).moved _ _

theorem extends_enterCall (d : FunctionDecl) (closure : ScopeId) (args : List Value) :
    m.Extends (m.enterCall d closure args) :=
  (extends_open _).moved _ _

theorem Evolves.extends (h : Evolves own declares m m') : m.Extends m' := by
  induction h with
  | refl => exact .refl _
  | change _ hc ih => exact ih.trans hc.extends
  | block _ _ ih ihb => exact ih.trans ((extends_enter _).trans ihb |>.moved _ _)
  | call _ _ _ _ ih ihb => exact ih.trans ((extends_enterCall _ _ _).trans ihb |>.moved _ _)

theorem Leads.extends (h : Leads own m m') : m.Extends m' := by
  induction h with
  | refl => exact .refl _
  | evolves _ he ih => exact ih.trans he.extends
  | block _ ih => exact ih.trans (extends_enter _)
  | call _ _ _ ih => exact ih.trans (extends_enterCall _ _ _)

theorem Change.env (h : Change declares m m') : m'.env = m.env := by
  cases h with
  | bindMethod h => exact h.env
  | remember hnone hk hfind h => exact h.env
  | _ => rfl

theorem Evolves.env (h : Evolves own declares m m') : m'.env = m.env := by
  induction h with
  | refl => rfl
  | change _ hc ih => exact hc.env.trans ih
  | block _ _ ih _ => exact ih
  | call _ _ _ _ ih _ => exact ih

/-! ### Instances -/

/-- What a change makes of an instance. -/
inductive InstanceChange (m : Machine) (i : InstanceId) (m' : Machine) : Prop where
  | same (h : m'.heap.instance_ i = m.heap.instance_ i)
  | field {x : String} {v : Value}
      (hslot : ∀ w, (m.heap.instance_ i).fields.get? x = some w → w.isBound = false)
      (hv : v.isBound = false)
      (h : m'.heap.instance_ i =
        { m.heap.instance_ i with fields := (m.heap.instance_ i).fields.insert x v })
  | remember {x : String} {f g : CallableId} {m₁ : Machine}
      (hnone : (m.heap.instance_ i).bound.get? x = none)
      (hk : m.heap.hasClass (m.heap.instance_ i).class_ = true)
      (hfind : m.heap.findMethod (m.heap.instance_ i).class_ x = some f) (hg : m.Binds f i g m₁)
      (hm' : m' = { m₁ with heap := m₁.heap.putBound i x g })
      (h : m'.heap.instance_ i =
        { m.heap.instance_ i with bound := (m.heap.instance_ i).bound.insert x g })
  | plain {k : ClassId} (hi : i = m.nextInstance) (h : m'.heap.instance_ i = .plain k)
  /-- A new instance is around a new host object, or around a counter that was there. -/
  | host {k : ClassId} {o : HostObject} (hi : i = m.nextInstance) (hk : m.Wraps k o.type)
      (ho : m.store.cells.Makes o m'.store.cells ∨ o.type = .counter)
      (h : m'.heap.instance_ i = .ofHost k o)

/-- An instance that is added has the next number. -/
theorem instance_addInstance (m : Machine) (o : Instance) (i : InstanceId) :
    (m.addInstance o).heap.instance_ i =
      if i = m.nextInstance then o else m.heap.instance_ i := by
  have heq : i.index = m.heap.instances.size ↔ i = m.nextInstance := by
    cases i
    simp [nextInstance]
  rw [addInstance, Heap.instance_newInstance]
  simp only [heq]

theorem Change.instance_cases (h : Change declares m m') (i : InstanceId) :
    InstanceChange m i m' := by
  cases h with
  | line l => exact .same rfl
  | print h => exact .same rfl
  | read h => exact .same rfl
  | declare hd hv => exact .same rfl
  | assign hslot hs hv => exact .same rfl
  | putCell a v => exact .same rfl
  | @putField j x v hslot hv =>
    have hmod := m.heap.instance_modify j i fun o => { o with fields := o.fields.insert x v }
    split at hmod
    · rename_i heq
      obtain ⟨rfl, -⟩ := heq
      exact .field hslot hv hmod
    · exact .same hmod
  | addFunction d => exact .same rfl
  | bindMethod h => exact .same (h.instance_ i)
  | @remember j x f g m₁ hnone hk hfind h =>
    have hmod := m₁.heap.instance_modify j i fun o => { o with bound := o.bound.insert x g }
    split at hmod
    · rename_i heq
      obtain ⟨rfl, -⟩ := heq
      rw [h.instance_] at hmod
      exact .remember hnone hk hfind h rfl hmod
    · exact .same (hmod.trans (h.instance_ i))
  | addClass ht => exact .same rfl
  | addInstance k =>
    have hadd := m.instance_addInstance (.plain k) i
    split at hadd
    · exact .plain ‹_› hadd
    · exact .same hadd
  | @addHost o cells k ho hk =>
    have hadd := (m.withCells cells).instance_addInstance (.ofHost k o) i
    split at hadd
    · exact .host ‹_› hk (.inl ho) hadd
    · exact .same hadd
  | makeHost ho => exact .same rfl
  | @shareHost j k count label enabled hj hk =>
    have hadd := m.instance_addInstance (.ofHost k (.counter count label enabled)) i
    split at hadd
    · exact .host ‹_› hk (.inr rfl) hadd
    · exact .same hadd

/-! ### Scopes -/

/-- A scope that is there stays, but for one name that is bound anew: in the innermost scope, where names
may be declared in it, or where the name was bound. -/
theorem Change.scope_cases (h : Change declares m m') {e : ScopeId}
    (he : e.index < m.store.scopes.size) :
    m'.store.scope e = m.store.scope e ∨
      ∃ x v, v.isBound = false ∧ ((declares ∧ e = m.env) ∨ m.store.contains e x = true) ∧
        m'.store.scope e = { m.store.scope e with vars := (m.store.scope e).vars.insert x v } := by
  have hopen : ∀ sc, (m.store.open sc).2.scope e = m.store.scope e := by
    intro sc
    rw [Store.scope_open, if_neg (Nat.ne_of_lt he)]
  cases h with
  | line l => exact .inl rfl
  | print h => exact .inl rfl
  | read h => exact .inl rfl
  | @declare x v hd hv =>
    have hdef := m.store.scope_define m.env e x v
    split at hdef
    · rename_i heq
      obtain ⟨rfl, -⟩ := heq
      exact .inr ⟨x, v, hv, .inl ⟨hd, rfl⟩, hdef⟩
    · exact .inl hdef
  | @assign e' x slot v hslot hs hv =>
    have hdef := m.store.scope_define e' e x v
    split at hdef
    · rename_i heq
      obtain ⟨rfl, -⟩ := heq
      exact .inr ⟨x, v, hv, .inr (Option.isSome_of_eq_some hslot), hdef⟩
    · exact .inl hdef
  | putCell a v => exact .inl rfl
  | putField hslot hv => exact .inl rfl
  | addFunction d => exact .inl rfl
  | bindMethod h => exact .inl (h.scope he)
  | remember hnone hk hfind h => exact .inl (h.scope he)
  | @addClass x parent ms table ht =>
    cases parent with
    | none => exact .inl rfl
    | some k => exact .inl (hopen _)
  | addInstance k => exact .inl rfl
  | addHost ho hk => exact .inl rfl
  | makeHost ho => exact .inl rfl
  | shareHost hi hk => exact .inl rfl

/-- A scope that binds one name to an owning value. -/
theorem own?_open_single {e : ScopeId} {x y : String} {v w : Value} {parent : Option ScopeId}
    (hv : v.isBound = false)
    (hw : (m.store.open ⟨.ofList [(y, v)], parent⟩).2.own? e x = some w) :
    m.store.own? e x = some w ∨ w.isBound = false := by
  rcases m.store.own?_open_cases hw with hw | hw
  · cases List.mem_singleton.mp (Bindings.mem_of_get?_ofList hw)
    exact .inr hv
  · exact .inl hw

theorem Binds.own?_cases {f g : CallableId} {i : InstanceId} (h : m.Binds f i g m') {e : ScopeId}
    {x : String} {w : Value} (hw : m'.store.own? e x = some w) :
    m.store.own? e x = some w ∨ w.isBound = false := by
  cases h with
  | script hf hc => exact own?_open_single rfl hw
  | host hf hc => exact .inl hw

/-- What a name is bound to after a change it was bound to before, or it is an owning value. -/
theorem Change.own?_cases (h : Change declares m m') {e : ScopeId} {x : String} {w : Value}
    (hw : m'.store.own? e x = some w) : m.store.own? e x = some w ∨ w.isBound = false := by
  have hdefine : ∀ {e' y v}, v.isBound = false → (m.store.define e' y v).own? e x = some w →
      m.store.own? e x = some w ∨ w.isBound = false := by
    intro e' y v hv hw
    rcases m.store.own?_define_cases hw with rfl | hw
    · exact .inr hv
    · exact .inl hw
  cases h with
  | line l => exact .inl hw
  | print h => exact .inl hw
  | read h => exact .inl hw
  | declare hd hv => exact hdefine hv hw
  | assign hslot hs hv => exact hdefine hv hw
  | putCell a v => exact .inl hw
  | putField hslot hv => exact .inl hw
  | addFunction d => exact .inl hw
  | bindMethod h => exact h.own?_cases hw
  | remember hnone hk hfind h => exact h.own?_cases hw
  | @addClass x parent ms table ht =>
    cases parent with
    | none => exact .inl hw
    | some k => exact own?_open_single rfl hw
  | addInstance k => exact .inl hw
  | addHost ho hk => exact .inl hw
  | makeHost ho => exact .inl hw
  | shareHost hi hk => exact .inl hw

/-! ### Time -/

/-- Time passes on a machine: activities come to an end or fail or are under way, the host goes elsewhere
on it, and it writes to its cells. -/
inductive Passes (m : Machine) : Machine → Prop where
  | now : Passes m m
  | done {m₁ m' : Machine} {c : Context} {n : Nat} {a : Activity} {x : a.Result} (h : Passes m m₁)
      (hrun : a.run c n m₁ = .done x m') : Passes m m'
  | failed {m₁ m' : Machine} {c : Context} {n : Nat} {a : Activity} {e : RuntimeError}
      (h : Passes m m₁) (hrun : a.run c n m₁ = .fail e m') : Passes m m'
  | reached {m₁ m' : Machine} {c : Context} {n : Nat} {a b : Activity} (h : Passes m m₁)
      (hreaches : Activity.Reaches c n a m₁ b m') : Passes m m'
  | moved {m₁ : Machine} (h : Passes m m₁) (e : ScopeId) (d l : Nat) (k : Console) :
      Passes m { m₁ with env := e, depth := d, line := l, console := k }
  | wrote {m₁ : Machine} (h : Passes m m₁) (cells : Cells) : Passes m (m₁.withCells cells)

/-- What all that evolves keeps, and what does not depend on cells or on where the machine is, lasts. -/
theorem Passes.keeps {P : Machine → Prop} (h : m.Passes m') (hadmits : (Frame.fact P).Admits False)
    (hmoved : ∀ {m} e d l k, P m → P { m with env := e, depth := d, line := l, console := k })
    (hcells : ∀ {m} cells, P m → P (m.withCells cells)) (hm : P m) : P m' := by
  induction h with
  | now => exact hm
  | @done m₁ m' c n a x _ hrun ih =>
    obtain ⟨-, he, -⟩ := (Evaluation.evolves_layer False c n a m₁ False.elim).done hrun
    exact (hadmits.evolves he ih).1
  | @failed m₁ m' c n a e _ hrun ih =>
    obtain ⟨-, he⟩ := (Evaluation.evolves_layer False c n a m₁ False.elim).failed hrun
    exact (hadmits.evolves he ih).1
  | reached _ hreaches ih =>
    exact hadmits.leads (Activity.leads_of_reaches hreaches False.elim).1 ih
  | moved _ e d l k ih => exact hmoved e d l k ih
  | wrote _ cells ih => exact hcells cells ih

end Machine

end HostScript
