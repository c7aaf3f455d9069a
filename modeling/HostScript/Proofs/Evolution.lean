import HostScript.Proofs.Regime.Objects

/-!
# What evaluation does to a machine

`Change` lists the changes that evaluation makes, each with what holds of the machine on which it is made:
which places are written, what they held before, where a new host object has its cells, what is remembered
by an instance. `Evolves` is any number of changes one after another, with the insides of blocks and calls
nested, because they go on in a scope of their own and give the scope back.

Nothing is asked of the machine on which evaluation starts. What evaluation keeps is shown of the changes,
and follows for all that evolves (`Frame.Admits.evolves`) and for every state on the way
(`Frame.Admits.leads`).
-/

namespace HostScript

/-- A new host object, and the cells with its own. -/
inductive Cells.Makes (s : Cells) : HostObject → Cells → Prop where
  | vector (xs : List Float32) :
      s.Makes (.vector (HostVector.ofValues s xs).1) (HostVector.ofValues s xs).2
  | counter (n : Int32) :
      s.Makes (.counter s.ints.size s.strings.size s.bools.size)
        { s with ints := s.ints.push n, strings := s.strings.push "counter", bools := s.bools.push true }
  | byte : s.Makes (.byte 0) s

namespace Machine

/-- A method is bound to an instance: a script method by a scope of its own that binds `this`, a method
of the host by its receiver. -/
inductive Binds (m : Machine) (f : CallableId) (i : InstanceId) : CallableId → Machine → Prop where
  | script {d : FunctionDecl} {closure : ScopeId} {isInit : Bool}
      (hf : m.heap.hasCallable f = true) (hc : m.heap.callable f = .script d closure isInit) :
      m.Binds f i m.nextCallable (m.bindScript d closure isInit i)
  | host {x : HostMethod} {receiver : Option InstanceId}
      (hf : m.heap.hasCallable f = true) (hc : m.heap.callable f = .method x receiver) :
      m.Binds f i m.nextCallable (m.addCallable (.method x (some i)))

/-- A change that evaluation makes. Names are declared in the innermost scope only if `declares`. -/
inductive Change (declares : Prop) (m : Machine) : Machine → Prop where
  | line (l : Nat) : Change declares m { m with line := l }
  | print {t : String} {k : Console} (h : m.console.print t = .ok k) :
      Change declares m { m with console := k }
  | read {t : Option String} {k : Console} (h : m.console.read = .ok (t, k)) :
      Change declares m { m with console := k }
  | declare {x : String} {v : Value} (hd : declares) (hv : v.isBound = false) :
      Change declares m (m.bind m.env x v)
  /-- A place that holds an owning value is given another one. -/
  | assign {e : ScopeId} {x : String} {slot v : Value} (hslot : m.store.own? e x = some slot)
      (hs : slot.isBound = false) (hv : v.isBound = false) : Change declares m (m.bind e x v)
  | putCell (a : HostCell) (v : Value) :
      Change declares m (m.withCells (m.store.cells.put a v))
  /-- A field that is not there is added, or one that holds an owning value is given another one. -/
  | putField {i : InstanceId} {x : String} {v : Value}
      (hslot : ∀ w, (m.heap.instance_ i).fields.get? x = some w → w.isBound = false)
      (hv : v.isBound = false) : Change declares m { m with heap := m.heap.putField i x v }
  | addFunction (d : FunctionDecl) : Change declares m (m.addCallable (.script d m.env false))
  | bindMethod {f g : CallableId} {i : InstanceId} {m' : Machine} (h : m.Binds f i g m') :
      Change declares m m'
  /-- A method of its class is bound to an instance, which did not remember one and does so now. -/
  | remember {i : InstanceId} {x : String} {f g : CallableId} {m₁ : Machine}
      (hnone : (m.heap.instance_ i).bound.get? x = none)
      (hk : m.heap.hasClass (m.heap.instance_ i).class_ = true)
      (hfind : m.heap.findMethod (m.heap.instance_ i).class_ x = some f) (h : m.Binds f i g m₁) :
      Change declares m { m₁ with heap := m₁.heap.putBound i x g }
  | addClass {x : String} {parent : Option ClassId} {ms : List FunctionDecl}
      {table : Bindings CallableId} (ht : MethodTable m.heap.callables.size ms table) :
      Change declares m (m.addClass x parent ms table)
  | addInstance (k : ClassId) : Change declares m (m.addInstance (.plain k))
  /-- A host object is made, and an instance around it. -/
  | addHost {o : HostObject} {cells : Cells} {k : ClassId} (ho : m.store.cells.Makes o cells)
      (hk : m.Wraps k o.type) : Change declares m ((m.withCells cells).addInstance (.ofHost k o))
  /-- A host object is made that gets no instance. -/
  | makeHost {o : HostObject} {cells : Cells} (ho : m.store.cells.Makes o cells) :
      Change declares m (m.withCells cells)
  /-- A second instance is made around a counter. -/
  | shareHost {i : InstanceId} {k : ClassId} {count label enabled : Nat}
      (hi : (m.heap.instance_ i).host = some (.counter count label enabled))
      (hk : m.Wraps k .counter) :
      Change declares m (m.addInstance (.ofHost k (.counter count label enabled)))

/-- Changes one after another, with those inside blocks and calls. The arguments of calls are owning
values if `own` holds. -/
inductive Evolves (own : Prop) : Prop → Machine → Machine → Prop where
  | refl {declares : Prop} {m : Machine} : Evolves own declares m m
  | change {declares : Prop} {m m₁ m' : Machine} (h : Evolves own declares m m₁)
      (hc : Change declares m₁ m') : Evolves own declares m m'
  | block {declares : Prop} {m m₁ m₂ : Machine} (h : Evolves own declares m m₁)
      (hb : Evolves own True (m₁.enter ⟨.empty, some m₁.env⟩) m₂) :
      Evolves own declares m { m₂ with env := m₁.env }
  | call {declares : Prop} {m m₁ m₂ : Machine} {f : CallableId} {d : FunctionDecl}
      {closure : ScopeId} {isInit : Bool} {args : List Value} (h : Evolves own declares m m₁)
      (hf : m₁.heap.callable f = .script d closure isInit)
      (hargs : own → ∀ v ∈ args, v.isBound = false)
      (hb : Evolves own True (m₁.enterCall d closure args) m₂) :
      Evolves own declares m { m₂ with env := m₁.env, depth := m₂.depth - 1 }

/-- Evolving, and going into blocks and calls, as far as a state on the way. -/
inductive Leads (own : Prop) (m : Machine) : Machine → Prop where
  | refl : Leads own m m
  | evolves {declares : Prop} {m₁ m' : Machine} (h : Leads own m m₁)
      (h' : Evolves own declares m₁ m') : Leads own m m'
  | block {m₁ : Machine} (h : Leads own m m₁) : Leads own m (m₁.enter ⟨.empty, some m₁.env⟩)
  | call {m₁ : Machine} {f : CallableId} {d : FunctionDecl} {closure : ScopeId} {isInit : Bool}
      {args : List Value} (h : Leads own m m₁)
      (hf : m₁.heap.callable f = .script d closure isInit)
      (hargs : own → ∀ v ∈ args, v.isBound = false) : Leads own m (m₁.enterCall d closure args)

variable {own declares : Prop} {m m₁ m' : Machine}

/-- Where names may be declared, they need not be. -/
theorem Change.mono {declares' : Prop} (h : Change declares m m') (hd : declares → declares') :
    Change declares' m m' := by
  cases h with
  | line l => exact .line l
  | print h => exact .print h
  | read h => exact .read h
  | declare h hv => exact .declare (hd h) hv
  | assign hslot hs hv => exact .assign hslot hs hv
  | putCell a v => exact .putCell a v
  | putField hslot hv => exact .putField hslot hv
  | addFunction d => exact .addFunction d
  | bindMethod h => exact .bindMethod h
  | remember hnone hk hfind h => exact .remember hnone hk hfind h
  | addClass ht => exact .addClass ht
  | addInstance k => exact .addInstance k
  | addHost ho hk => exact .addHost ho hk
  | makeHost ho => exact .makeHost ho
  | shareHost hi hk => exact .shareHost hi hk

namespace Evolves

theorem of_change (h : Change declares m m') : Evolves own declares m m' :=
  .change .refl h

theorem mono {declares' : Prop} (h : Evolves own declares m m') (hd : declares → declares') :
    Evolves own declares' m m' := by
  induction h with
  | refl => exact .refl
  | change _ hc ih => exact .change (ih hd) (hc.mono hd)
  | block _ hb ih _ => exact .block (ih hd) hb
  | call _ hf hargs hb ih _ => exact .call (ih hd) hf hargs hb

theorem trans (h : Evolves own declares m m₁) (h' : Evolves own declares m₁ m') :
    Evolves own declares m m' := by
  induction h' with
  | refl => exact h
  | change _ hc ih => exact .change (ih h) hc
  | block _ hb ih _ => exact .block (ih h) hb
  | call _ hf hargs hb ih _ => exact .call (ih h) hf hargs hb

end Evolves

theorem Leads.trans (h : Leads own m m₁) (h' : Leads own m₁ m') : Leads own m m' := by
  induction h' with
  | refl => exact h
  | evolves _ he ih => exact .evolves ih he
  | block _ ih => exact .block ih
  | call _ hf hargs ih => exact .call ih hf hargs

end Machine

namespace Frame

variable {F : Frame} {own declares : Prop} {m m' : Machine}

/-- What has to hold for all that evolves to keep an invariant: the changes keep it, scopes may be
entered, and when a scope is left, what held where it was entered holds again. -/
structure Admits (F : Frame) (own : Prop) : Prop where
  change : ∀ {declares m m'}, F.inv m → Machine.Change declares m m' → F.inv m' ∧ F.le m m'
  enterBlock : ∀ {m}, F.inv m → F.inv (m.enter ⟨.empty, some m.env⟩)
  enterCall : ∀ {m f d closure isInit args}, F.inv m →
    m.heap.callable f = .script d closure isInit → (own → ∀ v ∈ args, v.isBound = false) →
    F.inv (m.enterCall d closure args)
  leaveBlock : ∀ {m m'}, F.inv m → F.inv m' → F.le (m.enter ⟨.empty, some m.env⟩) m' →
    F.inv { m' with env := m.env } ∧ F.le m { m' with env := m.env }
  leaveCall : ∀ {m m' d closure args}, F.inv m → F.inv m' → F.le (m.enterCall d closure args) m' →
    F.inv { m' with env := m.env, depth := m'.depth - 1 } ∧
      F.le m { m' with env := m.env, depth := m'.depth - 1 }

namespace Admits

theorem evolves (hF : F.Admits own) (h : Machine.Evolves own declares m m') (hi : F.inv m) :
    F.inv m' ∧ F.le m m' := by
  induction h with
  | refl => exact ⟨hi, F.le_refl _⟩
  | change _ hc ih =>
    obtain ⟨hi₁, hle₁⟩ := ih hi
    obtain ⟨hi', hle'⟩ := hF.change hi₁ hc
    exact ⟨hi', F.le_trans hle₁ hle'⟩
  | block _ _ ih ihb =>
    obtain ⟨hi₁, hle₁⟩ := ih hi
    obtain ⟨hi₂, hle₂⟩ := ihb (hF.enterBlock hi₁)
    obtain ⟨hi', hle'⟩ := hF.leaveBlock hi₁ hi₂ hle₂
    exact ⟨hi', F.le_trans hle₁ hle'⟩
  | call _ hf hargs _ ih ihb =>
    obtain ⟨hi₁, hle₁⟩ := ih hi
    obtain ⟨hi₂, hle₂⟩ := ihb (hF.enterCall hi₁ hf hargs)
    obtain ⟨hi', hle'⟩ := hF.leaveCall hi₁ hi₂ hle₂
    exact ⟨hi', F.le_trans hle₁ hle'⟩

theorem leads (hF : F.Admits own) (h : Machine.Leads own m m') (hi : F.inv m) : F.inv m' := by
  induction h with
  | refl => exact hi
  | evolves _ he ih => exact (hF.evolves he ih).1
  | block _ ih => exact hF.enterBlock ih
  | call _ hf hargs ih => exact hF.enterCall ih hf hargs

end Admits

/-- A property of machines, with nothing said about how they follow one another. -/
def fact (P : Machine → Prop) : Frame where
  inv := P
  le _ _ := True
  crash := True
  le_refl _ := trivial
  le_trans _ _ := trivial

/-- For a property that does not depend on where the machine is, it is enough to look at the changes and
at scopes that are opened. -/
theorem admits_fact {P : Machine → Prop}
    (hmoved : ∀ {m} e d, P m → P { m with env := e, depth := d })
    (hchange : ∀ {declares m m'}, P m → Machine.Change declares m m' → P m')
    (hopen : ∀ {m} (sc : Scope), P m → (own → ∀ x v, sc.vars.get? x = some v → v.isBound = false) →
      P { m with store := (m.store.open sc).2 }) : (fact P).Admits own where
  change hi hc := ⟨hchange hi hc, trivial⟩
  enterBlock {m} hi := by
    have hscope := hopen ⟨.empty, some m.env⟩ hi fun _ _ _ hv => by cases hv
    exact hmoved _ _ hscope
  enterCall {m f d closure isInit args} hi _ hargs := by
    have hscope := hopen ⟨.ofList ((d.params.map (·.name)).zip args), some closure⟩ hi
      fun ho _ v hv => hargs ho v (List.of_mem_zip (Bindings.mem_of_get?_ofList hv)).2
    have hentered := hmoved m.nextScope (m.depth + 1) hscope
    exact hentered
  leaveBlock _ hi _ := ⟨hmoved _ _ hi, trivial⟩
  leaveCall _ hi _ := ⟨hmoved _ _ hi, trivial⟩

/-- Whatever evolves. -/
def evolving (own declares : Prop) : Frame where
  inv _ := True
  le := Machine.Evolves own declares
  crash := True
  le_refl _ := .refl
  le_trans := .trans

end Frame

namespace Run

variable {α β : Type} {x : Run α} {own declares : Prop} {Q : α → Machine → Prop} {m : Machine}

/-- From `m` on the machine evolves, and `Q` holds of what comes out. -/
abbrev Evolves (x : Run α) (own declares : Prop) (Q : α → Machine → Prop) (m : Machine) : Prop :=
  (Frame.evolving own declares).Keeps x x Q m

theorem Evolves.weaken {declares' : Prop} (h : x.Evolves own declares Q m)
    (hd : declares → declares') : x.Evolves own declares' Q m :=
  ⟨rfl, wp_mono h.2 (fun _ _ ⟨_, he, hq⟩ => ⟨trivial, he.mono hd, hq⟩)
    (fun _ _ ⟨_, he⟩ => ⟨trivial, he.mono hd⟩) id⟩

/-- What is demanded is known behind the demand. -/
theorem Evolves.demand_bind {p : Machine → Bool} {g : Unit → Run β} {Q : β → Machine → Prop}
    (h : p m = true → (g ()).Evolves own declares Q m) :
    (Run.demand p >>= g).Evolves own declares Q m := by
  refine ⟨rfl, ?_⟩
  rw [wp_bind, wp_demand]
  split
  · exact (h ‹_›).2
  · trivial

theorem Evolves.change {f : Machine → Machine} {Q : Unit → Machine → Prop}
    (h : Machine.Change declares m (f m)) (hq : Q () (f m)) :
    (Run.update f).Evolves own declares Q m :=
  .update trivial (.of_change h) hq

theorem Evolves.change_bind {f : Machine → Machine} {g : Unit → Run β} {Q : β → Machine → Prop}
    (h : Machine.Change declares m (f m)) (hg : (g ()).Evolves own declares Q (f m)) :
    (Run.update f >>= g).Evolves own declares Q m :=
  .update_bind trivial (.of_change h) hg

end Run

end HostScript
