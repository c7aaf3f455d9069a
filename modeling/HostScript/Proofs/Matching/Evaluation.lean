import HostScript.Proofs.Matching

/-!
# Evaluation on matched machines

What evaluation adds to a matched machine fits. A method is bound to an instance only if its class offers
it, or the class that `super` is where the instance is `this`; either way it stands in the table of a class
that the instance is of, and so goes with the host object that the instance may have.
-/

namespace HostScript

open Resolution (thisName superName)

namespace Store

variable {s : Store} {e p : ScopeId} {sc : Scope} {x : String} {v w : Value} {d : Nat}

theorem own?_open_new (h : e.index = s.scopes.size) : (s.open sc).2.own? e x = sc.vars.get? x := by
  rw [own?, scope_open, if_pos h]

theorem own?_open_old (h : e.index < s.scopes.size) : (s.open sc).2.own? e x = s.own? e x := by
  rw [own?, scope_open, if_neg (Nat.ne_of_lt h)]
  rfl

/-- The scopes of two distances that follow each other. -/
theorem exists_of_getAt? {y : String} (hx : s.getAt? e (d + 1) x = some v)
    (hy : s.getAt? e d y = some w) :
    ∃ e' p, s.own? e' y = some w ∧ s.outer? e' = some p ∧ s.own? p x = some v := by
  induction d generalizing e with
  | zero =>
    obtain ⟨p, hp, hv⟩ := Option.bind_eq_some_iff.mp hx
    obtain ⟨p', hp', ⟨⟩⟩ := Option.bind_eq_some_iff.mp hp
    exact ⟨e, p, hy, hp', hv⟩
  | succ d ih =>
    obtain ⟨p, hp, hv⟩ := Option.bind_eq_some_iff.mp hx
    obtain ⟨p', hp', hrest⟩ := Option.bind_eq_some_iff.mp hp
    have hy' : s.getAt? p' d y = some w := by
      rw [getAt?, ancestor?, hp'] at hy
      exact hy
    refine ih ?_ hy'
    rw [getAt?, hrest]
    exact hv

end Store

namespace Machine

variable {m m' : Machine} {v : Value} {f : CallableId} {k : ClassId} {i : InstanceId}
  {e : ScopeId} {x : String}

theorem holds_plain (hv : v.plain = true) : m.Holds v := by
  refine ⟨Heap.has_plain hv, ?_⟩
  rintro f rfl
  cases hv

theorem holds_class (hk : m.heap.hasClass k = true) : m.Holds (.class_ k) :=
  ⟨hk, nofun⟩

theorem holds_instance (hi : m.heap.hasInstance i = true) : m.Holds (.instance_ i) :=
  ⟨hi, nofun⟩

theorem holds_script {d : FunctionDecl} {closure : ScopeId} {isInit : Bool}
    (hc : m.heap.callable f = .script d closure isInit) (hclosure : m.Inside closure) :
    m.Holds (.function f) := by
  refine ⟨Heap.hasCallable_of_script hc, ?_⟩
  rintro _ ⟨⟩
  unfold Presents
  rw [hc]
  exact hclosure

theorem inside_open (sc : Scope) (hsuper : sc.vars.get? superName = none) :
    { m with store := (m.store.open sc).2 }.Inside m.nextScope := by
  refine ⟨?_, (Store.own?_open_new rfl).trans hsuper⟩
  simp [nextScope, Store.open]

/-- A number that was not there before belongs to what was added. -/
theorem index_of_new {n n' j : Nat} (hj : j < n') (hn : n' = n + 1) (hnew : ¬ j < n) : j = n := by
  omega

namespace Matched

theorem valuesIn (h : m.Matched) (hp : m.Persists m') : m.Stores m'.Holds fun _ => True :=
  h.values.mono (fun _ hv => hv.mono hp) fun _ => id

theorem descends (h : m.Matched) : m.heap.Descends :=
  fun k p hp => (h.classes k (Heap.hasClass_of_superclass hp)).older p hp

theorem tabled (h : m.Matched) (hf : (m.heap.class_ k).methods.get? x = some f) : m.Tabled k x f := by
  refine (h.classes k (Heap.hasClass_of_ne fun hnone => ?_)).table x f hf
  rw [hnone] at hf
  cases hf

/-- What a class finds is in a table, of a class that it is or lies below. -/
theorem findMethod (h : m.Matched) (hk : m.heap.hasClass k = true)
    (hf : m.heap.findMethod k x = some f) : ∃ j, m.heap.Below k j ∧ m.Tabled j x f := by
  obtain ⟨j, hj, hget⟩ := Heap.exists_below_of_search h.descends hk hf
  exact ⟨j, hj, h.tabled hget⟩

/-- A method that is offered to an instance is in the table of a class that the instance is of. -/
theorem offers (h : m.Matched) (hi : m.heap.hasInstance i = true) (ho : m.Offers f i) :
    ∃ j x, m.heap.Below (m.heap.instance_ i).class_ j ∧ m.Tabled j x f := by
  cases ho with
  | @own x hf =>
    obtain ⟨j, hj, ht⟩ := h.findMethod (h.instances i hi).1 hf
    exact ⟨j, x, hj, ht⟩
  | @super d k x hk hthis hf =>
    obtain ⟨e, p, hthis, houter, hsuper⟩ := Store.exists_of_getAt? hk hthis
    have he := Store.index_lt_size_of_own? hthis
    obtain ⟨-, hbelow⟩ := h.scopes e he p i k hthis houter hsuper
    obtain ⟨j, hj, ht⟩ := h.findMethod (h.values.vars hsuper).1 hf
    exact ⟨j, x, hbelow.trans h.descends hj, ht⟩

/-! ### Changes -/

/-- Where a machine is and what its host does beside does not matter. -/
theorem moved (h : m.Matched) (he : m.Inside e) (d l : Nat) (c : Console) (cells : Cells) :
    { m.withCells cells with env := e, depth := d, line := l, console := c }.Matched :=
  have hp := (Persists.refl m).moved e d l c cells
  h.accept {
    persists := hp
    values := { h.valuesIn hp with }
    env := he
    callables := nothing_new
    classes := nothing_new
    instances := nothing_new
    scopes := nothing_new
    types := fun _ => nothing_new }

theorem bind (h : m.Matched) (e : ScopeId) (hx : ¬ Reserved x) (hv : m.Holds v) :
    (m.bind e x v).Matched := by
  have hp := m.persists_bind e hx v
  have hsize : (m.bind e x v).store.scopes.size = m.store.scopes.size := Array.size_modify
  exact h.accept {
    persists := hp
    values := (h.valuesIn hp).bind (hv.mono hp)
    env := h.env.mono hp
    callables := nothing_new
    classes := nothing_new
    instances := nothing_new
    scopes := fun _ he hnew => absurd (hsize ▸ he) hnew
    types := fun _ => nothing_new }

/-- A scope in which `this` goes with the scope around it. -/
theorem «open» (h : m.Matched) (sc : Scope) (hvalues : ∀ {x v}, sc.vars.get? x = some v → m.Holds v)
    (hthis : ∀ p i a, sc.vars.get? thisName = some (.instance_ i) → sc.parent = some p →
      m.store.own? p superName = some (.class_ a) →
      m.heap.hasInstance i = true ∧ m.heap.Below (m.heap.instance_ i).class_ a) :
    { m with store := (m.store.open sc).2 }.Matched := by
  have hp := m.persists_open sc
  refine h.accept {
    persists := hp
    values := (h.valuesIn hp).open fun hv => (hvalues hv).mono hp
    env := h.env.mono hp
    callables := nothing_new
    classes := nothing_new
    instances := nothing_new
    scopes := fun e he hnew p i a hown houter hsuper => ?_
    types := fun _ => nothing_new }
  have heq : e.index = m.store.scopes.size := index_of_new he (Array.size_push sc) hnew
  have hlt := Store.index_lt_of_outer? houter
  rw [Store.own?_open_new heq] at hown
  rw [Store.own?_open_old (heq ▸ hlt)] at hsuper
  have hparent : sc.parent = some p := by
    rw [Store.outer?, Store.scope_open, if_pos heq] at houter
    exact (Option.filter_eq_some_iff.mp houter).1
  exact hthis p i a hown hparent hsuper

/-- A scope of names that are not reserved is entered. -/
theorem enter (h : m.Matched) (sc : Scope) (hvalues : ∀ {x v}, sc.vars.get? x = some v → m.Holds v)
    (hnames : ∀ {x}, Reserved x → sc.vars.get? x = none) (d : Nat) :
    { m.enter sc with depth := d }.Matched := by
  have hopen := h.open sc hvalues fun p i a hthis _ _ => by
    rw [hnames (.inl rfl)] at hthis
    cases hthis
  exact hopen.moved (inside_open sc (hnames (.inr rfl))) d m.line m.console m.store.cells

theorem addCallable (h : m.Matched) {g : Callable}
    (hreceiver : ∀ {y i}, g = .method y (some i) → m.Holds (.instance_ i))
    (hfits : (m.addCallable g).CallableFits m.nextCallable) : (m.addCallable g).Matched := by
  have hp := m.persists_addCallable g
  refine h.accept {
    persists := hp
    values := (h.valuesIn hp).addCallable fun hg => (hreceiver hg).mono hp
    env := h.env.mono hp
    callables := fun f hf hnew => ?_
    classes := nothing_new
    instances := nothing_new
    scopes := nothing_new
    types := fun _ => nothing_new }
  have heq : f.index = m.heap.callables.size :=
    index_of_new (of_decide_eq_true hf) (Array.size_push g) fun hlt => hnew (decide_eq_true hlt)
  obtain ⟨j⟩ := f
  cases heq
  exact hfits

theorem addScript (h : m.Matched) {d : FunctionDecl} {c : Surroundings} {ss : StaticScopes}
    (hd : d.Known (fun _ => True) c ss) {closure : ScopeId}
    (hclosure : closure.index < m.store.scopes.size) (isInit : Bool) :
    (m.addCallable (.script d closure isInit)).Matched := by
  refine h.addCallable nofun ?_
  unfold CallableFits
  rw [callable_addCallable]
  exact ⟨⟨c, ss, hd⟩, hclosure⟩

theorem putField (h : m.Matched) (hv : m.Holds v) :
    { m with heap := m.heap.putField i x v }.Matched := by
  have hp := m.persists_putField i x v
  exact h.accept {
    persists := hp
    values := (h.valuesIn hp).putField (hv.mono hp)
    env := h.env.mono hp
    callables := nothing_new
    classes := nothing_new
    instances := fun j hj hnew => absurd (by simpa [Heap.putField, Heap.hasInstance] using hj) hnew
    scopes := nothing_new
    types := fun _ => nothing_new }

theorem putBound (h : m.Matched) (hf : m.Holds (.function f)) :
    { m with heap := m.heap.putBound i x f }.Matched := by
  have hp := m.persists_putBound i x f
  exact h.accept {
    persists := hp
    values := (h.valuesIn hp).putBound (hf.mono hp)
    env := h.env.mono hp
    callables := nothing_new
    classes := nothing_new
    instances := fun j hj hnew => absurd (by simpa [Heap.putBound, Heap.hasInstance] using hj) hnew
    scopes := nothing_new
    types := fun _ => nothing_new }

/-! ### Methods -/

theorem bindScript (h : m.Matched) {d : FunctionDecl} {closure : ScopeId} {isInit : Bool}
    (hc : m.heap.callable f = .script d closure isInit) (hi : m.heap.hasInstance i = true)
    (ho : m.Offers f i) :
    (m.bindScript d closure isInit i).Matched ∧
      (m.bindScript d closure isInit i).Holds (.function m.nextCallable) := by
  have hfits := h.callables f (Heap.hasCallable_of_script hc)
  unfold CallableFits at hfits
  rw [hc] at hfits
  obtain ⟨⟨c, ss, hd⟩, -⟩ := hfits
  obtain ⟨j, y, hbelow, -, htabled⟩ := h.offers hi ho
  rw [hc] at htabled
  have hopen := h.open ⟨.ofList [(thisName, .instance_ i)], some closure⟩
    (fun {y v} hv => by
      cases List.mem_singleton.mp (Bindings.mem_of_get?_ofList hv)
      exact holds_instance hi)
    fun p i' a hthis hparent hsuper => by
      cases List.mem_singleton.mp (Bindings.mem_of_get?_ofList hthis)
      cases hparent
      exact ⟨hi, hbelow.trans h.descends (htabled.2 a hsuper)⟩
  have hinside := inside_open (m := m) ⟨.ofList [(thisName, .instance_ i)], some closure⟩ rfl
  exact ⟨hopen.addScript hd hinside.1 isInit, holds_script (callable_addCallable _ _) hinside⟩

theorem bindHost (h : m.Matched) {g : HostMethod} {receiver : Option InstanceId}
    (hc : m.heap.callable f = .method g receiver) (hi : m.heap.hasInstance i = true)
    (ho : m.Offers f i) :
    (m.addCallable (.method g (some i))).Matched ∧
      (m.addCallable (.method g (some i))).Holds (.function m.nextCallable) := by
  obtain ⟨j, y, hbelow, -, htabled⟩ := h.offers hi ho
  rw [hc] at htabled
  have htype : m.OfType i g.type := ⟨hi, j, hbelow, htabled.2⟩
  have hnew := callable_addCallable m (.method g (some i))
  refine ⟨h.addCallable ?_ ?_, m.heap.hasCallable_newCallable _, ?_⟩
  · rintro _ _ ⟨⟩
    exact holds_instance hi
  · unfold CallableFits
    rw [hnew]
    rintro _ ⟨⟩
    exact htype.mono (persists_addCallable _)
  · rintro _ ⟨⟩
    unfold Presents
    rw [hnew]
    rfl

theorem declareFunction (h : m.Matched) {d : FunctionDecl} {c : Surroundings} {ss : StaticScopes}
    (hd : (Stmt.function d).Known (fun _ => True) c ss) : (m.declareFunction d).Matched := by
  have hadded := h.addScript hd.function h.env.1 false
  exact hadded.bind m.env (hd.declares rfl) (holds_script (callable_addCallable _ _) h.env)

/-! ### Classes -/

theorem withScripts (h : m.Matched) {closure : ScopeId} (hclosure : closure.index < m.store.scopes.size)
    {ms : List FunctionDecl} (hms : ∀ d ∈ ms, ∃ c ss, d.Known (fun _ => True) c ss) :
    { m with heap := m.heap.withScripts closure ms }.Matched := by
  have hp := m.persists_withScripts closure ms
  refine h.accept {
    persists := hp
    values := (h.valuesIn hp).withScripts closure ms
    env := h.env.mono hp
    callables := fun f hf hnew => ?_
    classes := nothing_new
    instances := nothing_new
    scopes := nothing_new
    types := fun _ => nothing_new }
  obtain hold | ⟨j, d, hj, -, hc⟩ := m.heap.callable_withScripts_cases closure ms f
  · have hnone : m.heap.callable f = default := by
      rw [Heap.callable, Array.getD_eq_getD_getElem?,
        Array.getElem?_eq_none (Nat.le_of_not_lt fun hlt => hnew (decide_eq_true hlt))]
      rfl
    unfold CallableFits
    rw [hold, hnone]
    trivial
  · unfold CallableFits
    rw [hc]
    exact ⟨hms d (List.mem_of_getElem? hj), hclosure⟩

/-- A class, and host types for which it is one. -/
theorem newClass (h : m.Matched) (k : Class) (ts : List (HostType × ClassId))
    (hp : ∀ p, k.superclass = some p → m.heap.hasClass p = true)
    (hfits : ClassFits { m with heap := (m.heap.newClass k).2, hostClasses := ts ++ m.hostClasses }
      m.nextClass)
    (hts : ∀ t j, (t, j) ∈ ts →
      TypeFits { m with heap := (m.heap.newClass k).2, hostClasses := ts ++ m.hostClasses } t j) :
    { m with heap := (m.heap.newClass k).2, hostClasses := ts ++ m.hostClasses }.Matched := by
  have hle := m.persists_newClass k ts
  refine h.accept {
    persists := hle
    values := { (h.valuesIn hle).newClass (fun _ => trivial) fun hk =>
      (holds_class (hp _ hk)).mono hle with hostClasses := ?_ }
    env := h.env.mono hle
    callables := nothing_new
    classes := fun j hj hnew => ?_
    instances := nothing_new
    scopes := nothing_new
    types := fun t j ht hnew => ?_ }
  · intro t j ht
    rcases List.mem_append.mp ht with ht | ht
    · exact holds_class (hts t j ht).1
    · exact (h.values.hostClasses ht).mono hle
  · have heq : j.index = m.heap.classes.size :=
      index_of_new (of_decide_eq_true hj) (Array.size_push k) fun hlt => hnew (decide_eq_true hlt)
    obtain ⟨j⟩ := j
    cases heq
    exact hfits
  · rcases List.mem_append.mp ht with ht | ht
    · exact hts t j ht
    · exact absurd ht hnew

/-- A class lies below the class above it. -/
theorem below_newClass (h : m.Matched) {k : Class} {p : ClassId} (hk : k.superclass = some p)
    (hp : m.heap.hasClass p = true) : (m.heap.newClass k).2.Below m.nextClass p := by
  have hd := h.descends.newClass (k := k) fun p' hp' => by cases hk.symm.trans hp'; exact hp
  have hsuper : ((m.heap.newClass k).2.class_ m.nextClass).superclass = some p := by
    rw [class_newClass, hk]
  obtain ⟨ks, hks⟩ := hd.exists_chain p
  have hchain : (m.heap.newClass k).2.Chain m.nextClass (m.nextClass :: ks) := .up hsuper hks
  exact ⟨m.heap.hasClass_newClass k,
    (hd.inherits_iff hchain).mpr (List.mem_cons_of_mem _ hks.head_mem)⟩

/-- The scope of the methods of a class. -/
theorem methodStore (h : m.Matched) {parent : Option ClassId}
    (hp : ∀ k, parent = some k → m.Holds (.class_ k)) :
    { m with store := (m.methodStore parent).2 }.Matched ∧
      (m.methodStore parent).1.index < (m.methodStore parent).2.scopes.size ∧
      ∀ a, (m.methodStore parent).2.own? (m.methodStore parent).1 superName = some (.class_ a) →
        parent = some a := by
  cases parent with
  | none =>
    refine ⟨h, h.env.1, fun a ha => ?_⟩
    cases h.env.2.symm.trans ha
  | some k =>
    refine ⟨h.open _ (fun {y v} hv => ?_) nofun, ?_, fun a ha => ?_⟩
    · cases List.mem_singleton.mp (Bindings.mem_of_get?_ofList hv)
      exact hp k rfl
    · simp [Machine.methodStore, Store.open]
    · have hnew := (Store.own?_open_new rfl).symm.trans ha
      cases List.mem_singleton.mp (Bindings.mem_of_get?_ofList hnew)
      rfl

theorem addClass (h : m.Matched) {y : Ident} {super : Option Superclass} {ms : List FunctionDecl}
    {sp : Span} {parent : Option ClassId} {table : Bindings CallableId} {c : Surroundings}
    {ss : StaticScopes} (hk : (Stmt.class_ y super ms sp).Known (fun _ => True) c ss)
    (hp : ∀ k, parent = some k → m.Holds (.class_ k))
    (ht : MethodTable m.heap.callables.size ms table) :
    (m.addClass y.name parent ms table).Matched := by
  obtain ⟨hstore, hclosure, hsuper⟩ := h.methodStore hp
  have hscripts := hstore.withScripts hclosure fun d hd => ⟨_, _, hk.method hd⟩
  let k : Class := ⟨y.name, parent, table, .script⟩
  have hnew : (m.addClass y.name parent ms table).heap.class_ m.nextClass = k := class_newClass _ k
  have hfits : (m.addClass y.name parent ms table).ClassFits m.nextClass := by
    refine ⟨fun p hk => ?_, fun n t hk => ?_, fun x f hf => ?_⟩
    · rw [hnew] at hk
      exact of_decide_eq_true (hp p hk).1
    · rw [hnew] at hk
      cases hk
    · rw [hnew] at hf
      obtain ⟨j, d, hj, -, hindex⟩ := ht x f hf
      have hc : (m.addClass y.name parent ms table).heap.callable f =
          .script d (m.methodStore parent).1 d.isInit := m.heap.callable_withScripts _ hj hindex
      refine ⟨Heap.hasCallable_of_script hc, ?_⟩
      rw [hc]
      exact ⟨hclosure, fun a ha => hscripts.below_newClass (k := k) (hsuper a ha) (hp a (hsuper a ha)).1⟩
  exact hscripts.newClass k [] (fun p hk => (hp p hk).1) hfits nofun

/-! ### Instances -/

/-- Initializers are functions of scripts: no method of a host has their name. -/
theorem hasInitializer (h : m.Matched) (hk : m.heap.hasClass k = true)
    (hinit : (m.heap.findMethod k initName).isSome = true) : m.HasInitializer k := by
  obtain ⟨f, hf⟩ := Option.isSome_iff_exists.mp hinit
  obtain ⟨j, -, -, htabled⟩ := h.findMethod hk hf
  cases hc : m.heap.callable f with
  | native y n g => rw [hc] at htabled; exact htabled.elim
  | script d closure isInit => exact ⟨f, d, closure, isInit, hf, hc⟩
  | method g receiver =>
    rw [hc] at htabled
    exact absurd htabled.1 g.name_ne_initName

theorem registered (h : m.Matched) {n : Nat} {t : HostType}
    (hk : (m.heap.class_ k).native? = some (n, t)) : (t, k) ∈ m.hostClasses := by
  refine (h.classes k (Heap.hasClass_of_ne fun hnone => ?_)).native n t hk
  rw [hnone] at hk
  cases hk

/-- Host objects are wrapped in instances of a class for their type, or of one below it. -/
theorem wraps (h : m.Matched) {t : HostType} (hk : m.heap.hasClass k = true) (hw : m.Wraps k t) :
    ∃ j, m.heap.Below k j ∧ (t, j) ∈ m.hostClasses := by
  rcases hw with hlookup | ⟨n, hnative⟩
  · exact ⟨k, Heap.below_self h.descends hk, mem_of_lookup hlookup⟩
  · obtain ⟨j, hj, hask⟩ := Heap.exists_below_of_search h.descends hk hnative
    exact ⟨j, hj, h.registered hask⟩

/-- A class for a host type, and those below it, make objects of that type. -/
theorem nativeConstructor (h : m.Matched) {t : HostType} {j : ClassId} (hj : m.heap.Below j k)
    (ht : (t, k) ∈ m.hostClasses) : m.heap.nativeConstructor j = some (t.arity, t) := by
  obtain ⟨-, htop, hnative⟩ := h.types t k ht
  obtain ⟨ks, hks⟩ := hj.chain h.descends htop
  have hsome : (m.heap.nativeConstructor j).isSome = true := by
    rw [Heap.nativeConstructor, h.descends.search_eq hks, List.isSome_findSome?, List.any_eq_true]
    refine ⟨k, List.mem_append_right _ List.mem_cons_self, ?_⟩
    rw [hnative]
    rfl
  obtain ⟨⟨n, t'⟩, hfound⟩ := Option.isSome_iff_exists.mp hsome
  -- The class that answers is at the top too.
  obtain ⟨a, ha, hask⟩ := Heap.exists_below_of_search h.descends hj.1 hfound
  obtain ⟨ks', hks'⟩ := ha.chain h.descends (h.types t' a (h.registered hask)).2.1
  obtain ⟨-, hlast⟩ := List.append_inj' (hks.unique hks') rfl
  cases hlast
  exact hfound.trans (hask.symm.trans hnative)

theorem addInstance (h : m.Matched) {o : Instance} (hk : m.heap.hasClass o.class_ = true)
    (ho : o.Fresh) (hcreates : m.Creates o) : (m.addInstance o).Matched := by
  have hp := m.persists_addInstance o
  refine h.accept {
    persists := hp
    values := (h.valuesIn hp).addInstance ho (fun _ => holds_plain) ((holds_class hk).mono hp)
    env := h.env.mono hp
    callables := nothing_new
    classes := nothing_new
    instances := fun i hi hnew => ?_
    scopes := nothing_new
    types := fun _ => nothing_new }
  have heq : i.index = m.heap.instances.size :=
    index_of_new (of_decide_eq_true hi) (Array.size_push o) fun hlt => hnew (decide_eq_true hlt)
  have hi' : (m.addInstance o).heap.instance_ i = o := by
    rw [Machine.addInstance, Heap.instance_newInstance, if_pos heq]
  refine ⟨hi'.symm ▸ hp.lasts.hasClass hk, ?_⟩
  rw [hi']
  cases hcreates with
  | @plain k hplain =>
    exact hplain.imp (fun hinit => (h.hasInitializer hk hinit).mono hp hk) fun hnone =>
      (hp.search hk).trans hnone
  | @host k o hw =>
    obtain ⟨j, hj, ht⟩ := h.wraps hk hw
    refine ⟨hi, j, ?_, ht⟩
    rw [hi']
    exact hp.below hj

end Matched

end Machine

/-- Evaluation keeps to machines that match. What is known of the code is what it takes for initializers. -/
def Regime.matched (c : Context) (m₀ : Machine) : Regime c :=
  { Regime.initialized c m₀ with
    inv := fun m => m.Matched
    le := fun m m' => m.Persists m'
    crash := True
    le_refl := fun m => .refl m
    le_trans := fun h h' => h.trans h'
    ok := fun m v => m.Holds v
    okMethod := fun _ _ => True
    ok_le := fun h hv => hv.mono h
    ok_env := fun _ _ hv => hv
    okMethod_le := fun _ _ => trivial
    atExpr_le := fun _ he => he
    atStmt_le := fun _ hs => hs
    after_le := fun _ _ => trivial
    atBlock_tail := by
      rintro m m' s rest ⟨c, ss, hk⟩ - -
      exact ⟨c, ss.after s, hk.tail⟩
    ok_plain := fun hv => Machine.holds_plain hv
    ok_own := fun hi hv => hi.values.vars hv
    ok_field := fun hi hv => hi.values.fields hv
    ok_bound := fun hi hf => hi.values.bound hf
    ok_table := fun _ _ => trivial
    ok_class := fun hi hn => hi.values.classOf hn.1
    ok_hostClass := fun hi hk => hi.values.hostClasses (mem_of_lookup hk)
    ok_receiver := fun hi _ hc => hi.values.receiver hc
    has_class := fun _ _ => .inl trivial
    has_instance := fun _ _ => .inl trivial
    has_callable := fun _ _ => .inl trivial
    has_method := fun _ _ => .inl trivial
    native_arity := fun _ _ _ => .inl trivial
    constructor_arity := fun _ _ => .inl trivial
    line := fun {m} hi l => ⟨hi.moved hi.env m.depth l m.console m.store.cells,
      (Machine.Persists.refl m).moved m.env m.depth l m.console m.store.cells⟩
    console := fun {m} hi k => ⟨hi.moved hi.env m.depth m.line k m.store.cells,
      (Machine.Persists.refl m).moved m.env m.depth m.line k m.store.cells⟩
    cells := fun {m} hi cs => ⟨hi.moved hi.env m.depth m.line m.console cs,
      (Machine.Persists.refl m).moved m.env m.depth m.line m.console cs⟩
    declare := fun {m _ v} hi hx hv => ⟨hi.bind m.env hx hv, m.persists_bind m.env hx v⟩
    after_declare := fun _ _ _ => trivial
    assign := fun {m e _ _ v} hi hx _ hv => ⟨hi.bind e hx hv, m.persists_bind e hx v⟩
    putField := fun hi hv => ⟨hi.putField hv, Machine.persists_putField _ _ _⟩
    putBound := fun _ hi hf _ => ⟨hi.putBound hf, Machine.persists_putBound _ _ _⟩
    bindScript := fun hi _ hc hn ho =>
      have h := hi.bindScript hc hn.1 ho
      ⟨h.1, Machine.persists_bindScript _ _ _ _, h.2⟩
    bindHost := fun hi _ hc hn ho =>
      have h := hi.bindHost hc hn.1 ho
      ⟨h.1, Machine.persists_addCallable _, h.2⟩
    function := by
      rintro m d hi ⟨c, ss, hk⟩
      exact ⟨hi.declareFunction hk,
        (Machine.persists_addCallable _).trans (Machine.persists_bind _ (hk.declares rfl) _), trivial⟩
    newClass := by
      rintro m x super ms sp parent table hi ⟨c, ss, hk⟩ - - hp ht
      exact ⟨hi.addClass hk hp ht, Machine.persists_addClass _ _ _ _,
        Machine.holds_class (Heap.hasClass_newClass _ _)⟩
    newInstance := fun {m o} hi hk ho hcreates =>
      ⟨hi.addInstance hk.1 ho hcreates, Machine.persists_addInstance o,
        Machine.holds_instance (m.heap.hasInstance_newInstance o)⟩
    enterBlock := by
      rintro m body sp hi ⟨c, ss, hk⟩
      exact ⟨hi.enter ⟨.empty, some m.env⟩ nofun (fun _ => rfl) m.depth, c, Bindings.empty :: ss, hk.block⟩
    enterCall := by
      intro m f d closure isInit args hi _ hc _ hargs _
      have hfits := hi.callables f (Heap.hasCallable_of_script hc)
      unfold Machine.CallableFits at hfits
      rw [hc] at hfits
      obtain ⟨⟨c, ss, hd⟩, -⟩ := hfits
      refine ⟨hi.enter _ (fun {x v} hv => ?_) (fun {x} hx => ?_) _, c, _, hd.body⟩
      · exact hargs v (List.of_mem_zip (Bindings.mem_of_get?_ofList hv)).2
      · refine Option.eq_none_iff_forall_ne_some.mpr fun v hv => ?_
        exact hd.param (List.of_mem_zip (Bindings.mem_of_get?_ofList hv)).1 hx
    leaveBlock := fun {m m' sc} hi h hi' =>
      have hle := (m.persists_enter sc).trans h
      ⟨hi'.moved (hi.env.mono hle) m'.depth m'.line m'.console m'.store.cells,
        hle.moved m.env m'.depth m'.line m'.console m'.store.cells⟩
    leaveCall := fun {m m' _ _ _} hi h hi' =>
      have hle : m.Persists m' := (m.persists_enterCall _ _ _).trans h
      ⟨hi'.moved (hi.env.mono hle) (m'.depth - 1) m'.line m'.console m'.store.cells,
        hle.moved m.env (m'.depth - 1) m'.line m'.console m'.store.cells⟩ }

end HostScript
