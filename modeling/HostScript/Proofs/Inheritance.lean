import HostScript.Proofs.Hosting

/-!
# Classes and those above them

A class is made after the class above it, because that one is looked up and has to be there. So every
class has a greater number than the class above it, and going up comes to an end. From that follows all
that inheritance is relied on for: a class has one chain of classes above it, a method is found in the
first class of the chain that has it, and classes below another are partially ordered and find whatever
it finds.
-/

namespace HostScript

namespace Heap

variable {h h' : Heap} {c p a : ClassId} {ks : List ClassId} {x : String} {f : CallableId}

/-- Every class has a greater number than the class above it. -/
def Descends (h : Heap) : Prop :=
  ∀ c p, (h.class_ c).superclass = some p → p.index < c.index

/-- Going up from a class passes the classes of the list and ends with the last of them. -/
inductive Chain (h : Heap) : ClassId → List ClassId → Prop where
  | top {c : ClassId} (hc : (h.class_ c).superclass = none) : Chain h c [c]
  | up {c p : ClassId} {ks : List ClassId} (hc : (h.class_ c).superclass = some p)
      (hp : Chain h p ks) : Chain h c (c :: ks)

/-- There is nothing above a number that no class has. -/
theorem hasClass_of_superclass (hc : (h.class_ c).superclass = some p) : h.hasClass c = true := by
  refine hasClass_of_ne fun hnone => ?_
  rw [hnone] at hc
  cases hc

namespace Chain

theorem unique {ks' : List ClassId} (hks : h.Chain c ks) (hks' : h.Chain c ks') : ks' = ks := by
  induction hks generalizing ks' with
  | top hc =>
    cases hks' with
    | top _ => rfl
    | up hc' _ => cases hc.symm.trans hc'
  | up hc _ ih =>
    cases hks' with
    | top hc' => cases hc.symm.trans hc'
    | up hc' hp' =>
      cases hc.symm.trans hc'
      rw [ih hp']

theorem head_mem (hks : h.Chain c ks) : c ∈ ks := by
  cases hks <;> exact List.mem_cons_self

/-- From a class on the way up, the rest of the way goes on. -/
theorem of_mem (hks : h.Chain c ks) (ha : a ∈ ks) : ∃ ks', h.Chain a ks' ∧ ks' <:+ ks := by
  induction hks with
  | top hc =>
    cases List.mem_singleton.mp ha
    exact ⟨_, .top hc, List.suffix_refl _⟩
  | @up c p ks hc hp ih =>
    rcases List.mem_cons.mp ha with rfl | ha
    · exact ⟨_, .up hc hp, List.suffix_refl _⟩
    · obtain ⟨ks', hks', hsuffix⟩ := ih ha
      exact ⟨ks', hks', hsuffix.trans (List.suffix_cons c ks)⟩

end Chain

namespace Descends

/-- Going up is what a search does. -/
theorem superclass?_eq (hd : h.Descends) : h.superclass? c = (h.class_ c).superclass := by
  unfold superclass?
  cases hc : (h.class_ c).superclass with
  | none => rfl
  | some p => simp [Option.filter, hd c p hc]

/-- Going up comes to an end. -/
theorem exists_chain (hd : h.Descends) (c : ClassId) : ∃ ks, h.Chain c ks := by
  cases hc : (h.class_ c).superclass with
  | none => exact ⟨[c], .top hc⟩
  | some p =>
    obtain ⟨ks, hks⟩ := exists_chain hd p
    exact ⟨c :: ks, .up hc hks⟩
termination_by c.index
decreasing_by exact hd c p hc

/-- On the way up numbers get smaller. -/
theorem index_le (hd : h.Descends) (hks : h.Chain c ks) (ha : a ∈ ks) : a = c ∨ a.index < c.index := by
  induction hks with
  | top hc => exact .inl (List.mem_singleton.mp ha)
  | @up c p ks hc hp ih =>
    have hlt := hd c p hc
    rcases List.mem_cons.mp ha with rfl | ha
    · exact .inl rfl
    · rcases ih ha with rfl | hlt'
      · exact .inr hlt
      · exact .inr (Nat.lt_trans hlt' hlt)

/-- A search gives the first answer on the way up. -/
theorem search_eq {β : Type} {ask : ClassId → Class → Option β} (hd : h.Descends)
    (hks : h.Chain c ks) : h.search ask c = ks.findSome? fun k => ask k (h.class_ k) := by
  induction hks with
  | top hc =>
    rw [search_step, hd.superclass?_eq, hc, List.findSome?_singleton]
    cases ask _ _ <;> rfl
  | up hc hp ih =>
    rw [search_step, hd.superclass?_eq, hc, Option.bind_some, ih, List.findSome?_cons]
    cases ask _ _ <;> rfl

/-- A class is another one or below it if the way up comes to it. -/
theorem inherits_iff (hd : h.Descends) (hks : h.Chain c ks) : h.inherits c a = true ↔ a ∈ ks := by
  unfold inherits
  rw [hd.search_eq hks, List.isSome_findSome?, List.any_eq_true]
  constructor
  · rintro ⟨k, hk, hask⟩
    split at hask
    · subst a
      exact hk
    · cases hask
  · intro ha
    exact ⟨a, ha, by rw [if_pos rfl]; rfl⟩

theorem inherits_self (hd : h.Descends) (c : ClassId) : h.inherits c c = true := by
  obtain ⟨ks, hks⟩ := hd.exists_chain c
  exact (hd.inherits_iff hks).mpr hks.head_mem

theorem inherits_trans (hd : h.Descends) {b : ClassId} (hb : h.inherits c b = true)
    (ha : h.inherits b a = true) : h.inherits c a = true := by
  obtain ⟨ks, hks⟩ := hd.exists_chain c
  obtain ⟨ks', hks', hsuffix⟩ := hks.of_mem ((hd.inherits_iff hks).mp hb)
  exact (hd.inherits_iff hks).mpr (hsuffix.mem ((hd.inherits_iff hks').mp ha))

theorem inherits_antisymm (hd : h.Descends) (ha : h.inherits c a = true)
    (hc : h.inherits a c = true) : a = c := by
  obtain ⟨ks, hks⟩ := hd.exists_chain c
  obtain ⟨ks', hks'⟩ := hd.exists_chain a
  rcases hd.index_le hks ((hd.inherits_iff hks).mp ha) with heq | hlt
  · exact heq
  · rcases hd.index_le hks' ((hd.inherits_iff hks').mp hc) with heq | hlt'
    · exact heq.symm
    · exact absurd hlt (Nat.lt_asymm hlt')

/-- A class finds whatever a class finds that it is or lies below. -/
theorem findMethod_isSome (hd : h.Descends) (ha : h.inherits c a = true)
    (hf : (h.findMethod a x).isSome = true) : (h.findMethod c x).isSome = true := by
  obtain ⟨ks, hks⟩ := hd.exists_chain c
  obtain ⟨ks', hks', hsuffix⟩ := hks.of_mem ((hd.inherits_iff hks).mp ha)
  unfold findMethod at hf ⊢
  rw [hd.search_eq hks', List.isSome_findSome?, List.any_eq_true] at hf
  rw [hd.search_eq hks, List.isSome_findSome?, List.any_eq_true]
  obtain ⟨k, hk, hask⟩ := hf
  exact ⟨k, hsuffix.mem hk, hask⟩

theorem of_classes (hd : h.Descends) (heq : h'.classes = h.classes) : h'.Descends := by
  intro c p hp
  rw [class_, heq] at hp
  exact hd c p hp

/-- A new class has the greatest number. -/
theorem newClass (hd : h.Descends) {k : Class}
    (hp : ∀ p, k.superclass = some p → h.hasClass p = true) : (h.newClass k).2.Descends := by
  intro c p hc
  rw [class_newClass] at hc
  split at hc
  · rename_i hnew
    rw [hnew]
    exact of_decide_eq_true (hp p hc)
  · exact hd c p hc

end Descends

end Heap

/-! ### Evaluation -/

/-- A regime that also keeps a property of the classes, if it is kept when scripts declare classes. -/
def Regime.withClasses {c : Context} (R : Regime c) (P : Heap → Prop)
    (hsame : ∀ {h h'}, P h → h'.classes = h.classes → P h')
    (hnew : ∀ {m x parent ms table}, R.inv m → P m.heap →
      (∀ k, parent = some k → R.ok m (.class_ k)) → P (m.addClass x parent ms table).heap) :
    Regime c :=
  { R with
    inv := fun m => R.inv m ∧ P m.heap
    ok_own := fun hi hv => R.ok_own hi.1 hv
    ok_field := fun hi hv => R.ok_field hi.1 hv
    ok_bound := fun hi hf => R.ok_bound hi.1 hf
    ok_table := fun hi hf => R.ok_table hi.1 hf
    ok_class := fun hi hn => R.ok_class hi.1 hn
    ok_hostClass := fun hi hk => R.ok_hostClass hi.1 hk
    ok_receiver := fun hi hf hc => R.ok_receiver hi.1 hf hc
    has_class := fun hi hk => R.has_class hi.1 hk
    has_instance := fun hi hn => R.has_instance hi.1 hn
    has_callable := fun hi hf => R.has_callable hi.1 hf
    has_method := fun hi hf => R.has_method hi.1 hf
    native_arity := fun hi hf hc => R.native_arity hi.1 hf hc
    constructor_arity := fun hi hk => R.constructor_arity hi.1 hk
    line := fun hi l => ⟨⟨(R.line hi.1 l).1, hi.2⟩, (R.line hi.1 l).2⟩
    console := fun hi k => ⟨⟨(R.console hi.1 k).1, hi.2⟩, (R.console hi.1 k).2⟩
    cells := fun hi cs => ⟨⟨(R.cells hi.1 cs).1, hi.2⟩, (R.cells hi.1 cs).2⟩
    declare := fun hi hx hv => ⟨⟨(R.declare hi.1 hx hv).1, hi.2⟩, (R.declare hi.1 hx hv).2⟩
    after_declare := fun hi hs hx => R.after_declare hi.1 hs hx
    assign := fun hi hx hs hv =>
      ⟨⟨(R.assign hi.1 hx hs hv).1, hi.2⟩, (R.assign hi.1 hx hs hv).2⟩
    putField := fun hi hv => ⟨⟨(R.putField hi.1 hv).1, hsame hi.2 rfl⟩, (R.putField hi.1 hv).2⟩
    putBound := fun hi₀ hi hf hb =>
      ⟨⟨(R.putBound hi₀.1 hi.1 hf hb).1, hsame hi.2 rfl⟩, (R.putBound hi₀.1 hi.1 hf hb).2⟩
    bindScript := fun hi hf hc hn ho =>
      have h := R.bindScript hi.1 hf hc hn ho
      ⟨⟨h.1, hsame hi.2 rfl⟩, h.2⟩
    bindHost := fun hi hf hc hn ho =>
      have h := R.bindHost hi.1 hf hc hn ho
      ⟨⟨h.1, hsame hi.2 rfl⟩, h.2⟩
    function := fun hi hs =>
      have h := R.function hi.1 hs
      ⟨⟨h.1, hsame hi.2 rfl⟩, h.2⟩
    newClass := fun hi hs ha hsuper hp ht =>
      have h := R.newClass hi.1 hs ha hsuper hp ht
      ⟨⟨h.1, hnew hi.1 hi.2 hp⟩, h.2⟩
    newInstance := fun hi hk ho hcreates =>
      have h := R.newInstance hi.1 hk ho hcreates
      ⟨⟨h.1, hsame hi.2 rfl⟩, h.2⟩
    enterBlock := fun hi hs =>
      have h := R.enterBlock hi.1 hs
      ⟨⟨h.1, hi.2⟩, h.2⟩
    enterCall := fun hi hf hc hlen hargs hdepth =>
      have h := R.enterCall hi.1 hf hc hlen hargs hdepth
      ⟨⟨h.1, hi.2⟩, h.2⟩
    leaveBlock := fun hi hle hi' =>
      have h := R.leaveBlock hi.1 hle hi'.1
      ⟨⟨h.1, hi'.2⟩, h.2⟩
    leaveCall := fun hi hle hi' =>
      have h := R.leaveCall hi.1 hle hi'.1
      ⟨⟨h.1, hi'.2⟩, h.2⟩ }

/-- Handles are of what is there, and classes descend. -/
def Regime.descending (c : Context) : Regime c :=
  (Regime.closed c).withClasses Heap.Descends .of_classes fun {m _ parent ms _} _ hd hp =>
    have hscripts : (m.heap.withScripts (m.methodStore parent).1 ms).Descends := hd.of_classes rfl
    hscripts.newClass hp

namespace Regime

variable {c : Context} {m : Machine} {α : Type} {x : Run α} {Q : α → Machine → Prop}

/-- What keeps handles in order and what keeps classes in order. -/
theorem keeps_descending (h : (closed c).Keeps x x Q m)
    (hd : (Frame.fact fun m => m.heap.Descends).Keeps x x (fun _ _ => True) m) :
    (descending c).Keeps x x Q m := by
  refine ⟨rfl, ?_⟩
  have hw := h.2
  have hdw := hd.2
  unfold Run.wp at hw hdw ⊢
  cases hx : x m with
  | done a m' =>
    rw [hx] at hw hdw
    exact ⟨⟨hw.1, hdw.1⟩, hw.2⟩
  | fail e m' =>
    rw [hx] at hw hdw
    exact ⟨⟨hw.1, hdw.1⟩, hw.2⟩
  | crash =>
    rw [hx] at hw
    exact hw
  | outOfFuel => trivial

end Regime

/-! ### The host -/

namespace Heap.Descends

variable {m : Machine}

theorem keeps_register (hd : m.heap.Descends) (t : HostType) :
    (Frame.fact fun m => m.heap.Descends).Keeps (Machine.register t) (Machine.register t)
      (fun _ _ => True) m := by
  refine Frame.keeps_register (T := fun _ _ => True) trivial ?_ ?_ hd
  · exact fun _ _ hd _ => ⟨hd.of_classes rfl, trivial, trivial⟩
  · intro m table hd _
    have hnew : (m.heap.newClass ⟨t.name, none, table, .native t.arity t⟩).2.Descends :=
      hd.newClass nofun
    exact ⟨hnew, trivial, trivial⟩

end Heap.Descends

namespace Regime

variable {c : Context} {m : Machine}

theorem keeps_newScriptClass {x : String} {parent : Option ClassId} {methods : List (String × CallableId)}
    (hi : (descending c).inv m)
    (hp : ∀ p, parent = some p → m.heap.hasClass p = true)
    (hms : ∀ f ∈ methods, m.heap.hasCallable f.2 = true) :
    (descending c).Keeps (Machine.newClass ⟨x, parent, .ofList methods, .script⟩)
      (Machine.newClass ⟨x, parent, .ofList methods, .script⟩)
      (fun k m' => m'.heap.hasClass k = true) m := by
  obtain ⟨hclosed, hdescends⟩ := hi
  have hnew : { m with heap := (m.heap.newClass ⟨x, parent, .ofList methods, .script⟩).2 }.Closed :=
    hclosed.newClass (fun hf => hms _ (Bindings.mem_of_get?_ofList hf)) (hp _) nofun
  exact ⟨rfl, ⟨hnew, hdescends.newClass hp⟩, m.heap.within_newClass _, m.heap.hasClass_newClass _⟩

/-- What the host does keeps handles and classes in order, and it gets hold of what is there. -/
theorem keeps_freeAct {act : HostAct} (hact : HostPolicy.free m act) (hi : (descending c).inv m)
    (huses : ∀ v ∈ act.uses, m.heap.has v = true) :
    (descending c).Keeps act.run act.run (fun a m' => ∀ v ∈ act.gives a, m'.heap.has v = true) m := by
  obtain ⟨hclosed, hdescends⟩ := id hi
  cases act with
  | get i x line =>
    exact (keeps_getProperty hi (huses _ List.mem_cons_self)).mono
      fun _ _ _ _ hv => List.forall_mem_singleton.mpr hv
  | set i x v line =>
    obtain ⟨hi', hv⟩ := List.forall_mem_cons.mp huses
    exact (keeps_setField hi hi' (hv v List.mem_cons_self)).mono fun _ _ _ _ _ => nofun
  | define x v =>
    exact (keeps_descending (keeps_define hclosed (huses v List.mem_cons_self))
      ⟨rfl, hdescends, trivial, trivial⟩).mono fun _ _ _ _ _ => nofun
  | provide x n g =>
    exact (keeps_descending (keeps_defineNative x n g hact hclosed)
      ⟨rfl, hdescends.of_classes rfl, trivial, trivial⟩).mono fun _ _ _ _ _ => nofun
  | register t =>
    exact (keeps_descending (keeps_register t hclosed) (hdescends.keeps_register t)).mono
      fun _ _ _ _ hk => List.forall_mem_singleton.mpr hk
  | wrap o => exact (keeps_wrap o hi).mono fun _ _ _ _ hv => List.forall_mem_singleton.mpr hv
  | expose k o =>
    have hnew := hclosed.addInstance (Instance.fresh_ofHost k o) (hclosed.stores.hostClasses hact.1)
    exact ⟨rfl, ⟨hnew, hdescends.of_classes rfl⟩, m.heap.within_newInstance _,
      List.forall_mem_singleton.mpr (m.heap.hasInstance_newInstance _)⟩
  | declare x parent methods =>
    obtain ⟨hparent, hmethods⟩ := List.forall_mem_append.mp huses
    refine (keeps_newScriptClass hi (fun p hp => ?_) fun f hf => ?_).mono
      fun _ _ _ _ hk => List.forall_mem_singleton.mpr hk
    · exact hparent _ (List.mem_map_of_mem (Option.mem_toList.mpr hp))
    · exact hmethods _ (List.mem_map_of_mem hf)
  | write cells =>
    exact .update ⟨⟨{ hclosed.stores with }, hclosed.natives, hclosed.constructors⟩, hdescends⟩ (.refl _)
      nofun

end Regime

namespace Session

variable {s s' s₀ : Session} {held held₀ : List Value} {lent lent₀ : List InstanceId}

/-- Handles are of what is there, also those that the host holds, and classes descend. -/
structure InOrder (s : Session) (held : List Value) : Prop where
  closed : s.machine.Closed
  descends : s.machine.heap.Descends
  held : ∀ v ∈ held, s.machine.heap.has v = true

theorem inOrder_new (maxDepth : Nat) (console : Console) : (new maxDepth console).InOrder [] := by
  have hdescends : (bare maxDepth console).machine.heap.Descends := fun _ _ => nofun
  refine ⟨closed_new maxDepth console, ?_, nofun⟩
  exact Frame.inv_new (F := .fact fun m => m.heap.Descends) hdescends
    (Frame.keeps_prelude (fun hd x n g _ _ _ => ⟨rfl, hd.of_classes rfl, trivial, trivial⟩)
      (fun hd x v _ _ => ⟨rfl, hd, trivial, trivial⟩) (fun hd t => hd.keeps_register t) hdescends)

namespace InOrder

theorem inv (hs : s.InOrder held) : (Regime.descending s.context).inv s.machine :=
  ⟨hs.closed, hs.descends⟩

/-- What keeps to the regime keeps a session in order. -/
theorem performed {α : Type} {x : Run α} {Q : α → Machine → Prop} {r : Except RuntimeError α}
    (hs : s.InOrder held) (hx : (Regime.descending s.context).Keeps x x Q s.machine)
    (h : s.perform x = some (r, s')) : s'.InOrder held ∧ ∀ a, r = .ok a → Q a s'.machine := by
  obtain ⟨a, m, hend, rfl, rfl⟩ | ⟨e, m, hend, rfl, rfl⟩ := perform_cases h
  · obtain ⟨⟨hclosed, hdescends⟩, hle, hq⟩ := hx.done hend
    refine ⟨⟨hclosed, hdescends, fun v hv => hle.has (hs.held v hv)⟩, ?_⟩
    rintro _ ⟨⟩
    exact hq
  · obtain ⟨⟨hclosed, hdescends⟩, hle⟩ := hx.failed hend
    exact ⟨⟨hclosed, hdescends, fun v hv => hle.has (hs.held v hv)⟩, nofun⟩

/-- The host gets hold of a value. -/
theorem hold (hs : s.InOrder held) {v : Value} (hv : s.machine.heap.has v = true) :
    s.InOrder (v :: held) :=
  ⟨hs.closed, hs.descends, List.forall_mem_cons.mpr ⟨hv, hs.held⟩⟩

/-- The host gets hold of what comes of a result. -/
theorem holdResult (hs : s.InOrder held) {α : Type} {gives : α → List Value} {r : Except RuntimeError α}
    (hr : ∀ a, r = .ok a → ∀ v ∈ gives a, s.machine.heap.has v = true) :
    s.InOrder (gained gives r ++ held) :=
  ⟨hs.closed, hs.descends, forall_mem_gained hr hs.held⟩

end InOrder

theorem SameButErrors.inOrder (h : SameButErrors s s') (hs : s.InOrder held) : s'.InOrder held := by
  obtain ⟨k, hm⟩ := h.machine
  refine ⟨h.closed hs.closed, ?_, ?_⟩ <;> rw [hm]
  · exact hs.descends
  · exact hs.held

theorem InOrder.ran (hs : s.InOrder held) {fuel : Nat} {src : Source} {r : Except RunError Unit}
    (h : s.run fuel src = some (r, s')) : s'.InOrder held := by
  obtain ⟨-, hsame⟩ | ⟨-, r₁, s₁, hint, hsame⟩ := run_cases h
  · exact hsame.inOrder ⟨hs.closed, hs.descends, hs.held⟩
  · refine hsame.inOrder ?_
    have hkeeps := Regime.keeps_program
      (R := Regime.descending (s.learn (Compiled.ofSource src s.nextId).locals).context) fuel
      (Compiled.ofSource src s.nextId).program.stmts ⟨hs.closed, hs.descends⟩ fun _ _ => trivial
    obtain ⟨m, hend, -, rfl⟩ | ⟨e, m, hend, -, rfl⟩ := interpret_cases hint
    · obtain ⟨⟨hclosed, hdescends⟩, hle, -⟩ := hkeeps.done hend
      exact ⟨hclosed, hdescends, fun v hv => hle.has (hs.held v hv)⟩
    · obtain ⟨⟨hclosed, hdescends⟩, hle⟩ := hkeeps.failed hend
      exact ⟨⟨{ hclosed.stores with }, hclosed.natives, hclosed.constructors⟩, hdescends,
        fun v hv => hle.has (hs.held v hv)⟩

theorem Course.inOrder {a₀ a : Account} (h : Course .free s₀ a₀ s a) (h₀ : s₀.InOrder a₀.held) :
    s.InOrder a.held := by
  induction h with
  | here => exact h₀
  | ran _ hrun ih => exact ih.ran hrun
  | @called _ _ _ fuel f args _ _ hf hargs hcall ih =>
    have hkeeps := Regime.keeps_callByHost fuel ih.inv (ih.held f hf) fun v hv => ih.held v (hargs v hv)
    obtain ⟨hs', hr⟩ := ih.performed hkeeps hcall
    exact hs'.holdResult fun v hv => List.forall_mem_singleton.mpr (hr v hv)
  | acted _ hact huses hdo ih =>
    have hkeeps := Regime.keeps_freeAct hact ih.inv fun v hv => ih.held v (huses v hv)
    obtain ⟨hs', hr⟩ := ih.performed hkeeps hdo
    exact hs'.holdResult hr
  | made _ hv ih => exact ih.hold (Heap.has_plain hv)
  | read _ hv ih =>
    obtain ⟨e, he⟩ := Store.own?_of_get? hv
    exact ih.hold (ih.closed.stores.vars he)

theorem Hosted.inOrder (h : s.Hosted held lent) : s.InOrder held := by
  obtain ⟨maxDepth, console, _, hcourse⟩ := h
  exact hcourse.inOrder (inOrder_new maxDepth console)

theorem Occurs.descends {m : Machine} (hm : s.Occurs held m) (hs : s.InOrder held) :
    m.heap.Descends := by
  obtain ⟨c, hinv⟩ := hm.inv (R := Regime.descending) (fun c' h => ⟨h.inv, h.fits⟩)
    (fun _ => hs.inv) (fun _ => hs.held) fun _ _ _ _ _ => trivial
  exact hinv.2

end Session

/-- Inheritance is well founded wherever a session comes to. The class above a class is there and has a
smaller number, so going up from a class takes one way and comes to an end. Methods and constructors are
found in the first class on that way that has one. The classes that inherit from one another are partially
ordered, and each finds whatever a class above it finds. -/
theorem inheritance_well_founded {s : Session} {held : List Value} {lent : List InstanceId}
    (hs : s.Hosted held lent) :
    ∀ m, s.Occurs held m →
      (∀ c p, (m.heap.class_ c).superclass = some p →
        p.index < c.index ∧ m.heap.hasClass p = true) ∧
      (∀ c, ∃ ks, m.heap.Chain c ks ∧ (∀ ks', m.heap.Chain c ks' → ks' = ks) ∧
        (∀ x f, m.heap.findMethod c x = some f ↔ ∃ below k above, ks = below ++ k :: above ∧
          (m.heap.class_ k).methods.get? x = some f ∧
          ∀ j ∈ below, (m.heap.class_ j).methods.get? x = none) ∧
        (∀ nt, m.heap.nativeConstructor c = some nt ↔ ∃ below k above, ks = below ++ k :: above ∧
          (m.heap.class_ k).native? = some nt ∧ ∀ j ∈ below, (m.heap.class_ j).native? = none) ∧
        ∀ a, m.heap.inherits c a = true ↔ a ∈ ks) ∧
      (∀ c, m.heap.inherits c c = true) ∧
      (∀ c b a, m.heap.inherits c b = true → m.heap.inherits b a = true →
        m.heap.inherits c a = true) ∧
      (∀ c a, m.heap.inherits c a = true → m.heap.inherits a c = true → a = c) ∧
      ∀ c a x, m.heap.inherits c a = true → (m.heap.findMethod a x).isSome = true →
        (m.heap.findMethod c x).isSome = true := by
  intro m hm
  have hd := hm.descends hs.inOrder
  refine ⟨fun c p hp => ⟨hd c p hp, ?_⟩, fun c => ?_, hd.inherits_self,
    fun c b a => hd.inherits_trans, fun c a => hd.inherits_antisymm,
    fun c a x => hd.findMethod_isSome⟩
  · exact decide_eq_true (Nat.lt_trans (hd c p hp) (of_decide_eq_true (Heap.hasClass_of_superclass hp)))
  · obtain ⟨ks, hks⟩ := hd.exists_chain c
    refine ⟨ks, hks, fun ks' => hks.unique, fun x f => ?_, fun nt => ?_, fun a => hd.inherits_iff hks⟩
    · rw [Heap.findMethod, hd.search_eq hks, List.findSome?_eq_some_iff]
    · rw [Heap.nativeConstructor, hd.search_eq hks, List.findSome?_eq_some_iff]

/-- A class that takes the name of the class at the top. -/
def namesakeScript : Source :=
  ⟨"namesake", "class A \x7b m() \x7b return 1; \x7d \x7d class B < A \x7b \x7d " ++
    "class A < B \x7b \x7d"⟩

theorem inheritance_well_founded_namesakeScript :
    ∃ s : Session, s.Hosted [] [] ∧ s.machine.heap.Chain ⟨5⟩ [⟨5⟩, ⟨4⟩, ⟨3⟩] ∧
      (s.machine.heap.class_ ⟨5⟩).name = (s.machine.heap.class_ ⟨3⟩).name ∧
      (s.machine.heap.findMethod ⟨3⟩ "m").isSome = true ∧
      s.machine.heap.inherits ⟨5⟩ ⟨3⟩ = true ∧ s.machine.heap.inherits ⟨3⟩ ⟨5⟩ = false ∧
      (s.machine.heap.findMethod ⟨5⟩ "m").isSome = true := by
  have hrun : ((Session.new 8 (.ofInput [])).run 20 namesakeScript).any (fun r =>
      (r.2.machine.heap.class_ ⟨5⟩).superclass = some ⟨4⟩ &&
      (r.2.machine.heap.class_ ⟨4⟩).superclass = some ⟨3⟩ &&
      (r.2.machine.heap.class_ ⟨3⟩).superclass = none &&
      (r.2.machine.heap.class_ ⟨5⟩).name = (r.2.machine.heap.class_ ⟨3⟩).name &&
      (r.2.machine.heap.findMethod ⟨3⟩ "m").isSome) = true := by decide +kernel
  obtain ⟨⟨r, s⟩, hs, hclasses⟩ := (Option.any_eq_true _ _).mp hrun
  simp only [Bool.and_eq_true, decide_eq_true_eq] at hclasses
  obtain ⟨⟨⟨⟨h5, h4⟩, h3⟩, hname⟩, hfind⟩ := hclasses
  have hhosted : s.Hosted [] [] := ⟨8, .ofInput [], .ran .here hs⟩
  obtain ⟨-, hchain, -, -, hantisymm, hmono⟩ := inheritance_well_founded hhosted s.machine .rest
  have hks : s.machine.heap.Chain ⟨5⟩ [⟨5⟩, ⟨4⟩, ⟨3⟩] := .up h5 (.up h4 (.top h3))
  obtain ⟨ks, -, hunique, -, -, hmem⟩ := hchain ⟨5⟩
  have hinherits : s.machine.heap.inherits ⟨5⟩ ⟨3⟩ = true := by
    rw [hmem, ← hunique _ hks]
    decide
  refine ⟨s, hhosted, hks, hname, hfind, hinherits, ?_, hmono ⟨5⟩ ⟨3⟩ "m" hinherits hfind⟩
  exact Bool.eq_false_iff.mpr fun hup => absurd (hantisymm _ _ hinherits hup) (by decide)

end HostScript
