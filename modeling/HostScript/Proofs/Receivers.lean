import HostScript.Proofs.Causes
import HostScript.Proofs.Matching.Hosts
import HostScript.Proofs.Vectors

/-!
# The receivers of host methods

A method of the host works on a host object of its own type, which it gets from its receiver. Scripts come
by such methods in many ways: through inheritance, through `super`, and bound to an instance long before
they are called. On a matched machine the receiver has an object of the right type in all of them, or none
at all, if a script's initializer was run in the place of the class's own constructor.
-/

namespace HostScript

namespace Machine

variable {m : Machine} {f : CallableId} {g : HostMethod} {receiver : Option InstanceId}

/-- The class was registered for the host type: nothing is above it, and it makes objects of the type. -/
def ClassFor (m : Machine) (t : HostType) (k : ClassId) : Prop :=
  (t, k) ∈ m.hostClasses ∧ (m.heap.class_ k).superclass = none ∧
    (m.heap.class_ k).native? = some (t.arity, t)

/-- If the value is a method of the host, it has a receiver. -/
def Received (m : Machine) (v : Value) : Prop :=
  ∀ f g receiver, v = .function f → m.heap.callable f = .method g receiver → receiver.isSome = true

theorem Holds.received {v : Value} (h : m.Holds v) : m.Received v := by
  rintro f g receiver rfl hf
  have hpresents := h.2 f rfl
  rw [Presents, hf] at hpresents
  exact hpresents

namespace Matched

theorem classFor (h : m.Matched) {t : HostType} {k : ClassId} (ht : (t, k) ∈ m.hostClasses) :
    m.ClassFor t k :=
  ⟨ht, (h.types t k ht).2⟩

/-- A host object is that of an instance that is there. -/
theorem ofType_host (h : m.Matched) {i : InstanceId} {o : HostObject}
    (ho : (m.heap.instance_ i).host = some o) : m.OfType i o.type := by
  obtain ⟨-, hfits⟩ := h.instances i (Heap.hasInstance_of_host ho)
  rw [ho] at hfits
  exact hfits

theorem nativeConstructor_ofType (h : m.Matched) {i : InstanceId} {t : HostType} (hi : m.OfType i t) :
    m.heap.nativeConstructor (m.heap.instance_ i).class_ = some (t.arity, t) := by
  obtain ⟨-, k, hk, ht⟩ := hi
  exact h.nativeConstructor hk ht

/-- An instance is of one host type only. -/
theorem ofType_unique (h : m.Matched) {i : InstanceId} {t t' : HostType} (ht : m.OfType i t)
    (ht' : m.OfType i t') : t' = t := by
  have hpair := (h.nativeConstructor_ofType ht').symm.trans (h.nativeConstructor_ofType ht)
  exact congrArg (·.2) (Option.some.inj hpair)

/-- A method of the host that has a receiver has one of its type. -/
theorem ofType_receiver (h : m.Matched) {i : InstanceId} (hf : m.heap.hasCallable f = true)
    (hc : m.heap.callable f = .method g (some i)) : m.OfType i g.type := by
  have hfits := h.callables f hf
  rw [CallableFits, hc] at hfits
  exact hfits i rfl

/-- An instance without a host object, of a class that makes such objects, has got an initializer. -/
theorem hasInitializer_of_host_eq_none (h : m.Matched) {i : InstanceId} {t : HostType}
    (hi : m.OfType i t) (hhost : (m.heap.instance_ i).host = none) :
    m.HasInitializer (m.heap.instance_ i).class_ := by
  obtain ⟨-, hfits⟩ := h.instances i hi.1
  rw [hhost] at hfits
  refine hfits.resolve_right fun hnone => ?_
  cases hnone.symm.trans (h.nativeConstructor_ofType hi)

/-- What a call of a class makes, and that it runs the initializer if there is one. -/
theorem call_class (h : m.Matched) {k : ClassId} (hk : m.heap.hasClass k = true) {c : Context} {n : Nat}
    {args : List Value} {v : Value} {m' : Machine}
    (hcall : Evaluation.call c n (.class_ k) args m = .done v m') :
    ∃ i, v = .instance_ i ∧ m.heap.hasInstance i = false ∧ m'.heap.hasInstance i = true ∧
      (m'.heap.instance_ i).class_ = k ∧
      ((m'.heap.instance_ i).host = none ↔
        m.HasInitializer k ∨ m.heap.nativeConstructor k = none) ∧
      (m.HasInitializer k → ∃ n', n = n' + 1 ∧ Evaluation.Initializes c n' k args m m') := by
  have hnew : m.heap.hasInstance m.nextInstance = false := decide_eq_false (Nat.lt_irrefl _)
  obtain ⟨hnone, hmake⟩ | ⟨hv, n', hn, hruns⟩ := Evaluation.call_class_eq_done hcall
  · have hlone : ¬ m.HasInitializer k := by
      rintro ⟨f, -, -, -, hf, -⟩
      cases hnone.symm.trans hf
    obtain ⟨hv, hthere, ⟨hplain, hinstance⟩ | ⟨a, o, hnative, hinstance⟩⟩ :=
      Evaluation.construct_eq_done hmake
    · refine ⟨_, hv, hnew, hthere, ?_, ?_, fun hinit => absurd hinit hlone⟩ <;> rw [hinstance]
      · rfl
      · exact iff_of_true rfl (.inr hplain)
    · refine ⟨_, hv, hnew, hthere, ?_, ?_, fun hinit => absurd hinit hlone⟩ <;> rw [hinstance]
      · rfl
      · refine iff_of_false nofun (not_or.mpr ⟨hlone, fun hplain => ?_⟩)
        cases hplain.symm.trans hnative
  · obtain ⟨hthere, hclass, hhost⟩ := hruns.instance_
    have hinit : m.HasInitializer k := by
      obtain ⟨f, -, -, -, hf, -⟩ := hruns
      exact h.hasInitializer hk (Option.isSome_of_eq_some hf)
    exact ⟨_, hv, hnew, hthere, hclass, iff_of_true hhost (.inl hinit), fun _ => ⟨n', hn, hruns⟩⟩

end Matched

end Machine

namespace Activity

/-- The values that an activity is given. -/
def given : Activity → List Value
  | call f args => f :: args
  | _ => []

/-- The values in what an activity comes to. -/
def values : (b : Activity) → b.Result → List Value
  | eval _, v | call _ _, v => [v]
  | exec _, k | block _, k | loop _ _, k =>
    match k with
    | .completed => []
    | .returning v => [v]

/-- A method of the host is called on an instance without a host object. The class of the instance makes
objects for the method, but has an initializer that a script has declared. -/
inductive CallsHostless (x : String) : Activity → Machine → Prop where
  | method {f : CallableId} {args : List Value} {g : HostMethod} {i : InstanceId} {m : Machine}
      (hf : m.heap.callable f = .method g (some i)) (hname : g.name = x)
      (hhost : (m.heap.instance_ i).host = none)
      (hnative : m.heap.nativeConstructor (m.heap.instance_ i).class_ = some (g.type.arity, g.type))
      (hinit : m.HasInitializer (m.heap.instance_ i).class_) :
      CallsHostless x (call (.function f) args) m

/-- On a matched machine no method of the host fails but for want of an object, and none if the instance
was made by the constructor of its class. -/
theorem Makes.callsHostless {e : RuntimeError} {b : Activity} {m : Machine} (h : b.Makes e m)
    (he : e.ofHostMethod = true) (hm : m.Matched) (hgiven : ∀ v ∈ b.given, m.Holds v) :
    ∃ line x, e = .type line (.hostless x) ∧ b.CallsHostless x m := by
  cases h with
  | @method f args g receiver m m' hf hrun =>
    have hheld := hgiven (.function f) List.mem_cons_self
    obtain ⟨i, rfl⟩ := Option.isSome_iff_exists.mp (hheld.received f g receiver rfl hf)
    have htype := hm.ofType_receiver hheld.1 hf
    obtain hquiet | ⟨hfail, hnone⟩ | ⟨hfail, o, ho, hne⟩ := g.run_cases (some i) args m
    · rw [hrun] at hquiet
      have hcall : (e.ofScriptCall || e.ofHostMethod) = false := hquiet.2
      rw [he, Bool.or_true] at hcall
      cases hcall
    · cases hrun.symm.trans hfail
      exact ⟨_, _, rfl, .method hf rfl hnone (hm.nativeConstructor_ofType htype)
        (hm.hasInitializer_of_host_eq_none htype hnone)⟩
    · exact absurd (hm.ofType_unique htype (hm.ofType_host ho)) hne

end Activity

/-- If methods of the host fail only for want of an object, none ever says that its object is of another
type. -/
theorem RuntimeError.hostless_only {e : RuntimeError} {P : String → Prop}
    (h : e.ofHostMethod = true → ∃ line x, e = .type line (.hostless x) ∧ P x) :
    (∀ line t, e ≠ .type line (.receiver t)) ∧ ∀ line x, e = .type line (.hostless x) → P x := by
  constructor
  · rintro line t rfl
    obtain ⟨_, _, ⟨⟩, -⟩ := h rfl
  · rintro line x rfl
    obtain ⟨_, _, ⟨⟩, hx⟩ := h rfl
    exact hx

namespace Session

variable {s s' : Session} {held : List Value} {b : Activity} {m : Machine} {e : RuntimeError}

theorem UnderWay.matched (h : s.UnderWay held b m) (hs : s.Matched held) (c : Context) :
    (Regime.matched c s.machine).Ready b m :=
  h.ready (R := fun c => Regime.matched c s.machine) (fun _ hr => ⟨hr.inv, hr.fits⟩)
    (fun _ => hs.machine) (fun _ => hs.held) (fun _ _ => known_of_compiled) c

theorem UnderWay.holds_given (h : s.UnderWay held b m) (hs : s.Matched held) :
    ∀ v ∈ b.given, m.Holds v := by
  have hfits := (h.matched hs s.context).fits
  cases b with
  | call f args => exact List.forall_mem_cons.mpr hfits
  | _ => nofun

theorem UnderWay.holds_values (h : s.UnderWay held b m) (hs : s.Matched held) {c : Context} {n : Nat}
    {a : b.Result} {m' : Machine} (hrun : b.run c n m = .done a m') : ∀ v ∈ b.values a, m'.Holds v := by
  obtain ⟨-, -, hyields⟩ := (Regime.keeps_run n (h.matched hs c)).done hrun
  cases b with
  | eval e => exact List.forall_mem_singleton.mpr hyields
  | call f args => exact List.forall_mem_singleton.mpr hyields
  | exec t =>
    cases a with
    | completed => nofun
    | returning v => exact List.forall_mem_singleton.mpr hyields.1
  | block body =>
    cases a with
    | completed => nofun
    | returning v => exact List.forall_mem_singleton.mpr hyields
  | loop cond body =>
    cases a with
    | completed => nofun
    | returning v => exact List.forall_mem_singleton.mpr hyields

theorem Occurs.matched (h : s.Occurs held m) (hs : s.Matched held) : m.Matched := by
  obtain ⟨_, hm⟩ := h.inv (R := fun c => Regime.matched c s.machine) (fun _ hr => ⟨hr.inv, hr.fits⟩)
    (fun _ => hs.machine) (fun _ => hs.held) fun _ _ => known_of_compiled
  exact hm

/-- An error of a host method that ends a run of a script. -/
theorem Matched.run_error (hs : s.Matched held) {fuel : Nat} {src : Source}
    (h : s.run fuel src = some (.error (.runtime e), s')) (he : e.ofHostMethod = true) :
    ∃ line x, e = .type line (.hostless x) ∧ ∃ b m, s.Starts fuel src b m ∧ b.CallsHostless x m := by
  obtain ⟨hok, m', hfail⟩ := run_eq_runtime h
  obtain ⟨b, m, hreaches, hmakes⟩ := ProgramReaches.exists_makes hfail he
  have hway : s.UnderWay held b m := .run ⟨hok, hreaches⟩
  obtain ⟨line, x, heq, hcalls⟩ :=
    hmakes.callsHostless he (hway.matched hs s.context).inv (hway.holds_given hs)
  exact ⟨line, x, heq, b, m, ⟨hok, hreaches⟩, hcalls⟩

/-- An error of a host method that ends a call by the host. -/
theorem Matched.call_error (hs : s.Matched held) {fuel : Nat} {f : Value} {args : List Value}
    (hf : f ∈ held) (hargs : ∀ v ∈ args, v ∈ held) (h : s.call fuel f args = some (.error e, s'))
    (he : e.ofHostMethod = true) :
    ∃ line x, e = .type line (.hostless x) ∧
      ∃ b m, s.CallStarts fuel f args b m ∧ b.CallsHostless x m := by
  obtain ⟨v, m', -, hr, -⟩ | ⟨e', m', hend, hr, -⟩ := perform_cases h
  · cases hr
  · cases hr
    obtain ⟨b, m, hreaches, hmakes⟩ := Activity.exists_makes (n := fuel) (c := s.context)
      (a := .call (f.detach s.machine.store.cells) args) hend he
    have hway : s.UnderWay held b m := .call hf hargs hreaches
    obtain ⟨line, x, heq, hcalls⟩ :=
      hmakes.callsHostless he (hway.matched hs s.context).inv (hway.holds_given hs)
    exact ⟨line, x, heq, b, m, hreaches, hcalls⟩

end Session

/-- Methods of the host work on objects of their own type, wherever a session comes to. An instance around
a host object is of a class whose way up ends in a class registered for the type of the object, methods of
the host are in the tables of the classes registered for their type and in no others, and every value
that is such a method has a receiver: those in scopes, in fields and among bound methods, those that calls
are given, and those that anything comes to. A call of a class gives a new instance, which has no host
object exactly if the class makes none or has an initializer, and then it is the initializer that was run.
So no script and no call by the host ends because a receiver is of another type, and where one ends
because a receiver has no host object, the receiver is of a class with an initializer of a script. -/
theorem receivers_of_right_type {s : Session} {held : List Value} (hs : s.Bridged held) :
    (∀ m, s.Occurs held m →
      (∀ i o, (m.heap.instance_ i).host = some o → ∃ ks k,
        m.heap.Chain (m.heap.instance_ i).class_ (ks ++ [k]) ∧ m.ClassFor o.type k) ∧
      (∀ k x f g receiver, (m.heap.class_ k).methods.get? x = some f →
        m.heap.callable f = .method g receiver → m.ClassFor g.type k) ∧
      (∀ e x v, m.store.own? e x = some v → m.Received v) ∧
      (∀ i x v, (m.heap.instance_ i).fields.get? x = some v → m.Received v) ∧
      ∀ i x f, (m.heap.instance_ i).bound.get? x = some f → m.Received (.function f)) ∧
    (∀ b m, s.UnderWay held b m → (∀ v ∈ b.given, m.Received v) ∧
      ∀ c n a m', b.run c n m = .done a m' → ∀ v ∈ b.values a, m'.Received v) ∧
    (∀ k args m, s.UnderWay held (.call (.class_ k) args) m →
      ∀ c n v m', Evaluation.call c n (.class_ k) args m = .done v m' →
        ∃ i, v = .instance_ i ∧ m.heap.hasInstance i = false ∧ m'.heap.hasInstance i = true ∧
          (m'.heap.instance_ i).class_ = k ∧
          ((m'.heap.instance_ i).host = none ↔
            m.HasInitializer k ∨ m.heap.nativeConstructor k = none) ∧
          (m.HasInitializer k → ∃ n', n = n' + 1 ∧ Evaluation.Initializes c n' k args m m')) ∧
    (∀ fuel src e s', s.run fuel src = some (.error (.runtime e), s') →
      (∀ line t, e ≠ .type line (.receiver t)) ∧
      ∀ line x, e = .type line (.hostless x) →
        ∃ b m, s.Starts fuel src b m ∧ b.CallsHostless x m) ∧
    (∀ fuel f args e s', f ∈ held → (∀ v ∈ args, v ∈ held) →
      s.call fuel f args = some (.error e, s') →
      (∀ line t, e ≠ .type line (.receiver t)) ∧
      ∀ line x, e = .type line (.hostless x) →
        ∃ b m, s.CallStarts fuel f args b m ∧ b.CallsHostless x m) := by
  have hmatched := hs.matched
  refine ⟨fun m hm => ?_, fun b m hway => ⟨fun v hv => ?_, fun c n a m' hrun v hv => ?_⟩,
    fun k args m hway c n v m' hrun => ?_, fun fuel src e s' hrun => ?_,
    fun fuel f args e s' hf hargs hcall => ?_⟩
  · have hm := hm.matched hmatched
    refine ⟨fun i o ho => ?_, fun k x f g receiver hf hg => ?_, fun e x v hv => ?_,
      fun i x v hv => ?_, fun i x f hf => ?_⟩
    · obtain ⟨-, k, hk, ht⟩ := hm.ofType_host ho
      obtain ⟨ks, hks⟩ := hk.chain hm.descends (hm.types _ _ ht).2.1
      exact ⟨ks, k, hks, hm.classFor ht⟩
    · obtain ⟨-, hentry⟩ := hm.tabled hf
      rw [hg] at hentry
      exact hm.classFor hentry.2
    · exact (hm.values.vars hv).received
    · exact (hm.values.fields hv).received
    · exact (hm.values.bound hf).received
  · exact (hway.holds_given hmatched v hv).received
  · exact (hway.holds_values hmatched hrun v hv).received
  · have hk := hway.holds_given hmatched (.class_ k) List.mem_cons_self
    exact (hway.matched hmatched c).inv.call_class hk.1 hrun
  · exact RuntimeError.hostless_only (hmatched.run_error hrun)
  · exact RuntimeError.hostless_only (hmatched.call_error hf hargs hcall)

/-- A class below `vec2` that makes vectors, and a method bound to one of them. -/
def offspringScript : Source :=
  ⟨"offspring", "class W < vec2 \x7b \x7d var f = W(3.0, 4.0).add;"⟩

/-- A class below `vec2` with an initializer, whose instances have no vector. -/
def barrenScript : Source :=
  ⟨"barren", "class V < vec2 \x7b init() \x7b \x7d \x7d V().add(vec2(1.0, 2.0));"⟩

theorem receivers_of_right_type_barrenScript :
    ∃ (s s' : Session) (o : HostObject) (ks : List ClassId) (k : ClassId),
      s.Bridged [] ∧ (s.machine.heap.instance_ ⟨0⟩).host = some o ∧ o.type = .vector 2 ∧
      s.machine.heap.Chain (s.machine.heap.instance_ ⟨0⟩).class_ (ks ++ [k]) ∧ ks ≠ [] ∧
      s.machine.ClassFor (.vector 2) k ∧
      s.run 20 barrenScript = some (.error (.runtime (.type 1 (.hostless "add"))), s') ∧
      ∃ b m, s.Starts 20 barrenScript b m ∧ b.CallsHostless "add" m := by
  have hruns : ((Session.new 8 (.ofInput [])).run 20 offspringScript).any (fun r =>
      let h := r.2.machine.heap
      (h.instance_ ⟨0⟩).host.any (·.type = .vector 2) &&
        (h.class_ (h.instance_ ⟨0⟩).class_).superclass.isSome &&
        (r.2.run 20 barrenScript).any fun r' =>
          RunError.isRuntime (.type 1 (.hostless "add")) r'.1) = true := by decide +kernel
  obtain ⟨⟨r, s⟩, hs, hrest⟩ := (Option.any_eq_true _ _).mp hruns
  simp only [Bool.and_eq_true, Option.any_eq_true] at hrest
  obtain ⟨⟨⟨o, ho, htype⟩, hsuper⟩, ⟨r', s'⟩, hs', hr'⟩ := hrest
  have htype : o.type = .vector 2 := of_decide_eq_true htype
  obtain rfl := RunError.eq_of_isRuntime hr'
  have hbridged : s.Bridged [] := ⟨8, .ofInput [], _, _, .ran .here hs⟩
  obtain ⟨hstates, -, -, herrors, -⟩ := receivers_of_right_type hbridged
  obtain ⟨ks, k, hchain, hfor⟩ := (hstates s.machine .rest).1 ⟨0⟩ o ho
  refine ⟨s, s', o, ks, k, hbridged, ho, htype, hchain, ?_, htype ▸ hfor, hs',
    (herrors 20 barrenScript _ s' hs').2 1 "add" rfl⟩
  -- The class of the instance has one above it, so it is not the last.
  rintro rfl
  cases hchain with
  | top htop =>
    rw [htop] at hsuper
    cases hsuper
  | up _ hp => cases hp

end HostScript
