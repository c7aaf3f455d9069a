import HostScript.Proofs.ControlFlow
import HostScript.Proofs.Hosting

/-!
# Methods that instances remember

A method that is read from an instance is bound to it and remembered, and the next time it is given again
without another look at the class. That comes to the same as a fresh look, because classes do not change
and nothing gets into the scope that binds `this`: names are declared in the innermost scope only, and
that is never the scope of a method that is remembered.
-/

namespace HostScript

open Resolution (thisName)

/-- The names stay when one of them is bound anew. -/
theorem Bindings.names_insert_of_contains {α : Type} {b : Bindings α} {x : String}
    (h : b.contains x = true) (a : α) : (b.insert x a).names = b.names := by
  obtain ⟨entries⟩ := b
  unfold contains get? at h
  unfold insert names
  dsimp only at h ⊢
  induction entries with
  | nil => cases h
  | cons p rest ih =>
    obtain ⟨y, w⟩ := p
    unfold find at h
    unfold put
    split
    · subst x
      rfl
    · rename_i hne
      rw [if_neg hne] at h
      exact congrArg (y :: ·) (ih h)

/-- The only name of a scope. -/
theorem Bindings.eq_of_names_singleton {α : Type} {b : Bindings α} {x : String} {a : α}
    (hnames : b.names = [x]) (h : b.get? x = some a) : b = ofList [(x, a)] := by
  obtain ⟨entries⟩ := b
  unfold names at hnames
  match entries, hnames with
  | [(y, w)], hnames =>
    cases hnames
    unfold get? find at h
    rw [if_pos rfl] at h
    cases h
    rfl

theorem Heap.hasInstance_of_bound {h : Heap} {i : InstanceId} {x : String} {g : CallableId}
    (hg : (h.instance_ i).bound.get? x = some g) : h.hasInstance i = true := by
  refine hasInstance_of_ne fun hnone => ?_
  rw [hnone] at hg
  cases hg

namespace Machine

variable {m m₁ m' : Machine} {f g : CallableId} {i : InstanceId} {x : String} {e : ScopeId}

/-- Classes that are there find the methods that they found. -/
theorem Extends.findMethod (h : m.Extends m') {k : ClassId} (hk : m.heap.hasClass k = true) :
    m'.heap.findMethod k x = m.heap.findMethod k x :=
  Heap.search_congr fun j hj =>
    h.class_ j (decide_eq_true (Nat.lt_of_le_of_lt hj (of_decide_eq_true hk)))

/-! ### Copies of methods -/

/-- The callable `g` is the method `f` again: the same function over a scope that binds `this` and
nothing else, directly over the scope of `f`, or the same method of the host with a receiver. -/
inductive CopyOf (m : Machine) (f g : CallableId) : Prop where
  | script {d : FunctionDecl} {closure scope : ScopeId} {isInit : Bool}
      (method : m.heap.callable f = .script d closure isInit)
      (copy : m.heap.callable g = .script d scope isInit)
      (there : scope.index < m.store.scopes.size)
      (names : (m.store.scope scope).vars.names = [thisName])
      (parent : (m.store.scope scope).parent = some closure)
  | host {y : HostMethod} {receiver : Option InstanceId} {i : InstanceId}
      (method : m.heap.callable f = .method y receiver)
      (copy : m.heap.callable g = .method y (some i))

/-- A method that was bound is a copy, over the newest scope. -/
theorem Binds.copyOf (h : m.Binds f i g m') : m'.CopyOf f g := by
  cases h with
  | @script d closure isInit hf hc =>
    have hscope : (m.bindScript d closure isInit i).store.scope m.nextScope =
        ⟨.ofList [(thisName, .instance_ i)], some closure⟩ := by
      rw [bindScript, Store.scope_open]
      exact if_pos rfl
    obtain ⟨-, hcopy⟩ := m.boundTo_bindScript d closure isInit i
    have hmethod := (Heap.Keeps.newCallable m.heap (.script d m.nextScope isInit) f hf).2
    refine .script (hmethod.trans hc) hcopy ?_ (congrArg (·.vars.names) hscope)
      (congrArg (·.parent) hscope)
    simp [bindScript, Store.open, nextScope]
  | @host y receiver hf hc =>
    obtain ⟨-, hcopy⟩ := m.boundTo_bindHost y i
    exact .host ((Heap.Keeps.newCallable m.heap (.method y (some i)) f hf).2.trans hc) hcopy

theorem Binds.hasMethod (h : m.Binds f i g m') : m.heap.hasCallable f = true := by
  cases h <;> assumption

theorem Binds.hasCopy (h : m.Binds f i g m') : m'.heap.hasCallable g = true := by
  cases h <;> exact m.heap.hasCallable_newCallable _

theorem Binds.newScope (h : m.Binds f i g m') {d : FunctionDecl} {isInit : Bool}
    (hc : m'.heap.callable g = .script d e isInit) : e = m.nextScope := by
  cases h with
  | @script d' closure isInit' hf hc' =>
    obtain ⟨-, hcopy⟩ := m.boundTo_bindScript d' closure isInit' i
    cases hcopy.symm.trans hc
    rfl
  | @host y receiver hf hc' =>
    obtain ⟨-, hcopy⟩ := m.boundTo_bindHost y i
    cases hcopy.symm.trans hc

/-! ### What instances remember -/

/-- A scope that binds `this` for a method that an instance remembers. -/
def ThisScope (m : Machine) (e : ScopeId) : Prop :=
  ∃ i x g d isInit, (m.heap.instance_ i).bound.get? x = some g ∧
    m.heap.callable g = .script d e isInit

/-- The class of the instance finds a method under the name, and `g` is a copy of it. -/
structure Remembers (m : Machine) (i : InstanceId) (x : String) (g : CallableId) : Prop where
  hasClass : m.heap.hasClass (m.heap.instance_ i).class_ = true
  hasCopy : m.heap.hasCallable g = true
  found : ∃ f, m.heap.findMethod (m.heap.instance_ i).class_ x = some f ∧
    m.heap.hasCallable f = true ∧ m.CopyOf f g

/-- What instances remember is in order, and the scopes of these methods are out of reach. -/
structure Remembering (m : Machine) : Prop where
  placed : m.env.index < m.store.scopes.size
  apart : ∀ {e}, m.ThisScope e → e ≠ m.env ∧ e ≠ .globals
  remembers : ∀ {i x g}, (m.heap.instance_ i).bound.get? x = some g → m.Remembers i x g

/-- What an instance remembers after a change it remembered before, or it was bound just now. -/
theorem Change.bound_cases {declares : Prop} (hc : Change declares m m')
    (hg : (m'.heap.instance_ i).bound.get? x = some g) :
    (m.heap.instance_ i).bound.get? x = some g ∨
      ∃ f m₁, m.heap.hasClass (m.heap.instance_ i).class_ = true ∧
        m.heap.findMethod (m.heap.instance_ i).class_ x = some f ∧ m.Binds f i g m₁ ∧
        m' = { m₁ with heap := m₁.heap.putBound i x g } := by
  cases hc.instance_cases i with
  | same heq => exact .inl (heq ▸ hg)
  | field hslot hv heq =>
    rw [heq] at hg
    exact .inl hg
  | @remember y f g' m₁ hnone hk hfind hbinds hm' heq =>
    rw [heq, Bindings.get?_insert] at hg
    split at hg
    · subst x
      cases hg
      exact .inr ⟨f, m₁, hk, hfind, hbinds, hm'⟩
    · exact .inl hg
  | plain hi heq =>
    rw [heq] at hg
    cases hg
  | host hi hk ho heq =>
    rw [heq] at hg
    cases hg

theorem CopyOf.later (h : m.CopyOf f g) (hext : m.Extends m') (hf : m.heap.hasCallable f = true)
    (hg : m.heap.hasCallable g = true)
    (hnames : ∀ {d e isInit}, m.heap.callable g = .script d e isInit →
      (m'.store.scope e).vars.names = (m.store.scope e).vars.names) : m'.CopyOf f g := by
  have hf' := (hext.heap f hf).2
  have hg' := (hext.heap g hg).2
  cases h with
  | script method copy there names parent =>
    exact .script (hf'.trans method) (hg'.trans copy) (Nat.lt_of_lt_of_le there hext.scopes_le)
      ((hnames copy).trans names) ((hext.parent _ there).trans parent)
  | host method copy => exact .host (hf'.trans method) (hg'.trans copy)

/-- An instance remembers a method of its class from when it is bound. -/
theorem Binds.remembers (h : m.Binds f i g m₁)
    (hk : m.heap.hasClass (m.heap.instance_ i).class_ = true)
    (hfind : m.heap.findMethod (m.heap.instance_ i).class_ x = some f)
    (hg : ((m₁.heap.putBound i x g).instance_ i).bound.get? x = some g) :
    Remembers { m₁ with heap := m₁.heap.putBound i x g } i x g := by
  have hput : m₁.Extends { m₁ with heap := m₁.heap.putBound i x g } :=
    extends_modify (fun _ => rfl) fun _ => rfl
  have hext := h.extends.trans hput
  have hi : m.heap.hasInstance i = true := by
    have hthere := Heap.hasInstance_of_bound hg
    unfold Heap.hasInstance Heap.putBound at hthere
    rw [Array.size_modify, h.instances] at hthere
    exact hthere
  have hclass := hext.classOf i hi
  have hcopy := h.copyOf.later hput (h.extends.heap f h.hasMethod).1 h.hasCopy fun _ => rfl
  refine ⟨?_, (hput.heap g h.hasCopy).1, f, ?_, (hext.heap f h.hasMethod).1, hcopy⟩
  · rw [hclass]
    exact hext.hasClass hk
  · rw [hclass, hext.findMethod hk]
    exact hfind

namespace Remembering

/-- The scope of a method that is remembered was opened. -/
theorem there (h : m.Remembering) (he : m.ThisScope e) : e.index < m.store.scopes.size := by
  obtain ⟨i, x, g, d, isInit, hg, hc⟩ := he
  obtain ⟨f, -, -, hcopy⟩ := (h.remembers hg).found
  cases hcopy with
  | script method copy there names parent =>
    cases hc.symm.trans copy
    exact there
  | host method copy => cases hc.symm.trans copy

/-- What is remembered stays in order while no name gets into the scopes that bind `this`. -/
theorem later (h : m.Remembering) (hg : (m.heap.instance_ i).bound.get? x = some g)
    (hext : m.Extends m')
    (hnames : ∀ {e}, m.ThisScope e →
      (m'.store.scope e).vars.names = (m.store.scope e).vars.names) : m'.Remembers i x g := by
  obtain ⟨hclass, hcopy, f, hfind, hf, hof⟩ := h.remembers hg
  have hsame := hext.classOf i (Heap.hasInstance_of_bound hg)
  refine ⟨?_, (hext.heap g hcopy).1, f, ?_, (hext.heap f hf).1, ?_⟩
  · rw [hsame]
    exact hext.hasClass hclass
  · rw [hsame, hext.findMethod hclass]
    exact hfind
  · exact hof.later hext hf hcopy fun hc => hnames ⟨i, x, g, _, _, hg, hc⟩

/-- A method that is remembered on both machines has one scope. -/
theorem thisScope (h : m.Remembering) (hext : m.Extends m')
    (hg : (m.heap.instance_ i).bound.get? x = some g) {d : FunctionDecl} {isInit : Bool}
    (hc : m'.heap.callable g = .script d e isInit) : m.ThisScope e :=
  ⟨i, x, g, d, isInit, hg, (hext.heap g (h.remembers hg).hasCopy).2.symm.trans hc⟩

/-- Names get into a scope that binds `this` neither from the innermost scope nor by assignment. -/
theorem names_change {declares : Prop} (h : m.Remembering) (hc : Change declares m m')
    (he : m.ThisScope e) : (m'.store.scope e).vars.names = (m.store.scope e).vars.names := by
  rcases hc.scope_cases (h.there he) with heq | ⟨y, v, -, ⟨-, henv⟩ | hbound, heq⟩
  · rw [heq]
  · exact absurd henv (h.apart he).1
  · rw [heq]
    exact Bindings.names_insert_of_contains hbound v

theorem thisScope_change {declares : Prop} (h : m.Remembering) (hc : Change declares m m')
    (he : m'.ThisScope e) : m.ThisScope e ∨ m.store.scopes.size ≤ e.index := by
  obtain ⟨i, x, g, d, isInit, hg, hcopy⟩ := he
  rcases hc.bound_cases hg with hold | ⟨f, m₁, -, -, hbinds, rfl⟩
  · exact .inl (h.thisScope hc.extends hold hcopy)
  · rw [hbinds.newScope hcopy]
    exact .inr (Nat.le_refl _)

theorem change {declares : Prop} (h : m.Remembering) (hc : Change declares m m') :
    m'.Remembering := by
  have hext := hc.extends
  refine ⟨?_, fun {e} he => ?_, fun {i x g} hg => ?_⟩
  · rw [hc.env]
    exact Nat.lt_of_lt_of_le h.placed hext.scopes_le
  · rw [hc.env]
    rcases h.thisScope_change hc he with hold | hnew
    · exact h.apart hold
    · have hplaced := h.placed
      refine ⟨?_, ?_⟩
      · rintro rfl
        omega
      · rintro rfl
        exact absurd hnew (Nat.not_le_of_lt (Nat.lt_of_le_of_lt (Nat.zero_le _) hplaced))
  · rcases hc.bound_cases hg with hold | ⟨f, m₁, hk, hfind, hbinds, rfl⟩
    · exact h.later hold hext fun he => h.names_change hc he
    · exact hbinds.remembers hk hfind hg

/-- Blocks and calls go on in a scope that is new. -/
theorem enter (h : m.Remembering) (sc : Scope) : (m.enter sc).Remembering := by
  refine ⟨?_, fun {e} he => ⟨?_, (h.apart he).2⟩, fun hg => h.later hg (extends_enter sc) ?_⟩
  · simp [Machine.enter, Store.open]
  · rintro rfl
    exact absurd (h.there he) (Nat.lt_irrefl _)
  · intro e he
    rw [Machine.enter, Store.scope_open, if_neg (Nat.ne_of_lt (h.there he))]

theorem deeper (h : m.Remembering) (d : Nat) : Remembering { m with depth := d } :=
  ⟨h.placed, h.apart, fun hg => h.later hg ((Extends.refl m).moved m.env d) fun _ => rfl⟩

/-- After a block or a call the machine is in a scope that is old. -/
theorem leave (h : m.Remembering) (h' : m'.Remembering) (hext : m.Extends m')
    (hscopes : ∀ {e}, m'.ThisScope e → m.ThisScope e ∨ m.store.scopes.size ≤ e.index) (d : Nat) :
    Remembering { m' with env := m.env, depth := d } := by
  refine ⟨Nat.lt_of_lt_of_le h.placed hext.scopes_le, fun {e} he => ⟨?_, (h'.apart he).2⟩,
    fun hg => h'.later hg ((Extends.refl m').moved m.env d) fun _ => rfl⟩
  rcases hscopes he with hold | hnew
  · exact (h.apart hold).1
  · rintro rfl
    exact absurd h.placed (Nat.not_lt_of_le hnew)

end Remembering

end Machine

/-- Instances remember methods in order, and those that they remember from now on have new scopes. -/
def Frame.remembering : Frame where
  inv := Machine.Remembering
  le m m' := m.Extends m' ∧ ∀ {e}, m'.ThisScope e → m.ThisScope e ∨ m.store.scopes.size ≤ e.index
  crash := True
  le_refl m := ⟨.refl m, .inl⟩
  le_trans h h' := by
    refine ⟨h.1.trans h'.1, fun he => ?_⟩
    rcases h'.2 he with hold | hnew
    · exact h.2 hold
    · exact .inr (Nat.le_trans h.1.scopes_le hnew)

theorem Frame.admits_remembering : Frame.remembering.Admits False where
  change hi hc := ⟨hi.change hc, hc.extends, fun he => hi.thisScope_change hc he⟩
  enterBlock hi := hi.enter _
  enterCall {m f d closure isInit args} hi _ _ :=
    (hi.enter ⟨.ofList ((d.params.map (·.name)).zip args), some closure⟩).deeper (m.depth + 1)
  leaveBlock {m m'} hi hi' hle := by
    have hback : Frame.remembering.le m m' :=
      Frame.remembering.le_trans ⟨Machine.extends_enter _, .inl⟩ hle
    exact ⟨hi.leave hi' hback.1 hback.2 m'.depth, hback.1.moved m.env m'.depth, hback.2⟩
  leaveCall {m m' d closure args} hi hi' hle := by
    have hback : Frame.remembering.le m m' :=
      Frame.remembering.le_trans ⟨Machine.extends_enterCall d closure args, .inl⟩ hle
    exact ⟨hi.leave hi' hback.1 hback.2 (m'.depth - 1), hback.1.moved m.env (m'.depth - 1), hback.2⟩

namespace Machine.Remembering

variable {m m' : Machine} {lent lent' : List InstanceId}

theorem beside (h : m.Remembering) (hb : m.Beside m') : m'.Remembering := by
  have hsame := hb.instance_
  have hlt : 0 < m'.store.scopes.size :=
    Nat.lt_of_lt_of_le (Nat.lt_of_le_of_lt (Nat.zero_le _) h.placed) hb.scopes_le
  refine ⟨?_, fun {e} he => ?_, fun {i x g} hg => ?_⟩
  · rcases hb.env with henv | henv
    · rw [henv]
      exact Nat.lt_of_lt_of_le h.placed hb.scopes_le
    · rw [henv]
      exact hlt
  · obtain ⟨i, x, g, d, isInit, hg, hc⟩ := he
    rw [hsame] at hg
    have hapart := h.apart (h.thisScope hb.toExtends hg hc)
    rcases hb.env with henv | henv
    · rw [henv]
      exact hapart
    · rw [henv]
      exact ⟨hapart.2, hapart.2⟩
  · rw [hsame] at hg
    exact h.later hg hb.toExtends fun he => by rw [hb.scope _ (h.apart he).2]

theorem follows (h : m.Remembering) (hf : m.Follows lent m' lent') : m'.Remembering := by
  cases hf with
  | evolves he => exact (Frame.admits_remembering.evolves he h).1
  | beside hb => exact h.beside hb
  | wrote hle =>
    exact ⟨h.placed, h.apart, fun hg => h.later hg (extends_withCells hle) fun _ => rfl⟩
  | @lends k o ho =>
    -- A new instance remembers nothing.
    have hold : ∀ {i x g}, ((m.addInstance (.ofHost k o)).heap.instance_ i).bound.get? x = some g →
        (m.heap.instance_ i).bound.get? x = some g := by
      intro i x g hg
      rw [instance_addInstance] at hg
      split at hg
      · cases hg
      · exact hg
    refine ⟨h.placed, fun {e} he => ?_, fun hg => ?_⟩
    · obtain ⟨i, x, g, d, isInit, hg, hc⟩ := he
      exact h.apart ⟨i, x, g, d, isInit, hold hg, hc⟩
    · exact h.later (hold hg) (extends_addInstance _) fun _ => rfl

end Machine.Remembering

namespace Session

variable {s : Session} {ps : List Program} {held : List Value} {lent : List InstanceId} {m : Machine}

theorem remembering_new (maxDepth : Nat) (console : Console) :
    (new maxDepth console).machine.Remembering := by
  have hbare : (bare maxDepth console).machine.Remembering :=
    ⟨Nat.one_pos, by rintro e ⟨i, x, g, d, isInit, ⟨⟩, -⟩, nofun⟩
  exact hbare.beside (beside_new maxDepth console)

theorem Hosted.remembering (h : s.Hosted held lent) : s.machine.Remembering := by
  obtain ⟨maxDepth, console, honward⟩ := h
  exact honward.keeps (P := fun m _ => m.Remembering) (fun hm hf => hm.follows hf)
    (remembering_new maxDepth console)

/-- A session without objects of the host. -/
theorem History.hosted (h : s.History ps held) : s.Hosted held [] := by
  obtain ⟨maxDepth, console, hcourse⟩ := h
  exact ⟨maxDepth, console, ps, hcourse.mono fun _ _ hidle => hidle.elim⟩

theorem Occurs.initialized (hm : s.Occurs held m) (h : s.History ps held) :
    s.machine.Initialized m := by
  have hinit := h.initialized
  obtain ⟨c, hinv⟩ := hm.inv (R := fun c => Regime.initialized c s.machine)
    (fun c' h => ⟨h.inv, h.fits⟩) (fun _ => hinit.machine) (fun _ => hinit.held)
    fun src _ hok => known_of_compiled hok
  exact hinv

end Session

/-! ### Reading a method again -/

namespace Machine

variable {m m₁ m' : Machine} {f g : CallableId} {i : InstanceId} {x : String} {line : Nat}

/-- The callable `g` is the method `f` bound to an instance: the same function over a scope that binds
`this` to the instance and nothing else, directly over the scope of `f`, or the same method of the host
with the instance as its receiver. -/
inductive BoundCopy (m : Machine) (f : CallableId) (i : InstanceId) (g : CallableId) : Prop where
  | script {d : FunctionDecl} {closure scope : ScopeId} {isInit : Bool}
      (method : m.heap.callable f = .script d closure isInit)
      (copy : m.heap.callable g = .script d scope isInit)
      (this : m.store.scope scope = ⟨.ofList [(thisName, .instance_ i)], some closure⟩)
  | host {y : HostMethod} {receiver : Option InstanceId}
      (method : m.heap.callable f = .method y receiver)
      (copy : m.heap.callable g = .method y (some i))

/-- A copy that is bound to an instance is the method bound to it. -/
theorem CopyOf.boundCopy (h : m.CopyOf f g) (hb : m.BoundTo g i) : m.BoundCopy f i g := by
  obtain ⟨-, hbound⟩ := hb
  cases h with
  | script method copy there names parent =>
    rw [copy] at hbound
    refine .script method copy ?_
    rw [← Bindings.eq_of_names_singleton names hbound, ← parent]
  | host method copy =>
    rw [copy] at hbound
    cases hbound
    exact .host method copy

theorem Binds.boundTo (h : m.Binds f i g m') : m'.BoundTo g i := by
  cases h with
  | @script d closure isInit hf hc => exact (m.boundTo_bindScript d closure isInit i).1
  | @host y receiver hf hc => exact (m.boundTo_bindHost y i).1

namespace BoundCopy

theorem arity_eq (h : m.BoundCopy f i g) :
    (m.heap.callable g).arity = (m.heap.callable f).arity := by
  cases h with
  | script method copy this => rw [method, copy]; rfl
  | host method copy => rw [method, copy]; rfl

/-- Binding another method does not change it. -/
theorem binds (h : m.BoundCopy f i g) (hf : m.heap.hasCallable f = true)
    (hg : m.heap.hasCallable g = true) {f' g' : CallableId} {j : InstanceId}
    (hbinds : m.Binds f' j g' m') : m'.BoundCopy f i g := by
  have hf' := (hbinds.extends.heap f hf).2
  have hg' := (hbinds.extends.heap g hg).2
  cases h with
  | @script d closure scope isInit method copy this =>
    have hown : m.store.own? scope thisName = some (.instance_ i) := by
      rw [Store.own?, this]
      rfl
    exact .script (hf'.trans method) (hg'.trans copy)
      ((hbinds.scope (Store.index_lt_size_of_own? hown)).trans this)
  | host method copy => exact .host (hf'.trans method) (hg'.trans copy)

/-- A method of which there is a copy can be bound afresh. -/
theorem bindMethod (h : m.BoundCopy f i g) (hf : m.heap.hasCallable f = true) (line : Nat) :
    ∃ g' m', Machine.bindMethod f i line m = .done g' m' ∧ m.Binds f i g' m' := by
  unfold Machine.bindMethod
  rw [Run.demand_bind_apply hf, Run.read_bind_apply]
  cases h with
  | script method copy this =>
    rw [method]
    exact ⟨_, _, rfl, .script hf method⟩
  | host method copy =>
    rw [method]
    exact ⟨_, _, rfl, .host hf method⟩

end BoundCopy

/-- A method that is remembered is given again, unless a field has its name. -/
theorem getProperty_of_bound_method (hg : (m.heap.instance_ i).bound.get? x = some g)
    (hfield : (m.heap.instance_ i).fields.get? x = none) :
    getProperty i x line m = .done (.function g) m := by
  have hnone : (m.heap.instance_ i).field? m.store.cells x = none := by
    rw [Instance.field?, hfield]
    rfl
  unfold getProperty
  rw [Run.demand_bind_apply (Heap.hasInstance_of_bound hg), Run.read_bind_apply, hnone]
  dsimp only
  rw [Run.read_bind_apply, hg]
  rfl

/-- A property that is no field is a method, which is remembered. -/
theorem bound_of_getProperty {v : Value} (h : getProperty i x line m = .done v m')
    (hfield : (m.heap.instance_ i).fields.get? x = none) :
    ∃ g, v = .function g ∧ (m'.heap.instance_ i).bound.get? x = some g := by
  have hnone : (m.heap.instance_ i).field? m.store.cells x = none := by
    rw [Instance.field?, hfield]
    rfl
  unfold getProperty at h
  obtain ⟨_, m₁, hdemand, hread⟩ := Run.bind_eq_done h
  obtain ⟨hi, rfl⟩ := Run.demand_eq_done hdemand
  rw [Run.read_bind_apply, hnone] at hread
  dsimp only at hread
  rw [Run.read_bind_apply] at hread
  cases hg : (m₁.heap.instance_ i).bound.get? x with
  | some g =>
    rw [hg] at hread
    cases hread
    exact ⟨g, rfl, hg⟩
  | none =>
    rw [hg] at hread
    dsimp only at hread
    rw [Run.read_bind_apply] at hread
    obtain ⟨g, m₂, hbind, hput⟩ := Run.bind_eq_done hread
    have hbinds : Run.Evolves (bindFound (m₁.heap.instance_ i).class_ x i line) False False _ m₁ :=
      evolves_bindFound _ x i line
    obtain ⟨-, -, -, f, -, hbinds⟩ := hbinds.done hbind
    cases hput
    refine ⟨g, rfl, ?_⟩
    have hmod := m₂.heap.instance_modify i i fun o => { o with bound := o.bound.insert x g }
    rw [if_pos ⟨rfl, hbinds.instances ▸ of_decide_eq_true hi⟩] at hmod
    exact (congrArg (·.bound.get? x) hmod).trans (Bindings.get?_insert_self _ x g)

/-- What an instance remembers it does not forget. -/
theorem Change.bound_kept {declares : Prop} (hc : Change declares m m')
    (hg : (m.heap.instance_ i).bound.get? x = some g) :
    (m'.heap.instance_ i).bound.get? x = some g := by
  have hi := of_decide_eq_true (Heap.hasInstance_of_bound hg)
  cases hc.instance_cases i with
  | same heq => rw [heq]; exact hg
  | field hslot hv heq => rw [heq]; exact hg
  | remember hnone hk hfind hbinds hm' heq =>
    rw [heq]
    refine (Bindings.get?_insert_of_ne _ _ ?_).trans hg
    rintro rfl
    cases hnone.symm.trans hg
  | plain hnew heq =>
    rw [hnew] at hi
    exact absurd hi (Nat.lt_irrefl _)
  | host hnew hk ho heq =>
    rw [hnew] at hi
    exact absurd hi (Nat.lt_irrefl _)

theorem Passes.bound_kept (h : m.Passes m') (hg : (m.heap.instance_ i).bound.get? x = some g) :
    (m'.heap.instance_ i).bound.get? x = some g :=
  h.keeps (P := fun m => (m.heap.instance_ i).bound.get? x = some g)
    (Frame.admits_fact (fun _ _ h => h) (fun h hc => hc.bound_kept h) fun _ h _ => h)
    (fun _ _ _ _ h => h) (fun _ h => h) hg

end Machine

/-- A method that is bound is not remembered by that. -/
theorem Machine.instances_bindFound (k : ClassId) (x : String) (i : InstanceId) (line : Nat)
    (m : Machine) :
    (Frame.fact fun m' => m'.heap.instances = m.heap.instances).Keeps (bindFound k x i line)
      (bindFound k x i line) (fun _ _ => True) m := by
  refine .demand_bind rfl (.inl trivial) (.read_bind ?_)
  cases m.heap.findMethod k x with
  | none => exact .fail rfl
  | some f =>
    refine .demand_bind rfl (.inl trivial) (.read_bind ?_)
    cases m.heap.callable f with
    | native y n g => exact .fail rfl
    | script d closure isInit => exact ⟨rfl, rfl, trivial, trivial⟩
    | method y receiver => exact ⟨rfl, rfl, trivial, trivial⟩

theorem Evaluation.instances_superMethod (c : Context) (id : Nat) (x : String) (line : Nat)
    (m : Machine) :
    (Frame.fact fun m' => m'.heap.instances = m.heap.instances).Keeps (superMethod c id x line)
      (superMethod c id x line) (fun _ _ => True) m := by
  unfold superMethod
  cases c.locals id with
  | none => exact .fail rfl
  | some d =>
    refine (still_superclass rfl d line).bind_still fun k _ => ?_
    refine (still_receiver rfl d line).bind_still fun i _ => ?_
    exact (m.instances_bindFound k x i line).bind fun _ _ hi _ _ => .pure hi trivial

/-- What instances remember comes to the same as a fresh look, wherever a session comes to. Under a name
stands the method that the class finds, bound to the instance. It is given again until a field has its
name, and binding the method afresh gives one that differs in nothing but its number. A method that is
read and is no field is remembered for good, whatever comes to pass. Methods of the superclass are not
remembered. -/
theorem remembered_as_found {s : Session} {ps : List Program} {held : List Value}
    (hs : s.History ps held) :
    (∀ m, s.Occurs held m → ∀ i x g, (m.heap.instance_ i).bound.get? x = some g →
      ∃ f, m.heap.findMethod (m.heap.instance_ i).class_ x = some f ∧ m.BoundCopy f i g ∧
        (m.heap.callable g).arity = (m.heap.callable f).arity ∧
        ((m.heap.instance_ i).fields.get? x = none →
          ∀ line, Machine.getProperty i x line m = .done (.function g) m) ∧
        ∀ line, ∃ g' m',
          Machine.bindFound (m.heap.instance_ i).class_ x i line m = .done g' m' ∧
            m'.BoundCopy f i g ∧ m'.BoundCopy f i g') ∧
    (∀ m i x line v m₁, (m.heap.instance_ i).fields.get? x = none →
      Machine.getProperty i x line m = .done v m₁ →
      ∃ g, v = .function g ∧ ∀ m₂, m₁.Passes m₂ → (m₂.heap.instance_ i).bound.get? x = some g ∧
        ((m₂.heap.instance_ i).fields.get? x = none →
          ∀ line, Machine.getProperty i x line m₂ = .done v m₂)) ∧
    ∀ c id x line m,
      (∀ v m', Evaluation.superMethod c id x line m = .done v m' →
        m'.heap.instances = m.heap.instances) ∧
      ∀ e m', Evaluation.superMethod c id x line m = .fail e m' →
        m'.heap.instances = m.heap.instances := by
  refine ⟨fun m hm i x g hg => ?_, fun m i x line v m₁ hfield hread => ?_, fun c id x line m => ?_⟩
  · have hremembering : m.Remembering :=
      Frame.admits_remembering.leads hm.leads hs.hosted.remembering
    obtain ⟨hclass, hcopy, f, hfind, hf, hof⟩ := hremembering.remembers hg
    obtain ⟨hto, -⟩ := (hm.initialized hs).remembered i x g hg
    have hbound := hof.boundCopy hto
    refine ⟨f, hfind, hbound, hbound.arity_eq,
      fun hfield line => Machine.getProperty_of_bound_method hg hfield, fun line => ?_⟩
    obtain ⟨g', m', hrun, hbinds⟩ := hbound.bindMethod hf line
    refine ⟨g', m', ?_, hbound.binds hf hcopy hbinds, hbinds.copyOf.boundCopy hbinds.boundTo⟩
    unfold Machine.bindFound
    rw [Run.demand_bind_apply hclass, Run.read_bind_apply, hfind]
    exact hrun
  · obtain ⟨g, rfl, hg⟩ := Machine.bound_of_getProperty hread hfield
    refine ⟨g, rfl, fun m₂ hpasses => ?_⟩
    have hkept := hpasses.bound_kept hg
    exact ⟨hkept, fun hfield line => Machine.getProperty_of_bound_method hkept hfield⟩
  · have hkeeps := Evaluation.instances_superMethod c id x line m
    exact ⟨fun v m' h => (hkeeps.done h).1, fun e m' h => (hkeeps.failed h).1⟩

/-- A method that calls the one of the superclass that has its name. -/
def overrideScript : Source :=
  ⟨"override", "class A \x7b m() \x7b return 1; \x7d \x7d " ++
    "class B < A \x7b m() \x7b return super.m(); \x7d \x7d var b = B(); print b.m();"⟩

theorem remembered_as_found_overrideScript :
    ∃ (s : Session) (p : Program) (f g : CallableId), s.History [p] [] ∧
      (s.machine.heap.instance_ ⟨0⟩).bound.get? "m" = some g ∧
      s.machine.heap.findMethod (s.machine.heap.instance_ ⟨0⟩).class_ "m" = some f ∧ f ≠ g ∧
      s.machine.BoundCopy f ⟨0⟩ g ∧
      Machine.getProperty ⟨0⟩ "m" 1 s.machine = .done (.function g) s.machine := by
  have hruns : ((Session.new 8 (.ofInput [])).run 20 overrideScript).any (fun r =>
      !(Compiled.ofSource overrideScript (Session.new 8 (.ofInput [])).nextId).diagnostics.hasErrors &&
        (r.2.machine.heap.instance_ ⟨0⟩).bound.contains "m" &&
        (r.2.machine.heap.instance_ ⟨0⟩).fields.get? "m" = none &&
        r.2.machine.heap.findMethod (r.2.machine.heap.instance_ ⟨0⟩).class_ "m" ≠
          (r.2.machine.heap.instance_ ⟨0⟩).bound.get? "m") = true := by
    decide +kernel
  obtain ⟨⟨r, s⟩, hrun, h⟩ := (Option.any_eq_true _ _).mp hruns
  simp only [Bool.and_eq_true, Bool.not_eq_true', decide_eq_true_eq] at h
  obtain ⟨⟨⟨hok, hbound⟩, hfield⟩, hne⟩ := h
  obtain ⟨g, hg⟩ := Option.isSome_iff_exists.mp hbound
  have hs := Session.History.ran (.new 8 (.ofInput [])) hrun
  rw [Compiled.runnable_of_ok hok] at hs
  obtain ⟨f, hfind, hcopy, -, hread, -⟩ := (remembered_as_found hs).1 s.machine .rest ⟨0⟩ "m" g hg
  refine ⟨s, _, f, g, hs, hg, hfind, ?_, hcopy, hread hfield 1⟩
  rintro rfl
  exact hne (hfind.trans hg.symm)

end HostScript
