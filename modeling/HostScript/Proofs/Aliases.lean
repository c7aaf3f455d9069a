import HostScript.Proofs.Hosting

/-!
# Cells of the host and the values of scripts

A value that is bound to a cell of the host can only be where the host has put it: under a name, in a
field of one of its objects, among the arguments of a call that it makes. Scripts read the contents of
cells and never pass the cells on, so a copy that a script makes is its own.
-/

namespace HostScript

namespace Machine

variable {m m₀ m' : Machine} {e : ScopeId} {x : String}

/-! ### Where cells are seen -/

/-- What is bound to a cell on `m'` was bound to it on `m`, under the same name or in the same field of
the same instance, or it is a field that shows the host object of an instance that was not there. -/
structure NoNewAliases (m m' : Machine) : Prop where
  vars : ∀ {e x a}, m'.store.own? e x = some (.bound a) → m.store.own? e x = some (.bound a)
  fields : ∀ {i x a}, (m'.heap.instance_ i).fields.get? x = some (.bound a) →
    (m.heap.instance_ i).fields.get? x = some (.bound a) ∨
      m.heap.hasInstance i = false ∧
        ∃ o, (m'.heap.instance_ i).host = some o ∧ (x, .bound a) ∈ o.fields

theorem NoNewAliases.refl (m : Machine) : m.NoNewAliases m :=
  ⟨id, .inl⟩

/-- A change adds no alias. -/
theorem NoNewAliases.change {declares : Prop} (h : m₀.NoNewAliases m) (hext : m₀.Extends m)
    (hc : Change declares m m') : m₀.NoNewAliases m' := by
  refine ⟨fun hv => ?_, fun {i x a} hv => ?_⟩
  · rcases hc.own?_cases hv with hold | howned
    · exact h.vars hold
    · cases howned
  · cases hc.instance_cases i with
    | same heq =>
      rw [heq] at hv ⊢
      exact h.fields hv
    | field hslot howned heq =>
      rw [heq] at hv ⊢
      rw [Bindings.get?_insert] at hv
      split at hv
      · cases hv
        cases howned
      · exact h.fields hv
    | remember hnone hk hfind hg hm' heq =>
      rw [heq] at hv ⊢
      exact h.fields hv
    | plain hi heq =>
      rw [heq] at hv
      cases hv
    | @host k o hi hk ho heq =>
      rw [heq] at hv ⊢
      refine .inr ⟨?_, o, rfl, Bindings.mem_of_get?_ofList hv⟩
      rw [hi]
      exact decide_eq_false (Nat.not_lt.mpr hext.instances_le)

/-- A scope of owning values adds no alias. -/
theorem NoNewAliases.open {sc : Scope} (h : m₀.NoNewAliases m)
    (hsc : ∀ x v, sc.vars.get? x = some v → v.isBound = false) :
    m₀.NoNewAliases { m with store := (m.store.open sc).2 } := by
  refine ⟨fun hv => ?_, h.fields⟩
  rcases m.store.own?_open_cases hv with hnew | hold
  · cases hsc _ _ hnew
  · exact h.vars hold

theorem admits_noNewAliases (m₀ : Machine) :
    (Frame.fact fun m => m₀.Extends m ∧ m₀.NoNewAliases m).Admits True := by
  refine Frame.admits_fact (fun e d h => ?_) (fun h hc => ?_) fun sc h hsc => ?_
  · exact ⟨h.1.moved e d, h.2.vars, h.2.fields⟩
  · exact ⟨h.1.trans hc.extends, h.2.change h.1 hc⟩
  · exact ⟨h.1.trans (extends_open sc), h.2.open (hsc trivial)⟩

theorem Evolves.noNewAliases {declares : Prop} (h : Evolves True declares m m') :
    m.NoNewAliases m' :=
  ((m.admits_noNewAliases).evolves h ⟨.refl m, .refl m⟩).1.2

theorem Leads.noNewAliases (h : Leads True m m') : m.NoNewAliases m' :=
  ((m.admits_noNewAliases).leads h ⟨.refl m, .refl m⟩).2

/-! ### Places that are owned -/

/-- A scope binds a name to an owning value. -/
def Owns (m : Machine) (e : ScopeId) (x : String) : Prop :=
  ∃ v, m.store.own? e x = some v ∧ v.isBound = false

theorem owns_bind {v : Value} (he : e.index < m.store.scopes.size) (hv : v.isBound = false) :
    (m.bind e x v).Owns e x := by
  refine ⟨v, ?_, hv⟩
  rw [Machine.bind, Store.own?, Store.scope_define, if_pos ⟨rfl, he⟩]
  exact Bindings.get?_insert_self _ x v

theorem Owns.change {declares : Prop} (h : m.Owns e x) (hc : Change declares m m') :
    m'.Owns e x := by
  obtain ⟨v, hv, howned⟩ := h
  unfold Owns Store.own? at *
  rcases hc.scope_cases (Store.index_lt_size_of_own? hv) with heq | ⟨y, w, hw, -, heq⟩
  · rw [heq]
    exact ⟨v, hv, howned⟩
  · rw [heq, Bindings.get?_insert]
    split
    · exact ⟨w, rfl, hw⟩
    · exact ⟨v, hv, howned⟩

theorem Owns.open (h : m.Owns e x) (sc : Scope) :
    Owns { m with store := (m.store.open sc).2 } e x := by
  obtain ⟨v, hv, howned⟩ := h
  refine ⟨v, ?_, howned⟩
  rw [Store.own?, Store.scope_open, if_neg (Nat.ne_of_lt (Store.index_lt_size_of_own? hv))]
  exact hv

/-- A name that is bound to an owning value stays so, whatever runs and whatever the host writes to its
cells. -/
theorem Owns.passes (h : m.Owns e x) (hp : m.Passes m') : m'.Owns e x :=
  hp.keeps (P := fun m => m.Owns e x)
    (Frame.admits_fact (fun _ _ h => h) (fun h hc => h.change hc) fun sc h _ => h.open sc)
    (fun _ _ _ _ h => h) (fun _ h => h) h

/-- An assignment to a name that is bound to an owning value writes to no cell. -/
theorem Owns.cells_assignIn {v : Value} {line : Nat} {u : Unit} (h : m.Owns e x)
    (hrun : assignIn (some e) x v line m = .done u m') : m'.store.cells = m.store.cells := by
  obtain ⟨slot, hslot, howned⟩ := h
  unfold assignIn Store.plan at hrun
  dsimp only at hrun
  rw [hslot] at hrun
  dsimp only at hrun
  cases hp : m.store.cells.plan slot v with
  | error err => rw [hp] at hrun; cases hrun
  | ok w =>
    rw [hp] at hrun
    cases w with
    | slot w => cases hrun; rfl
    | cell a w =>
      -- Only a bound place is written through to a cell.
      cases slot with
      | bound b => cases howned
      | string t =>
        unfold Cells.plan at hp
        dsimp only at hp
        split at hp <;> cases hp
      | _ => cases hp

end Machine

namespace Evaluation

variable {c : Context} {n : Nat} {m m' : Machine}

/-- A variable is declared in the innermost scope, as the owning value of its initializer or as
`Undefined`. -/
theorem exec_var_cases {x : Ident} {init : Option Expr} {sp : Span} {k : Completion}
    (h : exec c n (.var x init sp) m = .done k m') :
    ∃ v m₁, v.isBound = false ∧ m₁.env = m.env ∧ m.Extends m₁ ∧ m' = m₁.bind m.env x.name v ∧
      (init = none → v = .undefined ∧ m₁ = m) ∧
      ∀ e, init = some e → ∃ k, eval c k e m = .done v m₁ := by
  cases n with
  | zero => cases h
  | succ n =>
    cases init with
    | none =>
      cases h
      exact ⟨.undefined, m, rfl, rfl, .refl m, rfl, fun _ => ⟨rfl, rfl⟩, nofun⟩
    | some e =>
      obtain ⟨v, m₁, hv, hrest⟩ := Run.bind_eq_done (m := m) h
      cases hrest
      have hrun : (Evaluation.layer c n).eval e m = .done v m₁ := hv
      have heval : Run.Evolves ((Evaluation.layer c n).eval e) True False _ m :=
        (Evaluation.evolves_layer True c n).eval e
      obtain ⟨-, he, howned⟩ := heval.done hrun
      refine ⟨v, m₁, howned, he.env, he.extends, ?_, nofun, ?_⟩
      · rw [← he.env]
        rfl
      · rintro _ ⟨⟩
        exact ⟨n, hv⟩

end Evaluation

/-- A new field holds a copy of the value. -/
theorem Machine.setField_new {i : InstanceId} {x : String} {v : Value} {line : Nat} {u : Unit}
    {m m' : Machine} (h : setField i x v line m = .done u m')
    (hnone : (m.heap.instance_ i).fields.get? x = none) :
    (m'.heap.instance_ i).fields.get? x = some (v.detach m.store.cells) := by
  obtain ⟨_, m₁, hdemand, hwrite⟩ := Run.bind_eq_done h
  obtain ⟨hi, rfl⟩ := Run.demand_eq_done hdemand
  unfold writeField at hwrite
  rw [hnone] at hwrite
  cases hwrite
  have hmod := m₁.heap.instance_modify i i fun o =>
    { o with fields := o.fields.insert x (v.detach m₁.store.cells) }
  rw [if_pos ⟨rfl, of_decide_eq_true hi⟩] at hmod
  rw [Heap.putField, hmod]
  exact Bindings.get?_insert_self _ x _

/-- The parameters of a call are bound to its arguments. -/
theorem Machine.mem_of_own?_enterCall {d : FunctionDecl} {closure : ScopeId} {args : List Value}
    {m : Machine} {x : String} {v : Value}
    (h : (m.enterCall d closure args).store.own? m.nextScope x = some v) : v ∈ args := by
  have hscope : (m.enterCall d closure args).store.scope m.nextScope =
      ⟨.ofList ((d.params.map (·.name)).zip args), some closure⟩ := by
    rw [enterCall, enter, Store.scope_open]
    exact if_pos rfl
  rw [Store.own?, hscope] at h
  exact (List.of_mem_zip (Bindings.mem_of_get?_ofList h)).2

/-- Values of expressions and values on their way to a call are owned, on every machine. So are the
variables that a script declares, the parameters of its calls and the fields that it adds, and no run of
a script binds anything to a cell that it was not bound to. Once a script has declared a variable,
assignments to it write to no cell of the host, whatever comes to pass. -/
theorem aliases_never_spread :
    (∀ c n e m v m', Evaluation.eval c n e m = .done v m' → v.isBound = false) ∧
    (∀ c n s m v m', Evaluation.exec c n s m = .done (.returning v) m' → v.isBound = false) ∧
    (∀ c n body m v m',
      Evaluation.block c n body m = .done (.returning v) m' → v.isBound = false) ∧
    (∀ c n cond body m v m',
      Evaluation.loop c n cond body m = .done (.returning v) m' → v.isBound = false) ∧
    (∀ c n x init sp m k m', Evaluation.exec c n (.var x init sp) m = .done k m' →
      ∃ v m₁, v.isBound = false ∧ m' = m₁.bind m.env x.name v ∧
        (init = none → v = .undefined ∧ m₁ = m) ∧
        ∀ e, init = some e → ∃ k, Evaluation.eval c k e m = .done v m₁) ∧
    (∀ c n (a : Activity) m f args m', a.Owning → Activity.Reaches c n a m (.call f args) m' →
      (∀ v ∈ args, v.isBound = false) ∧
        ∀ d closure x v, (m'.enterCall d closure args).store.own? m'.nextScope x = some v →
          v.isBound = false) ∧
    (∀ i x v line m m', Machine.setField i x v line m = .done () m' →
      (m.heap.instance_ i).fields.get? x = none →
      ∃ w, w.isBound = false ∧ (m'.heap.instance_ i).fields.get? x = some w) ∧
    (∀ c n (a : Activity) m, a.Owning →
      (∀ x m', a.run c n m = .done x m' → m.NoNewAliases m') ∧
      (∀ err m', a.run c n m = .fail err m' → m.NoNewAliases m') ∧
      ∀ b m', Activity.Reaches c n a m b m' → m.NoNewAliases m') ∧
    (∀ (s : Session) held lent x e sp m, s.Hosted held lent →
      s.UnderWay held (.exec (.var x (some e) sp)) m →
      ∀ c n k m₁, Evaluation.exec c n (.var x (some e) sp) m = .done k m₁ →
      ∀ m₂, m₁.Passes m₂ → m₂.Owns m.env x.name ∧
        ∀ c id v line m₃, Evaluation.target? c id x.name m₂ = some m.env →
          Evaluation.assignVariable c id x.name v line m₂ = .done () m₃ →
          m₃.store.cells = m₂.store.cells) := by
  have hlayer := Evaluation.evolves_layer True
  refine ⟨?_, ?_, ?_, ?_, ?_, ?_, ?_, ?_, ?_⟩
  · intro c n e m v m' h
    exact ((hlayer c n (.eval e) m fun _ => trivial).done h).2.2
  · intro c n s m v m' h
    exact (((hlayer c n).exec s).done h).2.2
  · intro c n body m v m' h
    exact (((hlayer c n).block body).done h).2.2
  · intro c n cond body m v m' h
    exact (((hlayer c n).loop cond body).done h).2.2
  · intro c n x init sp m k m' h
    obtain ⟨v, m₁, hv, -, -, hm', hinit⟩ := Evaluation.exec_var_cases h
    exact ⟨v, m₁, hv, hm', hinit⟩
  · intro c n a m f args m' ha h
    have hargs : ∀ v ∈ args, v.isBound = false :=
      (Activity.leads_of_reaches h fun _ : True => ha).2 trivial
    exact ⟨hargs, fun d closure x v hv => hargs v (Machine.mem_of_own?_enterCall hv)⟩
  · intro i x v line m m' h hnone
    exact ⟨_, Value.isBound_detach m.store.cells v, Machine.setField_new h hnone⟩
  · intro c n a m ha
    have hevolves := hlayer c n a m fun _ => ha
    refine ⟨fun x m' h => (hevolves.done h).2.1.noNewAliases,
      fun err m' h => (hevolves.failed h).2.noNewAliases, fun b m' h => ?_⟩
    exact (Activity.leads_of_reaches h fun _ => ha).1.noNewAliases
  · intro s held lent x e sp m hs hway c n k m₁ hrun m₂ hpasses
    obtain ⟨v, m', hv, -, hext, rfl, -⟩ := Evaluation.exec_var_cases hrun
    have hplaced := Nat.lt_of_lt_of_le (hway.placed hs) hext.scopes_le
    have howns := (Machine.owns_bind hplaced hv).passes hpasses
    refine ⟨howns, fun c id v line m₃ htarget hassign => ?_⟩
    obtain ⟨_, _, ⟨⟩, hassign⟩ := Run.bind_eq_done hassign
    rw [htarget] at hassign
    exact howns.cells_assignIn hassign

namespace Session

/-- The host makes a cell for a whole number and shows it under a name. -/
def share (s : Session) (x : String) (n : Int32) : Session :=
  { s with machine :=
      (s.machine.withCells ⟨#[n], #[], #[], #[]⟩).bind .globals x (.bound (.int 0)) }

theorem Onward.share {s₀ s : Session} {held₀ held : List Value} {lent₀ lent : List InstanceId}
    (h : Onward s₀ held₀ lent₀ s held lent) (hcells : s.machine.store.cells = .empty) (x : String)
    (n : Int32) : Onward s₀ held₀ lent₀ (s.share x n) (.bound (.int 0) :: held) lent := by
  obtain ⟨ps, h⟩ := h
  have hwrite : HostPolicy.free s.machine (.write ⟨#[n], #[], #[], #[]⟩) :=
    Nat.le_of_eq (congrArg (·.floats.size) hcells)
  have hdefine : HostPolicy.free (s.machine.withCells ⟨#[n], #[], #[], #[]⟩)
      (.define x (.bound (.int 0))) := trivial
  have hmade := (h.acted hwrite nofun rfl).made (v := .bound (.int 0)) rfl
  exact ⟨ps, hmade.acted hdefine (List.forall_mem_singleton.mpr List.mem_cons_self) rfl⟩

/-- A session whose host shows a cell with the number 7 under the name `g`. -/
def sharing : Session :=
  (new 8 (.ofInput [])).share "g" 7

theorem hosted_sharing : sharing.Hosted [.bound (.int 0)] [] :=
  ⟨8, .ofInput [], Onward.share .here (beside_new 8 (.ofInput [])).cells "g" 7⟩

/-- A variable that starts as a copy of what the host shows. -/
def copyScript : Source :=
  ⟨"copy", "var copy = g;"⟩

/-- The script has no errors, and its one statement declares `copy` as the number 7. -/
def copies (s : Session) : Bool :=
  let compiled := Compiled.ofSource copyScript s.nextId
  !compiled.diagnostics.hasErrors && match compiled.program.stmts with
  | [.var x (some e) sp] =>
    x.name == "copy" &&
      match Evaluation.exec (s.learn compiled.locals).context 3 (.var x (some e) sp) s.machine with
      | .done _ m => m.store.own? .globals "copy" == some (.int 7)
      | _ => false
  | _ => false

end Session

theorem aliases_never_spread_copyScript :
    Session.sharing.global? "g" = some (.bound (.int 0)) ∧
    ∃ (e : Expr) (sp : Span) (x : Ident) (c : Context) (k : Completion) (m₁ : Machine),
      Session.sharing.UnderWay [.bound (.int 0)] (.exec (.var x (some e) sp))
        Session.sharing.machine ∧
      Evaluation.exec c 3 (.var x (some e) sp) Session.sharing.machine = .done k m₁ ∧
      m₁.store.own? .globals "copy" = some (.int 7) ∧
      ∀ m₂, m₁.Passes m₂ → m₂.Owns .globals "copy" := by
  refine ⟨by decide +kernel, ?_⟩
  have hcopies : Session.sharing.copies = true := by decide +kernel
  unfold Session.copies at hcopies
  dsimp only at hcopies
  obtain ⟨herr, hcopies⟩ := Bool.and_eq_true_iff.mp hcopies
  split at hcopies
  · rename_i x e sp hstmts
    obtain ⟨hx, hcopies⟩ := Bool.and_eq_true_iff.mp hcopies
    split at hcopies
    · rename_i k m₁ hrun
      have hstarts : Session.sharing.Starts 3 Session.copyScript (.exec (.var x (some e) sp))
          Session.sharing.machine := ⟨by simpa using herr, hstmts ▸ .first .here⟩
      have hown := aliases_never_spread.2.2.2.2.2.2.2.2 _ _ _ _ _ _ _ Session.hosted_sharing
        (.run hstarts) _ _ _ _ hrun
      refine ⟨e, sp, x, _, k, m₁, .run hstarts, hrun, eq_of_beq hcopies, fun m₂ hpasses => ?_⟩
      have hglobals : Session.sharing.machine.env = .globals := by decide +kernel
      have howns := (hown m₂ hpasses).1
      rwa [hglobals, eq_of_beq hx] at howns
    · cases hcopies
  · cases hcopies

end HostScript
