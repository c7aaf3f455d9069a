import HostScript.Proofs.Hygiene
import HostScript.Proofs.Scoping.Running

/-!
# What the innermost scope does not bind

Scopes that are in line bind what is defined in the static scopes (`Store.Aligned`). A scope further out may
bind more: a function can be called when the block around it has gone on. The innermost scope does not.
Nothing but the statements that run in it gives it names, each the name that it declares, so it binds what is
defined at the place of the code that runs, and nothing else. A variable whose initializer is under way is
declared there, but not bound.
-/

namespace HostScript

theorem Bindings.mem_names {α : Type} {b : Bindings α} {x : String} :
    x ∈ b.names ↔ b.contains x = true := by
  obtain ⟨entries⟩ := b
  unfold names contains get?
  induction entries with
  | nil => simp [find]
  | cons y rest ih =>
    by_cases hy : y.1 = x
    · simp [find, hy]
    · simpa [find, hy, Ne.symm hy] using ih

namespace Machine

variable {own : Prop} {o : Option String} {m m₁ m' : Machine}

/-! ### Names that come -/

/-- The machine is in the same scope again, which has got no name but `o`. -/
structure Adds (o : Option String) (m m' : Machine) : Prop where
  env : m'.env = m.env
  size : m.store.scopes.size ≤ m'.store.scopes.size
  names : m.env.index < m.store.scopes.size → ∀ x, m'.store.contains m.env x = true →
    m.store.contains m.env x = true ∨ o = some x

namespace Adds

theorem refl (m : Machine) : m.Adds o m :=
  ⟨rfl, Nat.le_refl _, fun _ _ hx => .inl hx⟩

theorem trans (h : m.Adds o m₁) (h' : m₁.Adds o m') : m.Adds o m' := by
  refine ⟨h'.env.trans h.env, Nat.le_trans h.size h'.size, fun hlt x hx => ?_⟩
  have hlt₁ : m₁.env.index < m₁.store.scopes.size := by
    rw [h.env]
    exact Nat.lt_of_lt_of_le hlt h.size
  rw [← h.env] at hx
  rcases h'.names hlt₁ x hx with hx₁ | ho
  · rw [h.env] at hx₁
    exact h.names hlt x hx₁
  · exact .inr ho

end Adds

/-- Where nothing is declared, no name comes. -/
theorem Evolves.adds (h : Evolves own False m m') : m.Adds o m' := by
  have hkeeps := h.keepsNames
  refine ⟨h.env, hkeeps.scopes_le, fun hlt x hx => .inl ?_⟩
  have hnames := hkeeps.names m.env hlt fun hg => hg.1
  have hmem : x ∈ (m'.store.scope m.env).vars.names := Bindings.mem_names.mpr hx
  rw [hnames] at hmem
  exact Bindings.mem_names.mp hmem

theorem adds_bind (m : Machine) (x : String) (v : Value) : m.Adds (some x) (m.bind m.env x v) := by
  refine ⟨rfl, ?_, fun hlt y hy => ?_⟩
  · simp [bind, Store.define]
  · by_cases hxy : y = x
    · exact .inr (congrArg some hxy.symm)
    · refine .inl ?_
      have hown : (m.bind m.env x v).store.own? m.env y = m.store.own? m.env y := by
        unfold Store.own?
        rw [bind, Store.scope_define, if_pos ⟨rfl, hlt⟩, Bindings.get?_insert_of_ne _ _ hxy]
      unfold Store.contains at hy ⊢
      rwa [hown] at hy

end Machine

namespace Evaluation

variable {c : Context} {n : Nat} {m m' : Machine} {o : Option String}

theorem adds_of_evolves {α : Type} {x : Run α} {a : α} {Q : α → Machine → Prop}
    (hx : x.Evolves False False Q m) (h : x m = .done a m') : m.Adds o m' :=
  (hx.done h).2.1.adds

theorem adds_eval {e : Expr} {v : Value} (h : eval c n e m = .done v m') : m.Adds o m' :=
  adds_of_evolves ((evolves_layer False c n).eval e) h

theorem adds_arguments {es : List Expr} {vs : List Value}
    (h : arguments (eval c n) es m = .done vs m') : m.Adds o m' :=
  adds_of_evolves ((evolves_layer False c n).arguments es) h

/-- A class declaration adds the name of the class. -/
theorem adds_declareClass {x : Ident} {super : Option Superclass} {ms : List FunctionDecl} {u : Unit}
    (h : declareClass (eval c n) x super ms m = .done u m') : m.Adds (some x.name) m' := by
  obtain ⟨_, m₁, hdeclare, h⟩ := Run.bind_eq_done h
  obtain ⟨parent, m₂, hparent, h⟩ := Run.bind_eq_done h
  obtain ⟨k, m₃, hclass, h⟩ := Run.bind_eq_done h
  have hname : m.Adds (some x.name) m₁ := by
    cases hdeclare
    exact m.adds_bind x.name .null
  have hsuper : m₁.Adds (some x.name) m₂ := by
    cases super with
    | none =>
      cases hparent
      exact .refl _
    | some p =>
      obtain ⟨v, m₄, hv, hkind⟩ := Run.bind_eq_done hparent
      have hsame : m₂ = m₄ := by
        split at hkind <;> cases hkind
        rfl
      rw [hsame]
      exact adds_eval hv
  have hmethods : m₂.Adds (some x.name) m₃ :=
    adds_of_evolves (evolves_newScriptClass x.name parent ms) hclass
  have hassign : m₃.Adds (some x.name) m' :=
    adds_of_evolves (Machine.evolves_assignIn (m₃.store.holder? m₃.env x.name) x.name _ _) h
  exact ((hname.trans hsuper).trans hmethods).trans hassign

/-- A statement that is completed adds the name that it declares, and no other. Those of branches and
loops declare none. -/
theorem adds_exec_loop (c : Context) (n : Nat) :
    (∀ s m k m', s.Conforms → exec c n s m = .done k m' → m.Adds s.declares m') ∧
      ∀ cond body m k m', body.Conforms → body.declares = none →
        loop c n cond body m = .done k m' → m.Adds none m' := by
  induction n with
  | zero => exact ⟨fun _ _ _ _ _ h => (nomatch h), fun _ _ _ _ _ _ _ h => (nomatch h)⟩
  | succ n ih =>
    obtain ⟨ihexec, ihloop⟩ := ih
    have hbranch : ∀ {s m k m'}, s.Conforms → s.declares = none → exec c n s m = .done k m' →
        m.Adds none m' := by
      intro s m k m' hs hd h
      rw [← hd]
      exact ihexec s m k m' hs h
    constructor
    · intro s m k m' hs h
      cases hs with
      | expr sp _ =>
        obtain ⟨v, m₁, hv, h⟩ := Run.bind_eq_done h
        cases h
        exact adds_eval hv
      | print sp _ =>
        obtain ⟨v, m₁, hv, h⟩ := Run.bind_eq_done h
        obtain ⟨t, m₂, ht, h⟩ := Run.bind_eq_done h
        obtain ⟨_, m₃, hprint, h⟩ := Run.bind_eq_done h
        have htext : m₁.Adds none m₂ := adds_of_evolves (Builtin.evolves_text v) ht
        have hline : m₂.Adds none m₃ := adds_of_evolves (evolves_printLine t) hprint
        cases h
        exact ((adds_eval hv).trans htext).trans hline
      | @var x init sp _ =>
        cases init with
        | none =>
          cases h
          exact m.adds_bind x.name .undefined
        | some e =>
          obtain ⟨v, m₁, hv, h⟩ := Run.bind_eq_done h
          cases h
          exact (adds_eval hv).trans (m₁.adds_bind x.name v)
      | block sp _ => exact adds_of_evolves (evolves_blockStmt c (n + 1) _ sp) h
      | @ifElse cond t e sp _ ht htd he hed =>
        obtain ⟨v, m₁, hv, h⟩ := Run.bind_eq_done h
        rw [Run.read_bind_apply] at h
        refine (adds_eval hv).trans ?_
        split at h
        · exact hbranch ht htd h
        · cases e with
          | none =>
            cases h
            exact .refl _
          | some e => exact hbranch (he e rfl) (hed e rfl) h
      | while_ sp _ hbody hd => exact ihloop _ _ m k m' hbody hd h
      | @function d _ =>
        cases h
        have hadd : Machine.Evolves False False m (m.addCallable (.script d m.env false)) :=
          .of_change (.addFunction d)
        exact hadd.adds.trans (Machine.adds_bind _ d.name.name _)
      | class_ x super sp _ =>
        obtain ⟨_, m₁, hclass, h⟩ := Run.bind_eq_done h
        cases h
        exact adds_declareClass hclass
      | @return_ value sp _ =>
        cases value with
        | none =>
          cases h
          exact .refl _
        | some e =>
          obtain ⟨v, m₁, hv, h⟩ := Run.bind_eq_done h
          cases h
          exact adds_eval hv
    · intro cond body m k m' hbody hd h
      obtain ⟨v, m₁, hv, h⟩ := Run.bind_eq_done h
      rw [Run.read_bind_apply] at h
      refine (adds_eval hv).trans ?_
      split at h
      · obtain ⟨k', m₂, hround, h⟩ := Run.bind_eq_done h
        refine (hbranch hbody hd hround).trans ?_
        cases k' with
        | completed => exact ihloop cond body m₂ k m' hbody hd h
        | returning w =>
          cases h
          exact .refl _
      · cases h
        exact .refl _

theorem adds_exec {s : Stmt} {k : Completion} (hs : s.Conforms) (h : exec c n s m = .done k m') :
    m.Adds s.declares m' :=
  (adds_exec_loop c n).1 s m k m' hs h

end Evaluation

/-! ### Names that are there -/

/-- The scope `e` binds nothing but what is defined in the innermost of the static scopes. -/
def Store.Exact (S : Store) (e : ScopeId) (ss : StaticScopes) : Prop :=
  ∀ sc ∈ ss.head?, ∀ x, S.contains e x = true → sc.get? x = some true

namespace Store.Exact

variable {S S' : Store} {e : ScopeId} {ss : StaticScopes} {x : String}

theorem outside (S : Store) (e : ScopeId) : S.Exact e [] :=
  nofun

/-- Declaring a name says nothing about those that are bound. -/
theorem declare (h : S.Exact e ss) (x : String) : S.Exact e (ss.declare x) := by
  cases ss with
  | nil => exact h
  | cons sc rest =>
    rw [StaticScopes.declare_cons]
    rintro _ ⟨⟩ y hy
    have hdefined : sc.get? y = some true := h sc rfl y hy
    split
    · exact hdefined
    · rename_i hfree
      have hne : y ≠ x := by
        rintro rfl
        exact hfree (by rw [Bindings.contains, hdefined]; rfl)
      rw [Bindings.get?_insert_of_ne _ _ hne]
      exact hdefined

theorem introduce (h : ∀ sc ∈ ss.head?, ∀ y, S.contains e y = true → sc.get? y = some true ∨ x = y) :
    S.Exact e (ss.introduce x) := by
  cases ss with
  | nil => exact outside S e
  | cons sc rest =>
    obtain ⟨sc', heq, hget⟩ := StaticScopes.introduce_cons sc rest x
    rw [heq]
    rintro _ ⟨⟩ y hy
    rw [hget]
    split
    · rfl
    · rename_i hne
      exact (h sc rfl y hy).resolve_right (Ne.symm hne)

theorem not_contains_of_undefined (h : S.Exact e ss) (hx : ss.undefined x = true) :
    S.contains e x = false := by
  cases ss with
  | nil => cases hx
  | cons sc rest =>
    refine Bool.eq_false_iff.mpr fun hc => ?_
    have hdefined : sc.get? x = some true := h sc rfl x hc
    rw [StaticScopes.undefined, hdefined] at hx
    cases hx

end Store.Exact

namespace Machine

variable {m m' : Machine} {known : Surroundings → StaticScopes → Prop}

/-- The innermost scope binds nothing but what is defined in scopes of which something is known. -/
def Sits (m : Machine) (known : Surroundings → StaticScopes → Prop) : Prop :=
  m.env.index < m.store.scopes.size ∧ ∃ c ss, m.store.Exact m.env ss ∧ known c ss

namespace Sits

theorem imp {known' : Surroundings → StaticScopes → Prop} (h : m.Sits known)
    (hk : ∀ c ss, known c ss → known' c ss) : m.Sits known' := by
  obtain ⟨hlt, c, ss, hexact, hknown⟩ := h
  exact ⟨hlt, c, ss, hexact, hk c ss hknown⟩

theorem index_lt_of_adds {o : Option String} (hlt : m.env.index < m.store.scopes.size)
    (h : m.Adds o m') : m'.env.index < m'.store.scopes.size := by
  rw [h.env]
  exact Nat.lt_of_lt_of_le hlt h.size

theorem mono (h : m.Sits known) (hadds : m.Adds none m') : m'.Sits known := by
  obtain ⟨hlt, c, ss, hexact, hknown⟩ := h
  refine ⟨index_lt_of_adds hlt hadds, c, ss, fun sc hsc x hx => ?_, hknown⟩
  rw [hadds.env] at hx
  exact hexact sc hsc x ((hadds.names hlt x hx).resolve_right nofun)

/-- Behind what declares a name, the name is introduced. -/
theorem introduce {x : String} {known' : Surroundings → StaticScopes → Prop} (h : m.Sits known)
    (hadds : m.Adds (some x) m') (hk : ∀ c ss, known c ss → known' c (ss.introduce x)) :
    m'.Sits known' := by
  obtain ⟨hlt, c, ss, hexact, hknown⟩ := h
  refine ⟨index_lt_of_adds hlt hadds, c, ss.introduce x, .introduce fun sc hsc y hy => ?_, hk c ss hknown⟩
  rw [hadds.env] at hy
  exact (hadds.names hlt y hy).imp (hexact sc hsc y) Option.some.inj

variable {V : Visit → Prop}

theorem expr {s : Stmt} {e : Expr} (h : m.Sits fun c ss => s.Known V c ss) (he : e ∈ s.exprs) :
    m.Sits fun c ss => e.Known V c ss := by
  obtain ⟨hlt, c, ss, hexact, hs⟩ := h
  rcases hs.expr he with hk | ⟨x, -, hk⟩
  · exact ⟨hlt, c, ss, hexact, hk⟩
  · exact ⟨hlt, c, ss.declare x, hexact.declare x, hk⟩

/-- Behind a statement that is completed. -/
theorem tail {s : Stmt} {rest : List Stmt} (h : m.Sits fun c ss => Stmt.ListKnown V c ss (s :: rest))
    (hadds : m.Adds s.declares m') : m'.Sits fun c ss => Stmt.ListKnown V c ss rest := by
  have htail := h.imp fun c ss hk => hk.tail
  cases hd : s.declares with
  | none =>
    rw [hd] at hadds
    refine htail.imp (fun c ss hk => ?_) |>.mono hadds
    rwa [StaticScopes.after, hd] at hk
  | some x =>
    rw [hd] at hadds
    refine htail.introduce hadds fun c ss hk => ?_
    rwa [StaticScopes.after, hd] at hk

end Sits

/-- A scope that was just opened. -/
theorem exact_open (S : Store) {vars : Bindings Value} {parent : Option ScopeId} {sc : StaticScope}
    {ss : StaticScopes} (h : ∀ x, vars.contains x = true → sc.get? x = some true) :
    (S.open ⟨vars, parent⟩).2.Exact ⟨S.scopes.size⟩ (sc :: ss) := by
  rintro _ ⟨⟩ x hx
  refine h x ?_
  unfold Store.contains Store.own? at hx
  rwa [Store.scope_open, if_pos rfl] at hx

theorem sits_enterBlock {V : Visit → Prop} {body : List Stmt} {sp : Span}
    (h : m.Sits fun c ss => (Stmt.block body sp).Known V c ss) :
    (m.enter ⟨.empty, some m.env⟩).Sits fun c ss => Stmt.ListKnown V c ss body := by
  obtain ⟨-, c, ss, -, hk⟩ := h
  refine ⟨?_, c, Bindings.empty :: ss, exact_open m.store nofun, hk.block⟩
  simp [enter, Store.open]

/-- The scope of a call binds the parameters. -/
theorem sits_enterCall {V : Visit → Prop} {d : FunctionDecl} {c : Surroundings} {ss : StaticScopes}
    (hd : d.Known V c ss) (closure : ScopeId) (args : List Value) :
    (m.enterCall d closure args).Sits fun c ss => Stmt.ListKnown V c ss d.body := by
  obtain ⟨sc, heq, hget⟩ := StaticScopes.ofParams_cons Bindings.empty ss d.params
  refine ⟨?_, c, (Resolution.ofParams (Bindings.empty :: ss) d.params).1, ?_, hd.body⟩
  · simp [enterCall, enter, Store.open]
  · rw [heq]
    refine exact_open m.store fun x hx => ?_
    obtain ⟨v, hv⟩ := Option.isSome_iff_exists.mp hx
    have hparam : x ∈ d.params.map (·.name) :=
      (List.of_mem_zip (Bindings.mem_of_get?_ofList hv)).1
    rw [hget, if_pos hparam]

end Machine

/-! ### Along a run -/

namespace Activity

variable {c : Context} {V : Visit → Prop} {n : Nat} {a b : Activity} {m m' : Machine}

def Sits (V : Visit → Prop) : Activity → Machine → Prop
  | eval e, m => m.Sits fun c ss => e.Known V c ss
  | exec s, m => m.Sits fun c ss => s.Known V c ss
  | block body, m => m.Sits fun c ss => Stmt.ListKnown V c ss body
  | loop cond body, m => ∃ sp, m.Sits fun c ss => (Stmt.while_ cond body sp).Known V c ss
  | call _ _, _ => True

theorem sits_of_begins (h : a.Begins c (Evaluation.layer c n) m b m')
    (hready : (Regime.inLine c V).Ready a m) (ha : a.Sits V m) : b.Sits V m' := by
  cases h with
  | operand hsplit hvs =>
    exact (ha.imp fun _ _ hk => hk.child (by simp [hsplit])).mono (Evaluation.adds_arguments hvs)
  | call | apply | init => trivial
  | expr he => exact ha.expr he
  | branch hv hs => exact (ha.imp fun _ _ hk => hk.branch hs).mono (Evaluation.adds_eval hv)
  | @loop cond body sp => exact ⟨sp, ha⟩
  | block => exact Machine.sits_enterBlock ha
  | parent => exact ha.introduce (Machine.adds_bind _ _ _) fun _ _ hk => hk.parent
  | first => exact ha.imp fun _ _ hk => hk.head
  | rest hk =>
    have hsits := ha
    obtain ⟨-, _, _, -, hknown⟩ := hsits
    exact ha.tail (Evaluation.adds_exec hknown.head.conforms hk)
  | cond =>
    obtain ⟨sp, ha⟩ := ha
    exact ha.expr List.mem_cons_self
  | round hv =>
    obtain ⟨sp, ha⟩ := ha
    exact (ha.imp fun _ _ hk => hk.branch List.mem_cons_self).mono (Evaluation.adds_eval hv)
  | again hv hk =>
    obtain ⟨sp, ha⟩ := ha
    have hsits := ha
    obtain ⟨-, _, _, -, hknown⟩ := hsits
    have hconf := hknown.conforms
    cases hconf with
    | while_ _ _ hbody hd =>
      have hround := Evaluation.adds_exec hbody hk
      rw [hd] at hround
      exact ⟨sp, ha.mono ((Evaluation.adds_eval hv).trans hround)⟩
  | @body f args d closure isInit m hd hlen hdepth =>
    obtain ⟨-, hline⟩ := hready.fits.1 f rfl
    rw [hd] at hline
    obtain ⟨mode, ss, -, hknown⟩ := hline
    exact Machine.sits_enterCall hknown closure args

theorem sits_of_reaches (h : Reaches c n a m b m') (hready : (Regime.inLine c V).Ready a m)
    (ha : a.Sits V m) : b.Sits V m' := by
  induction h with
  | here => exact ha
  | inside hab _ ih =>
    have hbegins := begins_of_enters hab
    exact ih (Regime.ready_of_begins hbegins hready) (sits_of_begins hbegins hready ha)

end Activity

/-- A program runs outside every scope but the globals, where nothing has to be said about names. -/
theorem ProgramReaches.sits {c : Context} {V : Visit → Prop} {n : Nat} {stmts : List Stmt}
    {b : Activity} {m m' : Machine} (h : ProgramReaches c n stmts m b m') (hline : m.AllInLine V)
    (henv : m.env = .globals) (hstmts : ∀ t ∈ stmts, t.Known V .topLevel []) : b.Sits V m' := by
  induction h with
  | @first s rest m m' b h =>
    have hknown := hstmts s List.mem_cons_self
    have hready : (Regime.inLine c V).Ready (.exec s) m := ⟨hline, .topLevel, [], henv, hknown⟩
    refine Activity.sits_of_reaches h hready ⟨?_, .topLevel, [], .outside _ _, hknown⟩
    rw [henv]
    exact hline.globals
  | @later s rest m m₁ m' b k hrun _ ih =>
    have hknown := hstmts s List.mem_cons_self
    have hready : (Regime.inLine c V).Ready (.exec s) m := ⟨hline, .topLevel, [], henv, hknown⟩
    obtain ⟨hline₁, ⟨henv₁, -⟩, -⟩ :=
      (Regime.keeps_run (R := Regime.inLine c V) n (a := .exec s) hready).done hrun
    exact ih hline₁ (henv₁.trans henv) fun t ht => hstmts t (List.mem_cons_of_mem _ ht)

end HostScript
