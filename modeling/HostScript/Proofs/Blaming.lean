import HostScript.Proofs.Causes
import HostScript.Proofs.ControlFlow
import HostScript.Proofs.Parsing.Lines
import HostScript.Proofs.Scoping.Exactness

/-!
# Where errors point

Some errors take their line from a node, others from the machine, which keeps the line of the last call. That
line is set when the operands of a call are there, right before the call is made, and nothing but another call
sets it again. So it is that of the call in which the error is made, unless the call was made by a function of
the host, which calls from no line; a new session has no such function. An error is followed inward
(`Activity.raises_or_enters`) to the node that it is put down to. The nodes of a program start in lines of
its text.
-/

namespace HostScript

/-! ### Functions that call back -/

namespace Machine

variable {m m' : Machine}

theorem Binds.direct {f g : CallableId} {i : InstanceId} (h : m.Binds f i g m')
    (hm : m.heap.Direct) : m'.heap.Direct := by
  cases h with
  | script | host => exact hm.newCallable rfl

theorem Change.direct {declares : Prop} (h : Change declares m m') (hm : m.heap.Direct) :
    m'.heap.Direct := by
  cases h with
  | addFunction d => exact hm.newCallable rfl
  | bindMethod h => exact h.direct hm
  | remember _ _ _ h => exact h.direct hm
  | addClass _ => exact hm.withScripts _ _
  | _ => exact hm

theorem Leads.direct {own : Prop} (h : Leads own m m') (hm : m.heap.Direct) : m'.heap.Direct := by
  have hadmits : (Frame.fact fun m => m.heap.Direct).Admits own :=
    Frame.admits_fact (fun _ _ h => h) (fun h hc => hc.direct h) fun _ h _ => h
  exact hadmits.leads h hm

end Machine

/-! ### Declarations of classes -/

namespace Evaluation

variable {c : Context} {n : Nat} {m m' : Machine} {e : RuntimeError}

/-- Where a class comes to be assigned to its name, the innermost scope binds the name. -/
theorem assignIn_class {x : Ident} (parent : Option ClassId) (ms : List FunctionDecl)
    (table : Bindings CallableId) (v : Value) (line : Nat)
    (henv : m.env.index < m.store.scopes.size) :
    let m₁ := (m.bind m.env x.name .null).addClass x.name parent ms table
    ∃ m₂, Machine.assignIn (m₁.store.holder? m₁.env x.name) x.name v line m₁ = .done () m₂ := by
  intro m₁
  have hbound : (m.bind m.env x.name .null).store.own? m.env x.name = some .null := by
    unfold Store.own?
    rw [Machine.bind, Store.scope_define, if_pos ⟨rfl, henv⟩]
    exact Bindings.get?_insert_self _ _ _
  have hsize : (m.bind m.env x.name .null).store.scopes.size = m.store.scopes.size := by
    simp [Machine.bind, Store.define]
  have hown : m₁.store.own? m.env x.name = some .null := by
    cases parent with
    | none => exact hbound
    | some k =>
      refine Eq.trans ?_ hbound
      have hold : m.env.index ≠ (m.bind m.env x.name .null).store.scopes.size := by omega
      unfold Store.own?
      exact congrArg (·.vars.get? x.name) ((Store.scope_open _ _ _).trans (if_neg hold))
  have hholder : m₁.store.holder? m₁.env x.name = some m.env := by
    have hcontains : m₁.store.contains m.env x.name = true := by
      rw [Store.contains, hown]
      rfl
    rw [Store.holder?]
    exact if_pos hcontains
  rw [hholder]
  unfold Machine.assignIn Store.plan
  simp only [hown]
  exact ⟨_, rfl⟩

theorem still_parent {p : Superclass} {v : Value} (h : eval c n p.toExpr m = .done v m') :
    m' = m := by
  cases n with
  | zero => cases h
  | succ n =>
    have hlookUp : lookUp c p.mark.id p.name.name p.mark.span.line m = .done v m' := h
    unfold lookUp at hlookUp
    dsimp only at hlookUp
    split at hlookUp <;> cases hlookUp
    rfl

theorem still_parentOf {super : Option Superclass} {parent : Option ClassId}
    (h : parentOf (eval c n) super m = .done parent m') : m' = m := by
  cases super with
  | none =>
    cases h
    rfl
  | some p =>
    obtain ⟨v, m₁, hv, hkind⟩ := Run.bind_eq_done h
    obtain rfl := still_parent hv
    split at hkind <;> cases hkind
    rfl

theorem fail_parentOf {super : Option Superclass} (h : parentOf (eval c n) super m = .fail e m') :
    ∃ p, super = some p ∧ (Blame.line p.mark.span.line).Admits m.line e := by
  cases super with
  | none => cases h
  | some p =>
    refine ⟨p, rfl, ?_⟩
    rcases Run.bind_eq_fail h with heval | ⟨v, m₁, -, hkind⟩
    · cases n with
      | zero => cases heval
      | succ n =>
        have hquiet := quiet_lookUp c p.mark.id p.name.name p.mark.span.line
        exact hquiet.admits heval
    · split at hkind
      · cases hkind
      · cases hkind
        exact ⟨rfl, rfl⟩

/-- The declaration of a class fails for its superclass only, and against the line of that. -/
theorem fail_declareClass {x : Ident} {super : Option Superclass} {ms : List FunctionDecl}
    (henv : m.env.index < m.store.scopes.size)
    (h : declareClass (eval c n) x super ms m = .fail e m') :
    ∃ p, super = some p ∧ (Blame.line p.mark.span.line).Admits m.line e := by
  rcases Run.bind_eq_fail h with hdeclare | ⟨_, m₁, hdeclare, h⟩
  · cases hdeclare
  obtain rfl : m.bind m.env x.name .null = m₁ := (Outcome.done.inj hdeclare).2
  rcases Run.bind_eq_fail h with hparent | ⟨parent, m₂, hparent, h⟩
  · have hadmits := fail_parentOf hparent
    exact hadmits
  obtain rfl := still_parentOf hparent
  obtain ⟨table, -, hclass⟩ := Machine.newScriptClass_apply x.name parent ms (m.bind m.env x.name .null)
  obtain ⟨m₃, hassign⟩ := assignIn_class (x := x) parent ms table
    (.class_ (m.bind m.env x.name .null).nextClass) x.span.line henv
  rw [Run.bind_apply, hclass] at h
  cases hassign.symm.trans h

end Evaluation

/-! ### Following an error -/

namespace Activity

variable {c : Context} {n l : Nat} {a b : Activity} {m m' : Machine} {e : RuntimeError}
  {V : Visit → Prop}

/-- What an activity is about: the node that it evaluates, or the superclass of the class that it
declares. -/
inductive Concerns : Activity → Expr → Prop where
  | eval {e : Expr} : Concerns (.eval e) e
  | superclass {x : Ident} {p : Superclass} {ms : List FunctionDecl} {sp : Span} :
      Concerns (.exec (.class_ x (some p) ms sp)) p.toExpr

/-- The activity fails with the error, and nothing that it starts does. -/
def Originates (c : Context) (e : RuntimeError) (a : Activity) (m : Machine) : Prop :=
  ∃ n m', a.run c (n + 1) m = .fail e m' ∧
    ∀ b m₁ m₂, a.Enters c n m b m₁ → b.run c n m₁ ≠ .fail e m₂

/-- From one activity to another by starting calls and nothing else. A node starts the call that it makes,
and the call of a class that of its initializer; what is called starts a body. -/
inductive Calls (c : Context) : Activity → Machine → Activity → Machine → Prop where
  | self {a : Activity} {m : Machine} : Calls c a m a m
  | call {n : Nat} {a d : Activity} {m m₁ m' : Machine} {f : Value} {args : List Value}
      (h : a.Enters c n m (.call f args) m₁) (hd : Calls c (.call f args) m₁ d m') : Calls c a m d m'

/-- The error comes up in the activity, or in a call that it makes. -/
def Commits (c : Context) (e : RuntimeError) (a : Activity) (m : Machine) : Prop :=
  ∃ d m', Calls c a m d m' ∧ d.Originates c e m'

/-- The error is put down to a node that the activity is about. It has the line of the node, and the node is
a call if such errors are made in calls only. -/
structure Bears (c : Context) (e : RuntimeError) (a : Activity) (m : Machine) (node : Expr) : Prop where
  concerns : a.Concerns node
  line : e.line? = some node.span.line
  call : e.needsCall = true → ∃ k f as, node = .call k f as
  commits : a.Commits c e m

theorem bears_of_admits {node : Expr} (ha : a.Concerns node) (here : Nat)
    (h : (Blame.line node.span.line).Admits here e) (ho : a.Originates c e m) : a.Bears c e m node :=
  ⟨ha, h.1, fun hcall => absurd (h.2.symm.trans hcall) Bool.noConfusion, a, m, .self, ho⟩

theorem Makes.line? (h : a.Makes e m) (he : e.line? = some l) : l = m.line := by
  cases h with
  | @method f args g receiver _ m' _ hrun =>
    obtain hquiet | ⟨hfail, -⟩ | ⟨hfail, -⟩ := g.run_cases receiver args m
    · rw [hrun] at hquiet
      exact hquiet.1 l he
    · cases hrun.symm.trans hfail
      exact (Option.some.inj he).symm
    · cases hrun.symm.trans hfail
      exact (Option.some.inj he).symm

/-- An error that comes up in an activity has the line of a node, or of the call that is under way. -/
theorem Originates.bears (h : a.Originates c e m) (ha : a.Sits V m) (he : e.line? = some l)
    (hbound : ∀ l, e ≠ .type l .loneInitializer) :
    (∃ node, a.Bears c e m node) ∨ (∃ f args, a = .call f args) ∧ l = m.line := by
  have horiginates := h
  obtain ⟨n, m', hrun, hown⟩ := h
  have hraises : a.Raises e m := by
    refine (raises_or_enters hrun).resolve_right ?_
    rintro ⟨b, m₁, m₂, henters, hb⟩
    exact hown b m₁ m₂ henters hb
  cases hraises with
  | silent h => cases h.symm.trans he
  | unbound h => exact absurd h (hbound _)
  | depth ha h =>
    subst h
    exact .inr ⟨⟨_, _, ha⟩, (Option.some.inj he).symm⟩
  | method h =>
    have hl := h.line? he
    cases h with
    | method _ _ => exact .inr ⟨⟨_, _, rfl⟩, hl⟩
  | own h =>
    cases a with
    | eval node => exact .inl ⟨node, bears_of_admits .eval m.line h horiginates⟩
    | block | loop => exact h.elim
    | call f args => exact .inr ⟨⟨f, args, rfl⟩, h.1 l he⟩
    | exec s =>
      obtain ⟨l', hl', -⟩ := h
      cases s with
      | class_ x super ms sp =>
        obtain hclass | ⟨_, _, _, hend⟩ := Run.bind_eq_fail hrun
        · obtain ⟨p, rfl, hp⟩ := Evaluation.fail_declareClass ha.1 hclass
          exact .inl ⟨p.toExpr, bears_of_admits .superclass m.line hp horiginates⟩
        · cases hend
      | _ => cases hl'

/-- A call is made by a node, which sets the line, or by a class, which leaves it as it is. -/
theorem Begins.line {f : Value} {args : List Value} {r : Inner} (h : a.Begins c r m (.call f args) m')
    (hm : m.heap.Direct) :
    (∃ k g as, a = .eval (.call k g as) ∧ m'.line = k.span.line) ∨
      (∃ g args, a = .call g args) ∧ m'.line = m.line := by
  cases h with
  | @call k g as _ m₁ v vs _ => exact .inl ⟨k, g, as, rfl, rfl⟩
  | @apply f' args' x n g v _ hf hg hv =>
    have hdirect := hm f'
    rw [hf] at hdirect
    cases hdirect
  | @init k args' f' g _ m' hf hbind =>
    refine .inr ⟨⟨_, _, rfl⟩, ?_⟩
    have hline := (Machine.quiet_bindMethod f' m.nextInstance m.line).line_eq hbind
    exact hline

/-- An error with a line can be put down to an activity on the way, unless it comes up in the call that the
run begins with. -/
theorem exists_bears (h : a.run c n m = .fail e m')
    (hreach : ∀ b m₁, Reaches c n a m b m₁ → b.Sits V m₁ ∧ m₁.heap.Direct)
    (he : e.line? = some l) (hbound : ∀ l, e ≠ .type l .loneInitializer) :
    (∃ b m₁ node, Reaches c n a m b m₁ ∧ b.Bears c e m₁ node) ∨
      (∃ f args, a = .call f args) ∧ l = m.line ∧ a.Commits c e m := by
  induction n generalizing a m m' with
  | zero =>
    rw [run_zero] at h
    cases h
  | succ n ih =>
    obtain ⟨hsits, hdirect⟩ := hreach a m .here
    by_cases hinner : ∃ b m₁ m₂, a.Enters c n m b m₁ ∧ b.run c n m₁ = .fail e m₂
    · obtain ⟨b, m₁, m₂, henters, hb⟩ := hinner
      rcases ih hb fun d m₃ hd => hreach d m₃ (.inside henters hd) with
        ⟨d, m₃, node, hd, hbears⟩ | ⟨⟨f, args, rfl⟩, hl, d, m₃, hcalls, ho⟩
      · exact .inl ⟨d, m₃, node, .inside henters hd, hbears⟩
      · have hcommits : a.Commits c e m := ⟨d, m₃, .call henters hcalls, ho⟩
        -- The call was begun here, so its line is that of this node or that of this call.
        rcases (begins_of_enters henters).line hdirect with ⟨k, g, as, rfl, hk⟩ | ⟨hcall, hsame⟩
        · refine .inl ⟨_, m, _, .here, .eval, ?_, fun _ => ⟨k, g, as, rfl⟩, hcommits⟩
          rw [he, hl, hk]
          rfl
        · exact .inr ⟨hcall, hl.trans hsame, hcommits⟩
    · have ho : a.Originates c e m :=
        ⟨n, m', h, fun b m₁ m₂ henters hb => hinner ⟨b, m₁, m₂, henters, hb⟩⟩
      rcases ho.bears hsits he hbound with ⟨node, hbears⟩ | ⟨hcall, hl⟩
      · exact .inl ⟨a, m, node, .here, hbears⟩
      · exact .inr ⟨hcall, hl, a, m, .self, ho⟩

end Activity

theorem ProgramReaches.exists_bears {c : Context} {n l : Nat} {stmts : List Stmt} {m m' : Machine}
    {e : RuntimeError} {V : Visit → Prop} (h : Evaluation.program c n stmts m = .fail e m')
    (hreach : ∀ b m₁, ProgramReaches c n stmts m b m₁ → b.Sits V m₁ ∧ m₁.heap.Direct)
    (he : e.line? = some l) (hbound : ∀ l, e ≠ .type l .loneInitializer) :
    ∃ b m₁ node, ProgramReaches c n stmts m b m₁ ∧ b.Bears c e m₁ node := by
  induction stmts generalizing m with
  | nil => cases h
  | cons s rest ih =>
    rcases Run.bind_eq_fail (x := (Activity.exec s).run c n) h with hs | ⟨k, m₁, hs, h⟩
    · rcases Activity.exists_bears hs (fun b m₁ hb => hreach b m₁ (.first hb)) he hbound with
        ⟨b, m₁, node, hb, hbears⟩ | ⟨⟨f, args, hcall⟩, -⟩
      · exact ⟨b, m₁, node, .first hb, hbears⟩
      · cases hcall
    · obtain ⟨b, m₂, node, hb, hbears⟩ := ih h fun b m₂ hb => hreach b m₂ (.later hs hb)
      exact ⟨b, m₂, node, .later hs hb, hbears⟩

/-! ### Nodes of a program -/

/-- An activity that is known to have been visited is about a node that was visited. -/
theorem Activity.Concerns.visited {a : Activity} {node : Expr} {m : Machine} {V : Visit → Prop}
    (h : a.Concerns node) (ha : a.Sits V m) : ∃ v, V v ∧ v.expr = node := by
  cases h with
  | eval =>
    obtain ⟨-, mode, ss, -, hknown⟩ := ha
    exact ⟨⟨node, ss, mode.class_⟩,
      hknown.visited _ (Visit.mem_ofNodes.mpr ⟨node.mem_nodes_self, rfl, rfl⟩), rfl⟩
  | @superclass x p ms sp =>
    obtain ⟨-, mode, ss, -, hknown⟩ := ha
    refine ⟨⟨p.toExpr, ss.introduce x.name, mode.class_⟩, hknown.visited _ ?_, rfl⟩
    rw [Stmt.visits]
    refine List.mem_append_left _ (Visit.mem_ofNodes.mpr ⟨?_, rfl, rfl⟩)
    exact List.mem_singleton_self _

theorem Program.mem_listNodes_of_visit {p : Program} {v : Visit} (h : v ∈ p.visits) :
    v.expr ∈ Stmt.listNodes p.stmts := by
  rw [← Stmt.map_expr_listVisits .topLevel [] p.stmts]
  exact List.mem_map_of_mem h

/-! ### Errors of a script -/

namespace Session

/-- The error that ended a run of the script points to a node of the script: it has the line of the node,
which is one of the lines of the text. The error came up while the node was evaluated, or a class below it
declared: right there, or in the call that the node makes, and nowhere further in. For an error that is made
in calls only, the node is a call. -/
structure PointsTo (s : Session) (fuel : Nat) (src : Source) (e : RuntimeError) (node : Expr) :
    Prop where
  mem : node ∈ Stmt.listNodes (Compiled.ofSource src s.nextId).program.stmts
  line : e.line? = some node.span.line
  one_le : 1 ≤ node.span.line
  le_lineCount : node.span.line ≤ src.lineCount
  call : e.needsCall = true → ∃ k f as, node = .call k f as
  origin : ∃ b m, s.Starts fuel src b m ∧ b.Concerns node ∧
    b.Commits (s.learn (Compiled.ofSource src s.nextId).locals).context e m

variable {s s' : Session} {fuel : Nat} {src : Source} {e : RuntimeError}

/-- That an initializer has no instance is never the error. -/
theorem Initialized.ne_loneInitializer {held : List Value} {m : Machine} (hs : s.Initialized held)
    (hok : (Compiled.ofSource src s.nextId).diagnostics.hasErrors = false)
    (hfail : Evaluation.program (s.learn (Compiled.ofSource src s.nextId).locals).context fuel
      (Compiled.ofSource src s.nextId).program.stmts s.machine = .fail e m) (l : Nat) :
    e ≠ .type l .loneInitializer := by
  rintro rfl
  have hagree := Cut.unbound_agree_program (n := fuel)
    (c := (s.learn (Compiled.ofSource src s.nextId).locals).context) hs.machine (known_of_compiled hok)
  refine hagree.cut ?_
  rw [hfail]
  exact ⟨l, rfl⟩

/-- Where no script was run before and nothing calls back. -/
theorem History.pointsTo (hs : s.History [] []) (hdirect : s.machine.heap.Direct)
    (h : s.run fuel src = some (.error (.runtime e), s')) {l : Nat} (he : e.line? = some l) :
    ∃ node, s.PointsTo fuel src e node := by
  have htracks := hs.tracks
  obtain ⟨hok, m, hfail⟩ := run_eq_runtime h
  obtain ⟨haccepted, -⟩ := Compiled.accepted hok
  obtain ⟨hline, -, -⟩ := htracks.start haccepted
  have hreach : ∀ b m₁, s.Starts fuel src b m₁ →
      b.Sits (Visited [(Compiled.ofSource src s.nextId).program]) m₁ ∧ m₁.heap.Direct := by
    rintro b m₁ ⟨-, hb⟩
    have hleads : Machine.Leads False s.machine m₁ := hb.leads.1
    refine ⟨hb.sits hline htracks.env ?_, hleads.direct hdirect⟩
    exact haccepted.known fun v hv => visited_cons.mpr (.inl hv)
  obtain ⟨b, m₁, node, hb, hbears⟩ := ProgramReaches.exists_bears hfail
    (fun b m₁ hb => hreach b m₁ ⟨hok, hb⟩) he (hs.initialized.ne_loneInitializer hok hfail)
  obtain ⟨v, hv, rfl⟩ := hbears.concerns.visited (hreach b m₁ ⟨hok, hb⟩).1
  have hmem := Program.mem_listNodes_of_visit ((visited_cons.mp hv).resolve_right nofun)
  obtain ⟨hfirst, hlast⟩ := Parsed.nodes_startsIn src.text _ v.expr hmem
  rw [← Source.lineCount_eq_length_segments] at hlast
  exact ⟨v.expr, hmem, hbears.line, hfirst, hlast, hbears.call,
    ⟨b, m₁, ⟨hok, hb⟩, hbears.concerns, hbears.commits⟩⟩

/-- On a new session, every runtime error that ends a script points to a node of the script, unless it is an
error of the console, which has no line. -/
theorem runtime_errors_point_to_nodes (maxDepth : Nat) (console : Console)
    (h : (new maxDepth console).run fuel src = some (.error (.runtime e), s')) :
    (∃ f, e = .io f) ∨ ∃ node, (new maxDepth console).PointsTo fuel src e node := by
  have hdirect := (Machine.HostOnly.session maxDepth console).direct
  have hpoints := fun l => (History.new maxDepth console).pointsTo hdirect h (l := l)
  cases e with
  | io f => exact .inl ⟨f, rfl⟩
  | type l _ | arity l _ _ | undefinedName l _ | stackOverflow l _ => exact .inr (hpoints l rfl)

/-- In the fourth line a function is called with too few arguments, after calls in other lines. -/
def shortCallScript : Source :=
  ⟨"short", "func add(a, b) \x7b return a + b; \x7d\nfunc apply(f) \x7b\n" ++
    "  var x = add(1,\n    2); return f(x);\n\x7d\napply(add);\n"⟩

theorem runtime_errors_point_to_nodes_shortCallScript :
    let s := new 8 (.ofInput [])
    ∃ s' node, s.run 20 shortCallScript = some (.error (.runtime (.arity 4 2 1)), s') ∧
      s.PointsTo 20 shortCallScript (.arity 4 2 1) node := by
  have hruns : ((new 8 (.ofInput [])).run 20 shortCallScript).any
      (fun r => RunError.isRuntime (.arity 4 2 1) r.1) = true := by
    decide +kernel
  obtain ⟨⟨r, s'⟩, hrun, hr⟩ := (Option.any_eq_true _ _).mp hruns
  obtain rfl := RunError.eq_of_isRuntime hr
  rcases runtime_errors_point_to_nodes 8 (.ofInput []) hrun with ⟨f, hf⟩ | ⟨node, hnode⟩
  · cases hf
  · exact ⟨s', node, hrun, hnode⟩

end Session

end HostScript
