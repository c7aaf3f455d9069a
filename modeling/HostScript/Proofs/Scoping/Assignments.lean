import HostScript.Proofs.Parsing.Nesting
import HostScript.Proofs.Scoping.Exactness
import HostScript.Proofs.Scoping.Histories

/-!
# Assignments to local variables

Resolution records a distance for an assignment as soon as the name is declared, and evaluation binds the name
when the declaration is done. In between is the initializer of the variable. Resolution lets no variable be
read there that is being initialized, but it lets it be assigned to. Such an assignment finds the scope, and
in it no such name. All other assignments by distance find the name bound.
-/

namespace HostScript

/-! ### Initializers -/

namespace Stmt

/-- The node stands in the initializer of a variable `x`, somewhere in the statement. -/
def Initializes (s : Stmt) (x : String) (e : Expr) : Prop :=
  ∃ path y init sp, s.Encloses path (.var y (some init) sp) ∧ y.name = x ∧ e ∈ init.nodes

theorem Initializes.inside {s t : Stmt} {x : String} {e : Expr} (h : t.Initializes x e)
    (ht : t ∈ s.inner) : s.Initializes x e := by
  obtain ⟨path, y, init, sp, hpath, hy, he⟩ := h
  exact ⟨_, y, init, sp, .inside ht hpath, hy, he⟩

theorem Initializes.body {s t : Stmt} {d : FunctionDecl} {x : String} {e : Expr}
    (h : t.Initializes x e) (ht : t ∈ d.body) (hd : d ∈ s.functions) : s.Initializes x e := by
  obtain ⟨path, y, init, sp, hpath, hy, he⟩ := h
  exact ⟨_, y, init, sp, .body hd ht hpath, hy, he⟩

end Stmt

namespace StaticScopes

variable {ss : StaticScopes} {x y : String}

theorem Settled.not_undefined (h : ss.Settled) (x : String) : ss.undefined x = false := by
  cases ss with
  | nil => rfl
  | cons sc rest =>
    refine Bool.eq_false_iff.mpr fun hx => ?_
    have hfalse : sc.get? x = some false := eq_of_beq hx
    cases h sc List.mem_cons_self x false hfalse

/-- Only the name that was declared last is not defined. -/
theorem Settled.eq_of_undefined_declare (h : ss.Settled) (hx : (ss.declare y).undefined x = true) :
    y = x := by
  refine Classical.byContradiction fun hne => ?_
  have hsame : (ss.declare y).undefined x = ss.undefined x := by
    cases ss with
    | nil => rfl
    | cons sc rest =>
      rw [declare_cons]
      change (Bindings.get? _ x == some false) = (sc.get? x == some false)
      split
      · rfl
      · rw [Bindings.get?_insert_of_ne _ _ (Ne.symm hne)]
  rw [hsame, h.not_undefined x] at hx
  cases hx

theorem settled_ofStmt (c : Surroundings) :
    ∀ (s : Stmt) {ss : StaticScopes}, ss.Settled → (Resolution.ofStmt c ss s).1.Settled
  | .var x _ _, _, h | .class_ x _ _ _, _, h => by
    rw [Resolution.ofStmt]
    exact h.introduce x.name
  | .function d, _, h => by
    rw [Resolution.ofStmt]
    exact h.introduce d.name.name
  | .ifElse _ t none _, _, h => by
    rw [Resolution.ofStmt]
    exact settled_ofStmt c t h
  | .ifElse _ t (some e) _, _, h => by
    rw [Resolution.ofStmt]
    exact settled_ofStmt c e (settled_ofStmt c t h)
  | .while_ _ body _, _, h => by
    rw [Resolution.ofStmt]
    exact settled_ofStmt c body h
  | .block _ _, _, h | .print _ _, _, h | .return_ _ _, _, h | .expr _ _, _, h => by
    rw [Resolution.ofStmt]
    exact h

end StaticScopes

open StaticScopes

/-- Outside initializers all names are defined. -/
theorem Visit.not_undefined_of_mem_ofNodes {ss : StaticScopes} (hss : ss.Settled) {c : ClassMode}
    {nodes : List Expr} {v : Visit} (hv : v ∈ Visit.ofNodes ss c nodes) (x : String) :
    v.scopes.undefined x = false := by
  obtain ⟨-, heq, -⟩ := Visit.mem_ofNodes.mp hv
  rw [heq]
  exact hss.not_undefined x

section

variable {x : String}

mutual

/-- A node that is visited where `x` is declared but not defined stands in the initializer of `x`. -/
theorem Stmt.initializes_of_undefined (c : Surroundings) {ss : StaticScopes} (hss : ss.Settled) :
    ∀ s : Stmt, ∀ v ∈ s.visits c ss, v.scopes.undefined x = true → s.Initializes x v.expr
  | .var y init sp, v, hv, hx => by
    rw [Stmt.visits] at hv
    obtain ⟨he, heq, -⟩ := Visit.mem_ofNodes.mp hv
    cases init with
    | none => cases he
    | some e =>
      rw [heq] at hx
      exact ⟨[], y, e, sp, .self, hss.eq_of_undefined_declare hx, he⟩
  | .block body sp, v, hv, hx => by
    rw [Stmt.visits] at hv
    obtain ⟨t, ht, hinit⟩ := Stmt.initializes_of_undefined_list c hss.push body v hv hx
    exact hinit.inside ht
  | .ifElse cond t none sp, v, hv, hx => by
    rw [Stmt.visits] at hv
    rcases List.mem_append.mp hv with hv | hv
    · exact absurd hx (Bool.eq_false_iff.mp (Visit.not_undefined_of_mem_ofNodes hss hv x))
    · exact (Stmt.initializes_of_undefined c hss t v hv hx).inside (by simp [Stmt.inner])
  | .ifElse cond t (some e) sp, v, hv, hx => by
    rw [Stmt.visits] at hv
    rcases List.mem_append.mp hv with hv | hv
    · rcases List.mem_append.mp hv with hv | hv
      · exact absurd hx (Bool.eq_false_iff.mp (Visit.not_undefined_of_mem_ofNodes hss hv x))
      · exact (Stmt.initializes_of_undefined c hss t v hv hx).inside (by simp [Stmt.inner])
    · have hthen := settled_ofStmt c t hss
      exact (Stmt.initializes_of_undefined c hthen e v hv hx).inside (by simp [Stmt.inner])
  | .while_ cond body sp, v, hv, hx => by
    rw [Stmt.visits] at hv
    rcases List.mem_append.mp hv with hv | hv
    · exact absurd hx (Bool.eq_false_iff.mp (Visit.not_undefined_of_mem_ofNodes hss hv x))
    · exact (Stmt.initializes_of_undefined c hss body v hv hx).inside (by simp [Stmt.inner])
  | .function d, v, hv, hx => by
    rw [Stmt.visits] at hv
    obtain ⟨t, ht, hinit⟩ :=
      FunctionDecl.initializes_of_undefined _ (hss.introduce d.name.name) d v hv hx
    exact hinit.body ht (by simp [Stmt.functions])
  | .class_ y super ms sp, v, hv, hx => by
    have hinner := hss.introduce y.name
    rw [Stmt.visits] at hv
    rcases List.mem_append.mp hv with hv | hv
    · exact absurd hx (Bool.eq_false_iff.mp (Visit.not_undefined_of_mem_ofNodes hinner hv x))
    · obtain ⟨d, hd, t, ht, hinit⟩ :=
        FunctionDecl.initializes_of_undefined_list _ (hinner.methods super) ms v hv hx
      exact hinit.body ht hd
  | .print _ _, v, hv, hx | .return_ _ _, v, hv, hx | .expr _ _, v, hv, hx => by
    rw [Stmt.visits] at hv
    exact absurd hx (Bool.eq_false_iff.mp (Visit.not_undefined_of_mem_ofNodes hss hv x))

theorem Stmt.initializes_of_undefined_list (c : Surroundings) {ss : StaticScopes}
    (hss : ss.Settled) : ∀ body : List Stmt, ∀ v ∈ Stmt.listVisits c ss body,
      v.scopes.undefined x = true → ∃ t ∈ body, t.Initializes x v.expr
  | [], v, hv, _ => by cases hv
  | s :: rest, v, hv, hx => by
    rw [Stmt.listVisits] at hv
    rcases List.mem_append.mp hv with hv | hv
    · exact ⟨s, List.mem_cons_self, Stmt.initializes_of_undefined c hss s v hv hx⟩
    · obtain ⟨t, ht, hinit⟩ := Stmt.initializes_of_undefined_list c (settled_ofStmt c s hss) rest v hv hx
      exact ⟨t, List.mem_cons_of_mem _ ht, hinit⟩

theorem FunctionDecl.initializes_of_undefined (c : Surroundings) {ss : StaticScopes}
    (hss : ss.Settled) : ∀ d : FunctionDecl, ∀ v ∈ d.visits c ss,
      v.scopes.undefined x = true → ∃ t ∈ d.body, t.Initializes x v.expr
  | ⟨_, params, body, _⟩, v, hv, hx => by
    rw [FunctionDecl.visits] at hv
    exact Stmt.initializes_of_undefined_list c (hss.push.params params) body v hv hx

theorem FunctionDecl.initializes_of_undefined_list (c : ClassMode) {ss : StaticScopes}
    (hss : ss.Settled) : ∀ ds : List FunctionDecl, ∀ v ∈ FunctionDecl.listVisits c ss ds,
      v.scopes.undefined x = true → ∃ d ∈ ds, ∃ t ∈ d.body, t.Initializes x v.expr
  | [], v, hv, _ => by cases hv
  | d :: ds, v, hv, hx => by
    rw [FunctionDecl.listVisits] at hv
    rcases List.mem_append.mp hv with hv | hv
    · exact ⟨d, List.mem_cons_self, FunctionDecl.initializes_of_undefined _ hss d v hv hx⟩
    · obtain ⟨d', hd', hinit⟩ := FunctionDecl.initializes_of_undefined_list c hss ds v hv hx
      exact ⟨d', List.mem_cons_of_mem _ hd', hinit⟩

end

end

/-! ### Assignments -/

namespace Machine

variable {e : ScopeId} {x : String} {v : Value} {m : Machine}

theorem assignIn_of_not_contains (line : Nat) (h : m.store.contains e x = false) :
    assignIn (some e) x v line m = .fail (.undefinedName line x) m := by
  have hnone : m.store.own? e x = none := Option.not_isSome_iff_eq_none.mp (Bool.eq_false_iff.mp h)
  unfold assignIn Store.plan
  simp only [hnone]

/-- An assignment to a name that is bound does not fail for lack of it. -/
theorem assignIn_of_contains {line : Nat} (h : m.store.contains e x = true) (l : Nat) (y : String)
    (m' : Machine) : assignIn (some e) x v line m ≠ .fail (.undefinedName l y) m' := by
  obtain ⟨slot, hslot⟩ := Option.isSome_iff_exists.mp h
  unfold assignIn Store.plan
  simp only [hslot]
  cases m.store.cells.plan slot v <;> nofun

end Machine

/-- Once its value is there, an assignment by distance fails for lack of the name if and only if the scope
that the distance leads to does not bind it. -/
theorem Evaluation.eval_assign_iff {c : Context} {n d : Nat} {k : Mark} {x : Ident} {value : Expr}
    {m m₁ : Machine} {w : Value} {e : ScopeId} (hd : c.locals k.id = some d)
    (hw : eval c n value m = .done w m₁) (he : m₁.store.ancestor? m₁.env d = some e) :
    (∃ l y m', eval c (n + 1) (.assign k x value) m = .fail (.undefinedName l y) m') ↔
      m₁.store.contains e x.name = false := by
  have htarget : target? c k.id x.name m₁ = some e := by
    unfold target?
    rw [hd]
    exact he
  have heval : eval c (n + 1) (.assign k x value) m =
      (Machine.assignIn (target? c k.id x.name m₁) x.name w k.span.line >>= fun _ => pure w) m₁ := by
    have hvalue : (layer c n).eval value m = .done w m₁ := hw
    change evalWith c (layer c n) (.assign k x value) m = _
    rw [evalWith, Run.bind_apply, hvalue]
    rfl
  rw [heval, htarget]
  constructor
  · rintro ⟨l, y, m', hfail⟩
    refine Bool.eq_false_iff.mpr fun hbound => ?_
    obtain hfail | ⟨_, _, _, hend⟩ := Run.bind_eq_fail hfail
    · exact Machine.assignIn_of_contains hbound l y m' hfail
    · cases hend
  · intro hfree
    rw [Run.bind_apply, Machine.assignIn_of_not_contains k.span.line hfree]
    exact ⟨_, _, _, rfl⟩

namespace Session

/-- An assignment at distance `d`, which resolution has visited in one of the programs. When its value is
there, the distance leads to a scope within the globals. This binds the name, unless resolution had it
declared but not defined at the visit, which is in the initializer of a variable of that name. There and
nowhere else the assignment fails for lack of the name. -/
structure AssignsLocal (c : Context) (ps : List Program) (k : Mark) (x : Ident) (value : Expr)
    (d : Nat) (m : Machine) : Prop where
  visited : ∃ v, Visited ps v ∧ v.expr = .assign k x value
  bound : ∀ v, Visited ps v → v.expr = .assign k x value →
    ∀ n w m₁, Evaluation.eval c n value m = .done w m₁ →
      ∃ e, m₁.store.ancestor? m₁.env d = some e ∧ e ≠ .globals ∧
        m₁.store.contains e x.name = !v.scopes.undefined x.name
  fails : ∀ v, Visited ps v → v.expr = .assign k x value →
    ∀ n w m₁, Evaluation.eval c n value m = .done w m₁ →
      ((∃ l y m', Evaluation.eval c (n + 1) (.assign k x value) m = .fail (.undefinedName l y) m') ↔
        v.scopes.undefined x.name = true)
  initializer : ∀ v, Visited ps v → v.expr = .assign k x value →
    v.scopes.undefined x.name = true →
      ∃ p ∈ ps, ∃ t ∈ p.stmts, t.Initializes x.name (.assign k x value)

theorem initializes_of_visited {ps : List Program} {v : Visit} (hv : Visited ps v) {x : String}
    (hx : v.scopes.undefined x = true) : ∃ p ∈ ps, ∃ t ∈ p.stmts, t.Initializes x v.expr := by
  obtain ⟨p, hp, hv⟩ := hv
  have hnil : StaticScopes.Settled [] := nofun
  exact ⟨p, hp, Stmt.initializes_of_undefined_list .topLevel hnil p.stmts v hv hx⟩

/-- A scope that is exactly in line binds a name if and only if the name is defined. -/
theorem contains_eq_not_undefined {S : Store} {e p : ScopeId} {v : Visit} (hv : v.Placed) {d : Nat}
    {x : String} (hd : v.scopes.distance? x = some d) (hline : S.Aligned e v.scopes)
    (hexact : S.Exact e v.scopes) (hp : S.ancestor? e d = some p) :
    S.contains p x = !v.scopes.undefined x := by
  cases hx : v.scopes.undefined x with
  | false =>
    obtain ⟨sc, hsc, hdefined⟩ := Visit.defined_of_not_undefined hv hx hd
    obtain ⟨p', hp', -, hm⟩ := hline.mirrors hsc
    obtain rfl : p = p' := Option.some.inj (hp.symm.trans hp')
    exact hm.defined x hdefined
  | true =>
    -- The name is declared in the innermost scope, so that is where the distance leads.
    have hzero : d = 0 := by
      cases hss : v.scopes with
      | nil => rw [hss] at hx; cases hx
      | cons sc rest =>
        rw [hss] at hx hd
        have hfalse : sc.get? x = some false := eq_of_beq hx
        rw [StaticScopes.distance?_cons, Bindings.contains, hfalse] at hd
        exact (Option.some.inj hd).symm
    subst hzero
    obtain rfl : e = p := Option.some.inj hp
    exact hexact.not_contains_of_undefined hx

theorem Knows.assignsLocal {s : Session} {ps : List Program} (h : s.Knows ps) {k : Mark} {x : Ident}
    {value : Expr} {d : Nat} {m : Machine}
    (hready : (Regime.inLine s.context (Visited ps)).Ready (.eval (.assign k x value)) m)
    (hsits : Activity.Sits (Visited ps) (.eval (.assign k x value)) m)
    (hd : s.context.locals k.id = some d) : AssignsLocal s.context ps k x value d m := by
  obtain ⟨hinv, mode, ss, hss, hknown⟩ := hready
  obtain ⟨hlt, mode', ss', hexact, hknown'⟩ := hsits
  let e : Expr := .assign k x value
  have hvisit : Visited ps ⟨e, ss, mode.class_⟩ :=
    hknown.visited _ (Visit.mem_ofNodes.mpr ⟨e.mem_nodes_self, rfl, rfl⟩)
  have hvisit' : Visited ps ⟨e, ss', mode'.class_⟩ :=
    hknown'.visited _ (Visit.mem_ofNodes.mpr ⟨e.mem_nodes_self, rfl, rfl⟩)
  have honly : ∀ v, Visited ps v → v.expr = e → v = ⟨e, ss, mode.class_⟩ := fun v hv hve =>
    h.unique v _ hv hvisit (congrArg Expr.id hve)
  -- The node has one visit, so what is known of the scopes from above and from below goes together.
  obtain rfl : ss' = ss := congrArg Visit.scopes (honly _ hvisit' rfl)
  have hdist : ss'.distance? x.name = some d := (h.locals _ hvisit).symm.trans hd
  have hbound : ∀ n w m₁, Evaluation.eval s.context n value m = .done w m₁ →
      ∃ p, m₁.store.ancestor? m₁.env d = some p ∧ p ≠ .globals ∧
        m₁.store.contains p x.name = !ss'.undefined x.name := by
    intro n w m₁ hw
    have hvalue : m.At fun c ss => value.Known (Visited ps) c ss :=
      ⟨mode, ss', hss, hknown.child List.mem_cons_self⟩
    obtain ⟨-, ⟨henv, hgrows⟩, -⟩ := (Regime.keeps_run (R := Regime.inLine s.context (Visited ps)) n
      (a := .eval value) ⟨hinv, hvalue⟩).done hw
    have hline : m₁.store.Aligned m₁.env ss' := by
      rw [henv]
      exact hss.mono hgrows.store
    have hexact₁ : m₁.store.Exact m₁.env ss' := by
      have hadds : m.Adds none m₁ := Evaluation.adds_eval hw
      intro sc hsc y hy
      rw [hadds.env] at hy
      exact hexact sc hsc y ((hadds.names hlt y hy).resolve_right nofun)
    obtain ⟨sc, hsc, -⟩ := StaticScopes.contains_of_distance? hdist
    obtain ⟨p, hp, hne, -⟩ := hline.mirrors hsc
    exact ⟨p, hp, hne, contains_eq_not_undefined (h.placed _ hvisit) hdist hline hexact₁ hp⟩
  refine ⟨⟨_, hvisit, rfl⟩, fun v hv hve n w m₁ hw => ?_, fun v hv hve n w m₁ hw => ?_,
    fun v hv hve hx => ?_⟩
  · rw [honly v hv hve]
    exact hbound n w m₁ hw
  · rw [honly v hv hve]
    obtain ⟨p, hp, -, hcontains⟩ := hbound n w m₁ hw
    rw [Evaluation.eval_assign_iff hd hw hp, hcontains]
    simp
  · obtain ⟨p, hp, t, ht, hinit⟩ := initializes_of_visited hv hx
    exact ⟨p, hp, t, ht, hve ▸ hinit⟩

/-- Whatever a session has gone through, wherever an assignment with a recorded distance is evaluated while a
script runs or the host calls a value, its target is bound when its value is there, unless it stands in the
initializer of its own target. -/
theorem assignments_to_locals {s : Session} {ps : List Program} {held : List Value}
    (hs : s.History ps held) :
    (∀ fuel src k x value d m, s.Starts fuel src (.eval (.assign k x value)) m →
      let compiled := Compiled.ofSource src s.nextId
      (s.learn compiled.locals).context.locals k.id = some d →
      AssignsLocal (s.learn compiled.locals).context (compiled.program :: ps) k x value d m) ∧
    (∀ fuel f args k x value d m, f ∈ held → (∀ v ∈ args, v ∈ held) →
      s.CallStarts fuel f args (.eval (.assign k x value)) m →
      s.context.locals k.id = some d → AssignsLocal s.context ps k x value d m) := by
  have htracks := hs.tracks
  refine ⟨fun fuel src k x value d m h hd => ?_, fun fuel f args k x value d m hf hargs h hd => ?_⟩
  · obtain ⟨hok, hreaches⟩ := h
    obtain ⟨haccepted, hlocals⟩ := Compiled.accepted hok
    obtain ⟨hline, -, hstmts⟩ := htracks.start haccepted
    have hknows := htracks.toKnows.learn haccepted
    rw [← hlocals] at hknows
    have hready := Regime.ready_of_programReaches (R := Regime.inLine _ (Visited _)) hreaches hline
      hstmts
    have hsits := hreaches.sits hline htracks.env
      (haccepted.known fun v hv => visited_cons.mpr (.inl hv))
    exact hknows.assignsLocal hready hsits hd
  · have hready := Regime.ready_callByHost (R := Regime.inLine s.context (Visited ps))
      htracks.inLine (htracks.held f hf) fun v hv => htracks.held v (hargs v hv)
    have hsits := Activity.sits_of_reaches h hready trivial
    exact htracks.toKnows.assignsLocal (Regime.ready_of_reaches h hready) hsits hd

/-! ### An assignment in the initializer of its own target -/

/-- A script has no errors and begins with a block that begins with a variable, in whose initializer there is
an assignment with a distance. The assignment fails, because the name `y` is not bound. -/
def lacksInInitializer (s : Session) (src : Source) (y : String) : Bool :=
  let compiled := Compiled.ofSource src s.nextId
  let c := (s.learn compiled.locals).context
  !compiled.diagnostics.hasErrors && match compiled.program.stmts with
  | .block (.var _ (some (.assign k x value)) _ :: _) _ :: _ =>
    c.locals k.id == some 0 &&
      match Evaluation.eval c 2 (.assign k x value) (s.machine.enter ⟨.empty, some s.machine.env⟩) with
      | .fail (.undefinedName _ z) _ => z == y
      | _ => false
  | _ => false

theorem starts_of_lacksInInitializer {s : Session} {src : Source} {y : String}
    (h : s.lacksInInitializer src y = true) : ∃ k x value m l m',
    s.Starts 3 src (.eval (.assign k x value)) m ∧
      (s.learn (Compiled.ofSource src s.nextId).locals).context.locals k.id = some 0 ∧
      Evaluation.eval (s.learn (Compiled.ofSource src s.nextId).locals).context 2
        (.assign k x value) m = .fail (.undefinedName l y) m' := by
  unfold lacksInInitializer at h
  dsimp only at h
  obtain ⟨herr, h⟩ := Bool.and_eq_true_iff.mp h
  have hok : (Compiled.ofSource src s.nextId).diagnostics.hasErrors = false := by
    simpa using herr
  split at h
  · rename_i x' k x value sp rest sp' more hstmts
    obtain ⟨hd, h⟩ := Bool.and_eq_true_iff.mp h
    split at h
    · rename_i l z m' hfail
      obtain rfl : z = y := eq_of_beq h
      refine ⟨k, x, value, _, l, m', ⟨hok, ?_⟩, eq_of_beq hd, hfail⟩
      rw [hstmts]
      exact .first (.inside (Activity.enters_block _ _) (.inside (Activity.enters_head _ _)
        (.inside (Activity.enters_initializer _ _ _) .here)))
    · cases h
  · cases h

/-- What is assigned to is the variable that is being initialized. -/
def selfScript : Source :=
  ⟨"self", "\x7b var a = a = 1; print a; \x7d"⟩

/-- There is another variable of that name further out. -/
def shadowScript : Source :=
  ⟨"shadow", "\x7b var a = 0; \x7b var a = a = 1; print a; \x7d \x7d"⟩

theorem assignments_to_locals_selfScript :
    let s := Session.new 8 (.ofInput [])
    let compiled := Compiled.ofSource selfScript s.nextId
    ∃ k x value m, s.History [] [] ∧ s.Starts 3 selfScript (.eval (.assign k x value)) m ∧
      (s.learn compiled.locals).context.locals k.id = some 0 ∧
      AssignsLocal (s.learn compiled.locals).context [compiled.program] k x value 0 m := by
  have hlacks : (Session.new 8 (.ofInput [])).lacksInInitializer selfScript "a" = true := by
    decide +kernel
  obtain ⟨k, x, value, m, _, _, hstarts, hd, -⟩ := starts_of_lacksInInitializer hlacks
  have hs := History.new 8 (.ofInput [])
  exact ⟨k, x, value, m, hs, hstarts, hd, (assignments_to_locals hs).1 3 _ k x value 0 m hstarts hd⟩

/-- Scripts without errors in which an assignment with a recorded distance does not find its target. The
first one is followed to the assignment; both end with the failure. -/
theorem assignment_in_own_initializer :
    let s := Session.new 8 (.ofInput [])
    let compiled := Compiled.ofSource selfScript s.nextId
    let c := (s.learn compiled.locals).context
    (∃ k x value m l m', s.Starts 3 selfScript (.eval (.assign k x value)) m ∧
      c.locals k.id = some 0 ∧
      Evaluation.eval c 2 (.assign k x value) m = .fail (.undefinedName l "a") m') ∧
    ∀ src ∈ [selfScript, shadowScript], ∃ l s',
      s.run 20 src = some (.error (.runtime (.undefinedName l "a")), s') := by
  have hlacks : (Session.new 8 (.ofInput [])).lacksInInitializer selfScript "a" = true := by
    decide +kernel
  refine ⟨starts_of_lacksInInitializer hlacks, fun src hsrc => ?_⟩
  have hends : [selfScript, shadowScript].all (fun src =>
      ((Session.new 8 (.ofInput [])).run 20 src).any fun r =>
        RunError.isRuntime (.undefinedName 1 "a") r.1) = true := by
    decide +kernel
  obtain ⟨⟨r, s'⟩, hrun, hr⟩ := Option.any_eq_true _ _ |>.mp (List.all_eq_true.mp hends src hsrc)
  obtain rfl : r = _ := RunError.eq_of_isRuntime hr
  exact ⟨1, s', hrun⟩

end Session

end HostScript
