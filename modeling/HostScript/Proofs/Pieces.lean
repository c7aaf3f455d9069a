import HostScript.Proofs.Confinement
import HostScript.Proofs.Parsing.Trees
import HostScript.Proofs.Scoping.Histories

/-!
# Scripts in pieces

It makes no difference whether a script is given to a session as a whole or in pieces. Resolution knows
no scope at the top level, so it keeps nothing from one statement to the next. And while the first piece
runs, the distances of the second one are there already, but nothing consults them: what runs are the
first piece and functions of what was run before.
-/

namespace HostScript

/-! ### Resolution -/

namespace Resolution

theorem ofStmts_append (c : Surroundings) (ts us : List Stmt) :
    (ofStmts c [] (ts ++ us)).2 = (ofStmts c [] ts).2 ++ (ofStmts c [] us).2 := by
  induction ts with
  | nil => rfl
  | cons t ts ih =>
    rw [List.cons_append, ofStmts, ofStmts]
    dsimp only
    rw [ofStmt_nil, ih, append_assoc]

end Resolution

theorem Program.mem_ids_of_mem_locals {p : Program} {q : Nat × Nat}
    (h : q ∈ (Resolution.ofProgram p).locals) : q.1 ∈ p.ids := by
  obtain ⟨v, hv, hq⟩ := ((Accepted.gathers p).locals q).mp h
  unfold Program.ids
  rw [(Visit.of_mem_locals hq).1, ← Accepted.map_id_visits p]
  exact List.mem_map_of_mem hv

/-! ### Sessions -/

def IdsOf (ps : List Program) (i : Nat) : Prop :=
  ∃ p ∈ ps, i ∈ p.ids

theorem nodesIn_idsOf_cons (p : Program) (ps : List Program) :
    NodesIn (IdsOf (p :: ps)) (Stmt.listNodes p.stmts) :=
  fun _ hn => ⟨p, List.mem_cons_self, List.mem_map_of_mem hn⟩

theorem Heap.Confined.cons {h : Heap} {ps : List Program} (hh : h.Confined (IdsOf ps)) (p : Program) :
    h.Confined (IdsOf (p :: ps)) := by
  refine hh.mono ?_
  rintro i ⟨q, hq, hi⟩
  exact ⟨q, List.mem_cons_of_mem p hq, hi⟩

namespace Session

/-- What a session has gone through, with the programs that were run, the last one first. Programs may be
given to it as such, with any distances, or as scripts. In between, the host may call any value, and may
do whatever makes no function of a script. -/
inductive Fed : Session → List Program → Prop where
  | new (maxDepth : Nat) (console : Console) : Fed (new maxDepth console) []
  | interpreted {s s' : Session} {ps : List Program} {fuel : Nat} {p : Program}
      {locals : List (Nat × Nat)} {r : Except RuntimeError Unit} (hs : Fed s ps)
      (h : s.interpret fuel p locals = some (r, s')) : Fed s' (p :: ps)
  | executed {s s' : Session} {ps : List Program} {fuel : Nat} {p : Program}
      {rs : List (Except RuntimeError Completion)} (hs : Fed s ps)
      (h : s.executeEach fuel p.stmts = some (rs, s')) : Fed s' (p :: ps)
  | refused {s s' : Session} {ps : List Program} {fuel : Nat} {src : Source}
      {r : Except RunError Unit} (hs : Fed s ps) (h : s.run fuel src = some (r, s'))
      (herr : (Compiled.ofSource src s.nextId).diagnostics.hasErrors = true) : Fed s' ps
  | ran {s s' : Session} {ps : List Program} {fuel : Nat} {src : Source}
      {r : Except RunError Unit} (hs : Fed s ps) (h : s.run fuel src = some (r, s'))
      (hok : (Compiled.ofSource src s.nextId).diagnostics.hasErrors = false) :
      Fed s' ((Compiled.ofSource src s.nextId).program :: ps)
  | called {s s' : Session} {ps : List Program} {fuel : Nat} {f : Value} {args : List Value}
      {r : Except RuntimeError Value} (hs : Fed s ps) (h : s.call fuel f args = some (r, s')) :
      Fed s' ps
  | hosted {s s' : Session} {ps : List Program} (hs : Fed s ps)
      (h : ∀ f, s'.machine.heap.callable f = s.machine.heap.callable f ∨
        (s'.machine.heap.callable f).isNative = true) : Fed s' ps

variable {s s' : Session} {ps : List Program} {p : Program} {fuel : Nat}
  {locals : List (Nat × Nat)}

theorem confined_of_interpret {r : Except RuntimeError Unit}
    (hs : s.machine.heap.Confined (IdsOf ps)) (h : s.interpret fuel p locals = some (r, s')) :
    s'.machine.heap.Confined (IdsOf (p :: ps)) := by
  have hstmts : ∀ t ∈ p.stmts, NodesIn (IdsOf (p :: ps)) t.nodes := fun t ht =>
    (nodesIn_idsOf_cons p ps).subset (Stmt.nodes_subset_listNodes ht)
  have hw := (Regime.keeps_program (R := .confined (s.learn locals).context (IdsOf (p :: ps))) fuel
    p.stmts (hs.cons p) hstmts).2
  unfold Run.wp at hw
  obtain ⟨m, hend, -, rfl⟩ | ⟨e, m, hend, -, rfl⟩ := interpret_cases h
  · rw [hend] at hw
    exact hw.1
  · rw [hend] at hw
    exact hw.1

theorem confined_of_executeEach {K : Nat → Prop} {ts : List Stmt}
    {rs : List (Except RuntimeError Completion)} (hs : s.machine.heap.Confined K)
    (hts : NodesIn K (Stmt.listNodes ts)) (h : s.executeEach fuel ts = some (rs, s')) :
    s'.machine.heap.Confined K := by
  induction ts generalizing s rs with
  | nil =>
    cases h
    exact hs
  | cons t ts ih =>
    rw [Stmt.listNodes] at hts
    have hkeeps := Regime.keeps_run (R := .confined s.context K) fuel (a := .exec t)
      ⟨hs, hts.subset (List.subset_append_left _ _)⟩
    unfold executeEach at h
    obtain ⟨⟨r, s₁⟩, hfirst, h⟩ := Option.bind_eq_some_iff.mp h
    obtain ⟨⟨rs', s₂⟩, hrest, h⟩ := Option.bind_eq_some_iff.mp h
    cases h
    have hs₁ : s₁.machine.heap.Confined K := Frame.inv_perform hkeeps hfirst
    exact ih hs₁ (hts.subset (List.subset_append_right _ _)) hrest

theorem SameButErrors.confined {K : Nat → Prop} (h : SameButErrors s s')
    (hs : s.machine.heap.Confined K) : s'.machine.heap.Confined K := by
  obtain ⟨k, hm⟩ := h.machine
  rw [hm]
  exact hs

/-- All functions on the machine of a session are of programs that were run. -/
theorem Fed.confined (h : s.Fed ps) : s.machine.heap.Confined (IdsOf ps) := by
  induction h with
  | new maxDepth console =>
    intro f d closure isInit hf
    have hnative := (Machine.HostOnly.session maxDepth console).callables f
    rw [hf] at hnative
    cases hnative
  | interpreted _ hrun ih => exact confined_of_interpret ih hrun
  | executed _ hrun ih => exact confined_of_executeEach (ih.cons _) (nodesIn_idsOf_cons _ _) hrun
  | @refused s s' ps fuel src r _ hrun herr ih =>
    obtain ⟨-, hsame⟩ | ⟨hok, -⟩ := run_cases hrun
    · exact hsame.confined ih
    · rw [herr] at hok
      cases hok
  | @ran s s' ps fuel src r _ hrun hok ih =>
    obtain ⟨herr, -⟩ | ⟨-, r₁, s₁, hint, hsame⟩ := run_cases hrun
    · rw [hok] at herr
      cases herr
    · have hstart : { s with nextId := (Compiled.ofSource src s.nextId).nextId }.machine.heap.Confined
          (IdsOf ps) := ih
      exact hsame.confined (confined_of_interpret hstart hint)
  | @called s s' ps fuel f args r _ hcall ih =>
    have hkeeps := Regime.keeps_callByHost (R := .confined s.context (IdsOf ps)) fuel ih trivial
      (fun v (_ : v ∈ args) => trivial) (f := f)
    exact Frame.inv_perform hkeeps hcall
  | hosted _ hhost ih =>
    intro f d closure isInit hf
    obtain hsame | hnative := hhost f
    · exact ih f d closure isInit (hsame.symm.trans hf)
    · rw [hf] at hnative
      cases hnative

theorem learn_append (s : Session) (l l' : List (Nat × Nat)) :
    s.learn (l ++ l') = (s.learn l).learn l' := by
  unfold learn
  rw [List.foldl_append]

/-- Learning about other numbers makes no difference to `K`. -/
theorem alike_learn (s : Session) {K : Nat → Prop} {l : List (Nat × Nat)}
    (h : ∀ q ∈ l, ¬ K q.1) : Context.Alike K s.context (s.learn l).context := by
  refine ⟨rfl, fun i hi => getElem?_learn l s.locals (fun d hd => ?_) fun _ => rfl⟩
  exact absurd hi (h (i, d) hd)

/-- If nothing that is there consults `l'`, then a program is run with `l ++ l'` as its first part is with
`l`, and its second part after that with `l'`. -/
theorem interpret_append_of_confined {K : Nat → Prop} (hs : s.machine.heap.Confined K)
    {ts us : List Stmt} (hts : NodesIn K (Stmt.listNodes ts)) (sp : Span)
    (l : List (Nat × Nat)) {l' : List (Nat × Nat)} (hl : ∀ q ∈ l', ¬ K q.1) (fuel : Nat) :
    s.interpret fuel ⟨ts ++ us, sp⟩ (l ++ l') =
      match s.interpret fuel ⟨ts, sp⟩ l with
      | some (.ok _, s₁) => s₁.interpret fuel ⟨us, sp⟩ l'
      | some (.error e, s₁) => some (.error e, s₁.learn l')
      | none => none := by
  have hfirst := (Evaluation.keeps_program_congr (alike_learn (s.learn l) hl) fuel ts hs hts).1
  unfold interpret
  dsimp only
  rw [learn_append, Evaluation.program_append, Run.bind_apply]
  have hmachine : (s.learn l).machine = s.machine := rfl
  have hmachine' : ((s.learn l).learn l').machine = s.machine := rfl
  rw [hmachine, hmachine', ← hfirst]
  cases Evaluation.program (s.learn l).context fuel ts s.machine with
  | done _ m => rfl
  | fail e m => rfl
  | crash => rfl
  | outOfFuel => rfl

/-- A script can be given in pieces. Whatever the session has gone through, let the nodes of a second
piece have numbers that no node of the first one has, nor any of a program that was run. Then the names of
the whole resolve as those of the pieces do, and to run the whole is to run the pieces one after the other:
with the same result, and with the same session afterwards. If the first piece fails, the whole fails alike,
and has only learned the distances of the second piece as well. -/
theorem interpret_append_eq {s : Session} {ps : List Program} (hs : s.Fed ps) (ts us : List Stmt)
    (sp : Span)
    (hnew : ∀ i ∈ Program.ids ⟨us, sp⟩, i ∉ Program.ids ⟨ts, sp⟩ ∧ ∀ p ∈ ps, i ∉ p.ids) :
    let first := Resolution.ofProgram ⟨ts, sp⟩
    let second := Resolution.ofProgram ⟨us, sp⟩
    let whole := Resolution.ofProgram ⟨ts ++ us, sp⟩
    whole.faults = first.faults ++ second.faults ∧
      whole.locals = first.locals ++ second.locals ∧
      (∀ q ∈ first.locals, ∀ q' ∈ second.locals, q.1 ≠ q'.1) ∧
      ∀ fuel, s.interpret fuel ⟨ts ++ us, sp⟩ whole.locals =
        match s.interpret fuel ⟨ts, sp⟩ first.locals with
        | some (.ok _, s₁) => s₁.interpret fuel ⟨us, sp⟩ second.locals
        | some (.error e, s₁) => some (.error e, s₁.learn second.locals)
        | none => none := by
  intro first second whole
  have hwhole : whole = first ++ second := Resolution.ofStmts_append _ ts us
  have hlocals : whole.locals = first.locals ++ second.locals := congrArg (·.locals) hwhole
  refine ⟨congrArg (·.faults) hwhole, hlocals, fun q hq q' hq' heq => ?_, fun fuel => ?_⟩
  · refine (hnew q'.1 (Program.mem_ids_of_mem_locals hq')).1 ?_
    exact heq ▸ Program.mem_ids_of_mem_locals hq
  · -- What can run during the first piece is the piece itself and what was run before.
    rw [hlocals]
    refine interpret_append_of_confined (hs.confined.cons ⟨ts, sp⟩)
      (nodesIn_idsOf_cons ⟨ts, sp⟩ ps) sp first.locals ?_ fuel
    rintro q hq ⟨p, hp, hi⟩
    obtain ⟨hfirst, hbefore⟩ := hnew q.1 (Program.mem_ids_of_mem_locals hq)
    rcases List.mem_cons.mp hp with rfl | hp
    · exact hfirst hi
    · exact hbefore p hp hi

/-- A function that counts its calls, by way of a local name. -/
def bumpScript : Source :=
  ⟨"bump", "var n = 0; func bump() \x7b var k = 1; n = n + k; return n; \x7d"⟩

/-- Two pieces with local names, both of which call the function. -/
def bumpTwice : Program × Program :=
  ((Parsed.ofText "\x7b var a = bump(); print a; \x7d" 20).program,
    (Parsed.ofText "\x7b var b = bump(); print b + 1; \x7d" 40).program)

theorem interpret_append_eq_bumpTwice :
    let sp := bumpTwice.1.span
    let ts := bumpTwice.1.stmts
    let us := bumpTwice.2.stmts
    let first := Resolution.ofProgram ⟨ts, sp⟩
    let second := Resolution.ofProgram ⟨us, sp⟩
    ∃ s s₁ s₂ : Session, s.Fed [(Compiled.ofSource bumpScript 0).program] ∧
      (∀ i ∈ Program.ids ⟨us, sp⟩, i ∉ Program.ids ⟨ts, sp⟩ ∧
        ∀ p ∈ [(Compiled.ofSource bumpScript 0).program], i ∉ p.ids) ∧
      first.locals = [(22, 0)] ∧ second.locals = [(42, 0)] ∧
      s.interpret 20 ⟨ts, sp⟩ first.locals = some (.ok (), s₁) ∧
      s₁.interpret 20 ⟨us, sp⟩ second.locals = some (.ok (), s₂) ∧
      s₂.machine.console.lines = #["1", "3"] ∧
      s.interpret 20 ⟨ts ++ us, sp⟩ (first.locals ++ second.locals) = some (.ok (), s₂) := by
  intro sp ts us first second
  have hnew : ∀ i ∈ Program.ids ⟨us, sp⟩, i ∉ Program.ids ⟨ts, sp⟩ ∧
      ∀ p ∈ [(Compiled.ofSource bumpScript 0).program], i ∉ p.ids := by
    decide +kernel
  have hstart : (Session.new 8 (.ofInput [])).nextId = 0 := by decide +kernel
  have hok : (Compiled.ofSource bumpScript 0).diagnostics.hasErrors = false := by decide +kernel
  have hruns : ((Session.new 8 (.ofInput [])).run 20 bumpScript).any (fun r =>
      (r.2.interpret 20 ⟨ts, sp⟩ first.locals).any fun r₁ => r₁.1.isOk &&
        (r₁.2.interpret 20 ⟨us, sp⟩ second.locals).any fun r₂ =>
          r₂.1.isOk && r₂.2.machine.console.lines = #["1", "3"]) = true := by
    decide +kernel
  obtain ⟨⟨r, s⟩, hrun, h⟩ := Option.any_eq_true _ _ |>.mp hruns
  obtain ⟨⟨r₁, s₁⟩, hrun₁, h⟩ := Option.any_eq_true _ _ |>.mp h
  obtain ⟨hok₁, h⟩ := Bool.and_eq_true_iff.mp h
  obtain ⟨⟨r₂, s₂⟩, hrun₂, h⟩ := Option.any_eq_true _ _ |>.mp h
  obtain ⟨hok₂, hlines⟩ := Bool.and_eq_true_iff.mp h
  have hfed : s.Fed [(Compiled.ofSource bumpScript 0).program] := by
    have hran := Fed.ran (.new 8 (.ofInput [])) hrun (by rw [hstart]; exact hok)
    rwa [hstart] at hran
  obtain ⟨-, hlocals, -, hwhole⟩ := interpret_append_eq hfed ts us sp hnew
  cases r₁ with
  | error e => cases hok₁
  | ok u₁ =>
    cases r₂ with
    | error e => cases hok₂
    | ok u₂ =>
      refine ⟨s, s₁, s₂, hfed, hnew, by decide +kernel, by decide +kernel, hrun₁, hrun₂,
        of_decide_eq_true hlines, ?_⟩
      have hboth := hwhole 20
      rw [hlocals, hrun₁] at hboth
      exact hboth.trans hrun₂

end Session

end HostScript
