import HostScript.Proofs.Parsing.Following
import HostScript.Session

/-!
# Checking and running

A script is checked with numbers that start at zero, and run with numbers that start where earlier runs
stopped. What is wrong with it does not depend on that: resolution only writes numbers down, as parsing
does. So a run is refused if and only if checking finds an error, and a run that is refused leaves the
session as it was, apart from what it reports.
-/

namespace HostScript

variable {k : Nat}

namespace Resolution

/-- The same distances, for numbers that are greater by `k`. -/
def shift (k : Nat) (r : Resolution) : Resolution :=
  ⟨r.locals.map fun p => (p.1 + k, p.2), r.faults⟩

theorem shift_append (a b : Resolution) : (a ++ b).shift k = a.shift k ++ b.shift k :=
  congrArg (fun l => Resolution.mk l (a.faults ++ b.faults)) List.map_append

theorem shift_faultIf (p : Bool) (c : Cause) (sp : Span) (l : String) :
    (faultIf p c sp l).shift k = faultIf p c sp l := by
  cases p <;> rfl

theorem shift_duplicate (ss : StaticScopes) (x : Ident) :
    (duplicate ss x).shift k = duplicate ss x :=
  shift_faultIf ..

theorem use_shift (ss : StaticScopes) (m : Mark) (x : String) :
    use ss ((Relabeling.shift k).mark m).id x = (use ss m.id x).shift k := by
  unfold use
  cases ss.distance? x <;> rfl

theorem read_shift (ss : StaticScopes) (m : Mark) (x : Ident) :
    read ss ((Relabeling.shift k).mark m) (x.relabel (.shift k)) = (read ss m x).shift k := by
  unfold read
  rw [use_shift, shift_append, shift_faultIf]
  rfl

theorem this_shift (c : ClassMode) (ss : StaticScopes) (m : Mark) :
    this c ss ((Relabeling.shift k).mark m) = (this c ss m).shift k := by
  unfold this
  cases c
  · rfl
  all_goals exact use_shift ss m thisName

theorem super_shift (c : ClassMode) (ss : StaticScopes) (m : Mark) :
    super c ss ((Relabeling.shift k).mark m) = (super c ss m).shift k := by
  unfold super
  rw [use_shift, shift_append]
  cases c <;> rfl

mutual

theorem ofExpr_shift (c : ClassMode) (ss : StaticScopes) :
    ∀ e : Expr, ofExpr c ss (e.relabel (.shift k)) = (ofExpr c ss e).shift k
  | .literal _ _ => rfl
  | .var m x => by rw [Expr.relabel, ofExpr, ofExpr, read_shift]
  | .this m => by rw [Expr.relabel, ofExpr, ofExpr, this_shift]
  | .super m _ => by rw [Expr.relabel, ofExpr, ofExpr, super_shift]
  | .assign m x v => by
    rw [Expr.relabel, ofExpr, ofExpr, ofExpr_shift c ss v, use_shift, shift_append]
    rfl
  | .unary _ _ e | .get _ e _ | .grouping _ e => by
    rw [Expr.relabel, ofExpr, ofExpr, ofExpr_shift c ss e]
  | .binary _ l _ r | .logical _ l _ r => by
    rw [Expr.relabel, ofExpr, ofExpr, ofExpr_shift c ss l, ofExpr_shift c ss r, shift_append]
  | .set _ o _ v => by
    rw [Expr.relabel, ofExpr, ofExpr, ofExpr_shift c ss o, ofExpr_shift c ss v, shift_append]
  | .call _ f as => by
    rw [Expr.relabel, ofExpr, ofExpr, ofExpr_shift c ss f, ofExprs_shift c ss as, shift_append]

theorem ofExprs_shift (c : ClassMode) (ss : StaticScopes) :
    ∀ es : List Expr, ofExprs c ss (Expr.listRelabel (.shift k) es) = (ofExprs c ss es).shift k
  | [] => rfl
  | e :: es => by
    rw [Expr.listRelabel, ofExprs, ofExprs, ofExpr_shift c ss e, ofExprs_shift c ss es, shift_append]

end

theorem ofOption_shift (c : ClassMode) (ss : StaticScopes) (e : Option Expr) :
    ofOption c ss (e.map (Expr.relabel (.shift k))) = (ofOption c ss e).shift k := by
  cases e with
  | none => rfl
  | some e => exact ofExpr_shift c ss e

theorem ofReturn_shift (f : FunctionMode) (v : Option Expr) (sp : Span) :
    ofReturn f (v.map (Expr.relabel (.shift k))) sp = (ofReturn f v sp).shift k := by
  unfold ofReturn
  rw [Option.isSome_map, shift_append, shift_faultIf, shift_faultIf]

theorem ofParams_shift (ss : StaticScopes) (xs : List Ident) :
    (ofParams ss xs).2.shift k = (ofParams ss xs).2 := by
  induction xs generalizing ss with
  | nil => rfl
  | cons x xs ih =>
    rw [ofParams]
    dsimp only
    rw [shift_append, ih, shift_duplicate]

theorem ofSuperclass_shift (ss : StaticScopes) (x : Ident) (super : Option Superclass) :
    ofSuperclass ss x (super.map (Superclass.relabel (.shift k))) =
      (ofSuperclass ss x super).shift k := by
  cases super with
  | none => rfl
  | some p =>
    rw [Option.map_some, ofSuperclass, ofSuperclass, shift_append, shift_faultIf, ← read_shift]
    rfl

theorem methodScopes_shift (ss : StaticScopes) (super : Option Superclass) :
    methodScopes ss (super.map (Superclass.relabel (.shift k))) = methodScopes ss super := by
  cases super <;> rfl

theorem classMode_shift (super : Option Superclass) :
    classMode (super.map (Superclass.relabel (.shift k))) = classMode super := by
  cases super <;> rfl

theorem methodMode_shift (d : FunctionDecl) : methodMode (d.relabel (.shift k)) = methodMode d := by
  cases d
  rw [FunctionDecl.relabel]
  rfl

mutual

theorem ofStmt_shift (c : Surroundings) (ss : StaticScopes) :
    ∀ t : Stmt, ofStmt c ss (t.relabel (.shift k)) =
      ((ofStmt c ss t).1, (ofStmt c ss t).2.shift k)
  | .var x init _ => by
    rw [Stmt.relabel, ofStmt, ofStmt, ofOption_shift, shift_append, shift_duplicate]
    rfl
  | .block body _ => by
    rw [Stmt.relabel, ofStmt, ofStmt, ofStmts_shift c _ body]
  | .ifElse cond t none _ => by
    rw [Stmt.relabel, ofStmt, ofStmt, ofStmt_shift c ss t, ofExpr_shift, shift_append]
  | .ifElse cond t (some f) _ => by
    rw [Stmt.relabel, ofStmt, ofStmt, ofStmt_shift c ss t, ofExpr_shift, shift_append, shift_append,
      ofStmt_shift c _ f]
  | .while_ cond body _ => by
    rw [Stmt.relabel, ofStmt, ofStmt, ofStmt_shift c ss body, ofExpr_shift, shift_append]
  | .function d => by
    have hname : (d.relabel (.shift k)).name = d.name := by
      cases d
      rw [FunctionDecl.relabel]
      rfl
    rw [Stmt.relabel, ofStmt, ofStmt, hname, ofFunction_shift _ _ d, shift_append, shift_duplicate]
  | .class_ x super ms _ => by
    rw [Stmt.relabel, ofStmt, ofStmt, methodScopes_shift, classMode_shift, ofSuperclass_shift,
      ofMethods_shift _ _ ms, shift_append, shift_append, shift_duplicate]
    rfl
  | .print e _ | .expr e _ => by
    rw [Stmt.relabel, ofStmt, ofStmt, ofExpr_shift]
  | .return_ v sp => by
    rw [Stmt.relabel, ofStmt, ofStmt, ofOption_shift, shift_append, ← ofReturn_shift]
    rfl

theorem ofStmts_shift (c : Surroundings) (ss : StaticScopes) :
    ∀ ts : List Stmt, ofStmts c ss (Stmt.listRelabel (.shift k) ts) =
      ((ofStmts c ss ts).1, (ofStmts c ss ts).2.shift k)
  | [] => rfl
  | t :: ts => by
    rw [Stmt.listRelabel, ofStmts, ofStmts, ofStmt_shift c ss t, ofStmts_shift c _ ts, shift_append]

theorem ofFunction_shift (c : Surroundings) (ss : StaticScopes) :
    ∀ d : FunctionDecl, ofFunction c ss (d.relabel (.shift k)) = (ofFunction c ss d).shift k
  | ⟨x, params, body, _⟩ => by
    rw [FunctionDecl.relabel, ofFunction, ofFunction, Ident.map_relabel_shift, shift_append,
      ofParams_shift, ofStmts_shift c _ body]

theorem ofMethods_shift (c : ClassMode) (ss : StaticScopes) :
    ∀ ds : List FunctionDecl,
      ofMethods c ss (FunctionDecl.listRelabel (.shift k) ds) = (ofMethods c ss ds).shift k
  | [] => rfl
  | d :: ds => by
    rw [FunctionDecl.listRelabel, ofMethods, ofMethods, methodMode_shift, ofFunction_shift _ _ d,
      ofMethods_shift c ss ds, shift_append]

end

theorem ofProgram_shift (p : Program) :
    ofProgram (p.relabel (.shift k)) = (ofProgram p).shift k := by
  unfold ofProgram Program.relabel
  rw [ofStmts_shift]

end Resolution

/-- The first errors are stored, so some are if there are any. -/
theorem Diagnostics.isEmpty_errors_ofFaults {src : Source} {fs : List Fault}
    (h : (Diagnostics.ofFaults src fs).hasErrors = true) :
    (Diagnostics.ofFaults src fs).errors.isEmpty = false := by
  cases fs with
  | nil => cases h
  | cons x xs => rfl

/-- Where the numbers of a script start has no influence on what is wrong with it. -/
theorem Compiled.diagnostics_ofSource (src : Source) (firstId : Nat) :
    (Compiled.ofSource src firstId).diagnostics = check src := by
  unfold check Compiled.ofSource
  dsimp only
  have hshift := Parsed.ofText_add src.text 0 firstId
  rw [Nat.zero_add] at hshift
  rw [hshift]
  change Diagnostics.ofFaults src ((Parsed.ofText src.text 0).faults ++ Resolution.faults
    (if (Parsed.ofText src.text 0).faults.isEmpty then _ else _)) = _
  split
  · change Diagnostics.ofFaults src (_ ++ (Resolution.ofProgram
      ((Parsed.ofText src.text 0).program.relabel (.shift firstId))).faults) = _
    rw [Resolution.ofProgram_shift]
    rfl
  · rfl

namespace Session

/-- What reporting errors one after another comes to. -/
theorem foldl_reportError (s : Session) (ds : List Diagnostic) :
    ds.foldl reportError s =
      { s with
        hadError := s.hadError || !ds.isEmpty
        machine := { s.machine with
          console := { s.machine.console with
            errors :=
              if s.machine.console.reporting then
                s.machine.console.errors ++ (ds.map Diagnostic.report).toArray
              else s.machine.console.errors } } } := by
  induction ds generalizing s with
  | nil => simp
  | cons d ds ih =>
    rw [List.foldl_cons, ih]
    unfold reportError report emit Console.report
    cases hr : s.machine.console.reporting <;> simp [hr, Diagnostic.report]

/-- A run is refused if and only if checking finds an error, and then with what checking finds. All that
is different then are the numbers given away, the mark that there was an error, and the lines reported:
one for each stored error, in order, unless the console loses them. -/
theorem run_eq_compile_error_iff (s s' : Session) (fuel : Nat) (src : Source) (d : Diagnostics) :
    s.run fuel src = some (.error (.compile d), s') ↔
      (check src).hasErrors = true ∧ d = check src ∧
      s' = { s with
        nextId := (Compiled.ofSource src s.nextId).nextId
        hadError := true
        machine := { s.machine with
          console := { s.machine.console with
            errors :=
              if s.machine.console.reporting then
                s.machine.console.errors ++ ((check src).errors.map Diagnostic.report).toArray
              else s.machine.console.errors } } } := by
  unfold run
  dsimp only
  rw [Compiled.diagnostics_ofSource]
  by_cases herr : (check src).hasErrors = true
  · -- More errors may be counted than are stored, but the first one is stored, and sets the flag.
    have hne : (check src).errors.isEmpty = false := Diagnostics.isEmpty_errors_ofFaults herr
    rw [if_pos herr, foldl_reportError, hne]
    dsimp only
    rw [Bool.not_false, Bool.or_true]
    constructor
    · intro h
      cases h
      exact ⟨herr, rfl, rfl⟩
    · rintro ⟨-, rfl, rfl⟩
      rfl
  · rw [if_neg herr]
    constructor
    · -- What was run gives nothing but errors of running.
      intro h
      split at h <;> cases h
    · rintro ⟨h, -⟩
      exact absurd h herr

end Session

end HostScript
