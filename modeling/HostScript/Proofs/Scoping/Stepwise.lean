import HostScript.Proofs.Scoping.Rules

/-!
# Resolution step by step

The walk of resolution once more, as steps that change one state. Scopes are opened and closed on a stack, the
function and the class that the walk is in are replaced and put back, and what is found is added to what was
found before. Nothing here keeps the steps in balance by itself: a class opens one scope or two and asks a
second time how many there are to close, and the walk breaks off where a scope is closed and none is open.

It never breaks off. A statement takes the walk from any state to where `Resolution.ofStmt` says, with what
that finds, and in the function and the class of before.
-/

namespace HostScript

open Resolution (thisName superName)

/-! ### What statements leave -/

namespace StaticScopes

variable {ss ss₁ ss' : StaticScopes} {xs ys : List String}

/-- The innermost scope has got the names `xs`, all of them defined, and nothing else has changed. -/
structure Gains (ss : StaticScopes) (xs : List String) (ss' : StaticScopes) : Prop where
  length : ss'.length = ss.length
  tail : ss'.tail = ss.tail
  head : ∀ sc ∈ ss.head?, ∃ sc' ∈ ss'.head?,
    ∀ x, sc'.get? x = if x ∈ xs then some true else sc.get? x

namespace Gains

theorem refl (ss : StaticScopes) : ss.Gains [] ss :=
  ⟨rfl, rfl, fun sc hsc => ⟨sc, hsc, fun _ => rfl⟩⟩

theorem trans (h : ss.Gains xs ss₁) (h' : ss₁.Gains ys ss') : ss.Gains (xs ++ ys) ss' := by
  refine ⟨h'.length.trans h.length, h'.tail.trans h.tail, fun sc hsc => ?_⟩
  obtain ⟨sc₁, hsc₁, hget₁⟩ := h.head sc hsc
  obtain ⟨sc', hsc', hget'⟩ := h'.head sc₁ hsc₁
  refine ⟨sc', hsc', fun x => ?_⟩
  rw [hget', hget₁]
  by_cases hx : x ∈ ys <;> simp [hx]

theorem ofStmt (c : Surroundings) (ss : StaticScopes) (s : Stmt) :
    ss.Gains s.introduces (Resolution.ofStmt c ss s).1 := by
  cases ss with
  | nil =>
    rw [Resolution.ofStmt_nil]
    exact ⟨rfl, rfl, nofun⟩
  | cons sc ss =>
    obtain ⟨sc', heq, hget⟩ := Resolution.ofStmt_cons c s sc ss
    rw [heq]
    refine ⟨rfl, rfl, fun sc₁ hsc₁ => ?_⟩
    cases hsc₁
    exact ⟨sc', rfl, hget⟩

theorem ofStmts (c : Surroundings) (ss : StaticScopes) (body : List Stmt) :
    ss.Gains (body.flatMap Stmt.introduces) (Resolution.ofStmts c ss body).1 := by
  induction body generalizing ss with
  | nil =>
    rw [Resolution.ofStmts]
    exact refl ss
  | cons s rest ih =>
    rw [Resolution.ofStmts, List.flatMap_cons]
    exact (ofStmt c ss s).trans (ih _)

/-- A scope that was open still is, inside the same scopes. -/
theorem exists_eq_cons {sc : StaticScope} (h : Gains (sc :: ss) xs ss') :
    ∃ sc', ss' = sc' :: ss := by
  cases ss' with
  | nil =>
    obtain ⟨sc', hsc', -⟩ := h.head sc rfl
    cases hsc'
  | cons sc' rest => exact ⟨sc', congrArg (sc' :: ·) h.tail⟩

theorem eq_nil (h : Gains [] xs ss') : ss' = [] :=
  List.length_eq_zero_iff.mp h.length

end Gains

end StaticScopes

/-! ### The state of the walk -/

/-- The state of the walk. -/
structure Resolver where
  scopes : StaticScopes
  around : Surroundings
  found : Resolution

namespace Resolver

/-- In front of a program. -/
def start : Resolver :=
  ⟨[], .topLevel, .empty⟩

/-- At other scopes, with more found, in the same surroundings. -/
def onward (w : Resolver) (r : StaticScopes × Resolution) : Resolver :=
  ⟨r.1, w.around, w.found ++ r.2⟩

theorem onward_onward (w : Resolver) (r q : StaticScopes × Resolution) :
    (w.onward r).onward q = w.onward (q.1, r.2 ++ q.2) := by
  unfold onward
  rw [Resolution.append_assoc]

theorem onward_empty (w : Resolver) : w.onward (w.scopes, .empty) = w := by
  unfold onward
  rw [Resolution.append_empty]

end Resolver

/-- Part of the walk. It breaks off where a scope is closed and none is open. -/
abbrev Resolving (α : Type) : Type :=
  StateT Resolver Option α

namespace Resolving

/-! ### Steps -/

def push : Resolving Unit :=
  modify fun w => { w with scopes := Bindings.empty :: w.scopes }

/-- Close the innermost scope. -/
def pop : Resolving Unit := do
  match (← get).scopes with
  | [] => failure
  | _ :: outer => modify fun w => { w with scopes := outer }

/-- Add what is found at the state of the walk. -/
def find (f : Resolver → Resolution) : Resolving Unit :=
  modify fun w => { w with found := w.found ++ f w }

/-- Declare a name, which may be declared already. -/
def declare (x : Ident) : Resolving Unit := do
  find fun w => .duplicate w.scopes x
  modify fun w => { w with scopes := w.scopes.declare x.name }

def define (x : String) : Resolving Unit :=
  modify fun w => { w with scopes := w.scopes.define x }

def setFunction (f : FunctionMode) : Resolving Unit :=
  modify fun w => { w with around := ⟨f, w.around.class_⟩ }

def setClass (c : ClassMode) : Resolving Unit :=
  modify fun w => { w with around := ⟨w.around.function, c⟩ }

/-! ### The walk -/

mutual

def expr : Expr → Resolving Unit
  | .literal _ _ => pure ()
  | .var k x => find fun w => .read w.scopes k x
  | .assign k x v => do
    expr v
    find fun w => .use w.scopes k.id x.name
  | .binary _ l _ r | .logical _ l _ r => do
    expr l
    expr r
  | .unary _ _ e | .get _ e _ | .grouping _ e => expr e
  | .call _ f as => do
    expr f
    exprs as
  | .set _ o _ v => do
    expr v
    expr o
  | .this k => find fun w => .this w.around.class_ w.scopes k
  | .super k _ => find fun w => .super w.around.class_ w.scopes k

def exprs : List Expr → Resolving Unit
  | [] => pure ()
  | e :: es => do
    expr e
    exprs es

end

def option : Option Expr → Resolving Unit
  | none => pure ()
  | some e => expr e

def params : List Ident → Resolving Unit
  | [] => pure ()
  | x :: xs => do
    declare x
    define x.name
    params xs

/-- The superclass of the class `x`, with the scope for its name. -/
def superclass (x : Ident) : Option Superclass → Resolving Unit
  | none => pure ()
  | some p => do
    find fun _ => .faultIf (p.name.name = x.name) .selfInheritance p.name.span p.name.name
    setClass .subclass
    expr p.toExpr
    push
    define superName

/-- Behind the methods of a class, close the scope for the name of its superclass. -/
def leaveSuperclass (super : Option Superclass) : Resolving Unit :=
  if super.isSome then pop else pure ()

mutual

def stmt : Stmt → Resolving Unit
  | .var x init _ => do
    declare x
    option init
    define x.name
  | .block body _ => do
    push
    stmts body
    pop
  | .ifElse cond t none _ => do
    expr cond
    stmt t
  | .ifElse cond t (some e) _ => do
    expr cond
    stmt t
    stmt e
  | .while_ cond body _ => do
    expr cond
    stmt body
  | .function d => do
    declare d.name
    define d.name.name
    function .function d
  | .class_ x super ms _ => do
    let enclosing := (← get).around.class_
    setClass .class_
    declare x
    define x.name
    superclass x super
    push
    define thisName
    methods ms
    pop
    leaveSuperclass super
    setClass enclosing
  | .print e _ => expr e
  | .return_ value sp => do
    find fun w => .ofReturn w.around.function value sp
    option value
  | .expr e _ => expr e

def stmts : List Stmt → Resolving Unit
  | [] => pure ()
  | s :: rest => do
    stmt s
    stmts rest

def function (f : FunctionMode) : FunctionDecl → Resolving Unit
  | ⟨_, xs, body, _⟩ => do
    let enclosing := (← get).around.function
    setFunction f
    push
    params xs
    stmts body
    pop
    setFunction enclosing

def methods : List FunctionDecl → Resolving Unit
  | [] => pure ()
  | d :: ds => do
    function (Resolution.methodMode d) d
    methods ds

end

/-! ### What the steps do -/

variable {α β : Type} {w w' : Resolver}

/-- The walk goes on from where its first part came to. -/
theorem run_bind_of_run {x : Resolving α} {f : α → Resolving β} {a : α} (h : x.run w = some (a, w')) :
    (x >>= f).run w = (f a).run w' := by
  rw [StateT.run_bind, h]
  rfl

theorem run_push (w : Resolver) :
    push.run w = some ((), { w with scopes := Bindings.empty :: w.scopes }) := rfl

theorem run_pop_cons (sc : StaticScope) (ss : StaticScopes) (c : Surroundings) (r : Resolution) :
    pop.run ⟨sc :: ss, c, r⟩ = some ((), ⟨ss, c, r⟩) := rfl

/-- A scope is closed unless none is open. -/
theorem run_pop_eq_none_iff : pop.run w = none ↔ w.scopes = [] := by
  obtain ⟨ss, c, r⟩ := w
  cases ss with
  | nil => exact ⟨fun _ => rfl, fun _ => rfl⟩
  | cons sc ss => exact ⟨nofun, nofun⟩

theorem run_find (f : Resolver → Resolution) (w : Resolver) :
    (find f).run w = some ((), w.onward (w.scopes, f w)) := rfl

theorem run_declare (x : Ident) (w : Resolver) :
    (declare x).run w =
      some ((), w.onward (w.scopes.declare x.name, .duplicate w.scopes x)) := rfl

theorem run_define (x : String) (w : Resolver) :
    (define x).run w = some ((), { w with scopes := w.scopes.define x }) := rfl

theorem run_setFunction (f : FunctionMode) (w : Resolver) :
    (setFunction f).run w = some ((), { w with around := ⟨f, w.around.class_⟩ }) := rfl

theorem run_setClass (c : ClassMode) (w : Resolver) :
    (setClass c).run w = some ((), { w with around := ⟨w.around.function, c⟩ }) := rfl

theorem run_get_bind (f : Resolver → Resolving α) (w : Resolver) :
    ((get : Resolving Resolver) >>= f).run w = (f w).run w := rfl

/-! ### What the walk does -/

open Resolution StaticScopes

mutual

theorem run_expr : ∀ (e : Expr) (w : Resolver),
    (expr e).run w = some ((), w.onward (w.scopes, ofExpr w.around.class_ w.scopes e))
  | .literal _ _, w => by
    rw [expr, ofExpr, w.onward_empty]
    rfl
  | .var _ _, w | .this _, w | .super _ _, w => by
    rw [expr, ofExpr, run_find]
  | .assign _ _ v, w => by
    rw [expr, ofExpr, run_bind_of_run (run_expr v w), run_find, w.onward_onward]
    rfl
  | .binary _ l _ r, w | .logical _ l _ r, w => by
    rw [expr, ofExpr, run_bind_of_run (run_expr l w), run_expr r, w.onward_onward]
    rfl
  | .unary _ _ e, w | .get _ e _, w | .grouping _ e, w => by
    rw [expr, ofExpr, run_expr e]
  | .call _ f as, w => by
    rw [expr, ofExpr, run_bind_of_run (run_expr f w), run_exprs as, w.onward_onward]
    rfl
  | .set _ o _ v, w => by
    rw [expr, ofExpr, run_bind_of_run (run_expr v w), run_expr o, w.onward_onward]
    rfl

theorem run_exprs : ∀ (es : List Expr) (w : Resolver),
    (exprs es).run w = some ((), w.onward (w.scopes, ofExprs w.around.class_ w.scopes es))
  | [], w => by
    rw [exprs, ofExprs, w.onward_empty]
    rfl
  | e :: es, w => by
    rw [exprs, ofExprs, run_bind_of_run (run_expr e w), run_exprs es, w.onward_onward]
    rfl

end

theorem run_option (e : Option Expr) (w : Resolver) :
    (option e).run w = some ((), w.onward (w.scopes, ofOption w.around.class_ w.scopes e)) := by
  cases e with
  | none =>
    rw [option, ofOption, w.onward_empty]
    rfl
  | some e => exact run_expr e w

theorem run_params (xs : List Ident) (w : Resolver) :
    (params xs).run w = some ((), w.onward (ofParams w.scopes xs)) := by
  induction xs generalizing w with
  | nil =>
    rw [params, ofParams, w.onward_empty]
    rfl
  | cons x xs ih =>
    rw [params, ofParams, run_bind_of_run (run_declare x w), run_bind_of_run (run_define ..), ih]
    exact congrArg (fun w => some ((), w)) (w.onward_onward (_, _) _)

/-- In a class, on the way to its methods. -/
theorem run_superclass (x : Ident) (super : Option Superclass) (ss : StaticScopes)
    (f : FunctionMode) (r : Resolution) :
    (superclass x super).run ⟨ss, ⟨f, .class_⟩, r⟩ =
      some ((), ⟨(methodScopes ss super).tail, ⟨f, classMode super⟩,
        r ++ ofSuperclass ss x super⟩) := by
  cases super with
  | none =>
    rw [ofSuperclass, append_empty]
    rfl
  | some p =>
    rw [ofSuperclass, ← append_assoc]
    rfl

theorem define_this (ss : StaticScopes) (super : Option Superclass) :
    StaticScopes.define (Bindings.empty :: (methodScopes ss super).tail) thisName =
      methodScopes ss super := rfl

theorem run_pop_methodScopes (ss : StaticScopes) (super : Option Superclass) (c : Surroundings)
    (r : Resolution) :
    pop.run ⟨methodScopes ss super, c, r⟩ = some ((), ⟨(methodScopes ss super).tail, c, r⟩) := rfl

theorem run_leaveSuperclass (super : Option Superclass) (ss : StaticScopes) (c : Surroundings)
    (r : Resolution) :
    (leaveSuperclass super).run ⟨(methodScopes ss super).tail, c, r⟩ = some ((), ⟨ss, c, r⟩) := by
  cases super <;> rfl

mutual

theorem run_stmt : ∀ (s : Stmt) (w : Resolver),
    (stmt s).run w = some ((), w.onward (ofStmt w.around w.scopes s))
  | .var x init _, w => by
    rw [stmt, ofStmt, run_bind_of_run (run_declare x w), run_bind_of_run (run_option init _),
      w.onward_onward, run_define]
    rfl
  | .block body _, w => by
    obtain ⟨sc, hsc⟩ := (Gains.ofStmts w.around (Bindings.empty :: w.scopes) body).exists_eq_cons
    rw [stmt, ofStmt, run_bind_of_run (run_push w), run_bind_of_run (run_stmts body _)]
    dsimp only [Resolver.onward]
    -- The scope to close is the one that was opened, with what the body declares.
    rw [hsc, run_pop_cons]
  | .ifElse cond t none _, w => by
    rw [stmt, ofStmt, run_bind_of_run (run_expr cond w), run_stmt t, w.onward_onward]
    rfl
  | .ifElse cond t (some e) _, w => by
    rw [stmt, ofStmt, run_bind_of_run (run_expr cond w), run_bind_of_run (run_stmt t _),
      run_stmt e, w.onward_onward, w.onward_onward]
    rfl
  | .while_ cond body _, w => by
    rw [stmt, ofStmt, run_bind_of_run (run_expr cond w), run_stmt body, w.onward_onward]
    rfl
  | .function d, w => by
    rw [stmt, ofStmt, run_bind_of_run (run_declare d.name w), run_bind_of_run (run_define ..),
      run_function]
    exact congrArg (fun w => some ((), w)) (w.onward_onward (_, _) _)
  | .class_ x super ms _, w => by
    rw [stmt, ofStmt, run_get_bind]
    dsimp only
    rw [run_bind_of_run (run_setClass ..), run_bind_of_run (run_declare ..),
      run_bind_of_run (run_define ..)]
    dsimp only [Resolver.onward]
    rw [run_bind_of_run (run_superclass ..), run_bind_of_run (run_push ..),
      run_bind_of_run (run_define ..), define_this, run_bind_of_run (run_methods ..)]
    dsimp only [Resolver.onward]
    -- Methods leave the scopes alone, so those that are closed are the ones for `this` and `super`.
    rw [run_bind_of_run (run_pop_methodScopes ..), run_bind_of_run (run_leaveSuperclass ..),
      run_setClass, append_assoc, append_assoc, ← append_assoc (duplicate ..)]
  | .print e _, w | .expr e _, w => by
    rw [stmt, ofStmt, run_expr e]
  | .return_ value sp, w => by
    rw [stmt, ofStmt, run_bind_of_run (run_find ..), run_option, w.onward_onward]
    rfl

theorem run_stmts : ∀ (body : List Stmt) (w : Resolver),
    (stmts body).run w = some ((), w.onward (ofStmts w.around w.scopes body))
  | [], w => by
    rw [stmts, ofStmts, w.onward_empty]
    rfl
  | s :: rest, w => by
    rw [stmts, ofStmts, run_bind_of_run (run_stmt s w), run_stmts rest, w.onward_onward]
    rfl

theorem run_function (f : FunctionMode) : ∀ (d : FunctionDecl) (w : Resolver),
    (function f d).run w =
      some ((), w.onward (w.scopes, ofFunction ⟨f, w.around.class_⟩ w.scopes d))
  | ⟨_, xs, body, _⟩, w => by
    obtain ⟨sc, hsc, -⟩ := StaticScopes.ofParams_cons Bindings.empty w.scopes xs
    obtain ⟨sc', hsc'⟩ := (Gains.ofStmts ⟨f, w.around.class_⟩ (sc :: w.scopes) body).exists_eq_cons
    rw [function, ofFunction, run_get_bind]
    dsimp only
    rw [run_bind_of_run (run_setFunction ..), run_bind_of_run (run_push ..),
      run_bind_of_run (run_params ..), run_bind_of_run (run_stmts body _)]
    dsimp only [Resolver.onward]
    rw [hsc, hsc', run_bind_of_run (run_pop_cons ..), run_setFunction, append_assoc]

theorem run_methods : ∀ (ds : List FunctionDecl) (w : Resolver),
    (methods ds).run w =
      some ((), w.onward (w.scopes, ofMethods w.around.class_ w.scopes ds))
  | [], w => by
    rw [methods, ofMethods, w.onward_empty]
    rfl
  | d :: ds, w => by
    rw [methods, ofMethods, run_bind_of_run (run_function _ d w), run_methods ds, w.onward_onward]
    rfl

end

end Resolving

end HostScript
