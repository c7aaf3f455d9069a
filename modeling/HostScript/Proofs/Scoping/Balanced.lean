import HostScript.Proofs.Scoping.Stepwise

/-!
# The walk is balanced

However blocks, functions and classes are nested, and whatever faults are found, a statement leaves the scopes
around the innermost one as they were, and gives the innermost one the names that it declares and no others.
So the scopes that the walk closes are those that it opened, and how many are in force at a node can be read
off the program: `Stmt.heights` counts what is around the node. Distances are recorded for nodes that use a
name, and lead to one of these scopes.
-/

namespace HostScript

/-! ### How many scopes are in force -/

mutual

/-- The nodes of a statement with `n` scopes around it, each with the number of scopes around the node. Blocks
and functions have a scope of their own. Methods are inside one more, and in a subclass inside two more. -/
def Stmt.heights (n : Nat) : Stmt → List (Expr × Nat)
  | .var _ init _ => (Expr.optionNodes init).map (·, n)
  | .block body _ => Stmt.listHeights (n + 1) body
  | .ifElse cond t none _ => cond.nodes.map (·, n) ++ t.heights n
  | .ifElse cond t (some e) _ => cond.nodes.map (·, n) ++ t.heights n ++ e.heights n
  | .while_ cond body _ => cond.nodes.map (·, n) ++ body.heights n
  | .function d => d.heights n
  | .class_ _ super ms _ =>
    (Superclass.optionNodes super).map (·, n) ++
      FunctionDecl.listHeights (if super.isSome then n + 2 else n + 1) ms
  | .print e _ => e.nodes.map (·, n)
  | .return_ value _ => (Expr.optionNodes value).map (·, n)
  | .expr e _ => e.nodes.map (·, n)

def Stmt.listHeights (n : Nat) : List Stmt → List (Expr × Nat)
  | [] => []
  | s :: rest => s.heights n ++ Stmt.listHeights n rest

def FunctionDecl.heights (n : Nat) : FunctionDecl → List (Expr × Nat)
  | ⟨_, _, body, _⟩ => Stmt.listHeights (n + 1) body

def FunctionDecl.listHeights (n : Nat) : List FunctionDecl → List (Expr × Nat)
  | [] => []
  | d :: ds => d.heights n ++ FunctionDecl.listHeights n ds

end

namespace StaticScopes

theorem length_declare (ss : StaticScopes) (x : String) : (ss.declare x).length = ss.length := by
  cases ss with
  | nil => rfl
  | cons sc ss => rw [declare_cons]; rfl

theorem length_introduce (ss : StaticScopes) (x : String) :
    (ss.introduce x).length = ss.length := by
  cases ss with
  | nil => rfl
  | cons sc ss =>
    obtain ⟨sc', heq, -⟩ := introduce_cons sc ss x
    rw [heq]
    rfl

theorem length_ofParams (sc : StaticScope) (ss : StaticScopes) (xs : List Ident) :
    (Resolution.ofParams (sc :: ss) xs).1.length = ss.length + 1 := by
  obtain ⟨sc', heq, -⟩ := ofParams_cons sc ss xs
  rw [heq]
  rfl

theorem length_methodScopes (ss : StaticScopes) (super : Option Superclass) :
    (Resolution.methodScopes ss super).length =
      if super.isSome then ss.length + 2 else ss.length + 1 := by
  cases super <;> rfl

theorem lt_length_of_distance? {ss : StaticScopes} {x : String} {d : Nat}
    (h : ss.distance? x = some d) : d < ss.length := by
  obtain ⟨sc, hsc, -⟩ := contains_of_distance? h
  exact (List.getElem?_eq_some_iff.mp hsc).1

end StaticScopes

namespace Visit

/-- A node with the number of scopes in force at it. -/
def height (v : Visit) : Expr × Nat :=
  (v.expr, v.scopes.length)

theorem map_height_ofNodes (ss : StaticScopes) (c : ClassMode) (nodes : List Expr) :
    (ofNodes ss c nodes).map height = nodes.map (·, ss.length) := by
  unfold ofNodes
  rw [List.map_map]
  rfl

end Visit

open StaticScopes

mutual

/-- The scopes in force at a node are those around it in the program, and those in force before. -/
theorem Stmt.map_height_visits (c : Surroundings) :
    ∀ (s : Stmt) (ss : StaticScopes), (s.visits c ss).map Visit.height = s.heights ss.length
  | .var x _ _, ss => by
    rw [Stmt.visits, Stmt.heights, Visit.map_height_ofNodes, length_declare]
  | .print _ _, ss | .return_ _ _, ss | .expr _ _, ss => by
    rw [Stmt.visits, Stmt.heights, Visit.map_height_ofNodes]
  | .block body _, ss => by
    rw [Stmt.visits, Stmt.heights, Stmt.map_height_listVisits c body]
    rfl
  | .ifElse _ t none _, ss => by
    rw [Stmt.visits, Stmt.heights, List.map_append, Visit.map_height_ofNodes,
      Stmt.map_height_visits c t]
  | .ifElse _ t (some e) _, ss => by
    rw [Stmt.visits, Stmt.heights, List.map_append, List.map_append, Visit.map_height_ofNodes,
      Stmt.map_height_visits c t, Stmt.map_height_visits c e, (Gains.ofStmt c ss t).length]
  | .while_ _ body _, ss => by
    rw [Stmt.visits, Stmt.heights, List.map_append, Visit.map_height_ofNodes,
      Stmt.map_height_visits c body]
  | .function d, ss => by
    rw [Stmt.visits, Stmt.heights, FunctionDecl.map_height_visits d, length_introduce]
  | .class_ x super ms _, ss => by
    rw [Stmt.visits, Stmt.heights, List.map_append, Visit.map_height_ofNodes,
      FunctionDecl.map_height_listVisits ms, length_methodScopes, length_introduce]

theorem Stmt.map_height_listVisits (c : Surroundings) :
    ∀ (body : List Stmt) (ss : StaticScopes),
      (Stmt.listVisits c ss body).map Visit.height = Stmt.listHeights ss.length body
  | [], _ => rfl
  | s :: rest, ss => by
    rw [Stmt.listVisits, Stmt.listHeights, List.map_append, Stmt.map_height_visits c s,
      Stmt.map_height_listVisits c rest, (Gains.ofStmt c ss s).length]

theorem FunctionDecl.map_height_visits :
    ∀ (d : FunctionDecl) (c : Surroundings) (ss : StaticScopes),
      (d.visits c ss).map Visit.height = d.heights ss.length
  | ⟨_, xs, body, _⟩, c, ss => by
    rw [FunctionDecl.visits, FunctionDecl.heights, Stmt.map_height_listVisits c body, length_ofParams]

theorem FunctionDecl.map_height_listVisits :
    ∀ (ds : List FunctionDecl) (c : ClassMode) (ss : StaticScopes),
      (FunctionDecl.listVisits c ss ds).map Visit.height = FunctionDecl.listHeights ss.length ds
  | [], _, _ => rfl
  | d :: ds, c, ss => by
    rw [FunctionDecl.listVisits, FunctionDecl.listHeights, List.map_append,
      FunctionDecl.map_height_visits d, FunctionDecl.map_height_listVisits ds]

end

/-! ### What is recorded -/

/-- `p` is the number of the node, which uses a name, and the distance of the name. The distance leads to a
scope that is in force at the node. -/
structure Visit.Records (v : Visit) (p : Nat × Nat) : Prop where
  id : v.expr.id = p.1
  used : ∃ x, v.expr.used? = some x ∧ v.scopes.distance? x = some p.2
  lt : p.2 < v.scopes.length

theorem Visit.records_of_mem_locals {v : Visit} {p : Nat × Nat} (h : p ∈ v.resolution.locals) :
    v.Records p := by
  obtain ⟨hid, hdistance⟩ := Visit.of_mem_locals h
  obtain ⟨x, hx, hd⟩ := Option.bind_eq_some_iff.mp hdistance
  exact ⟨hid.symm, ⟨x, hx, hd⟩, lt_length_of_distance? hd⟩

namespace Resolution

theorem records_of_mem_ofExpr {c : ClassMode} {ss : StaticScopes} {e : Expr} {p : Nat × Nat}
    (h : p ∈ (ofExpr c ss e).locals) : ∃ e' ∈ e.nodes, (Visit.mk e' ss c).Records p := by
  obtain ⟨⟨e', ss', c'⟩, hv, hp⟩ := ((gathers_ofExpr c ss e).locals p).mp h
  obtain ⟨hnode, rfl, rfl⟩ := Visit.mem_ofNodes.mp hv
  exact ⟨e', hnode, Visit.records_of_mem_locals hp⟩

theorem records_of_mem_ofStmt {c : Surroundings} {ss : StaticScopes} {s : Stmt} {p : Nat × Nat}
    (h : p ∈ (ofStmt c ss s).2.locals) :
    ∃ v ∈ s.visits c ss, v.height ∈ s.heights ss.length ∧ v.Records p := by
  obtain ⟨v, hv, hp⟩ := ((gathers_ofStmt c ss s).locals p).mp h
  refine ⟨v, hv, ?_, Visit.records_of_mem_locals hp⟩
  rw [← Stmt.map_height_visits c s ss]
  exact List.mem_map_of_mem hv

end Resolution

/-- The walk is balanced, whatever its state and whatever it finds. It breaks off only where a scope is closed
and none is open, and it never breaks off. Behind a statement as many scopes are open as before, the outer ones
are the same, and the innermost one has got the names that the statement declares in it, all of them defined.
The function and the class are those of before. An expression changes nothing but what is found. What is
recorded is recorded for nodes that use a name, with a distance within the scopes around the node. -/
theorem resolution_balanced :
    (∀ w : Resolver, Resolving.pop.run w = none ↔ w.scopes = []) ∧
    (∀ (s : Stmt) (w : Resolver),
      let r := Resolution.ofStmt w.around w.scopes s
      (Resolving.stmt s).run w = some ((), ⟨r.1, w.around, w.found ++ r.2⟩) ∧
      w.scopes.Gains s.introduces r.1 ∧
      ∀ p ∈ r.2.locals, ∃ v ∈ s.visits w.around w.scopes,
        v.height ∈ s.heights w.scopes.length ∧ v.Records p) ∧
    (∀ (e : Expr) (w : Resolver),
      let r := Resolution.ofExpr w.around.class_ w.scopes e
      (Resolving.expr e).run w = some ((), ⟨w.scopes, w.around, w.found ++ r⟩) ∧
      ∀ p ∈ r.locals, ∃ e' ∈ e.nodes, (Visit.mk e' w.scopes w.around.class_).Records p) ∧
    ∀ p : Program, (Resolving.stmts p.stmts).run .start =
      some ((), ⟨[], .topLevel, Resolution.ofProgram p⟩) := by
  refine ⟨fun w => Resolving.run_pop_eq_none_iff, fun s w => ⟨Resolving.run_stmt s w, ?_, ?_⟩,
    fun e w => ⟨Resolving.run_expr e w, ?_⟩, fun p => ?_⟩
  · exact .ofStmt w.around w.scopes s
  · exact fun p hp => Resolution.records_of_mem_ofStmt hp
  · exact fun p hp => Resolution.records_of_mem_ofExpr hp
  · have hscopes := (Gains.ofStmts .topLevel [] p.stmts).eq_nil
    rw [Resolving.run_stmts]
    exact congrArg (fun ss => some ((), Resolver.mk ss _ _)) hscopes

/-- A subclass with two faults: `class B < A { init(x, x) { return super.m; } }`. -/
def Stmt.faultySubclass : Stmt :=
  let sp := Span.point 1 1
  let body : Stmt := .return_ (some (.super ⟨1, sp⟩ ⟨"m", sp⟩)) sp
  .class_ ⟨"B", sp⟩ (some ⟨⟨0, sp⟩, ⟨"A", sp⟩⟩)
    [⟨⟨"init", sp⟩, [⟨"x", sp⟩, ⟨"x", sp⟩], [body], sp⟩] sp

/-- In a method of a class, behind the declaration of `A`. -/
def Resolver.inMethod : Resolver :=
  ⟨[Bindings.empty.insert "A" true], ⟨.method, .class_⟩, .empty⟩

/-- Three more scopes are opened and closed. From within them, the one of `super` is found two scopes out. -/
theorem resolution_balanced_faultySubclass :
    let w := Resolver.inMethod
    let s := Stmt.faultySubclass
    let r := Resolution.ofStmt w.around w.scopes s
    r.2.faults.map (·.cause) = [.duplicateDeclaration, .returnValueInInitializer] ∧
      (Resolving.stmt s).run w = some ((), ⟨r.1, ⟨.method, .class_⟩, .empty ++ r.2⟩) ∧
      w.scopes.Gains ["B"] r.1 ∧
      (1, 2) ∈ r.2.locals ∧
      ∃ v ∈ s.visits w.around w.scopes, v.height ∈ s.heights 1 ∧ v.Records (1, 2) ∧
        v.scopes.length = 4 := by
  intro w s r
  have hlocal : (1, 2) ∈ r.2.locals := by decide +kernel
  obtain ⟨hrun, hgains, hlocals⟩ := resolution_balanced.2.1 s w
  obtain ⟨v, hv, hheight, hrecords⟩ := hlocals (1, 2) hlocal
  have hheights : ∀ q ∈ s.heights 1, q.1.id = 1 → q.2 = 4 := by decide +kernel
  exact ⟨by decide +kernel, hrun, hgains, hlocal, v, hv, hheight, hrecords,
    hheights v.height hheight hrecords.id⟩

end HostScript
