import HostScript.Proofs.Grammar
import HostScript.Resolution

/-!
# What resolution visits

The walk of resolution comes to every expression node of a program once. A `Visit` is a node with the
scopes in force and the class that the walk is in when it comes there. What resolution finds is what it
finds at its visits, and faults about declarations.
-/

namespace HostScript

/-- Declare a name in the innermost scope and mark it as defined. -/
def StaticScopes.introduce (ss : StaticScopes) (x : String) : StaticScopes :=
  (ss.declare x).define x

/-- A node, as resolution comes to it. -/
structure Visit where
  expr : Expr
  scopes : StaticScopes
  class_ : ClassMode

/-- The name that a node uses. -/
def Expr.used? : Expr → Option String
  | .var _ x | .assign _ x _ => some x.name
  | .this _ => some Resolution.thisName
  | .super _ _ => some Resolution.superName
  | _ => none

namespace Visit

/-- Visits of nodes at one place. -/
def ofNodes (ss : StaticScopes) (c : ClassMode) (nodes : List Expr) : List Visit :=
  nodes.map fun e => ⟨e, ss, c⟩

/-- How many scopes out the name that the node uses is declared. -/
def distance? (v : Visit) : Option Nat :=
  v.expr.used?.bind v.scopes.distance?

/-- What resolution finds at the node itself. -/
def resolution (v : Visit) : Resolution :=
  match v.expr with
  | .var m x => .read v.scopes m x
  | .assign m x _ => .use v.scopes m.id x.name
  | .this m => .this v.class_ v.scopes m
  | .super m _ => .super v.class_ v.scopes m
  | _ => .empty

theorem ofNodes_append (ss : StaticScopes) (c : ClassMode) (a b : List Expr) :
    ofNodes ss c (a ++ b) = ofNodes ss c a ++ ofNodes ss c b :=
  List.map_append

theorem map_expr_ofNodes (ss : StaticScopes) (c : ClassMode) (nodes : List Expr) :
    (ofNodes ss c nodes).map (·.expr) = nodes := by
  unfold ofNodes
  rw [List.map_map]
  exact List.map_id nodes

theorem mem_ofNodes {ss : StaticScopes} {c : ClassMode} {nodes : List Expr} {v : Visit} :
    v ∈ ofNodes ss c nodes ↔ v.expr ∈ nodes ∧ v.scopes = ss ∧ v.class_ = c := by
  unfold ofNodes
  rw [List.mem_map]
  constructor
  · rintro ⟨e, he, rfl⟩
    exact ⟨he, rfl, rfl⟩
  · rintro ⟨he, rfl, rfl⟩
    exact ⟨v.expr, he, rfl⟩

end Visit

/-! ### The visits of a program -/

mutual

def Stmt.visits (c : Surroundings) (ss : StaticScopes) : Stmt → List Visit
  | .var x init _ => Visit.ofNodes (ss.declare x.name) c.class_ (Expr.optionNodes init)
  | .block body _ => Stmt.listVisits c (Bindings.empty :: ss) body
  | .ifElse cond t none _ => Visit.ofNodes ss c.class_ cond.nodes ++ t.visits c ss
  | .ifElse cond t (some e) _ =>
    Visit.ofNodes ss c.class_ cond.nodes ++ t.visits c ss ++
      e.visits c (Resolution.ofStmt c ss t).1
  | .while_ cond body _ => Visit.ofNodes ss c.class_ cond.nodes ++ body.visits c ss
  | .function d => d.visits ⟨.function, c.class_⟩ (ss.introduce d.name.name)
  | .class_ x super ms _ =>
    Visit.ofNodes (ss.introduce x.name) c.class_ (Superclass.optionNodes super) ++
      FunctionDecl.listVisits (Resolution.classMode super)
        (Resolution.methodScopes (ss.introduce x.name) super) ms
  | .print e _ => Visit.ofNodes ss c.class_ e.nodes
  | .return_ value _ => Visit.ofNodes ss c.class_ (Expr.optionNodes value)
  | .expr e _ => Visit.ofNodes ss c.class_ e.nodes

def Stmt.listVisits (c : Surroundings) (ss : StaticScopes) : List Stmt → List Visit
  | [] => []
  | s :: rest => s.visits c ss ++ Stmt.listVisits c (Resolution.ofStmt c ss s).1 rest

def FunctionDecl.visits (c : Surroundings) (ss : StaticScopes) : FunctionDecl → List Visit
  | ⟨_, params, body, _⟩ =>
    Stmt.listVisits c (Resolution.ofParams (Bindings.empty :: ss) params).1 body

/-- The visits in methods of a class. -/
def FunctionDecl.listVisits (c : ClassMode) (ss : StaticScopes) : List FunctionDecl → List Visit
  | [] => []
  | d :: ds =>
    d.visits ⟨Resolution.methodMode d, c⟩ ss ++ FunctionDecl.listVisits c ss ds

end

def Program.visits (p : Program) : List Visit :=
  Stmt.listVisits .topLevel [] p.stmts

mutual

/-- Every node is visited once. -/
theorem Stmt.map_expr_visits (c : Surroundings) (ss : StaticScopes) :
    ∀ s : Stmt, (s.visits c ss).map (·.expr) = s.nodes
  | .var _ _ _ | .print _ _ | .return_ _ _ | .expr _ _ => by
    simp only [Stmt.visits, Stmt.nodes, Visit.map_expr_ofNodes]
  | .block body _ => by
    simp only [Stmt.visits, Stmt.nodes, Stmt.map_expr_listVisits _ _ body]
  | .ifElse _ t none _ => by
    simp only [Stmt.visits, Stmt.nodes, List.map_append, Visit.map_expr_ofNodes,
      Stmt.map_expr_visits _ _ t]
  | .ifElse _ t (some e) _ => by
    simp only [Stmt.visits, Stmt.nodes, List.map_append, Visit.map_expr_ofNodes,
      Stmt.map_expr_visits _ _ t, Stmt.map_expr_visits _ _ e]
  | .while_ _ body _ => by
    simp only [Stmt.visits, Stmt.nodes, List.map_append, Visit.map_expr_ofNodes,
      Stmt.map_expr_visits _ _ body]
  | .function d => by
    simp only [Stmt.visits, Stmt.nodes, FunctionDecl.map_expr_visits _ _ d]
  | .class_ _ _ ms _ => by
    simp only [Stmt.visits, Stmt.nodes, List.map_append, Visit.map_expr_ofNodes,
      FunctionDecl.map_expr_listVisits _ _ ms]

theorem Stmt.map_expr_listVisits (c : Surroundings) (ss : StaticScopes) :
    ∀ body : List Stmt, (Stmt.listVisits c ss body).map (·.expr) = Stmt.listNodes body
  | [] => rfl
  | s :: rest => by
    simp only [Stmt.listVisits, Stmt.listNodes, List.map_append, Stmt.map_expr_visits _ _ s,
      Stmt.map_expr_listVisits _ _ rest]

theorem FunctionDecl.map_expr_visits (c : Surroundings) (ss : StaticScopes) :
    ∀ d : FunctionDecl, (d.visits c ss).map (·.expr) = d.nodes
  | ⟨_, _, body, _⟩ => by
    simp only [FunctionDecl.visits, FunctionDecl.nodes, Stmt.map_expr_listVisits _ _ body]

theorem FunctionDecl.map_expr_listVisits (c : ClassMode) (ss : StaticScopes) :
    ∀ ds : List FunctionDecl,
      (FunctionDecl.listVisits c ss ds).map (·.expr) = FunctionDecl.listNodes ds
  | [] => rfl
  | d :: ds => by
    simp only [FunctionDecl.listVisits, FunctionDecl.listNodes, List.map_append,
      FunctionDecl.map_expr_visits _ _ d, FunctionDecl.map_expr_listVisits _ _ ds]

end

/-! ### What is found at the visits -/

namespace Resolution

/-- The distances of `r` are those found at the visits `vs`, and its faults include theirs. -/
structure Gathers (r : Resolution) (vs : List Visit) : Prop where
  locals : ∀ p, p ∈ r.locals ↔ ∃ v ∈ vs, p ∈ v.resolution.locals
  faults : ∀ v ∈ vs, v.resolution.faults ⊆ r.faults

namespace Gathers

variable {a b : Resolution} {vs ws : List Visit}

theorem empty : Resolution.empty.Gathers [] :=
  ⟨fun p => by simp [Resolution.empty], nofun⟩

theorem single (v : Visit) : v.resolution.Gathers [v] :=
  ⟨fun p => by simp, fun w hw => by rw [List.mem_singleton.mp hw]; exact List.Subset.refl _⟩

theorem append (ha : a.Gathers vs) (hb : b.Gathers ws) : (a ++ b).Gathers (vs ++ ws) where
  locals p := by
    have happ : p ∈ (a ++ b).locals ↔ p ∈ a.locals ∨ p ∈ b.locals := List.mem_append
    rw [happ, ha.locals, hb.locals]
    simp only [List.mem_append, or_and_right, exists_or]
  faults v hv := by
    rcases List.mem_append.mp hv with hv | hv
    · exact List.subset_append_of_subset_left _ (ha.faults v hv)
    · exact List.subset_append_of_subset_right _ (hb.faults v hv)

/-- The order of the visits does not matter. -/
theorem swap (h : a.Gathers (vs ++ ws)) : a.Gathers (ws ++ vs) where
  locals p := by
    rw [h.locals]
    simp only [List.mem_append, Or.comm]
  faults v hv := h.faults v (List.mem_append.mpr (List.mem_append.mp hv).symm)

/-- At most nodes nothing is found. -/
theorem snoc (h : a.Gathers vs) {v : Visit} (hv : v.resolution = .empty) :
    a.Gathers (vs ++ [v]) where
  locals p := by
    rw [h.locals]
    simp [or_and_right, exists_or, hv, Resolution.empty]
  faults w hw := by
    rcases List.mem_append.mp hw with hw | hw
    · exact h.faults w hw
    · rw [List.mem_singleton.mp hw, hv]
      exact List.nil_subset _

/-- Faults that are not found at a node. -/
theorem more (h : a.Gathers vs) (hb : b.locals = []) : (b ++ a).Gathers vs where
  locals p := by
    have happ : p ∈ (b ++ a).locals ↔ p ∈ b.locals ∨ p ∈ a.locals := List.mem_append
    rw [happ, hb, ← h.locals]
    simp
  faults v hv := List.subset_append_of_subset_right _ (h.faults v hv)

end Gathers

theorem append_assoc (a b d : Resolution) : a ++ b ++ d = a ++ (b ++ d) := by
  change Resolution.mk _ _ = Resolution.mk _ _
  congr 1 <;> exact List.append_assoc ..

theorem append_empty (a : Resolution) : a ++ Resolution.empty = a := by
  change Resolution.mk _ _ = Resolution.mk _ _
  congr 1 <;> exact List.append_nil _

theorem locals_faultIf (p : Bool) (c : Cause) (span : Span) (lexeme : String) :
    (faultIf p c span lexeme).locals = [] := by
  unfold faultIf
  split <;> rfl

theorem locals_append (a b : Resolution) : (a ++ b).locals = a.locals ++ b.locals := rfl

theorem mem_locals_use {ss : StaticScopes} {id : Nat} {x : String} {p : Nat × Nat} :
    p ∈ (use ss id x).locals ↔ p.1 = id ∧ ss.distance? x = some p.2 := by
  unfold use
  split
  · rename_i d hd
    rw [List.mem_singleton, hd, Option.some.injEq]
    exact ⟨fun h => h ▸ ⟨rfl, rfl⟩, fun ⟨h₁, h₂⟩ => Prod.ext h₁ h₂.symm⟩
  · rename_i hd
    rw [hd]
    simp [empty]

theorem locals_ofParams (ss : StaticScopes) (xs : List Ident) : (ofParams ss xs).2.locals = [] := by
  induction xs generalizing ss with
  | nil => rfl
  | cons x xs ih => rw [ofParams, locals_append, duplicate, locals_faultIf, ih]; rfl

mutual

theorem gathers_ofExpr (c : ClassMode) (ss : StaticScopes) :
    ∀ e : Expr, (ofExpr c ss e).Gathers (Visit.ofNodes ss c e.nodes)
  | .literal k v => .single ⟨.literal k v, ss, c⟩
  | .var k x => .single ⟨.var k x, ss, c⟩
  | .this k => .single ⟨.this k, ss, c⟩
  | .super k x => .single ⟨.super k x, ss, c⟩
  | .assign k x v => by
    rw [ofExpr, Expr.nodes, Visit.ofNodes_append]
    exact (gathers_ofExpr c ss v).append (.single ⟨.assign k x v, ss, c⟩)
  | .unary _ _ e | .get _ e _ | .grouping _ e => by
    rw [ofExpr, Expr.nodes, Visit.ofNodes_append]
    exact (gathers_ofExpr c ss e).snoc rfl
  | .binary _ l _ r | .logical _ l _ r => by
    rw [ofExpr, Expr.nodes, Visit.ofNodes_append, Visit.ofNodes_append]
    exact ((gathers_ofExpr c ss l).append (gathers_ofExpr c ss r)).snoc rfl
  | .set _ o _ v => by
    rw [ofExpr, Expr.nodes, Visit.ofNodes_append, Visit.ofNodes_append]
    -- The value is resolved before the object.
    exact ((gathers_ofExpr c ss v).append (gathers_ofExpr c ss o)).swap.snoc rfl
  | .call _ f as => by
    rw [ofExpr, Expr.nodes, Visit.ofNodes_append, Visit.ofNodes_append]
    exact ((gathers_ofExpr c ss f).append (gathers_ofExprs c ss as)).snoc rfl

theorem gathers_ofExprs (c : ClassMode) (ss : StaticScopes) :
    ∀ es : List Expr, (ofExprs c ss es).Gathers (Visit.ofNodes ss c (Expr.listNodes es))
  | [] => .empty
  | e :: es => by
    rw [ofExprs, Expr.listNodes, Visit.ofNodes_append]
    exact (gathers_ofExpr c ss e).append (gathers_ofExprs c ss es)

end

theorem gathers_ofOption (c : ClassMode) (ss : StaticScopes) (e : Option Expr) :
    (ofOption c ss e).Gathers (Visit.ofNodes ss c (Expr.optionNodes e)) := by
  cases e with
  | none => exact .empty
  | some e => exact gathers_ofExpr c ss e

theorem gathers_ofSuperclass (c : ClassMode) (ss : StaticScopes) (x : Ident)
    (super : Option Superclass) :
    (ofSuperclass ss x super).Gathers (Visit.ofNodes ss c (Superclass.optionNodes super)) := by
  cases super with
  | none => exact .empty
  | some p => exact (Gathers.single ⟨p.toExpr, ss, c⟩).more (locals_faultIf ..)

mutual

theorem gathers_ofStmt (c : Surroundings) (ss : StaticScopes) :
    ∀ s : Stmt, (ofStmt c ss s).2.Gathers (s.visits c ss)
  | .var x init _ => by
    rw [ofStmt, Stmt.visits]
    exact (gathers_ofOption ..).more (locals_faultIf ..)
  | .block body _ => by
    rw [ofStmt, Stmt.visits]
    exact gathers_ofStmts c _ body
  | .ifElse cond t none _ => by
    rw [ofStmt, Stmt.visits]
    exact (gathers_ofExpr _ _ cond).append (gathers_ofStmt c ss t)
  | .ifElse cond t (some e) _ => by
    rw [ofStmt, Stmt.visits]
    exact ((gathers_ofExpr _ _ cond).append (gathers_ofStmt c ss t)).append (gathers_ofStmt c _ e)
  | .while_ cond body _ => by
    rw [ofStmt, Stmt.visits]
    exact (gathers_ofExpr _ _ cond).append (gathers_ofStmt c ss body)
  | .function d => by
    rw [ofStmt, Stmt.visits]
    exact (gathers_ofFunction _ _ d).more (locals_faultIf ..)
  | .class_ x super ms _ => by
    rw [ofStmt, Stmt.visits]
    have hsuper := gathers_ofSuperclass c.class_ (ss.introduce x.name) x super
    exact (hsuper.more (locals_faultIf ..)).append (gathers_ofMethods _ _ ms)
  | .print e _ | .expr e _ => by
    rw [ofStmt, Stmt.visits]
    exact gathers_ofExpr _ _ e
  | .return_ value sp => by
    rw [ofStmt, Stmt.visits]
    refine (gathers_ofOption _ _ value).more ?_
    rw [ofReturn, locals_append, locals_faultIf, locals_faultIf]
    rfl

theorem gathers_ofStmts (c : Surroundings) (ss : StaticScopes) :
    ∀ body : List Stmt, (ofStmts c ss body).2.Gathers (Stmt.listVisits c ss body)
  | [] => .empty
  | s :: rest => by
    rw [ofStmts, Stmt.listVisits]
    exact (gathers_ofStmt c ss s).append (gathers_ofStmts c _ rest)

theorem gathers_ofFunction (c : Surroundings) (ss : StaticScopes) :
    ∀ d : FunctionDecl, (ofFunction c ss d).Gathers (d.visits c ss)
  | ⟨_, params, body, _⟩ => by
    rw [ofFunction, FunctionDecl.visits]
    exact (gathers_ofStmts c _ body).more (locals_ofParams ..)

theorem gathers_ofMethods (c : ClassMode) (ss : StaticScopes) :
    ∀ ds : List FunctionDecl, (ofMethods c ss ds).Gathers (FunctionDecl.listVisits c ss ds)
  | [] => .empty
  | d :: ds => by
    rw [ofMethods, FunctionDecl.listVisits]
    exact (gathers_ofFunction _ ss d).append (gathers_ofMethods c ss ds)

end

/-! ### Outside every scope -/

theorem ofStmt_nil (c : Surroundings) : ∀ s : Stmt, (ofStmt c [] s).1 = []
  | .var _ _ _ | .function _ | .class_ _ _ _ _ => by rw [ofStmt]; rfl
  | .block _ _ | .print _ _ | .return_ _ _ | .expr _ _ => by rw [ofStmt]
  | .ifElse _ t none _ => by
    rw [ofStmt]
    exact ofStmt_nil c t
  | .ifElse _ t (some e) _ => by
    rw [ofStmt]
    dsimp only
    rw [ofStmt_nil c t]
    exact ofStmt_nil c e
  | .while_ _ body _ => by
    rw [ofStmt]
    exact ofStmt_nil c body

end Resolution

/-- What is recorded at a node is recorded for its number, and is the distance of the name that it uses. -/
theorem Visit.of_mem_locals {v : Visit} {p : Nat × Nat} (h : p ∈ v.resolution.locals) :
    p.1 = v.expr.id ∧ v.distance? = some p.2 := by
  obtain ⟨e, ss, c⟩ := v
  unfold Visit.resolution at h
  cases e with
  | var k x =>
    dsimp only at h
    rw [Resolution.read, Resolution.locals_append, Resolution.locals_faultIf] at h
    exact Resolution.mem_locals_use.mp h
  | assign k x e => exact Resolution.mem_locals_use.mp h
  | this k =>
    cases c with
    | none => cases h
    | class_ | subclass => exact Resolution.mem_locals_use.mp h
  | super k x => cases c <;> exact Resolution.mem_locals_use.mp h
  | _ => cases h

end HostScript
