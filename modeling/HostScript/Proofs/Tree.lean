import HostScript.Syntax

/-!
# Parts of syntax trees

The expressions and statements directly inside a node, all expression nodes of a tree, and the names
that a tree declares or assigns to.
-/

namespace HostScript

/-- The expressions directly inside an expression. -/
def Expr.children : Expr → List Expr
  | literal _ _ | var _ _ | this _ | super _ _ => []
  | assign _ _ e | unary _ _ e | get _ e _ | grouping _ e => [e]
  | binary _ l _ r | logical _ l _ r => [l, r]
  | set _ o _ v => [o, v]
  | call _ f as => f :: as

namespace Stmt

/-- The expressions directly inside a statement, apart from the name of a superclass. -/
def exprs : Stmt → List Expr
  | expr e _ | print e _ | var _ (some e) _ | return_ (some e) _ | ifElse e _ _ _
  | while_ e _ _ => [e]
  | _ => []

/-- The statements that a statement may run in its own scope. -/
def branches : Stmt → List Stmt
  | ifElse _ t none _ => [t]
  | ifElse _ t (some e) _ => [t, e]
  | while_ _ s _ => [s]
  | _ => []

/-- The name that a statement binds in its scope. -/
def declares : Stmt → Option String
  | var x _ _ => some x.name
  | function d => some d.name.name
  | class_ x _ _ _ => some x.name
  | _ => none

end Stmt

/-! ### All nodes

The nodes of a tree in the order in which they are numbered: those inside a node before the node. -/

mutual

/-- The nodes of an expression, itself among them. -/
def Expr.nodes : Expr → List Expr
  | .literal k v => [.literal k v]
  | .var k x => [.var k x]
  | .this k => [.this k]
  | .super k x => [.super k x]
  | .assign k x v => v.nodes ++ [.assign k x v]
  | .unary k op e => e.nodes ++ [.unary k op e]
  | .get k o x => o.nodes ++ [.get k o x]
  | .grouping k e => e.nodes ++ [.grouping k e]
  | .binary k l op r => l.nodes ++ r.nodes ++ [.binary k l op r]
  | .logical k l op r => l.nodes ++ r.nodes ++ [.logical k l op r]
  | .set k o x v => o.nodes ++ v.nodes ++ [.set k o x v]
  | .call k f as => f.nodes ++ Expr.listNodes as ++ [.call k f as]

def Expr.listNodes : List Expr → List Expr
  | [] => []
  | e :: es => e.nodes ++ Expr.listNodes es

end

theorem Expr.mem_nodes_self (e : Expr) : e ∈ e.nodes := by
  cases e <;> simp [Expr.nodes]

def Expr.optionNodes : Option Expr → List Expr
  | none => []
  | some e => e.nodes

def Superclass.optionNodes : Option Superclass → List Expr
  | none => []
  | some p => [p.toExpr]

mutual

/-- The expression nodes in a statement, the name of a superclass among them. -/
def Stmt.nodes : Stmt → List Expr
  | .var _ init _ => Expr.optionNodes init
  | .block body _ => Stmt.listNodes body
  | .ifElse cond t none _ => cond.nodes ++ t.nodes
  | .ifElse cond t (some e) _ => cond.nodes ++ t.nodes ++ e.nodes
  | .while_ cond body _ => cond.nodes ++ body.nodes
  | .function d => d.nodes
  | .class_ _ super ms _ => Superclass.optionNodes super ++ FunctionDecl.listNodes ms
  | .print e _ => e.nodes
  | .return_ value _ => Expr.optionNodes value
  | .expr e _ => e.nodes

def Stmt.listNodes : List Stmt → List Expr
  | [] => []
  | s :: rest => s.nodes ++ Stmt.listNodes rest

def FunctionDecl.nodes : FunctionDecl → List Expr
  | ⟨_, _, body, _⟩ => Stmt.listNodes body

def FunctionDecl.listNodes : List FunctionDecl → List Expr
  | [] => []
  | d :: ds => d.nodes ++ FunctionDecl.listNodes ds

end

theorem Expr.nodes_eq (e : Expr) : e.nodes = Expr.listNodes e.children ++ [e] := by
  cases e <;> simp [Expr.nodes, Expr.listNodes, Expr.children]

theorem Expr.mem_listNodes {es : List Expr} {n : Expr} :
    n ∈ Expr.listNodes es ↔ ∃ e ∈ es, n ∈ e.nodes := by
  induction es with
  | nil => simp [Expr.listNodes]
  | cons e es ih => simp [Expr.listNodes, ih]

theorem Stmt.mem_listNodes {ts : List Stmt} {n : Expr} :
    n ∈ Stmt.listNodes ts ↔ ∃ t ∈ ts, n ∈ t.nodes := by
  induction ts with
  | nil => simp [Stmt.listNodes]
  | cons t ts ih => simp [Stmt.listNodes, ih]

theorem FunctionDecl.nodes_eq (d : FunctionDecl) : d.nodes = Stmt.listNodes d.body := by
  cases d
  rw [FunctionDecl.nodes]

theorem FunctionDecl.mem_listNodes {ds : List FunctionDecl} {n : Expr} :
    n ∈ FunctionDecl.listNodes ds ↔ ∃ d ∈ ds, ∃ t ∈ d.body, n ∈ t.nodes := by
  induction ds with
  | nil => simp [FunctionDecl.listNodes]
  | cons d ds ih => simp [FunctionDecl.listNodes, FunctionDecl.nodes_eq, Stmt.mem_listNodes, ih]

/-! ### Spans -/

/-- The names that stand in a node, outside the nodes inside it. -/
def Expr.idents : Expr → List Ident
  | .var _ x | .assign _ x _ | .get _ _ x | .set _ _ x _ | .super _ x => [x]
  | _ => []

/-- All nodes of an expression and all names in it have spans with a property. -/
def Expr.Spans (P : Span → Prop) (e : Expr) : Prop :=
  ∀ n ∈ e.nodes, P n.span ∧ ∀ x ∈ n.idents, P x.span

/-- The spans in an expression are those in the expressions directly inside it and its own. -/
theorem Expr.spans_iff {P : Span → Prop} {e : Expr} :
    e.Spans P ↔ (∀ c ∈ e.children, c.Spans P) ∧ P e.span ∧ ∀ x ∈ e.idents, P x.span := by
  unfold Expr.Spans
  rw [Expr.nodes_eq, List.forall_mem_append, List.forall_mem_singleton]
  refine and_congr_left fun _ => ⟨fun h c hc n hn => h n (Expr.mem_listNodes.mpr ⟨c, hc, hn⟩), ?_⟩
  intro h n hn
  obtain ⟨c, hc, hn⟩ := Expr.mem_listNodes.mp hn
  exact h c hc n hn

/-! ### Names that are bound -/

/-- The name that a node assigns to. -/
def Expr.target? : Expr → Option String
  | .assign _ x _ => some x.name
  | _ => none

/-- The names that nodes assign to. -/
def Expr.targets (es : List Expr) : List String :=
  es.filterMap Expr.target?

mutual

/-- The names that a statement declares or assigns to, in itself or in what is inside it. -/
def Stmt.names : Stmt → List String
  | .var x init _ => x.name :: Expr.targets (Expr.optionNodes init)
  | .block body _ => Stmt.listNames body
  | .ifElse cond t none _ => Expr.targets cond.nodes ++ t.names
  | .ifElse cond t (some e) _ => Expr.targets cond.nodes ++ t.names ++ e.names
  | .while_ cond body _ => Expr.targets cond.nodes ++ body.names
  | .function d => d.names
  | .class_ x _ ms _ => x.name :: FunctionDecl.listNames ms
  | .print e _ => Expr.targets e.nodes
  | .return_ value _ => Expr.targets (Expr.optionNodes value)
  | .expr e _ => Expr.targets e.nodes

def Stmt.listNames : List Stmt → List String
  | [] => []
  | s :: rest => s.names ++ Stmt.listNames rest

def FunctionDecl.names : FunctionDecl → List String
  | ⟨x, params, body, _⟩ => x.name :: params.map (·.name) ++ Stmt.listNames body

def FunctionDecl.listNames : List FunctionDecl → List String
  | [] => []
  | d :: ds => d.names ++ FunctionDecl.listNames ds

end

theorem Stmt.mem_listNames {ts : List Stmt} {x : String} :
    x ∈ Stmt.listNames ts ↔ ∃ t ∈ ts, x ∈ t.names := by
  induction ts with
  | nil => simp [Stmt.listNames]
  | cons t ts ih => simp [Stmt.listNames, ih]

theorem FunctionDecl.mem_listNames {ds : List FunctionDecl} {x : String} :
    x ∈ FunctionDecl.listNames ds ↔ ∃ d ∈ ds, x ∈ d.names := by
  induction ds with
  | nil => simp [FunctionDecl.listNames]
  | cons d ds ih => simp [FunctionDecl.listNames, ih]

theorem Stmt.mem_names_of_declares {s : Stmt} {x : String} (h : s.declares = some x) :
    x ∈ s.names := by
  cases s with
  | var y init sp => cases h; simp [Stmt.names]
  | function d => cases h; cases d; simp [Stmt.names, FunctionDecl.names]
  | class_ y super ms sp => cases h; simp [Stmt.names]
  | _ => cases h

end HostScript
