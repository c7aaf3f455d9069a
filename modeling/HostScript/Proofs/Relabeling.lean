import HostScript.Proofs.Tree

/-!
# Trees with other labels

The labels of a tree are the numbers and spans of its nodes and the spans of its names and statements.
A `Relabeling` puts other labels in their place and leaves the rest as it is. Two trees are the same up
to labels if blotting out every label makes them equal.
-/

namespace HostScript

/-- Other labels for a tree. -/
structure Relabeling where
  mark : Mark → Mark
  span : Span → Span

namespace Relabeling

/-- Blot out every label. -/
def blank : Relabeling := ⟨fun _ => ⟨0, default⟩, fun _ => default⟩

/-- Count the nodes from a number that is greater by `k`. -/
def shift (k : Nat) : Relabeling := ⟨fun m => { m with id := m.id + k }, id⟩

end Relabeling

def Ident.relabel (ρ : Relabeling) (x : Ident) : Ident :=
  { x with span := ρ.span x.span }

mutual

def Expr.relabel (ρ : Relabeling) : Expr → Expr
  | .literal m v => .literal (ρ.mark m) v
  | .var m x => .var (ρ.mark m) (x.relabel ρ)
  | .this m => .this (ρ.mark m)
  | .super m x => .super (ρ.mark m) (x.relabel ρ)
  | .assign m x v => .assign (ρ.mark m) (x.relabel ρ) (v.relabel ρ)
  | .unary m op e => .unary (ρ.mark m) op (e.relabel ρ)
  | .get m o x => .get (ρ.mark m) (o.relabel ρ) (x.relabel ρ)
  | .grouping m e => .grouping (ρ.mark m) (e.relabel ρ)
  | .binary m l op r => .binary (ρ.mark m) (l.relabel ρ) op (r.relabel ρ)
  | .logical m l op r => .logical (ρ.mark m) (l.relabel ρ) op (r.relabel ρ)
  | .set m o x v => .set (ρ.mark m) (o.relabel ρ) (x.relabel ρ) (v.relabel ρ)
  | .call m f as => .call (ρ.mark m) (f.relabel ρ) (Expr.listRelabel ρ as)

def Expr.listRelabel (ρ : Relabeling) : List Expr → List Expr
  | [] => []
  | e :: es => e.relabel ρ :: Expr.listRelabel ρ es

end

def Superclass.relabel (ρ : Relabeling) (p : Superclass) : Superclass :=
  ⟨ρ.mark p.mark, p.name.relabel ρ⟩

mutual

def Stmt.relabel (ρ : Relabeling) : Stmt → Stmt
  | .var x init sp => .var (x.relabel ρ) (init.map (Expr.relabel ρ)) (ρ.span sp)
  | .block body sp => .block (Stmt.listRelabel ρ body) (ρ.span sp)
  | .ifElse cond t none sp => .ifElse (cond.relabel ρ) (t.relabel ρ) none (ρ.span sp)
  | .ifElse cond t (some e) sp =>
    .ifElse (cond.relabel ρ) (t.relabel ρ) (some (e.relabel ρ)) (ρ.span sp)
  | .while_ cond body sp => .while_ (cond.relabel ρ) (body.relabel ρ) (ρ.span sp)
  | .function d => .function (d.relabel ρ)
  | .class_ x super ms sp =>
    .class_ (x.relabel ρ) (super.map (Superclass.relabel ρ)) (FunctionDecl.listRelabel ρ ms)
      (ρ.span sp)
  | .print e sp => .print (e.relabel ρ) (ρ.span sp)
  | .return_ value sp => .return_ (value.map (Expr.relabel ρ)) (ρ.span sp)
  | .expr e sp => .expr (e.relabel ρ) (ρ.span sp)

def Stmt.listRelabel (ρ : Relabeling) : List Stmt → List Stmt
  | [] => []
  | s :: rest => s.relabel ρ :: Stmt.listRelabel ρ rest

def FunctionDecl.relabel (ρ : Relabeling) : FunctionDecl → FunctionDecl
  | ⟨x, params, body, sp⟩ =>
    ⟨x.relabel ρ, params.map (Ident.relabel ρ), Stmt.listRelabel ρ body, ρ.span sp⟩

def FunctionDecl.listRelabel (ρ : Relabeling) : List FunctionDecl → List FunctionDecl
  | [] => []
  | d :: ds => d.relabel ρ :: FunctionDecl.listRelabel ρ ds

end

def Program.relabel (ρ : Relabeling) (p : Program) : Program :=
  ⟨Stmt.listRelabel ρ p.stmts, ρ.span p.span⟩

/-! ### The same up to labels -/

/-- The same expression up to labels. -/
def Expr.Like (e e' : Expr) : Prop :=
  e.relabel .blank = e'.relabel .blank

/-- The same statement up to labels. -/
def Stmt.Like (t t' : Stmt) : Prop :=
  t.relabel .blank = t'.relabel .blank

def FunctionDecl.Like (d d' : FunctionDecl) : Prop :=
  d.relabel .blank = d'.relabel .blank

/-! ### Shifted numbers -/

theorem Expr.span_relabel_shift (k : Nat) (e : Expr) : (e.relabel (.shift k)).span = e.span := by
  cases e <;> simp only [Expr.relabel] <;> rfl

theorem Ident.map_relabel_shift (k : Nat) (xs : List Ident) : xs.map (Ident.relabel (.shift k)) = xs :=
  List.map_id xs

mutual

/-- Numbers that are greater by nothing are the same. -/
theorem Expr.relabel_shift_zero : ∀ e : Expr, e.relabel (.shift 0) = e
  | .literal _ _ | .var _ _ | .this _ | .super _ _ => by
    simp only [Expr.relabel]
    rfl
  | .assign _ _ e | .unary _ _ e | .get _ e _ | .grouping _ e => by
    simp only [Expr.relabel, e.relabel_shift_zero]
    rfl
  | .binary _ l _ r | .logical _ l _ r | .set _ l _ r => by
    simp only [Expr.relabel, l.relabel_shift_zero, r.relabel_shift_zero]
    rfl
  | .call _ f as => by
    simp only [Expr.relabel, f.relabel_shift_zero, Expr.listRelabel_shift_zero as]
    rfl

theorem Expr.listRelabel_shift_zero : ∀ es : List Expr, Expr.listRelabel (.shift 0) es = es
  | [] => rfl
  | e :: es => by rw [Expr.listRelabel, e.relabel_shift_zero, Expr.listRelabel_shift_zero es]

end

theorem Expr.option_relabel_shift_zero (e : Option Expr) : e.map (Expr.relabel (.shift 0)) = e := by
  cases e with
  | none => rfl
  | some e => rw [Option.map_some, e.relabel_shift_zero]

mutual

theorem Stmt.relabel_shift_zero : ∀ s : Stmt, s.relabel (.shift 0) = s
  | .var x init sp => by
    rw [Stmt.relabel, Expr.option_relabel_shift_zero]
    rfl
  | .block body sp => by
    rw [Stmt.relabel, Stmt.listRelabel_shift_zero body]
    rfl
  | .ifElse cond t none sp => by
    rw [Stmt.relabel, cond.relabel_shift_zero, t.relabel_shift_zero]
    rfl
  | .ifElse cond t (some f) sp => by
    rw [Stmt.relabel, cond.relabel_shift_zero, t.relabel_shift_zero, f.relabel_shift_zero]
    rfl
  | .while_ cond body sp => by
    rw [Stmt.relabel, cond.relabel_shift_zero, body.relabel_shift_zero]
    rfl
  | .function d => by rw [Stmt.relabel, d.relabel_shift_zero]
  | .class_ x super ms sp => by
    rw [Stmt.relabel, FunctionDecl.listRelabel_shift_zero ms]
    cases super <;> rfl
  | .print e sp | .expr e sp => by
    rw [Stmt.relabel, e.relabel_shift_zero]
    rfl
  | .return_ value sp => by
    rw [Stmt.relabel, Expr.option_relabel_shift_zero]
    rfl

theorem Stmt.listRelabel_shift_zero : ∀ ts : List Stmt, Stmt.listRelabel (.shift 0) ts = ts
  | [] => rfl
  | t :: ts => by rw [Stmt.listRelabel, t.relabel_shift_zero, Stmt.listRelabel_shift_zero ts]

theorem FunctionDecl.relabel_shift_zero : ∀ d : FunctionDecl, d.relabel (.shift 0) = d
  | ⟨x, params, body, sp⟩ => by
    rw [FunctionDecl.relabel, Ident.map_relabel_shift, Stmt.listRelabel_shift_zero body]
    rfl

theorem FunctionDecl.listRelabel_shift_zero :
    ∀ ds : List FunctionDecl, FunctionDecl.listRelabel (.shift 0) ds = ds
  | [] => rfl
  | d :: ds => by
    rw [FunctionDecl.listRelabel, d.relabel_shift_zero, FunctionDecl.listRelabel_shift_zero ds]

end

end HostScript
