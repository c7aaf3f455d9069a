import HostScript.Proofs.Scoping.Places

/-!
# Known code

`V` stands for the visits of resolution to the programs of a session. Code is known at a place if it is of
the grammar, binds no reserved name and all its nodes have visits there in `V`. Code is made of code, so
the parts of known code are known, each at its own place.
-/

namespace HostScript

open Resolution (thisName superName)

/-- The names that no script binds. -/
def Reserved (x : String) : Prop :=
  x = thisName ∨ x = superName

theorem Reserved.ne {x y : String} (hy : Reserved y) (hx : ¬ Reserved x) : y ≠ x :=
  fun heq => hx (heq ▸ hy)

/-- What is known of code with these names and visits. -/
structure Known (V : Visit → Prop) (conforms : Prop) (names : List String) (visits : List Visit) :
    Prop where
  conforms : conforms
  unreserved : ∀ x ∈ names, ¬ Reserved x
  visited : ∀ v ∈ visits, V v

/-- Part of known code is known. -/
theorem Known.part {V : Visit → Prop} {p q : Prop} {names names' : List String}
    {visits visits' : List Visit} (h : Known V p names visits) (hq : q) (hnames : names' ⊆ names)
    (hvisits : visits' ⊆ visits) : Known V q names' visits' :=
  ⟨hq, fun x hx => h.unreserved x (hnames hx), fun v hv => h.visited v (hvisits hv)⟩

/-- With more visits, more is known. -/
theorem Known.mono {V V' : Visit → Prop} {p : Prop} {names : List String} {visits : List Visit}
    (h : Known V p names visits) (hV : ∀ v, V v → V' v) : Known V' p names visits :=
  { h with visited := fun v hv => hV v (h.visited v hv) }

section

variable (V : Visit → Prop) (c : Surroundings) (ss : StaticScopes)

def Expr.Known (e : Expr) : Prop :=
  HostScript.Known V True (Expr.targets e.nodes) (Visit.ofNodes ss c.class_ e.nodes)

def Stmt.Known (s : Stmt) : Prop :=
  HostScript.Known V s.Conforms s.names (s.visits c ss)

def Stmt.ListKnown (body : List Stmt) : Prop :=
  HostScript.Known V (∀ s ∈ body, s.Conforms) (Stmt.listNames body) (Stmt.listVisits c ss body)

def FunctionDecl.Known (d : FunctionDecl) : Prop :=
  HostScript.Known V d.Conforms d.names (d.visits c ss)

end

theorem Expr.targets_subset {es es' : List Expr} (h : es ⊆ es') :
    Expr.targets es ⊆ Expr.targets es' := by
  intro x hx
  obtain ⟨e, he, hex⟩ := List.mem_filterMap.mp hx
  exact List.mem_filterMap.mpr ⟨e, h he, hex⟩

theorem Expr.nodes_subset_listNodes {e : Expr} {es : List Expr} (h : e ∈ es) :
    e.nodes ⊆ Expr.listNodes es := by
  induction es with
  | nil => cases h
  | cons e' es ih =>
    rw [Expr.listNodes]
    rcases List.mem_cons.mp h with rfl | h
    · exact List.subset_append_left _ _
    · exact List.subset_append_of_subset_right _ (ih h)

theorem Expr.nodes_subset_of_mem_children {e e' : Expr} (h : e' ∈ e.children) :
    e'.nodes ⊆ e.nodes := by
  have hlist : e'.nodes ⊆ Expr.listNodes e.children := Expr.nodes_subset_listNodes h
  refine List.Subset.trans hlist ?_
  cases e with
  | literal | var | this | super => exact List.nil_subset _
  | assign | unary | get | grouping =>
    simp only [Expr.children, Expr.listNodes, Expr.nodes, List.append_nil]
    exact List.subset_append_left _ _
  | binary | logical | set =>
    simp only [Expr.children, Expr.listNodes, Expr.nodes, List.append_nil]
    exact List.subset_append_left _ _
  | call k f as =>
    simp only [Expr.children, Expr.listNodes, Expr.nodes]
    exact List.subset_append_left _ _

section

variable {V : Visit → Prop} {c : Surroundings} {ss : StaticScopes}

theorem Visit.ofNodes_subset {m : ClassMode} {es es' : List Expr} (h : es ⊆ es') :
    Visit.ofNodes ss m es ⊆ Visit.ofNodes ss m es' :=
  List.map_subset _ h

theorem Expr.Known.child {e e' : Expr} (h : e.Known V c ss) (hc : e' ∈ e.children) :
    e'.Known V c ss :=
  have hsub := Expr.nodes_subset_of_mem_children hc
  h.part trivial (Expr.targets_subset hsub) (Visit.ofNodes_subset hsub)

theorem Stmt.Known.branch {s t : Stmt} (h : s.Known V c ss) (ht : t ∈ s.branches) :
    t.Known V c ss := by
  have hconf := h.conforms
  cases hconf with
  | @ifElse cond t₁ e sp _ hthen hthend he hed =>
    cases e with
    | none =>
      cases List.mem_singleton.mp ht
      rw [Stmt.Known, Stmt.names, Stmt.visits] at h
      exact h.part hthen (List.subset_append_right _ _) (List.subset_append_right _ _)
    | some e₁ =>
      -- The first branch introduces no name, so both are visited in the same scopes.
      have hscopes : (Resolution.ofStmt c ss t₁).1 = ss := by
        rw [StaticScopes.ofStmt_eq_after c ss hthen, StaticScopes.after, hthend]
      rw [Stmt.Known, Stmt.names, Stmt.visits, hscopes] at h
      rcases List.mem_cons.mp ht with rfl | ht
      · refine h.part hthen ?_ ?_ <;>
          exact List.subset_append_of_subset_left _ (List.subset_append_right _ _)
      · cases List.mem_singleton.mp ht
        exact h.part (he _ rfl) (List.subset_append_right _ _) (List.subset_append_right _ _)
  | while_ _ _ hbody _ =>
    cases List.mem_singleton.mp ht
    rw [Stmt.Known, Stmt.names, Stmt.visits] at h
    exact h.part hbody (List.subset_append_right _ _) (List.subset_append_right _ _)
  | _ => cases ht

theorem Stmt.ListKnown.head {s : Stmt} {rest : List Stmt}
    (h : Stmt.ListKnown V c ss (s :: rest)) : s.Known V c ss := by
  have hconf := h.conforms s List.mem_cons_self
  rw [Stmt.ListKnown, Stmt.listNames, Stmt.listVisits] at h
  exact h.part hconf (List.subset_append_left _ _) (List.subset_append_left _ _)

theorem Stmt.ListKnown.tail {s : Stmt} {rest : List Stmt}
    (h : Stmt.ListKnown V c ss (s :: rest)) : Stmt.ListKnown V c (ss.after s) rest := by
  obtain ⟨hconf, hrest⟩ := List.forall_mem_cons.mp h.conforms
  rw [Stmt.ListKnown, Stmt.listNames, Stmt.listVisits, StaticScopes.ofStmt_eq_after c ss hconf] at h
  exact h.part hrest (List.subset_append_right _ _) (List.subset_append_right _ _)

/-- Outside every scope nothing is introduced, so all statements are known there. -/
theorem Stmt.ListKnown.outside {body : List Stmt} (h : Stmt.ListKnown V c [] body) :
    ∀ s ∈ body, s.Known V c [] := by
  induction body with
  | nil => nofun
  | cons s rest ih =>
    have hnil : StaticScopes.after [] s = [] := by
      unfold StaticScopes.after
      split <;> rfl
    exact List.forall_mem_cons.mpr ⟨h.head, ih (hnil ▸ h.tail)⟩

theorem Stmt.Known.block {body : List Stmt} {sp : Span} (h : (Stmt.block body sp).Known V c ss) :
    Stmt.ListKnown V c (Bindings.empty :: ss) body := by
  have hconf := h.conforms
  rw [Stmt.Known, Stmt.names, Stmt.visits] at h
  cases hconf with
  | block _ hbody => exact { h with conforms := hbody }

theorem Stmt.Known.function {d : FunctionDecl} (h : (Stmt.function d).Known V c ss) :
    d.Known V ⟨.function, c.class_⟩ (ss.introduce d.name.name) := by
  have hconf := h.conforms
  rw [Stmt.Known, Stmt.names, Stmt.visits] at h
  cases hconf with
  | function hd => exact { h with conforms := hd }

theorem FunctionDecl.Known.body {d : FunctionDecl} (h : d.Known V c ss) :
    Stmt.ListKnown V c (Resolution.ofParams (Bindings.empty :: ss) d.params).1 d.body := by
  have hconf := h.conforms
  cases hconf with
  | mk x sp hparams hbody =>
    rw [FunctionDecl.Known, FunctionDecl.names, FunctionDecl.visits] at h
    exact h.part hbody (List.subset_append_right _ _) (List.Subset.refl _)

theorem FunctionDecl.Known.param {d : FunctionDecl} (h : d.Known V c ss) {x : String}
    (hx : x ∈ d.params.map (·.name)) : ¬ Reserved x := by
  refine h.unreserved x ?_
  obtain ⟨y, params, body, sp⟩ := d
  rw [FunctionDecl.names]
  exact List.mem_append_left _ (List.mem_cons_of_mem _ hx)

theorem FunctionDecl.subset_list (c : ClassMode) (ss : StaticScopes) {d : FunctionDecl}
    {ds : List FunctionDecl} (h : d ∈ ds) :
    d.names ⊆ FunctionDecl.listNames ds ∧
      d.visits ⟨Resolution.methodMode d, c⟩ ss ⊆ FunctionDecl.listVisits c ss ds := by
  induction ds with
  | nil => cases h
  | cons d' ds ih =>
    rw [FunctionDecl.listNames, FunctionDecl.listVisits]
    rcases List.mem_cons.mp h with rfl | h
    · exact ⟨List.subset_append_left _ _, List.subset_append_left _ _⟩
    · obtain ⟨hnames, hvisits⟩ := ih h
      exact ⟨List.subset_append_of_subset_right _ hnames,
        List.subset_append_of_subset_right _ hvisits⟩

theorem Stmt.Known.method {x : Ident} {super : Option Superclass} {ms : List FunctionDecl}
    {sp : Span} (h : (Stmt.class_ x super ms sp).Known V c ss) {d : FunctionDecl} (hd : d ∈ ms) :
    d.Known V ⟨Resolution.methodMode d, Resolution.classMode super⟩
      (Resolution.methodScopes (ss.introduce x.name) super) := by
  have hconf := h.conforms
  obtain ⟨hnames, hvisits⟩ := FunctionDecl.subset_list (Resolution.classMode super)
    (Resolution.methodScopes (ss.introduce x.name) super) hd
  rw [Stmt.Known, Stmt.names, Stmt.visits] at h
  cases hconf with
  | class_ _ _ _ hms =>
    exact h.part (hms d hd) (List.subset_cons_of_subset _ hnames)
      (List.subset_append_of_subset_right _ hvisits)

theorem Stmt.Known.parent {x : Ident} {p : Superclass} {ms : List FunctionDecl} {sp : Span}
    (h : (Stmt.class_ x (some p) ms sp).Known V c ss) :
    p.toExpr.Known V c (ss.introduce x.name) := by
  rw [Stmt.Known, Stmt.visits] at h
  exact h.part trivial (List.nil_subset _) (List.subset_append_left _ _)

theorem Stmt.Known.declares {s : Stmt} {x : String} (h : s.Known V c ss)
    (hx : s.declares = some x) : ¬ Reserved x :=
  h.unreserved x (Stmt.mem_names_of_declares hx)

/-- The expressions of a statement are visited in its scopes. In the initializer of a variable, the
variable is declared already. -/
theorem Stmt.Known.expr {s : Stmt} {e : Expr} (h : s.Known V c ss) (he : e ∈ s.exprs) :
    e.Known V c ss ∨ ∃ x, ¬ Reserved x ∧ e.Known V c (ss.declare x) := by
  rw [Stmt.Known] at h
  cases s with
  | expr e₁ | print e₁ =>
    cases List.mem_singleton.mp he
    rw [Stmt.names, Stmt.visits] at h
    exact .inl { h with conforms := trivial }
  | return_ value =>
    cases value with
    | none => cases he
    | some e₁ =>
      cases List.mem_singleton.mp he
      rw [Stmt.names, Stmt.visits] at h
      exact .inl { h with conforms := trivial }
  | var x init =>
    cases init with
    | none => cases he
    | some e₁ =>
      cases List.mem_singleton.mp he
      refine .inr ⟨x.name, Stmt.Known.declares h rfl, ?_⟩
      rw [Stmt.names, Stmt.visits] at h
      exact h.part trivial (List.subset_cons_self _ _) (List.Subset.refl _)
  | ifElse cond t e₁ =>
    cases List.mem_singleton.mp he
    cases e₁ with
    | none =>
      rw [Stmt.names, Stmt.visits] at h
      exact .inl (h.part trivial (List.subset_append_left _ _) (List.subset_append_left _ _))
    | some e₁ =>
      rw [Stmt.names, Stmt.visits, List.append_assoc, List.append_assoc] at h
      exact .inl (h.part trivial (List.subset_append_left _ _) (List.subset_append_left _ _))
  | while_ cond body =>
    cases List.mem_singleton.mp he
    rw [Stmt.names, Stmt.visits] at h
    exact .inl (h.part trivial (List.subset_append_left _ _) (List.subset_append_left _ _))
  | _ => cases he

end

end HostScript
