import HostScript.Proofs.Parsing.Making
import HostScript.Syntax.Parsed

/-!
# Trees that parsers make

Whatever the tokens are, what parsing makes of them is up to every standard that the spans of the tokens meet,
and its nodes have different numbers. There is a lemma for each production, and one induction on the fuel.
-/

namespace HostScript

variable {S : Standard} {d : Nat} {g : List Expr}

namespace Parser

/-! ### Lists -/

section

variable {α : Type} {Q : α → Prop} {nodes : α → List Expr} {listNodes : List α → List Expr}
  {items : Parser (List α)}

theorem makes_listUnless (stop : Cursor → Bool) (hnil : listNodes [] = [])
    (h : Makes S d [] items listNodes fun as => ∀ a ∈ as, Q a) :
    Makes S d [] (listUnless stop items) listNodes fun as => ∀ a ∈ as, Q a := by
  refine .skip (.look _) fun b _ => ?_
  cases b
  · exact h
  · exact .pure (List.forall_mem_nil _) hnil

theorem makes_commaListOf {item : Parser α} (hnil : listNodes [] = [])
    (hcons : ∀ a as, listNodes (a :: as) = nodes a ++ listNodes as) (ha : Makes S d [] item nodes Q)
    (hm : Makes S d [] items listNodes fun as => ∀ a ∈ as, Q a) :
    Makes S d [] (commaListOf item items) listNodes fun as => ∀ a ∈ as, Q a := by
  refine ha.andThen fun a ha => .skip (.eat _) fun b _ => ?_
  cases b
  · refine .pure (List.forall_mem_singleton.mpr ha) ?_
    rw [hcons, hnil, List.append_nil]
  · exact hm.bind fun as has => .pure (List.forall_mem_cons.mpr ⟨ha, has⟩) (hcons a as)

theorem makes_limitedListOf {item : Parser α} (tooMany : Cause) (count : Nat) (hnil : listNodes [] = [])
    (hcons : ∀ a as, listNodes (a :: as) = nodes a ++ listNodes as) (ha : Makes S d [] item nodes Q)
    (hm : Makes S d [] items listNodes fun as => ∀ a ∈ as, Q a) :
    Makes S d [] (limitedListOf tooMany count item items) listNodes fun as => ∀ a ∈ as, Q a := by
  unfold limitedListOf
  split
  · exact .skip (.complain _) fun _ _ => makes_commaListOf hnil hcons ha hm
  · exact makes_commaListOf hnil hcons ha hm

end

/-! ### Expressions -/

/-- The parser gives an expression that is built on the nodes `g`. -/
def MakesExpr (S : Standard) (d : Nat) (g : List Expr) (p : Parser Expr) : Prop :=
  Makes S d g p Expr.nodes S.expr

def MakesExprs (S : Standard) (d : Nat) (p : Parser (List Expr)) : Prop :=
  Makes S d [] p Expr.listNodes fun es => ∀ e ∈ es, S.expr e

/-- An expression that may be missing. -/
def MakesOption (S : Standard) (d : Nat) (p : Parser (Option Expr)) : Prop :=
  Makes S d [] p Expr.optionNodes fun r => ∀ e ∈ r, S.expr e

/-- A new node has the mark that it is given. -/
theorem makes_node {sp : Span} {x : Mark → Expr} (hmark : ∀ m, (x m).mark = m)
    (hnodes : ∀ m, Expr.listNodes (x m).children = g) (hchildren : ∀ m, ∀ c ∈ (x m).children, S.expr c)
    (hsp : S.span sp) (hidents : ∀ m, ∀ y ∈ (x m).idents, S.span y.span) :
    MakesExpr S d g (node sp x) := by
  refine .node (fun i => Expr.spans_iff.mpr ⟨hchildren _, ?_, hidents _⟩) fun m => ?_
  · unfold Expr.span
    rw [hmark]
    exact hsp
  · rw [Expr.nodes_eq, hnodes, List.map_append, List.map_singleton, Expr.id, hmark]

theorem makes_assignTo {t v : Expr} {equals : Fault} (ht : S.expr t) (hv : S.expr v)
    (hequals : S.span equals.span) : MakesExpr S d (t.nodes ++ v.nodes) (assignTo t v equals) := by
  have hspan := S.merge ht.span hv.span
  obtain ⟨hchildren, -, hidents⟩ := Expr.spans_iff.mp ht
  unfold assignTo
  split
  · -- The node of the variable is replaced by that of the assignment.
    refine .drop (List.sublist_append_right _ v.nodes) (makes_node (fun _ => rfl) (fun _ => ?_)
      (fun _ => List.forall_mem_singleton.mpr hv) hspan fun _ => hidents)
    simp [Expr.listNodes, Expr.children]
  · rename_i k o x
    have hsub : (o.nodes ++ v.nodes).Sublist ((Expr.get k o x).nodes ++ v.nodes) := by
      rw [Expr.nodes]
      exact (List.sublist_append_left _ _).append_right _
    refine .drop hsub (makes_node (fun _ => rfl) (fun _ => ?_) (fun _ => ?_) hspan fun _ => hidents)
    · simp [Expr.listNodes, Expr.children]
    · exact List.forall_mem_cons.mpr ⟨hchildren _ List.mem_cons_self, List.forall_mem_singleton.mpr hv⟩
  · exact .drop (List.sublist_append_left _ _)
      (.skip (.complainOf hequals) fun _ _ => .pure ht rfl)

theorem makes_assignmentOf {operand value : Parser Expr} (ho : MakesExpr S d [] operand)
    (hv : MakesExpr S d [] value) : MakesExpr S d [] (assignmentOf operand value) := by
  refine ho.andThen fun t ht => .skip (.look _) fun b _ => ?_
  cases b
  · exact .pure ht rfl
  · have hfault : Meets S d (look fun s => Fault.mk .invalidAssignmentTarget s.here s.near)
        fun f => S.span f.span := .lookAt fun _ hs => hs.here
    refine .skip hfault fun equals hequals => .skip .take fun _ _ => ?_
    exact hv.bind fun v hv => makes_assignTo ht hv hequals

theorem makes_operatorsOf {lv : Level} {left : Expr} {operand : Parser Expr}
    {more : Expr → Parser Expr} (hl : S.expr left) (ho : MakesExpr S d [] operand)
    (hm : ∀ e, S.expr e → MakesExpr S d e.nodes (more e)) :
    MakesExpr S d left.nodes (operatorsOf lv left operand more) := by
  refine .skip (.look _) fun op _ => ?_
  cases op with
  | none => exact .pure hl rfl
  | some op =>
    refine .skip .take fun _ _ => ho.bind fun right hr => Makes.andThen ?_ hm
    have hboth : ∀ c ∈ [left, right], S.expr c :=
      List.forall_mem_cons.mpr ⟨hl, List.forall_mem_singleton.mpr hr⟩
    refine makes_node (fun m => ?_) (fun m => ?_) (fun m => ?_) (S.merge hl.span hr.span) fun m => ?_
    · cases op <;> rfl
    · cases op <;> simp [Operator.expr, Expr.listNodes, Expr.children]
    · cases op <;> exact hboth
    · cases op <;> exact List.forall_mem_nil _

theorem makes_unaryOf {operand call : Parser Expr} (ho : MakesExpr S (d + 1) [] operand)
    (hc : MakesExpr S d [] call) : MakesExpr S d [] (unaryOf operand call) := by
  refine .skip (.look _) fun op _ => ?_
  cases op with
  | none => exact hc
  | some op =>
    refine .skip .take fun start hstart => (Makes.nested fun _ => ho).andThen fun e he => ?_
    refine makes_node (fun _ => rfl) (fun _ => ?_) (fun _ => List.forall_mem_singleton.mpr he)
      (S.merge hstart he.span) fun _ => List.forall_mem_nil _
    simp [Expr.listNodes, Expr.children]

theorem makes_accessesOf {e : Expr} {args : Parser (List Expr)} {more : Expr → Parser Expr}
    (he : S.expr e) (ha : MakesExprs S d args)
    (hm : ∀ e, S.expr e → MakesExpr S d e.nodes (more e)) :
    MakesExpr S d e.nodes (accessesOf e args more) := by
  refine .skip (.eat _) fun b _ => ?_
  cases b
  · refine .skip (.eat _) fun b _ => ?_
    cases b
    · exact .pure he rfl
    · refine .skip (.expectName _) fun x hx => Makes.andThen ?_ hm
      refine makes_node (fun _ => rfl) (fun _ => ?_) (fun _ => List.forall_mem_singleton.mpr he)
        (S.merge he.span hx) fun _ => List.forall_mem_singleton.mpr hx
      simp [Expr.listNodes, Expr.children]
  · refine (makes_listUnless _ rfl ha).bind fun as has => .skip (.expect _ _) fun close hclose => ?_
    refine Makes.andThen ?_ hm
    exact makes_node (fun _ => rfl) (fun _ => rfl) (fun _ => List.forall_mem_cons.mpr ⟨he, has⟩)
      (S.merge he.span hclose) fun _ => List.forall_mem_nil _

theorem makes_leaf {x : Span → Mark → Expr} (hmark : ∀ sp m, (x sp m).mark = m)
    (hchildren : ∀ sp m, (x sp m).children = [])
    (hidents : ∀ sp m, ∀ y ∈ (x sp m).idents, y.span = sp) : MakesExpr S d [] (leaf x) := by
  refine .skip .take fun sp hsp => makes_node (hmark sp) (fun m => ?_) (fun m => ?_) hsp fun m y hy => ?_
  · rw [hchildren]
    rfl
  · rw [hchildren]
    exact List.forall_mem_nil _
  · rw [hidents sp m y hy]
    exact hsp

theorem makes_superAccess : MakesExpr S d [] superAccess := by
  refine .skip .take fun start hstart => .skip (.expect _ _) fun _ _ => ?_
  refine .skip (.expectName _) fun x hx => ?_
  exact makes_node (fun _ => rfl) (fun _ => rfl) (fun _ => List.forall_mem_nil _) (S.merge hstart hx)
    fun _ => List.forall_mem_singleton.mpr hx

theorem makes_groupingOf {inner : Parser Expr} (h : MakesExpr S d [] inner) :
    MakesExpr S d [] (groupingOf inner) := by
  refine .skip .take fun start hstart => h.andThen fun e he => .skip (.expect _ _) fun close hclose => ?_
  refine makes_node (fun _ => rfl) (fun _ => ?_) (fun _ => List.forall_mem_singleton.mpr he)
    (S.merge hstart hclose) fun _ => List.forall_mem_nil _
  simp [Expr.listNodes, Expr.children]

theorem makes_primaryOf {inner : Parser Expr} (h : MakesExpr S d [] inner) :
    MakesExpr S d [] (primaryOf inner) := by
  refine .skip (.look _) fun k _ => ?_
  split
  · exact makes_leaf (fun _ _ => rfl) (fun _ _ => rfl) fun _ _ => List.forall_mem_nil _
  · exact makes_superAccess
  · exact makes_leaf (fun _ _ => rfl) (fun _ _ => rfl) fun _ _ => List.forall_mem_singleton.mpr rfl
  · exact makes_groupingOf h
  · split
    · exact makes_leaf (fun _ _ => rfl) (fun _ _ => rfl) fun _ _ => List.forall_mem_nil _
    · exact .failAt _

theorem makes_operandOf (lv : Level) {infixes : Level → Parser Expr} {unary : Parser Expr}
    (hi : ∀ lv, MakesExpr S d [] (infixes lv)) (hu : MakesExpr S d [] unary) :
    MakesExpr S d [] (operandOf lv infixes unary) := by
  unfold operandOf
  split
  · exact hi _
  · exact hu

/-- What is shown of all expression parsers with the same fuel. -/
structure ExpressionsMake (S : Standard) (n : Nat) : Prop where
  expression : ∀ d, MakesExpr S d [] (expression n)
  assignment : ∀ d, MakesExpr S d [] (assignment n)
  infixes : ∀ d lv, MakesExpr S d [] (infixes n lv)
  operand : ∀ d lv, MakesExpr S d [] (operand n lv)
  operators : ∀ d lv e, S.expr e → MakesExpr S d e.nodes (operators n lv e)
  unary : ∀ d, MakesExpr S d [] (unary n)
  call : ∀ d, MakesExpr S d [] (call n)
  accesses : ∀ d e, S.expr e → MakesExpr S d e.nodes (accesses n e)
  argumentList : ∀ d count, MakesExprs S d (argumentList n count)

namespace ExpressionsMake

variable {n : Nat}

theorem zero : ExpressionsMake S 0 := by
  constructor <;> intros <;> exact Makes.giveUp

theorem succ (ih : ExpressionsMake S n) : ExpressionsMake S (n + 1) where
  expression d := Makes.nested fun _ => ih.assignment (d + 1)
  assignment d := makes_assignmentOf (ih.infixes d .or) (ih.assignment d)
  infixes d lv := (ih.operand d lv).andThen (ih.operators d lv)
  operand d lv := makes_operandOf lv (ih.infixes d) (ih.unary d)
  operators d lv _ hl := makes_operatorsOf hl (ih.operand d lv) (ih.operators d lv)
  unary d := makes_unaryOf (ih.unary (d + 1)) (ih.call d)
  call d := (makes_primaryOf (ih.expression d)).andThen (ih.accesses d)
  accesses d _ he := makes_accessesOf he (ih.argumentList d 0) (ih.accesses d)
  argumentList d count :=
    makes_limitedListOf _ count rfl (fun _ _ => rfl) (ih.expression d) (ih.argumentList d (count + 1))

end ExpressionsMake

theorem expressionsMake (S : Standard) (n : Nat) : ExpressionsMake S n := by
  induction n with
  | zero => exact .zero
  | succ n ih => exact ih.succ

/-! ### Statements -/

/-- The parser gives a statement with the property `Q`. -/
def MakesStmt (S : Standard) (d : Nat) (p : Parser Stmt) (Q : Stmt → Prop) : Prop :=
  Makes S d [] p Stmt.nodes Q

def MakesStmts (S : Standard) (d : Nat) (p : Parser (List Stmt)) : Prop :=
  Makes S d [] p Stmt.listNodes fun ts => ∀ t ∈ ts, S.stmt d t

def MakesFunction (S : Standard) (d : Nat) (p : Parser FunctionDecl) : Prop :=
  Makes S d [] p FunctionDecl.nodes (S.Function d)

def MakesFunctions (S : Standard) (d : Nat) (p : Parser (List FunctionDecl)) : Prop :=
  Makes S d [] p FunctionDecl.listNodes fun ds => ∀ decl ∈ ds, S.Function d decl

/-- A plain statement with spans up to the standard. -/
def MakesPlain (S : Standard) (d : Nat) (p : Parser Stmt) : Prop :=
  MakesStmt S d p (Stmt.PlainSpans S.span)

theorem MakesPlain.stmt {p : Parser Stmt} (h : MakesPlain S d p) (d' : Nat) :
    MakesStmt S d p (S.stmt d') :=
  Makes.mono h fun _ hs => S.plain hs

section

variable {expr : Parser Expr} {stmt : Parser Stmt} {items : Parser (List Stmt)}

theorem makes_initializerOf (h : MakesExpr S d [] expr) : MakesOption S d (initializerOf expr) := by
  refine .skip (.eat _) fun b _ => ?_
  cases b
  · exact .pure nofun rfl
  · refine h.andThen fun e he => .pure ?_ rfl
    rintro _ ⟨⟩
    exact he

theorem makes_unlessAt (y : Symbol) (h : MakesExpr S d [] expr) : MakesOption S d (unlessAt y expr) := by
  refine .skip (.look _) fun b _ => ?_
  cases b
  · refine h.andThen fun e he => .pure ?_ rfl
    rintro _ ⟨⟩
    exact he
  · exact .pure nofun rfl

theorem makes_varDeclOf (h : MakesExpr S d [] expr) : MakesPlain S d (varDeclOf expr) := by
  refine .skip .take fun start hstart => .skip (.expectName _) fun x hx => ?_
  refine (makes_initializerOf h).andThen fun init hinit => .skip (.expect _ _) fun _ _ => ?_
  refine .skip (.spanFrom hstart) fun sp hsp => .pure ⟨rfl, hsp, ?_, ?_⟩ (by rw [Stmt.nodes])
  · rintro _ _ _ ⟨⟩
    exact hx
  · cases init with
    | none => exact List.forall_mem_nil _
    | some e => exact List.forall_mem_singleton.mpr (hinit e rfl)

theorem makes_exprStmtOf (h : MakesExpr S d [] expr) : MakesPlain S d (exprStmtOf expr) := by
  refine h.andThen fun e he => .skip (.expect _ _) fun _ _ => .skip (.spanFrom he.span) fun sp hsp => ?_
  exact .pure ⟨rfl, hsp, nofun, List.forall_mem_singleton.mpr he⟩ (by rw [Stmt.nodes])

theorem makes_printStmtOf (h : MakesExpr S d [] expr) : MakesPlain S d (printStmtOf expr) := by
  refine .skip .take fun start hstart => h.andThen fun e he => .skip (.expect _ _) fun _ _ => ?_
  refine .skip (.spanFrom hstart) fun sp hsp => ?_
  exact .pure ⟨rfl, hsp, nofun, List.forall_mem_singleton.mpr he⟩ (by rw [Stmt.nodes])

theorem makes_returnStmtOf (h : MakesExpr S d [] expr) : MakesPlain S d (returnStmtOf expr) := by
  refine .skip .take fun start hstart => (makes_unlessAt _ h).andThen fun value hvalue => ?_
  refine .skip (.expect _ _) fun _ _ => .skip (.spanFrom hstart) fun sp hsp => ?_
  refine .pure ⟨rfl, hsp, nofun, ?_⟩ (by rw [Stmt.nodes])
  cases value with
  | none => exact List.forall_mem_nil _
  | some e => exact List.forall_mem_singleton.mpr (hvalue e rfl)

theorem makes_elseOf {Q : Stmt → Prop} (h : MakesStmt S d stmt Q) :
    Makes S d [] (elseOf stmt) (fun f => f.toList.flatMap Stmt.nodes) fun f => ∀ t ∈ f, Q t := by
  refine .skip (.eatKeyword _) fun b _ => ?_
  cases b
  · exact .pure nofun rfl
  · refine h.andThen fun t ht => .pure ?_ (by simp)
    rintro _ ⟨⟩
    exact ht

theorem makes_ifStmtOf (hd : d < maxNesting) (he : MakesExpr S (d + 1) [] expr)
    (hs : MakesStmt S (d + 1) stmt (S.stmt (d + 1))) :
    MakesStmt S (d + 1) (ifStmtOf expr stmt) (S.stmt d) := by
  refine .skip .take fun start hstart => .skip (.expect _ _) fun _ _ => he.andThen fun cond hcond => ?_
  refine .skip (.expect _ _) fun _ _ => hs.bind fun t ht => (makes_elseOf hs).bind fun f hf => ?_
  refine .skip (.spanFrom hstart) fun sp _ => .pure (S.ifElse hd hcond ht hf) ?_
  cases f <;> simp [Stmt.nodes]

theorem makes_whileStmtOf (hd : d < maxNesting) (he : MakesExpr S (d + 1) [] expr)
    (hs : MakesStmt S (d + 1) stmt (S.stmt (d + 1))) :
    MakesStmt S (d + 1) (whileStmtOf expr stmt) (S.stmt d) := by
  refine .skip .take fun start hstart => .skip (.expect _ _) fun _ _ => he.andThen fun cond hcond => ?_
  refine .skip (.expect _ _) fun _ _ => hs.bind fun body hbody => .skip (.spanFrom hstart) fun sp _ => ?_
  have hloop : S.stmt d (withInit sp (.while_ cond (withIncrement sp body none) sp) none) :=
    S.loop hd nofun hcond nofun hbody
  exact .pure hloop (by rw [Stmt.nodes])

theorem makes_forInitOf (h : MakesExpr S d [] expr) :
    Makes S d [] (forInitOf expr) (fun init => Stmt.listNodes init.toList)
      fun init => ∀ s ∈ init, s.PlainSpans S.span := by
  have hsome {p : Parser Stmt} (hp : MakesPlain S d p) :
      Makes S d [] (p >>= fun t => Pure.pure (some t)) (fun init => Stmt.listNodes init.toList)
        fun init => ∀ s ∈ init, s.PlainSpans S.span := by
    refine Makes.andThen hp fun t ht => .pure ?_ (by simp [Stmt.listNodes])
    rintro _ ⟨⟩
    exact ht
  refine .skip (.eat _) fun b _ => ?_
  cases b
  · refine .skip (.look _) fun b _ => ?_
    cases b
    · exact hsome (makes_exprStmtOf h)
    · exact hsome (makes_varDeclOf h)
  · exact .pure nofun rfl

/-- A condition that is made up is a new node with the span of the whole statement. -/
theorem makes_conditionOr {sp : Span} {cond : Option Expr} (hsp : S.span sp)
    (hcond : ∀ e ∈ cond, S.expr e) :
    Makes S d (g ++ Expr.optionNodes cond) (conditionOr sp cond) (fun e => g ++ e.nodes) S.expr := by
  cases cond with
  | some e => exact .pure (hcond e rfl) rfl
  | none =>
    rw [conditionOr]
    refine .node (fun i => Expr.spans_iff.mpr ⟨List.forall_mem_nil _, hsp, List.forall_mem_nil _⟩) fun m => ?_
    simp [Expr.nodes, Expr.optionNodes, Expr.id, Expr.mark]

theorem makes_forStmtOf (hd : d < maxNesting) (he : MakesExpr S (d + 1) [] expr)
    (hs : MakesStmt S (d + 1) stmt (S.stmt (d + 1))) :
    MakesStmt S (d + 1) (forStmtOf expr stmt) (S.stmt d) := by
  refine .skip .take fun start hstart => .skip (.expect _ _) fun _ _ => ?_
  refine (makes_forInitOf he).andThen fun init hinit => (makes_unlessAt _ he).bind fun cond hcond => ?_
  refine .skip (.expect _ _) fun _ _ => (makes_unlessAt _ he).bind fun increment hincrement => ?_
  refine .skip (.expect _ _) fun _ _ => hs.bind fun body hbody => .skip (.spanFrom hstart) fun sp hsp => ?_
  -- The condition goes behind the other clauses; there it is made up if there is none.
  have hmade := makes_conditionOr (d := d + 1) (g := Stmt.listNodes init.toList ++ (body.nodes ++
    Expr.optionNodes increment)) hsp hcond
  refine .perm ?_ (hmade.andThen fun e he => .perm ?_ (.pure (S.loop hd hinit he hincrement hbody)
    (Stmt.nodes_withInit sp init e increment body)))
  · simp only [List.append_assoc]
    refine List.Perm.append_left _ ?_
    rw [← List.append_assoc body.nodes]
    exact List.perm_append_comm.trans (List.perm_append_comm.append_right _)
  · simp only [List.append_assoc]
    refine List.Perm.append_left _ ?_
    rw [← List.append_assoc]
    exact List.perm_append_comm

theorem makes_blockOf (h : MakesStmts S d items) :
    Makes S d [] (blockOf items) (fun r => Stmt.listNodes r.1) fun r => ∀ t ∈ r.1, S.stmt d t := by
  refine .skip (.lookAt fun _ hs => hs.here) fun start hstart => .skip (.expect _ _) fun _ _ => ?_
  refine h.andThen fun body hbody => .skip (.expect _ _) fun _ _ => ?_
  exact .skip (.spanFrom hstart) fun sp _ => .pure hbody rfl

theorem makes_statementOf (hd : d < maxNesting) (he : MakesExpr S (d + 1) [] expr)
    (hs : MakesStmt S (d + 1) stmt (S.stmt (d + 1))) (hi : MakesStmts S (d + 1) items) :
    MakesStmt S (d + 1) (statementOf expr stmt items) (S.stmt d) := by
  refine .skip (.look _) fun k _ => ?_
  split
  · exact (makes_printStmtOf he).stmt d
  · exact (makes_returnStmtOf he).stmt d
  · exact makes_ifStmtOf hd he hs
  · exact makes_whileStmtOf hd he hs
  · exact makes_forStmtOf hd he hs
  · exact (makes_blockOf hi).andThen fun r hr => .pure (S.block hd hr) (by rw [Stmt.nodes])
  · exact (makes_exprStmtOf he).stmt d

/-- Parameters are no nodes. -/
theorem makes_parameters (n count : Nat) :
    Makes S d [] (parameters n count) (fun _ => []) fun ps => ∀ p ∈ ps, S.span p.span := by
  induction n generalizing count with
  | zero => exact .giveUp
  | succ n ih =>
    exact makes_limitedListOf _ count rfl (fun _ _ => rfl) (.of_meets (.expectName _)) (ih (count + 1))

theorem makes_callableOf {params : Parser (List Ident)} (kind : CallableKind)
    (hp : Makes S d [] params (fun _ => []) fun ps => ∀ p ∈ ps, S.span p.span)
    (hi : MakesStmts S d items) : MakesFunction S d (callableOf kind params items) := by
  refine .skip (.expectName _) fun x hx => .skip (.expect _ _) fun _ _ => ?_
  refine (makes_listUnless _ rfl hp).andThen fun ps hps => ?_
  refine .skip (.expect _ _) fun _ _ => .skip (.look _) fun b _ => ?_
  cases b
  · exact .failAt _
  · exact (makes_blockOf hi).andThen fun r hr => .pure ⟨⟨hx, hps⟩, hr⟩ (by rw [FunctionDecl.nodes])

theorem makes_superclass :
    Makes S d [] superclass Superclass.optionNodes fun super =>
      ∀ p ∈ super, S.span p.mark.span ∧ S.span p.name.span := by
  refine .skip (.eat _) fun b _ => ?_
  cases b
  · exact .pure nofun rfl
  · refine .skip (.expectName _) fun x hx => ?_
    have hname : Makes S d [] (node x.span fun m => Superclass.mk m x) (fun p => [p.toExpr])
        fun p => S.span p.mark.span ∧ S.span p.name.span :=
      .node (fun _ => ⟨hx, hx⟩) fun m => by simp [Superclass.toExpr, Expr.id, Expr.mark]
    refine hname.andThen fun p hp => .pure ?_ rfl
    rintro _ ⟨⟩
    exact hp

theorem makes_classDeclOf {methods : Parser (List FunctionDecl)} (h : MakesFunctions S d methods) :
    MakesStmt S d (classDeclOf methods) (S.stmt d) := by
  refine .skip .take fun start hstart => .skip (.expectName _) fun x hx => ?_
  refine makes_superclass.andThen fun super hsuper => .skip (.expect _ _) fun _ _ => ?_
  refine h.bind fun ms hms => .skip (.expect _ _) fun _ _ => .skip (.spanFrom hstart) fun sp _ => ?_
  exact .pure (S.class_ hx hsuper (fun m hm => (hms m hm).spans) fun m hm => (hms m hm).body)
    (by rw [Stmt.nodes])

theorem makes_declarationOf {function : Parser FunctionDecl} {methods : Parser (List FunctionDecl)}
    (he : MakesExpr S d [] expr) (hs : MakesStmt S d stmt (S.stmt d)) (hf : MakesFunction S d function)
    (hm : MakesFunctions S d methods) :
    MakesStmt S d (declarationOf expr stmt function methods) (S.stmt d) := by
  refine .skip (.look _) fun k _ => ?_
  split
  · exact makes_classDeclOf hm
  · refine .skip .take fun _ _ => hf.andThen fun decl hdecl => ?_
    exact .pure (S.function hdecl.spans hdecl.body) (by rw [Stmt.nodes])
  · exact (makes_varDeclOf he).stmt d
  · exact hs

theorem makes_itemsOf {item : Parser Stmt} (hi : MakesStmt S d item (S.stmt d))
    (hm : MakesStmts S d items) : MakesStmts S d (itemsOf item items) := by
  refine (Makes.attempt hi).andThen fun r hr => hm.bind fun ts hts => .pure ?_ ?_
  · rw [List.forall_mem_append]
    exact ⟨fun t ht => hr t (Option.mem_toList.mp ht), hts⟩
  · cases r <;> simp [Stmt.listNodes]

theorem makes_methodsOf {method : Parser FunctionDecl} {methods : Parser (List FunctionDecl)}
    (hf : MakesFunction S d method) (hm : MakesFunctions S d methods) :
    MakesFunctions S d (methodsOf method methods) := by
  refine hf.andThen fun m hm₁ => hm.bind fun ms hms => ?_
  exact .pure (List.forall_mem_cons.mpr ⟨hm₁, hms⟩) (by rw [FunctionDecl.listNodes])

end

/-- What is shown of all statement parsers with the same fuel. -/
structure StatementsMake (S : Standard) (n : Nat) : Prop where
  declaration : ∀ d, MakesStmt S d (declaration n) (S.stmt d)
  statement : ∀ d, MakesStmt S d (statement n) (S.stmt d)
  callable : ∀ d kind, MakesFunction S d (callable n kind)
  blockItems : ∀ d, MakesStmts S d (blockItems n)
  methods : ∀ d, MakesFunctions S d (methods n)

namespace StatementsMake

variable {n : Nat}

theorem zero : StatementsMake S 0 := by
  constructor <;> intros <;> exact Makes.giveUp

theorem succ (ih : StatementsMake S n) : StatementsMake S (n + 1) where
  declaration d := Makes.recovering (makes_declarationOf ((expressionsMake S n).expression d)
    (ih.statement d) (ih.callable d .function) (ih.methods d))
  statement d := Makes.nested fun hd => makes_statementOf hd ((expressionsMake S n).expression (d + 1))
    (ih.statement (d + 1)) (ih.blockItems (d + 1))
  callable d kind := makes_callableOf kind (makes_parameters n 0) (ih.blockItems d)
  blockItems d := makes_listUnless _ rfl (makes_itemsOf (ih.declaration d) (ih.blockItems d))
  methods d := makes_listUnless _ rfl (makes_methodsOf (ih.callable d .method) (ih.methods d))

end StatementsMake

theorem statementsMake (S : Standard) (n : Nat) : StatementsMake S n := by
  induction n with
  | zero => exact .zero
  | succ n ih => exact ih.succ

theorem makes_topLevel (S : Standard) (n d : Nat) : MakesStmts S d (topLevel n) := by
  induction n with
  | zero => exact Makes.giveUp
  | succ n ih => exact makes_listUnless _ rfl (makes_itemsOf ((statementsMake S n).declaration d) ih)

end Parser

/-! ### Programs -/

/-- The numbers of the expression nodes of a program. -/
def Program.ids (p : Program) : List Nat :=
  (Stmt.listNodes p.stmts).map (·.id)

/-- Nothing is asked. -/
def Standard.any : Standard where
  span _ := True
  stmt _ _ := True
  merge _ _ := trivial
  plain _ := trivial
  block _ _ := trivial
  ifElse _ _ _ _ := trivial
  loop _ _ _ _ _ := trivial
  function _ _ := trivial
  class_ _ _ _ _ := trivial

namespace Parsed

variable {tokens : List Token} {finish : Span}

/-- Parsing leaves spans up to a standard that the spans of the tokens and of the first position meet. -/
theorem holds_topLevel (S : Standard) (firstId : Nat) (htokens : ∀ t ∈ tokens, S.span t.span)
    (hfinish : S.span finish) (hstart : S.span (.point 1 1)) :
    S.Holds ((Parser.topLevel (fuelFor tokens.length)).run (.ofTokens tokens finish firstId)).2 ∧
      ∀ ts, ((Parser.topLevel (fuelFor tokens.length)).run
        (.ofTokens tokens finish firstId)).1 = some ts → (∀ t ∈ ts, S.stmt 0 t) ∧
          Numbered firstId ((Stmt.listNodes ts).map (·.id)) ((Parser.topLevel (fuelFor tokens.length)).run
            (.ofTokens tokens finish firstId)).2.nextId :=
  Parser.makes_topLevel S _ 0 _ firstId rfl ⟨htokens, hfinish, hstart, List.forall_mem_nil _⟩ (.nil _)

theorem meets_ofTokens (S : Standard) (firstId : Nat) (htokens : ∀ t ∈ tokens, S.span t.span)
    (hfinish : S.span finish) (hstart : S.span (.point 1 1)) :
    ∀ t ∈ (ofTokens tokens finish firstId).program.stmts, S.stmt 0 t := by
  obtain ⟨-, hrun⟩ := holds_topLevel S firstId htokens hfinish hstart
  intro t ht
  unfold ofTokens at ht
  dsimp only at ht
  cases hr : ((Parser.topLevel (fuelFor tokens.length)).run
      (Cursor.ofTokens tokens finish firstId)).1 with
  | none => rw [hr] at ht; cases ht
  | some ts =>
    rw [hr] at ht
    exact (hrun ts hr).1 t ht

theorem faults_ofTokens (S : Standard) (firstId : Nat) (htokens : ∀ t ∈ tokens, S.span t.span)
    (hfinish : S.span finish) (hstart : S.span (.point 1 1)) :
    ∀ f ∈ (ofTokens tokens finish firstId).faults, S.span f.span :=
  (holds_topLevel S firstId htokens hfinish hstart).1.faults

/-- Whatever the tokens are, the nodes of their program have different numbers, from the first one on
and below the next one. -/
theorem numbered_ofTokens (tokens : List Token) (finish : Span) (firstId : Nat) :
    Numbered firstId (ofTokens tokens finish firstId).program.ids
      (ofTokens tokens finish firstId).nextId := by
  have htokens : ∀ t ∈ tokens, Standard.any.span t.span := fun _ _ => trivial
  have hfinish : Standard.any.span finish := trivial
  obtain ⟨-, hrun⟩ := holds_topLevel .any firstId htokens hfinish trivial
  unfold ofTokens Program.ids
  dsimp only
  cases hr : ((Parser.topLevel (fuelFor tokens.length)).run
      (Cursor.ofTokens tokens finish firstId)).1 with
  | none =>
    have honward := (Parser.topLevel (fuelFor tokens.length)).onward (.ofTokens tokens finish firstId)
    exact (Numbered.nil firstId).widen honward.nextId
  | some ts => exact (hrun ts hr).2

end Parsed

end HostScript
