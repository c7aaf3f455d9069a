import HostScript.Proofs.Parsing.Expressions

/-!
# Statements that are read

Every parser of statements and declarations, run without a fault, reads a tree of the grammar, and the
tokens that it took are those that the tree is written as. A `for` statement is made up from others, and is
written in its own way.
-/

namespace HostScript.Parser

variable {s s₀ : Cursor} {expr : Parser Expr} {stmt : Parser Stmt}

/-- What it is to have read a declaration or statement since `s₀`. -/
structure IsDeclaration (s₀ : Cursor) (d : Stmt) (s : Cursor) : Prop where
  lays : s₀.Lays [.stmt d] s
  conforms : d.Conforms

/-- What it is to have read a statement that is no declaration since `s₀`. -/
structure IsStatement (s₀ : Cursor) (d : Stmt) (s : Cursor) : Prop extends IsDeclaration s₀ d s where
  declares : d.declares = none

theorem IsDeclaration.lt {d : Stmt} (h : IsDeclaration s₀ d s) : s.rest.length < s₀.rest.length :=
  h.lays.lt

/-! ### Simple statements -/

theorem reads_initializerOf (h : ∀ s', s'.rest.length ≤ s.rest.length → expr.Reads s' (IsExpr s' 0)) :
    (initializerOf expr).Reads s fun init s' => (∀ e ∈ init, e.Conforms) ∧
      s.Lays (init.elim [] fun e => [.symbol .eq, .expr e]) s' := by
  refine (reads_eat .eq s).bind ?_
  rintro _ s₁ (⟨rfl, h₁⟩ | ⟨rfl, rfl⟩)
  · refine (h s₁ (Nat.le_of_lt h₁.lt)).bind fun e s₂ h₂ => Reads.pure ⟨?_, h₁.trans h₂.lays⟩
    rintro _ ⟨⟩
    exact h₂.conforms
  · exact Reads.pure ⟨nofun, .refl s₁⟩

theorem reads_unlessAt (y : Symbol) (h : expr.Reads s (IsExpr s 0)) :
    (unlessAt y expr).Reads s fun value s' => (∀ e ∈ value, e.Conforms) ∧
      s.Lays (value.toList.map .expr) s' := by
  refine Reads.look_bind ?_
  split
  · exact Reads.pure ⟨nofun, .refl s⟩
  · refine h.bind fun e s₁ h₁ => Reads.pure ⟨?_, h₁.lays⟩
    rintro _ ⟨⟩
    exact h₁.conforms

theorem reads_varDeclOf (hk : s.kind? = some (.keyword .var))
    (h : ∀ s', s'.rest.length < s.rest.length → expr.Reads s' (IsExpr s' 0)) :
    (varDeclOf expr).Reads s (IsDeclaration s) := by
  refine (reads_take hk).bind fun _ s₁ h₁ => (reads_expectName _ s₁).bind fun x s₂ h₂ => ?_
  have hlt₂ := Nat.lt_trans h₂.lt h₁.lt
  refine (reads_initializerOf fun s' hle => h s' (Nat.lt_of_le_of_lt hle hlt₂)).bind ?_
  rintro init s₃ ⟨hinit, h₃⟩
  refine (reads_expect .semicolon _ s₃).bind fun _ s₄ h₄ => Reads.look_bind (Reads.pure ?_)
  refine ⟨Cursor.Lays.stmt ?_, .var x _ hinit⟩
  have hall := (h₁.lays.trans h₂.lays).trans (h₃.trans h₄.lays)
  cases init <;> exact hall

theorem reads_exprStmtOf (h : expr.Reads s (IsExpr s 0)) :
    (exprStmtOf expr).Reads s (IsStatement s) := by
  refine h.bind fun e s₁ h₁ => (reads_expect .semicolon _ s₁).bind fun _ s₂ h₂ => ?_
  refine Reads.look_bind (Reads.pure ⟨⟨?_, .expr _ h₁.conforms⟩, rfl⟩)
  exact Cursor.Lays.stmt (h₁.lays.trans h₂.lays)

theorem reads_printStmtOf (hk : s.kind? = some (.keyword .print))
    (h : ∀ s', s'.rest.length < s.rest.length → expr.Reads s' (IsExpr s' 0)) :
    (printStmtOf expr).Reads s (IsStatement s) := by
  refine (reads_take hk).bind fun _ s₁ h₁ => (h s₁ h₁.lt).bind fun e s₂ h₂ => ?_
  refine (reads_expect .semicolon _ s₂).bind fun _ s₃ h₃ => ?_
  refine Reads.look_bind (Reads.pure ⟨⟨?_, .print _ h₂.conforms⟩, rfl⟩)
  exact Cursor.Lays.stmt ((h₁.lays.trans h₂.lays).trans h₃.lays)

theorem reads_returnStmtOf (hk : s.kind? = some (.keyword .return_))
    (h : ∀ s', s'.rest.length < s.rest.length → expr.Reads s' (IsExpr s' 0)) :
    (returnStmtOf expr).Reads s (IsStatement s) := by
  refine (reads_take hk).bind fun _ s₁ h₁ => (reads_unlessAt .semicolon (h s₁ h₁.lt)).bind ?_
  rintro value s₂ ⟨hvalue, h₂⟩
  refine (reads_expect .semicolon _ s₂).bind fun _ s₃ h₃ => ?_
  refine Reads.look_bind (Reads.pure ⟨⟨Cursor.Lays.stmt ?_, .return_ _ hvalue⟩, rfl⟩)
  have hall := h₁.lays.trans (h₂.trans h₃.lays)
  cases value <;> exact hall

/-! ### Conditionals and loops -/

/-- The head of a conditional or loop: a keyword and an expression in parentheses. -/
theorem lays_head {k : Keyword} {e : Expr} {sp₁ sp₂ sp₄ : Span} {s₁ s₂ s₃ s₄ : Cursor}
    (h₁ : s.LaysAt [.keyword k] sp₁ s₁) (h₂ : s₁.LaysAt [.symbol .lparen] sp₂ s₂)
    (h₃ : IsExpr s₂ 0 e s₃) (h₄ : s₃.LaysAt [.symbol .rparen] sp₄ s₄) :
    s.Lays [.keyword k, .symbol .lparen, .expr e, .symbol .rparen] s₄ :=
  ((h₁.lays.trans h₂.lays).trans h₃.lays).trans h₄.lays

theorem reads_elseOf (h : ∀ s', s'.rest.length ≤ s.rest.length → stmt.Reads s' (IsStatement s')) :
    (elseOf stmt).Reads s fun f s' => (∀ t ∈ f, t.Conforms) ∧ (∀ t ∈ f, t.declares = none) ∧
      s.Lays (f.elim [] fun f => [.keyword .else_, .stmt f]) s' := by
  refine (reads_eatKeyword .else_ s).bind ?_
  rintro _ s₁ (⟨rfl, h₁⟩ | ⟨rfl, rfl⟩)
  · refine (h s₁ (Nat.le_of_lt h₁.lt)).bind fun t s₂ h₂ => Reads.pure ⟨?_, ?_, h₁.trans h₂.lays⟩
    · rintro _ ⟨⟩
      exact h₂.conforms
    · rintro _ ⟨⟩
      exact h₂.declares
  · exact Reads.pure ⟨by simp, by simp, .refl s₁⟩

theorem reads_ifStmtOf (hk : s.kind? = some (.keyword .if_))
    (he : ∀ s', s'.rest.length < s.rest.length → expr.Reads s' (IsExpr s' 0))
    (hs : ∀ s', s'.rest.length < s.rest.length → stmt.Reads s' (IsStatement s')) :
    (ifStmtOf expr stmt).Reads s (IsStatement s) := by
  refine (reads_take hk).bind fun _ s₁ h₁ => (reads_expect .lparen _ s₁).bind fun _ s₂ h₂ => ?_
  refine (he s₂ (Nat.lt_trans h₂.lt h₁.lt)).bind fun cond s₃ h₃ => ?_
  refine (reads_expect .rparen _ s₃).bind fun _ s₄ h₄ => ?_
  have hhead := lays_head h₁ h₂ h₃ h₄
  refine (hs s₄ hhead.lt).bind fun t s₅ h₅ => ?_
  have hlt₅ := Nat.lt_trans h₅.lt hhead.lt
  refine (reads_elseOf fun s' hle => hs s' (Nat.lt_of_le_of_lt hle hlt₅)).bind ?_
  rintro f s₆ ⟨hconf, hdecl, h₆⟩
  refine Reads.look_bind (Reads.pure ⟨⟨Cursor.Lays.stmt ?_, ?_⟩, rfl⟩)
  · have hall := hhead.trans (h₅.lays.trans h₆)
    cases f <;> exact hall
  · exact .ifElse _ h₃.conforms h₅.conforms h₅.declares hconf hdecl

theorem reads_whileStmtOf (hk : s.kind? = some (.keyword .while_))
    (he : ∀ s', s'.rest.length < s.rest.length → expr.Reads s' (IsExpr s' 0))
    (hs : ∀ s', s'.rest.length < s.rest.length → stmt.Reads s' (IsStatement s')) :
    (whileStmtOf expr stmt).Reads s (IsStatement s) := by
  refine (reads_take hk).bind fun _ s₁ h₁ => (reads_expect .lparen _ s₁).bind fun _ s₂ h₂ => ?_
  refine (he s₂ (Nat.lt_trans h₂.lt h₁.lt)).bind fun cond s₃ h₃ => ?_
  refine (reads_expect .rparen _ s₃).bind fun _ s₄ h₄ => ?_
  have hhead := lays_head h₁ h₂ h₃ h₄
  refine (hs s₄ hhead.lt).bind fun body s₅ h₅ => Reads.look_bind (Reads.pure ⟨⟨?_, ?_⟩, rfl⟩)
  · exact Cursor.Lays.stmt (hhead.trans h₅.lays)
  · exact .while_ _ h₃.conforms h₅.conforms h₅.declares

/-- The first clause of a `for` with its semicolon. -/
theorem reads_forInitOf (h : ∀ s', s'.rest.length ≤ s.rest.length → expr.Reads s' (IsExpr s' 0)) :
    (forInitOf expr).Reads s fun init s' => (∀ d ∈ init, d.Conforms) ∧
      s.Lays [init.elim (.symbol .semicolon) .stmt] s' := by
  have hsome {p : Parser Stmt} (hp : p.Reads s (IsDeclaration s)) :
      (p >>= fun d => Pure.pure (some d)).Reads s fun init s' => (∀ d ∈ init, d.Conforms) ∧
        s.Lays [init.elim (.symbol .semicolon) .stmt] s' := by
    refine hp.bind fun d s₁ h₁ => Reads.pure ⟨?_, h₁.lays⟩
    rintro _ ⟨⟩
    exact h₁.conforms
  refine (reads_eat .semicolon s).bind ?_
  rintro _ s₁ (⟨rfl, h₁⟩ | ⟨rfl, rfl⟩)
  · exact Reads.pure ⟨nofun, h₁⟩
  · refine Reads.look_bind ?_
    split
    · exact hsome (reads_varDeclOf (Cursor.kind?_of_atKeyword ‹_›) fun s' hlt => h s' (Nat.le_of_lt hlt))
    · exact hsome ((reads_exprStmtOf (h s₁ (Nat.le_refl _))).mono fun _ _ h => h.toIsDeclaration)

/-- The condition of a loop. One that is made up stands nowhere. -/
theorem reads_conditionOr (sp : Span) {cond : Option Expr} (hcond : ∀ e ∈ cond, e.Conforms) :
    (conditionOr sp cond).Reads s fun e s' =>
      e.Conforms ∧ (∃ m, e = cond.getD (.literal m (.bool true))) ∧ s'.rest = s.rest := by
  cases cond with
  | some e => exact Reads.pure ⟨hcond e rfl, ⟨⟨0, sp⟩, rfl⟩, rfl⟩
  | none =>
    refine (reads_node sp (fun m => Expr.literal m (.bool true)) s).mono ?_
    rintro _ _ ⟨⟨i, rfl⟩, hrest⟩
    exact ⟨.literal _ _, ⟨⟨i, sp⟩, rfl⟩, hrest⟩

theorem conforms_loop (sp : Span) {init : Option Stmt} {cond : Expr} {increment : Option Expr}
    {body : Stmt} (hinit : ∀ d ∈ init, d.Conforms) (hcond : cond.Conforms)
    (hincr : ∀ e ∈ increment, e.Conforms) (hbody : body.Conforms) (hdecl : body.declares = none) :
    (withInit sp (.while_ cond (withIncrement sp body increment) sp) init).Conforms ∧
      (withInit sp (.while_ cond (withIncrement sp body increment) sp) init).declares = none := by
  have hloop : (Stmt.while_ cond (withIncrement sp body increment) sp).Conforms := by
    cases increment with
    | none => exact .while_ sp hcond hbody hdecl
    | some e =>
      refine .while_ sp hcond (.block sp ?_) rfl
      exact List.forall_mem_cons.mpr ⟨hbody, by simpa using .expr _ (hincr e rfl)⟩
  cases init with
  | none => exact ⟨hloop, rfl⟩
  | some d =>
    refine ⟨.block sp (List.forall_mem_cons.mpr ⟨hinit d rfl, ?_⟩), rfl⟩
    simpa using hloop

theorem reads_forStmtOf (hk : s.kind? = some (.keyword .for_))
    (he : ∀ s', s'.rest.length < s.rest.length → expr.Reads s' (IsExpr s' 0))
    (hs : ∀ s', s'.rest.length < s.rest.length → stmt.Reads s' (IsStatement s')) :
    (forStmtOf expr stmt).Reads s (IsStatement s) := by
  refine (reads_take hk).bind fun _ s₁ h₁ => (reads_expect .lparen _ s₁).bind fun _ s₂ h₂ => ?_
  have hlt₂ := Nat.lt_trans h₂.lt h₁.lt
  refine (reads_forInitOf fun s' hle => he s' (Nat.lt_of_le_of_lt hle hlt₂)).bind ?_
  rintro init s₃ ⟨hinit, h₃⟩
  have hlt₃ := Nat.lt_trans h₃.lt hlt₂
  refine (reads_unlessAt .semicolon (he s₃ hlt₃)).bind ?_
  rintro cond s₄ ⟨hcond, h₄⟩
  refine (reads_expect .semicolon _ s₄).bind fun _ s₅ h₅ => ?_
  have hlt₅ := Nat.lt_trans h₅.lt (Nat.lt_of_le_of_lt h₄.le hlt₃)
  refine (reads_unlessAt .rparen (he s₅ hlt₅)).bind ?_
  rintro increment s₆ ⟨hincr, h₆⟩
  refine (reads_expect .rparen _ s₆).bind fun _ s₇ h₇ => ?_
  have hclauses := ((h₁.lays.trans (h₂.lays.trans h₃)).trans (h₄.trans h₅.lays)).trans (h₆.trans h₇.lays)
  refine (hs s₇ hclauses.lt).bind fun body s₈ h₈ => Reads.look_bind ?_
  refine (reads_conditionOr _ hcond).bind ?_
  rintro _ s₉ ⟨hcond', ⟨m, rfl⟩, hrest⟩
  obtain ⟨hconf, hdecl⟩ := conforms_loop _ hinit hcond' hincr h₈.conforms h₈.declares
  refine Reads.pure ⟨⟨?_, hconf⟩, hdecl⟩
  have hloop : s.Lays (Piece.loop init cond increment body) s₈ := by
    simpa [Piece.loop] using hclauses.trans h₈.lays
  unfold Cursor.Lays
  rw [hrest]
  exact hloop.loop

/-! ### Blocks, functions and classes -/

/-- What it is to have read declarations one after the other since `s₀`. -/
structure IsItems (s₀ : Cursor) (ds : List Stmt) (s : Cursor) : Prop where
  lays : s₀.Lays (ds.map .stmt) s
  conforms : ∀ d ∈ ds, d.Conforms

variable {items : Parser (List Stmt)}

theorem IsItems.refl (s : Cursor) : IsItems s [] s :=
  ⟨.refl s, nofun⟩

theorem IsDeclaration.cons {d : Stmt} {ds : List Stmt} {s' : Cursor} (hd : IsDeclaration s₀ d s)
    (hds : IsItems s ds s') : IsItems s₀ (d :: ds) s' :=
  ⟨hd.lays.trans hds.lays, List.forall_mem_cons.mpr ⟨hd.conforms, hds.conforms⟩⟩

/-- A declaration that is left out has left a fault. -/
theorem reads_itemsOf {item : Parser Stmt} {Q : List Stmt → Cursor → Prop}
    (h : item.Reads s (IsDeclaration s))
    (hmore : ∀ d s', IsDeclaration s d s' → items.Reads s' fun ds s'' => Q (d :: ds) s'') :
    (itemsOf item items).Reads s Q := by
  refine h.attempt.bind ?_
  rintro _ s₁ ⟨d, rfl, h₁⟩
  exact (hmore d s₁ h₁).bind fun ds s₂ h₂ => Reads.pure h₂

theorem reads_blockOf (h : ∀ s', s'.rest.length < s.rest.length → items.Reads s' (IsItems s')) :
    (blockOf items).Reads s fun b s' => (∀ d ∈ b.1, d.Conforms) ∧
      s.Lays ([.symbol .lbrace] ++ b.1.map .stmt ++ [.symbol .rbrace]) s' := by
  refine Reads.look_bind ((reads_expect .lbrace _ s).bind fun _ s₁ h₁ => ?_)
  refine (h s₁ h₁.lt).bind fun body s₂ h₂ => (reads_expect .rbrace _ s₂).bind fun _ s₃ h₃ => ?_
  exact Reads.look_bind (Reads.pure ⟨h₂.conforms, (h₁.lays.trans h₂.lays).trans h₃.lays⟩)

/-- What it is to have read parameters since `s₀`, where `count` came before. -/
abbrev IsParameters : Cursor → Nat → List Ident → Cursor → Prop :=
  IsListed .name fun _ => True

variable {params : Parser (List Ident)}

theorem reads_parameters (n count : Nat) (s : Cursor) (hn : s.rest.length < n) :
    (parameters n count).Reads s fun xs s' => xs ≠ [] ∧ IsParameters s count xs s' := by
  induction n generalizing count s with
  | zero => omega
  | succ n ih =>
    have hname := (reads_expectName .parameterName s).mono fun _ _ h => And.intro h.lays trivial
    exact reads_limitedListOf hname fun s' hlt => ih (count + 1) s' (by omega)

/-- What it is to have read a function from its name on since `s₀`. -/
structure IsFunction (s₀ : Cursor) (d : FunctionDecl) (s : Cursor) : Prop where
  lays : s₀.Lays d.pieces s
  conforms : d.Conforms

theorem IsFunction.lt {d : FunctionDecl} (h : IsFunction s₀ d s) : s.rest.length < s₀.rest.length :=
  Cursor.Lays.lt h.lays

theorem reads_callableOf (kind : CallableKind)
    (hp : ∀ s', s'.rest.length < s.rest.length →
      params.Reads s' fun xs s'' => xs ≠ [] ∧ IsParameters s' 0 xs s'')
    (hb : ∀ s', s'.rest.length < s.rest.length → items.Reads s' (IsItems s')) :
    (callableOf kind params items).Reads s (IsFunction s) := by
  refine (reads_expectName _ s).bind fun x s₁ h₁ => ?_
  refine (reads_expect .lparen _ s₁).bind fun _ s₂ h₂ => ?_
  refine (reads_listed_or_nil (hp s₂ (Nat.lt_trans h₂.lt h₁.lt))).bind fun xs s₃ h₃ => ?_
  refine (reads_expect .rparen _ s₃).bind fun _ s₄ h₄ => Reads.look_bind ?_
  have hhead := (h₁.lays.trans h₂.lays).trans (h₃.lays.trans h₄.lays)
  have hlength : xs.length ≤ 255 := by simpa using h₃.length_le
  split
  · refine (reads_blockOf fun s' hlt => hb s' (Nat.lt_trans hlt hhead.lt)).bind ?_
    rintro ⟨body, sp⟩ s₅ ⟨hbody, h₅⟩
    refine Reads.pure ⟨?_, .mk x _ hlength hbody⟩
    simpa [FunctionDecl.pieces] using hhead.trans h₅
  · exact Reads.failAt

theorem reads_superclass (s : Cursor) :
    superclass.Reads s fun super s' =>
      s.Lays (super.elim [] fun p => [.symbol .less, .expr p.toExpr]) s' := by
  refine (reads_eat .less s).bind ?_
  rintro _ s₁ (⟨rfl, h₁⟩ | ⟨rfl, rfl⟩)
  · refine (reads_expectName _ s₁).bind fun x s₂ h₂ => ?_
    have hname : (node x.span fun m => Superclass.mk m x).Reads s₂ fun p s' =>
        s₁.Lays [.expr p.toExpr] s' :=
      fun _ => ⟨_, rfl, (Cursor.LaysAt.expr_iff.mpr h₂).lays⟩
    exact hname.bind fun p s₃ h₃ => Reads.pure (h₁.trans h₃)
  · exact Reads.pure (.refl s₁)

/-- What it is to have read methods one after the other since `s₀`. -/
structure IsMethods (s₀ : Cursor) (ds : List FunctionDecl) (s : Cursor) : Prop where
  lays : s₀.Lays (ds.flatMap FunctionDecl.pieces) s
  conforms : ∀ d ∈ ds, d.Conforms

variable {methods : Parser (List FunctionDecl)}

theorem reads_classDeclOf (hk : s.kind? = some (.keyword .class_))
    (h : ∀ s', s'.rest.length < s.rest.length → methods.Reads s' (IsMethods s')) :
    (classDeclOf methods).Reads s (IsDeclaration s) := by
  refine (reads_take hk).bind fun _ s₁ h₁ => (reads_expectName _ s₁).bind fun x s₂ h₂ => ?_
  refine (reads_superclass s₂).bind fun super s₃ h₃ => ?_
  refine (reads_expect .lbrace _ s₃).bind fun _ s₄ h₄ => ?_
  have hhead := (h₁.lays.trans h₂.lays).trans (h₃.trans h₄.lays)
  refine (h s₄ hhead.lt).bind fun ms s₅ h₅ => (reads_expect .rbrace _ s₅).bind fun _ s₆ h₆ => ?_
  refine Reads.look_bind (Reads.pure ⟨Cursor.Lays.stmt ?_, .class_ x super _ h₅.conforms⟩)
  have hall := hhead.trans (h₅.lays.trans h₆.lays)
  cases super <;> simpa [Stmt.pieces] using hall

theorem reads_methodsOf {method : Parser FunctionDecl} (hf : method.Reads s (IsFunction s))
    (hm : ∀ s', s'.rest.length < s.rest.length → methods.Reads s' (IsMethods s')) :
    (methodsOf method methods).Reads s (IsMethods s) := by
  refine hf.bind fun d s₁ h₁ => (hm s₁ h₁.lt).bind fun ds s₂ h₂ => Reads.pure ?_
  exact ⟨h₁.lays.trans h₂.lays, List.forall_mem_cons.mpr ⟨h₁.conforms, h₂.conforms⟩⟩

/-! ### Any statement, any declaration -/

theorem reads_statementOf
    (he : ∀ s', s'.rest.length ≤ s.rest.length → expr.Reads s' (IsExpr s' 0))
    (hs : ∀ s', s'.rest.length < s.rest.length → stmt.Reads s' (IsStatement s'))
    (hb : ∀ s', s'.rest.length < s.rest.length → items.Reads s' (IsItems s')) :
    (statementOf expr stmt items).Reads s (IsStatement s) := by
  have he' : ∀ s', s'.rest.length < s.rest.length → expr.Reads s' (IsExpr s' 0) :=
    fun s' hlt => he s' (Nat.le_of_lt hlt)
  refine Reads.look_bind ?_
  split
  · exact reads_printStmtOf ‹_› he'
  · exact reads_returnStmtOf ‹_› he'
  · exact reads_ifStmtOf ‹_› he' hs
  · exact reads_whileStmtOf ‹_› he' hs
  · exact reads_forStmtOf ‹_› he' hs
  · refine (reads_blockOf hb).bind ?_
    rintro ⟨body, sp⟩ s₁ ⟨hbody, h₁⟩
    exact Reads.pure ⟨⟨Cursor.Lays.stmt h₁, .block sp hbody⟩, rfl⟩
  · exact reads_exprStmtOf (he s (Nat.le_refl _))

theorem reads_declarationOf {function : Parser FunctionDecl}
    (he : ∀ s', s'.rest.length < s.rest.length → expr.Reads s' (IsExpr s' 0))
    (hs : stmt.Reads s (IsStatement s))
    (hf : ∀ s', s'.rest.length < s.rest.length → function.Reads s' (IsFunction s'))
    (hm : ∀ s', s'.rest.length < s.rest.length → methods.Reads s' (IsMethods s')) :
    (declarationOf expr stmt function methods).Reads s (IsDeclaration s) := by
  refine Reads.look_bind ?_
  split
  · exact reads_classDeclOf ‹_› hm
  · refine (reads_take ‹_›).bind fun _ s₁ h₁ => (hf s₁ h₁.lt).bind fun d s₂ h₂ => Reads.pure ?_
    exact ⟨Cursor.Lays.stmt (h₁.lays.trans h₂.lays), .function h₂.conforms⟩
  · exact reads_varDeclOf ‹_› he
  · exact hs.mono fun _ _ h => h.toIsDeclaration

/-! ### The recursive definitions -/

/-- The nesting does not matter for what is read. -/
theorem reads_nested_stmt {p : Parser Stmt}
    (h : p.Reads { s with depth := s.depth + 1 } (IsStatement { s with depth := s.depth + 1 })) :
    (nested p).Reads s (IsStatement s) :=
  Reads.nested (h.mono fun _ _ hd => ⟨⟨hd.lays, hd.conforms⟩, hd.declares⟩)

/-- All parsers of statements read what they should with fuel `n`, where that is enough. -/
structure StatementsRead (n : Nat) : Prop where
  declaration : ∀ s, 16 * s.rest.length + 18 ≤ n → (declaration n).Reads s (IsDeclaration s)
  statement : ∀ s, 16 * s.rest.length + 17 ≤ n → (statement n).Reads s (IsStatement s)
  callable : ∀ kind s, 16 * s.rest.length + 4 ≤ n → (callable n kind).Reads s (IsFunction s)
  blockItems : ∀ s, 16 * s.rest.length + 19 ≤ n → (blockItems n).Reads s (IsItems s)
  methods : ∀ s, 16 * s.rest.length + 5 ≤ n → (Parser.methods n).Reads s (IsMethods s)

namespace StatementsRead

variable {n : Nat}

theorem zero : StatementsRead 0 := by
  refine ⟨?_, ?_, ?_, ?_, ?_⟩ <;> intros <;> omega

theorem succ (ih : StatementsRead n) : StatementsRead (n + 1) where
  declaration s h := by
    refine Reads.recovering (reads_declarationOf ?_ (ih.statement s (by omega)) ?_ ?_)
    · exact fun s' hlt => (expressionsRead n).expression s' (by omega)
    · exact fun s' hlt => ih.callable .function s' (by omega)
    · exact fun s' hlt => ih.methods s' (by omega)
  statement s h := by
    refine reads_nested_stmt (reads_statementOf ?_ ?_ ?_) <;> dsimp only
    · exact fun s' hle => (expressionsRead n).expression s' (by omega)
    · exact fun s' hlt => ih.statement s' (by omega)
    · exact fun s' hlt => ih.blockItems s' (by omega)
  callable kind s h := by
    refine reads_callableOf kind ?_ ?_
    · exact fun s' hlt => reads_parameters n 0 s' (by omega)
    · exact fun s' hlt => ih.blockItems s' (by omega)
  blockItems s h := by
    refine reads_listUnless (fun _ => Reads.pure (.refl s)) ?_
    refine reads_itemsOf (ih.declaration s (by omega)) fun d s' hd => ?_
    have hlt := hd.lt
    exact (ih.blockItems s' (by omega)).mono fun ds s'' hds => hd.cons hds
  methods s h := by
    refine reads_listUnless (fun _ => Reads.pure ⟨.refl s, nofun⟩) ?_
    refine reads_methodsOf (ih.callable .method s (by omega)) fun s' hlt => ?_
    exact ih.methods s' (by omega)

end StatementsRead

theorem statementsRead (n : Nat) : StatementsRead n := by
  induction n with
  | zero => exact .zero
  | succ n ih => exact ih.succ

/-- Without faults, everything up to the end is read. -/
theorem reads_topLevel (n : Nat) (s : Cursor) (hn : 16 * s.rest.length + 19 ≤ n) :
    (topLevel n).Reads s fun ds s' => s'.rest = [] ∧ IsItems s ds s' := by
  induction n generalizing s with
  | zero => omega
  | succ n ih =>
    refine reads_listUnless (fun hstop hclean => ?_) ?_
    · replace hclean : s.faults = [] := hclean
      have hend : s.atEnd = true := by
        simpa [Cursor.tooManyFaults, hclean, maxErrors] using hstop
      exact ⟨_, rfl, List.isEmpty_iff.mp hend, .refl s⟩
    · refine reads_itemsOf ((statementsRead n).declaration s (by omega)) fun d s' hd => ?_
      have hlt := hd.lt
      exact (ih s' (by omega)).mono fun ds s'' ⟨hend, hds⟩ => ⟨hend, hd.cons hds⟩

end HostScript.Parser
