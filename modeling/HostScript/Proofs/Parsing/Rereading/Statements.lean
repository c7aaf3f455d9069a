import HostScript.Proofs.Parsing.Rereading.Expressions
import HostScript.Proofs.Parsing.Statements

/-!
# Statements that are read back

A statement of the grammar is read back from its own tokens, if there is room for its nesting and if no
`else` behind it would be taken for its own. An `else` belongs to the nearest `if`, so a conditional with
an `else` is read back only if its first branch does not end in one without.
-/

namespace HostScript

/-! ### Where a statement starts -/

/-- Tokens that a statement may start with that is no declaration. -/
def TokenKind.startsStmt (k : TokenKind) : Bool :=
  k.startsExpr || k = .symbol .lbrace || k = .keyword .print || k = .keyword .return_ ||
    k = .keyword .if_ || k = .keyword .while_

theorem Stmt.kinds_eq_cons (t : Stmt) :
    ∃ k ks, t.kinds = k :: ks ∧ (t.declares = none → k.startsStmt = true) ∧
      k ≠ .symbol .rbrace ∧ k ≠ .keyword .else_ := by
  cases t with
  | var x init sp =>
    cases init <;> exact ⟨.keyword .var, _, by simp [Stmt.kinds]; rfl, by simp [Stmt.declares], by simp, by simp⟩
  | function d => exact ⟨.keyword .func, _, by simp [Stmt.kinds]; rfl, by simp [Stmt.declares], by simp, by simp⟩
  | class_ x super ms sp =>
    exact ⟨.keyword .class_, _, by simp [Stmt.kinds]; rfl, by simp [Stmt.declares], by simp, by simp⟩
  | block body sp =>
    exact ⟨.symbol .lbrace, _, by simp [Stmt.kinds]; rfl, fun _ => rfl, by simp, by simp⟩
  | ifElse cond t e sp =>
    cases e <;> exact ⟨.keyword .if_, _, by simp [Stmt.kinds]; rfl, fun _ => rfl, by simp, by simp⟩
  | while_ cond body sp =>
    exact ⟨.keyword .while_, _, by simp [Stmt.kinds]; rfl, fun _ => rfl, by simp, by simp⟩
  | print e sp => exact ⟨.keyword .print, _, by simp [Stmt.kinds]; rfl, fun _ => rfl, by simp, by simp⟩
  | return_ value sp =>
    cases value <;>
      exact ⟨.keyword .return_, _, by simp [Stmt.kinds]; rfl, fun _ => rfl, by simp, by simp⟩
  | expr e sp =>
    obtain ⟨k, ks, hk, hstart⟩ := e.kinds_eq_cons
    refine ⟨k, ks ++ [.symbol .semicolon], by simp [Stmt.kinds, hk], fun _ => ?_, ?_, ?_⟩
    · simp [TokenKind.startsStmt, hstart]
    all_goals
      rintro rfl
      cases hstart

theorem Ident.listKinds_cons_cons (x y : Ident) (xs : List Ident) :
    Ident.listKinds (x :: y :: xs) =
      .name x.name :: .symbol .comma :: Ident.listKinds (y :: xs) := by
  simp [Ident.listKinds]

theorem FunctionDecl.kinds_eq_cons (decl : FunctionDecl) :
    ∃ ks, decl.kinds = .name decl.name.name :: ks := by
  cases decl
  exact ⟨_, by simp [FunctionDecl.kinds]; rfl⟩

namespace Parser

/-! ### What it is to be read back -/

/-- The tokens of a statement come next, and no `else` behind them that it would take. There is room for
its nesting, and fuel for all the tokens and `extra` levels more. -/
structure StmtDue (t : Stmt) (extra n : Nat) (s : Cursor) (d : Nat) (rest : List TokenKind) :
    Prop where
  before : s.Before d (t.kinds ++ rest)
  apart : t.endsOpen = true → rest.head? ≠ some (.keyword .else_)
  nesting : d + t.nesting ≤ maxNesting
  fuel : 16 * (t.kinds.length + rest.length) + extra ≤ n

def RereadsStmt (t : Stmt) : Prop :=
  ∀ n s d rest, StmtDue t 17 n s d rest →
    (statement n).Gives s fun t' s' => t'.Like t ∧ s'.Before d rest

def RereadsDecl (t : Stmt) : Prop :=
  ∀ n s d rest, StmtDue t 18 n s d rest →
    (declaration n).Gives s fun t' s' => t'.Like t ∧ s'.Before d rest

/-- A statement is read back where statements and declarations may stand, and where only statements
may, if it is one. -/
structure StmtReadBack (t : Stmt) : Prop where
  statement : t.declares = none → RereadsStmt t
  declaration : RereadsDecl t

def RereadsCallable (decl : FunctionDecl) : Prop :=
  ∀ kind n s d rest, s.Before d (decl.kinds ++ rest) → d + decl.nesting ≤ maxNesting →
    16 * (decl.kinds.length + rest.length) + 18 ≤ n →
    (callable n kind).Gives s fun decl' s' => decl'.Like decl ∧ s'.Before d rest

variable {t : Stmt} {e : Expr}

/-- A statement that is no declaration is read one level deeper by its production. -/
theorem rereadsStmt_of_production (hpos : 0 < t.nesting)
    (h : ∀ n s d rest, s.Before d (t.kinds ++ rest) →
      (t.endsOpen = true → rest.head? ≠ some (.keyword .else_)) → d + t.nesting ≤ maxNesting + 1 →
      16 * (t.kinds.length + rest.length) + 16 ≤ n →
      (statementOf (expression n) (statement n) (blockItems n)).Gives s fun t' s' =>
        t'.Like t ∧ s'.Before d rest) :
    RereadsStmt t := by
  rintro n s d rest ⟨hbefore, hapart, hnesting, hfuel⟩
  obtain ⟨n, rfl⟩ := Nat.exists_eq_succ_of_ne_zero (n := n) (by omega)
  rw [statement_succ]
  refine Gives.nested hbefore (by omega) fun s₁ hs₁ => ?_
  exact h n s₁ (d + 1) rest hs₁ hapart (by omega) (by omega)

/-- Where a declaration may stand, other statements are read as they are elsewhere. -/
theorem StmtReadBack.of_statement (hd : t.declares = none) (h : RereadsStmt t) : StmtReadBack t := by
  refine ⟨fun _ => h, ?_⟩
  rintro n s d rest ⟨hbefore, hapart, hnesting, hfuel⟩
  obtain ⟨n, rfl⟩ := Nat.exists_eq_succ_of_ne_zero (n := n) (by omega)
  obtain ⟨k, ks, hk, hstart, -⟩ := t.kinds_eq_cons
  replace hstart := hstart hd
  rw [declaration_succ]
  refine Gives.recovering (Gives.look_bind ?_)
  rw [hbefore.kind?, hk]
  split
  case h_4 => exact h n s d rest ⟨hbefore, hapart, hnesting, by omega⟩
  all_goals
    rename_i heq
    cases heq
    cases hstart

theorem StmtReadBack.of_declaration (hd : t.declares.isSome) (h : RereadsDecl t) :
    StmtReadBack t :=
  ⟨fun hnone => absurd hd (by simp [hnone]), h⟩

/-! ### Statements made of expressions -/

/-- An expression and the semicolon behind it. -/
theorem gives_expression_semicolon {n d : Nat} {s : Cursor} {rest : List TokenKind}
    (he : e.Conforms) (hs : s.Before d (e.kinds ++ .symbol .semicolon :: rest))
    (hnesting : d + (e.nesting + 1) ≤ maxNesting)
    (hfuel : 16 * (e.kinds.length + (rest.length + 1)) + 16 ≤ n) :
    (expression n).Gives s fun e' s' => e'.Like e ∧ s'.Before d (.symbol .semicolon :: rest) := by
  refine gives_expression (ReadBack.of_conforms he).assignment hs (.separator (by decide)) hnesting ?_
  rw [List.length_cons]
  exact hfuel

theorem rereadsStmt_print (sp : Span) (he : e.Conforms) : RereadsStmt (.print e sp) := by
  refine rereadsStmt_of_production (Stmt.nesting_pos rfl) fun n s d rest hs _ hnesting hfuel => ?_
  simp only [Stmt.kinds, List.append_assoc, List.cons_append, List.nil_append, List.length_append,
    List.length_cons, List.length_nil] at hs hfuel
  simp only [Stmt.nesting] at hnesting
  refine Gives.look_bind ?_
  rw [hs.kind?]
  refine (gives_take hs).bind fun _ s₁ hs₁ => ?_
  refine (gives_expression_semicolon he hs₁ (by omega) (by omega)).bind ?_
  rintro e' s₂ ⟨he', hs₂⟩
  refine (gives_expect _ hs₂).bind fun _ s₃ hs₃ => Gives.look_bind (Gives.pure ⟨?_, hs₃⟩)
  unfold Expr.Like at he'
  simp only [Stmt.Like, Stmt.relabel, he']
  rfl

theorem rereadsStmt_expr (sp : Span) (he : e.Conforms) : RereadsStmt (.expr e sp) := by
  refine rereadsStmt_of_production (Stmt.nesting_pos rfl) fun n s d rest hs _ hnesting hfuel => ?_
  simp only [Stmt.kinds, List.append_assoc, List.cons_append, List.nil_append, List.length_append,
    List.length_cons, List.length_nil] at hs hfuel
  simp only [Stmt.nesting] at hnesting
  obtain ⟨k, ks, hk, hstart⟩ := e.kinds_eq_cons
  refine Gives.look_bind ?_
  rw [hs.kind?, hk]
  split
  case h_7 =>
    refine (gives_expression_semicolon he hs (by omega) (by omega)).bind ?_
    rintro e' s₁ ⟨he', hs₁⟩
    refine (gives_expect _ hs₁).bind fun _ s₂ hs₂ => Gives.look_bind (Gives.pure ⟨?_, hs₂⟩)
    unfold Expr.Like at he'
    simp only [Stmt.Like, Stmt.relabel, he']
    rfl
  all_goals
    rename_i heq
    cases heq
    cases hstart

theorem rereadsStmt_return (value : Option Expr) (sp : Span) (hvalue : ∀ e ∈ value, e.Conforms) :
    RereadsStmt (.return_ value sp) := by
  refine rereadsStmt_of_production (Stmt.nesting_pos rfl)
    fun n s d rest hs _ hnesting hfuel => ?_
  cases value with
  | none =>
    simp only [Stmt.kinds, List.cons_append, List.nil_append] at hs
    refine Gives.look_bind ?_
    rw [hs.kind?]
    refine (gives_take hs).bind fun _ s₁ hs₁ => ?_
    refine Gives.bind (Q := fun v s' => v = none ∧ s' = s₁) ?_ ?_
    · refine Gives.look_bind ?_
      rw [if_pos (hs₁.atSymbol_iff.mpr rfl)]
      exact Gives.pure ⟨rfl, rfl⟩
    rintro _ _ ⟨rfl, rfl⟩
    refine (gives_expect _ hs₁).bind fun _ s₂ hs₂ => Gives.look_bind (Gives.pure ⟨?_, hs₂⟩)
    simp only [Stmt.Like, Stmt.relabel]
    rfl
  | some e =>
    simp only [Stmt.kinds, List.append_assoc, List.cons_append, List.nil_append, List.length_append,
      List.length_cons, List.length_nil] at hs hfuel
    simp only [Stmt.nesting] at hnesting
    obtain ⟨k, ks, hk, hstart⟩ := e.kinds_eq_cons
    refine Gives.look_bind ?_
    rw [hs.kind?]
    refine (gives_take hs).bind fun _ s₁ hs₁ => ?_
    have hsome : (unlessAt .semicolon (expression n)).Gives s₁ fun v s' =>
        ∃ e', v = some e' ∧ e'.Like e ∧ s'.Before d (.symbol .semicolon :: rest) := by
      refine Gives.look_bind ?_
      rw [if_neg (mt hs₁.atSymbol_iff.mp ?_)]
      · refine (gives_expression_semicolon (hvalue e rfl) hs₁ (by omega) (by omega)).bind ?_
        rintro e' s' ⟨he', hs'⟩
        exact Gives.pure ⟨e', rfl, he', hs'⟩
      · rw [hk]
        rintro ⟨⟩
        cases hstart
    refine hsome.bind ?_
    rintro _ s₂ ⟨e', rfl, he', hs₂⟩
    refine (gives_expect _ hs₂).bind fun _ s₃ hs₃ => Gives.look_bind (Gives.pure ⟨?_, hs₃⟩)
    unfold Expr.Like at he'
    simp only [Stmt.Like, Stmt.relabel, Option.map_some, he']
    rfl

theorem rereadsDecl_var (x : Ident) (init : Option Expr) (sp : Span)
    (hinit : ∀ e ∈ init, e.Conforms) : RereadsDecl (.var x init sp) := by
  rintro n s d rest ⟨hs, -, hnesting, hfuel⟩
  obtain ⟨n, rfl⟩ := Nat.exists_eq_succ_of_ne_zero (n := n) (by omega)
  rw [declaration_succ]
  refine Gives.recovering (Gives.look_bind ?_)
  cases init with
  | none =>
    simp only [Stmt.kinds, List.cons_append, List.nil_append] at hs
    rw [hs.kind?]
    refine (gives_take hs).bind fun _ s₁ hs₁ => (gives_expectName _ hs₁).bind ?_
    rintro y s₂ ⟨hy, hs₂⟩
    refine Gives.bind (Q := fun v s' => v = none ∧ s' = s₂) ?_ ?_
    · refine (gives_eat_other (y := .eq) hs₂ (by simp)).bind ?_
      rintro _ _ ⟨rfl, rfl⟩
      exact Gives.pure ⟨rfl, rfl⟩
    rintro _ _ ⟨rfl, rfl⟩
    refine (gives_expect _ hs₂).bind fun _ s₃ hs₃ => Gives.look_bind (Gives.pure ⟨?_, hs₃⟩)
    simp only [Stmt.Like, Stmt.relabel, Ident.relabel_blank hy]
    rfl
  | some e =>
    simp only [Stmt.kinds, List.append_assoc, List.cons_append, List.nil_append, List.length_append,
      List.length_cons, List.length_nil] at hs hfuel
    simp only [Stmt.nesting] at hnesting
    rw [hs.kind?]
    refine (gives_take hs).bind fun _ s₁ hs₁ => (gives_expectName _ hs₁).bind ?_
    rintro y s₂ ⟨hy, hs₂⟩
    have hsome : (initializerOf (expression n)).Gives s₂ fun v s' =>
        ∃ e', v = some e' ∧ e'.Like e ∧ s'.Before d (.symbol .semicolon :: rest) := by
      refine (gives_eat hs₂).bind ?_
      rintro _ s₃ ⟨rfl, hs₃⟩
      refine (gives_expression_semicolon (hinit e rfl) hs₃ hnesting (by omega)).bind ?_
      rintro e' s' ⟨he', hs'⟩
      exact Gives.pure ⟨e', rfl, he', hs'⟩
    refine hsome.bind ?_
    rintro _ s₃ ⟨e', rfl, he', hs₃⟩
    refine (gives_expect _ hs₃).bind fun _ s₄ hs₄ => Gives.look_bind (Gives.pure ⟨?_, hs₄⟩)
    unfold Expr.Like at he'
    simp only [Stmt.Like, Stmt.relabel, Option.map_some, he', Ident.relabel_blank hy]
    rfl

/-! ### Conditionals and loops -/

/-- A condition in parentheses. -/
theorem gives_condition {n d : Nat} {s : Cursor} {rest : List TokenKind} {α : Type}
    {f : Expr → Parser α} {Q : α → Cursor → Prop} (w₁ w₂ : Expectation) (he : e.Conforms)
    (hs : s.Before d (.symbol .lparen :: (e.kinds ++ .symbol .rparen :: rest)))
    (hnesting : d + (e.nesting + 1) ≤ maxNesting)
    (hfuel : 16 * (e.kinds.length + (rest.length + 1)) + 16 ≤ n)
    (hf : ∀ e' s', e'.Like e → s'.Before d rest → (f e').Gives s' Q) :
    (do
      let _ ← expect .lparen w₁
      let cond ← expression n
      let _ ← expect .rparen w₂
      f cond).Gives s Q := by
  refine (gives_expect _ hs).bind fun _ s₁ hs₁ => ?_
  refine (gives_expression (ReadBack.of_conforms he).assignment hs₁ (.separator (by decide)) hnesting
    (by rw [List.length_cons]; exact hfuel)).bind ?_
  rintro e' s₂ ⟨he', hs₂⟩
  exact (gives_expect _ hs₂).bind fun _ s₃ hs₃ => hf e' s₃ he' hs₃

theorem rereadsStmt_while {body : Stmt} (sp : Span) (he : e.Conforms) (hbody : RereadsStmt body) :
    RereadsStmt (.while_ e body sp) := by
  refine rereadsStmt_of_production (Stmt.nesting_pos rfl) fun n s d rest hs hapart hnesting hfuel => ?_
  simp only [Stmt.kinds, List.append_assoc, List.cons_append, List.nil_append, List.length_append,
    List.length_cons] at hs hfuel
  simp only [Stmt.nesting] at hnesting
  refine Gives.look_bind ?_
  rw [hs.kind?]
  refine (gives_take hs).bind fun _ s₁ hs₁ => ?_
  refine gives_condition _ _ he hs₁ (by omega) (by rw [List.length_append]; omega) ?_
  intro e' s₂ he' hs₂
  refine (hbody n s₂ d rest ⟨hs₂, hapart, by omega, by omega⟩).bind ?_
  rintro body' s₃ ⟨hbody', hs₃⟩
  refine Gives.look_bind (Gives.pure ⟨?_, hs₃⟩)
  unfold Expr.Like at he'
  unfold Stmt.Like at hbody'
  simp only [Stmt.Like, Stmt.relabel, he', hbody']
  rfl

theorem rereadsStmt_if (sp : Span) (he : e.Conforms) (ht : RereadsStmt t) :
    RereadsStmt (.ifElse e t none sp) := by
  refine rereadsStmt_of_production (Stmt.nesting_pos rfl) fun n s d rest hs hapart hnesting hfuel => ?_
  simp only [Stmt.kinds, List.append_assoc, List.cons_append, List.nil_append, List.length_append,
    List.length_cons] at hs hfuel
  simp only [Stmt.nesting] at hnesting
  have hrest := hapart rfl
  refine Gives.look_bind ?_
  rw [hs.kind?]
  refine (gives_take hs).bind fun _ s₁ hs₁ => ?_
  refine gives_condition _ _ he hs₁ (by omega) (by rw [List.length_append]; omega) ?_
  intro e' s₂ he' hs₂
  refine (ht n s₂ d rest ⟨hs₂, fun _ => hrest, by omega, by omega⟩).bind ?_
  rintro t' s₃ ⟨ht', hs₃⟩
  refine Gives.bind (Q := fun b s' => b = none ∧ s' = s₃) ?_ ?_
  · refine (gives_eatKeyword_other hs₃ hrest).bind ?_
    rintro _ _ ⟨rfl, rfl⟩
    exact Gives.pure ⟨rfl, rfl⟩
  rintro _ _ ⟨rfl, rfl⟩
  refine Gives.look_bind (Gives.pure ⟨?_, hs₃⟩)
  unfold Expr.Like at he'
  unfold Stmt.Like at ht'
  simp only [Stmt.Like, Stmt.relabel, he', ht']
  rfl

/-- The `else` behind the first branch is not taken by what the branch ends in. -/
theorem rereadsStmt_ifElse {f : Stmt} (sp : Span) (he : e.Conforms) (ht : RereadsStmt t)
    (hclosed : t.endsOpen = false) (hf : RereadsStmt f) :
    RereadsStmt (.ifElse e t (some f) sp) := by
  refine rereadsStmt_of_production (Stmt.nesting_pos rfl) fun n s d rest hs hapart hnesting hfuel => ?_
  simp only [Stmt.kinds, List.append_assoc, List.cons_append, List.nil_append, List.length_append,
    List.length_cons] at hs hfuel
  simp only [Stmt.nesting] at hnesting
  refine Gives.look_bind ?_
  rw [hs.kind?]
  refine (gives_take hs).bind fun _ s₁ hs₁ => ?_
  refine gives_condition _ _ he hs₁ (by omega)
    (by simp only [List.length_append, List.length_cons]; omega) ?_
  intro e' s₂ he' hs₂
  refine (ht n s₂ d _ ⟨hs₂, fun h => absurd (hclosed.symm.trans h) Bool.false_ne_true, by omega, ?_⟩).bind ?_
  · simp only [List.length_append, List.length_cons]
    omega
  rintro t' s₃ ⟨ht', hs₃⟩
  have helse : (elseOf (statement n)).Gives s₃ fun b s' =>
      ∃ f', b = some f' ∧ f'.Like f ∧ s'.Before d rest := by
    refine (gives_eatKeyword hs₃).bind ?_
    rintro _ s₄ ⟨rfl, hs₄⟩
    refine (hf n s₄ d rest ⟨hs₄, hapart, by omega, by omega⟩).bind ?_
    rintro f' s' ⟨hf', hs'⟩
    exact Gives.pure ⟨f', rfl, hf', hs'⟩
  refine helse.bind ?_
  rintro _ s₄ ⟨f', rfl, hf', hs₄⟩
  refine Gives.look_bind (Gives.pure ⟨?_, hs₄⟩)
  unfold Expr.Like at he'
  unfold Stmt.Like at ht' hf'
  simp only [Stmt.Like, Stmt.relabel, he', ht', hf']
  rfl

/-! ### Lists of declarations -/

/-- One declaration, and then those behind it. -/
theorem gives_itemsOf {ts : List Stmt} {n d : Nat} {s : Cursor} {rest rest' : List TokenKind}
    {more : Parser (List Stmt)} (ht : RereadsDecl t) (hdue : StmtDue t 18 n s d rest)
    (hmore : ∀ s', s'.Before d rest → more.Gives s' fun ts' s'' =>
      Stmt.listRelabel .blank ts' = Stmt.listRelabel .blank ts ∧ s''.Before d rest') :
    (itemsOf (declaration n) more).Gives s fun ts' s' =>
      Stmt.listRelabel .blank ts' = Stmt.listRelabel .blank (t :: ts) ∧ s'.Before d rest' := by
  refine (Gives.attempt (ht n s d rest hdue)).bind ?_
  rintro _ s₁ ⟨t', rfl, ht', hs₁⟩
  refine (hmore s₁ hs₁).bind ?_
  rintro ts' s₂ ⟨hts', hs₂⟩
  refine Gives.pure ⟨?_, hs₂⟩
  unfold Stmt.Like at ht'
  simp only [Option.toList_some, List.singleton_append, Stmt.listRelabel, ht', hts']

/-- Behind a statement comes another one or what stands behind the list, and neither is an `else`. -/
theorem head?_listKinds_ne_else (ts : List Stmt) {rest : List TokenKind}
    (hrest : rest.head? ≠ some (.keyword .else_)) :
    (Stmt.listKinds ts ++ rest).head? ≠ some (.keyword .else_) := by
  cases ts with
  | nil => exact hrest
  | cons t ts =>
    obtain ⟨k, ks, hk, -, -, hne⟩ := t.kinds_eq_cons
    rw [Stmt.listKinds, hk]
    rintro ⟨⟩
    exact hne rfl

theorem gives_blockItems {ts : List Stmt} (h : ∀ t ∈ ts, RereadsDecl t) {n d : Nat} {s : Cursor}
    {rest : List TokenKind} (hs : s.Before d (Stmt.listKinds ts ++ .symbol .rbrace :: rest))
    (hnesting : d + Stmt.listNesting ts ≤ maxNesting)
    (hfuel : 16 * ((Stmt.listKinds ts).length + (rest.length + 1)) + 19 ≤ n) :
    (blockItems n).Gives s fun ts' s' =>
      Stmt.listRelabel .blank ts' = Stmt.listRelabel .blank ts ∧
        s'.Before d (.symbol .rbrace :: rest) := by
  induction ts generalizing n s with
  | nil =>
    obtain ⟨n, rfl⟩ := Nat.exists_eq_succ_of_ne_zero (n := n) (by omega)
    refine Gives.listUnless_stop ?_ ⟨rfl, hs⟩
    rw [hs.atSymbol_iff.mpr rfl]
    rfl
  | cons t ts ih =>
    obtain ⟨n, rfl⟩ := Nat.exists_eq_succ_of_ne_zero (n := n) (by omega)
    obtain ⟨k, ks, hk, -, hne, -⟩ := t.kinds_eq_cons
    rw [Stmt.listKinds] at hs hfuel
    rw [Stmt.listNesting] at hnesting
    rw [List.length_append] at hfuel
    rw [List.append_assoc] at hs
    have hpos : 0 < t.kinds.length := by rw [hk]; exact Nat.succ_pos _
    -- No declaration starts with the brace at which the loop would stop.
    have hgo : (s.atSymbol .rbrace || s.atEnd || s.tooManyFaults) = false := by
      rw [hk] at hs
      rw [hs.not_atSymbol hne, hs.not_atEnd, hs.not_tooManyFaults]
      rfl
    refine Gives.listUnless_go hgo ?_
    refine gives_itemsOf (h t (List.mem_cons_self ..))
      ⟨hs, fun _ => head?_listKinds_ne_else ts (by simp), by omega, ?_⟩ fun s₁ hs₁ => ?_
    · simp only [List.length_append, List.length_cons]
      omega
    · exact ih (fun t ht => h t (List.mem_cons_of_mem _ ht)) hs₁ (by omega) (by omega)

theorem gives_topLevel {ts : List Stmt} (h : ∀ t ∈ ts, RereadsDecl t) {n d : Nat} {s : Cursor}
    (hs : s.Before d (Stmt.listKinds ts)) (hnesting : d + Stmt.listNesting ts ≤ maxNesting)
    (hfuel : 16 * (Stmt.listKinds ts).length + 19 ≤ n) :
    (topLevel n).Gives s fun ts' s' =>
      Stmt.listRelabel .blank ts' = Stmt.listRelabel .blank ts ∧ s'.Before d [] := by
  induction ts generalizing n s with
  | nil =>
    obtain ⟨n, rfl⟩ := Nat.exists_eq_succ_of_ne_zero (n := n) (by omega)
    refine Gives.listUnless_stop ?_ ⟨rfl, hs⟩
    rw [hs.atEnd_iff.mpr rfl]
    rfl
  | cons t ts ih =>
    obtain ⟨n, rfl⟩ := Nat.exists_eq_succ_of_ne_zero (n := n) (by omega)
    obtain ⟨k, ks, hk, -⟩ := t.kinds_eq_cons
    rw [Stmt.listKinds] at hs hfuel
    rw [Stmt.listNesting] at hnesting
    rw [List.length_append] at hfuel
    have hpos : 0 < t.kinds.length := by rw [hk]; exact Nat.succ_pos _
    have hgo : (s.atEnd || s.tooManyFaults) = false := by
      rw [hk] at hs
      rw [hs.not_atEnd, hs.not_tooManyFaults]
      rfl
    refine Gives.listUnless_go hgo ?_
    refine gives_itemsOf (h t (List.mem_cons_self ..)) ⟨hs, fun _ => ?_, by omega, by omega⟩
      fun s₁ hs₁ => ?_
    · rw [← List.append_nil (Stmt.listKinds ts)]
      exact head?_listKinds_ne_else ts (by simp)
    · exact ih (fun t ht => h t (List.mem_cons_of_mem _ ht)) hs₁ (by omega) (by omega)

/-- Declarations in braces. -/
theorem gives_blockOf {ts : List Stmt} (h : ∀ t ∈ ts, RereadsDecl t) {n d : Nat} {s : Cursor}
    {rest : List TokenKind}
    (hs : s.Before d (.symbol .lbrace :: (Stmt.listKinds ts ++ .symbol .rbrace :: rest)))
    (hnesting : d + Stmt.listNesting ts ≤ maxNesting)
    (hfuel : 16 * ((Stmt.listKinds ts).length + (rest.length + 1)) + 19 ≤ n) :
    (blockOf (blockItems n)).Gives s fun r s' =>
      Stmt.listRelabel .blank r.1 = Stmt.listRelabel .blank ts ∧ s'.Before d rest := by
  refine Gives.look_bind ((gives_expect _ hs).bind fun _ s₁ hs₁ => ?_)
  refine (gives_blockItems h hs₁ hnesting hfuel).bind ?_
  rintro ts' s₂ ⟨hts', hs₂⟩
  exact (gives_expect _ hs₂).bind fun _ s₃ hs₃ => Gives.look_bind (Gives.pure ⟨hts', hs₃⟩)

theorem rereadsStmt_block {body : List Stmt} (sp : Span) (h : ∀ t ∈ body, RereadsDecl t) :
    RereadsStmt (.block body sp) := by
  refine rereadsStmt_of_production (Stmt.nesting_pos rfl) fun n s d rest hs _ hnesting hfuel => ?_
  simp only [Stmt.kinds, List.append_assoc, List.cons_append, List.nil_append, List.length_append,
    List.length_cons, List.length_nil] at hs hfuel
  simp only [Stmt.nesting] at hnesting
  refine Gives.look_bind ?_
  rw [hs.kind?]
  refine (gives_blockOf h hs (by omega) (by omega)).bind ?_
  rintro ⟨body', sp'⟩ s₁ ⟨hbody', hs₁⟩
  refine Gives.pure ⟨?_, hs₁⟩
  simp only [Stmt.Like, Stmt.relabel, hbody']
  rfl

/-! ### Functions and classes -/

theorem gives_parameters {ps : List Ident} (hps : ps ≠ []) {n count d : Nat} {s : Cursor}
    {rest : List TokenKind} (hs : s.Before d (Ident.listKinds ps ++ .symbol .rparen :: rest))
    (hcount : count + ps.length ≤ maxArguments) (hfuel : (Ident.listKinds ps).length < n) :
    (parameters n count).Gives s fun ps' s' =>
      ps'.map (Ident.relabel .blank) = ps.map (Ident.relabel .blank) ∧
        s'.Before d (.symbol .rparen :: rest) := by
  induction ps generalizing n count s with
  | nil => exact absurd rfl hps
  | cons x xs ih =>
    obtain ⟨n, rfl⟩ := Nat.exists_eq_succ_of_ne_zero (n := n) (by omega)
    rw [List.length_cons] at hcount
    rw [parameters_succ]
    cases xs with
    | nil =>
      refine (gives_limitedListOf_last (by omega) (gives_expectName _ hs) (by simp)).mono ?_
      rintro _ s₁ ⟨⟨y, hy, rfl⟩, hs₁⟩
      refine ⟨?_, hs₁⟩
      rw [List.map_singleton, List.map_singleton, Ident.relabel_blank hy]
    | cons x₂ xs =>
      rw [Ident.listKinds_cons_cons] at hs hfuel
      simp only [List.length_cons] at hfuel
      refine (gives_limitedListOf_cons (by omega) (gives_expectName _ hs) fun s₁ hs₁ =>
        ih (List.cons_ne_nil x₂ xs) hs₁ (by omega) (by omega)).mono ?_
      rintro _ s₂ ⟨y, ys, hy, rfl, hys, hs₂⟩
      refine ⟨?_, hs₂⟩
      rw [List.map_cons, hys, Ident.relabel_blank hy, ← List.map_cons]

theorem gives_parameters_or_nil {ps : List Ident} {n d : Nat} {s : Cursor} {rest : List TokenKind}
    (hs : s.Before d (Ident.listKinds ps ++ .symbol .rparen :: rest))
    (hlen : ps.length ≤ maxArguments) (hfuel : (Ident.listKinds ps).length < n) :
    (listUnless (·.atSymbol .rparen) (parameters n 0)).Gives s fun ps' s' =>
      ps'.map (Ident.relabel .blank) = ps.map (Ident.relabel .blank) ∧
        s'.Before d (.symbol .rparen :: rest) := by
  cases ps with
  | nil => exact Gives.listUnless_stop (hs.atSymbol_iff.mpr rfl) ⟨rfl, hs⟩
  | cons x xs =>
    refine Gives.listUnless_go (Bool.eq_false_iff.mpr (mt hs.atSymbol_iff.mp ?_)) ?_
    · cases xs <;> simp [Ident.listKinds]
    · exact gives_parameters (List.cons_ne_nil x xs) hs (by omega) hfuel

theorem rereadsCallable {x : Ident} {params : List Ident} {body : List Stmt} (sp : Span)
    (hparams : params.length ≤ maxArguments) (hbody : ∀ t ∈ body, RereadsDecl t) :
    RereadsCallable ⟨x, params, body, sp⟩ := by
  intro kind n s d rest hs hnesting hfuel
  obtain ⟨n, rfl⟩ := Nat.exists_eq_succ_of_ne_zero (n := n) (by omega)
  simp only [FunctionDecl.kinds, List.append_assoc, List.cons_append, List.nil_append,
    List.length_append, List.length_cons, List.length_nil] at hs hfuel
  rw [FunctionDecl.nesting] at hnesting
  rw [callable_succ]
  refine (gives_expectName _ hs).bind ?_
  rintro y s₁ ⟨hy, hs₁⟩
  refine (gives_expect _ hs₁).bind fun _ s₂ hs₂ => ?_
  refine (gives_parameters_or_nil hs₂ hparams (by omega)).bind ?_
  rintro ps s₃ ⟨hps, hs₃⟩
  refine (gives_expect _ hs₃).bind fun _ s₄ hs₄ => Gives.look_bind ?_
  rw [if_pos (hs₄.atSymbol_iff.mpr rfl)]
  refine (gives_blockOf hbody hs₄ hnesting (by omega)).bind ?_
  rintro ⟨body', sp'⟩ s₅ ⟨hbody', hs₅⟩
  refine Gives.pure ⟨?_, hs₅⟩
  simp only [FunctionDecl.Like, FunctionDecl.relabel, Ident.relabel_blank hy, hps, hbody']
  rfl

theorem rereadsDecl_function {decl : FunctionDecl} (h : RereadsCallable decl) :
    RereadsDecl (.function decl) := by
  rintro n s d rest ⟨hs, -, hnesting, hfuel⟩
  obtain ⟨n, rfl⟩ := Nat.exists_eq_succ_of_ne_zero (n := n) (by omega)
  simp only [Stmt.kinds, List.cons_append, List.nil_append, List.length_cons] at hs hfuel
  rw [Stmt.nesting] at hnesting
  rw [declaration_succ]
  refine Gives.recovering (Gives.look_bind ?_)
  rw [hs.kind?]
  refine (gives_take hs).bind fun _ s₁ hs₁ => ?_
  refine (h .function n s₁ d rest hs₁ hnesting (by omega)).bind ?_
  rintro decl' s₂ ⟨hdecl', hs₂⟩
  refine Gives.pure ⟨?_, hs₂⟩
  unfold FunctionDecl.Like at hdecl'
  simp only [Stmt.Like, Stmt.relabel, hdecl']

theorem gives_methods {ms : List FunctionDecl} (h : ∀ m ∈ ms, RereadsCallable m) {n d : Nat}
    {s : Cursor} {rest : List TokenKind}
    (hs : s.Before d (FunctionDecl.listKinds ms ++ .symbol .rbrace :: rest))
    (hnesting : d + FunctionDecl.listNesting ms ≤ maxNesting)
    (hfuel : 16 * ((FunctionDecl.listKinds ms).length + (rest.length + 1)) + 19 ≤ n) :
    (methods n).Gives s fun ms' s' =>
      FunctionDecl.listRelabel .blank ms' = FunctionDecl.listRelabel .blank ms ∧
        s'.Before d (.symbol .rbrace :: rest) := by
  induction ms generalizing n s with
  | nil =>
    obtain ⟨n, rfl⟩ := Nat.exists_eq_succ_of_ne_zero (n := n) (by omega)
    refine Gives.listUnless_stop ?_ ⟨rfl, hs⟩
    rw [hs.atSymbol_iff.mpr rfl]
    rfl
  | cons m ms ih =>
    obtain ⟨n, rfl⟩ := Nat.exists_eq_succ_of_ne_zero (n := n) (by omega)
    obtain ⟨ks, hk⟩ := FunctionDecl.kinds_eq_cons m
    rw [FunctionDecl.listKinds] at hs hfuel
    rw [FunctionDecl.listNesting] at hnesting
    rw [List.length_append] at hfuel
    rw [List.append_assoc] at hs
    have hpos : 0 < m.kinds.length := by rw [hk]; exact Nat.succ_pos _
    have hgo : (s.atSymbol .rbrace || s.atEnd) = false := by
      rw [hk] at hs
      rw [hs.not_atSymbol (by simp), hs.not_atEnd]
      rfl
    refine Gives.listUnless_go hgo ?_
    refine (h m (List.mem_cons_self ..) .method n s d _ hs (by omega) ?_).bind ?_
    · simp only [List.length_append, List.length_cons]
      omega
    rintro m' s₁ ⟨hm', hs₁⟩
    refine (ih (fun m hm => h m (List.mem_cons_of_mem _ hm)) hs₁ (by omega) (by omega)).bind ?_
    rintro ms' s₂ ⟨hms', hs₂⟩
    refine Gives.pure ⟨?_, hs₂⟩
    unfold FunctionDecl.Like at hm'
    rw [FunctionDecl.listRelabel, hm', hms', ← FunctionDecl.listRelabel]

theorem gives_superclass {super : Option Superclass} {d : Nat} {s : Cursor} {rest : List TokenKind}
    (hs : s.Before d (Superclass.optionKinds super ++ .symbol .lbrace :: rest)) :
    superclass.Gives s fun super' s' =>
      super'.map (Superclass.relabel .blank) = super.map (Superclass.relabel .blank) ∧
        s'.Before d (.symbol .lbrace :: rest) := by
  cases super with
  | none =>
    refine (gives_eat_other (y := .less) hs (by simp [Superclass.optionKinds])).bind ?_
    rintro _ _ ⟨rfl, rfl⟩
    exact Gives.pure ⟨rfl, hs⟩
  | some p =>
    refine (gives_eat hs).bind ?_
    rintro _ s₁ ⟨rfl, hs₁⟩
    refine (gives_expectName _ hs₁).bind ?_
    rintro y s₂ ⟨hy, hs₂⟩
    refine (gives_node _ _ hs₂).bind ?_
    rintro _ s₃ ⟨⟨m, rfl⟩, hs₃⟩
    refine Gives.pure ⟨?_, hs₃⟩
    simp only [Option.map_some, Superclass.relabel, Ident.relabel_blank hy]
    rfl

theorem rereadsDecl_class {ms : List FunctionDecl} (x : Ident) (super : Option Superclass)
    (sp : Span) (h : ∀ m ∈ ms, RereadsCallable m) : RereadsDecl (.class_ x super ms sp) := by
  rintro n s d rest ⟨hs, -, hnesting, hfuel⟩
  obtain ⟨n, rfl⟩ := Nat.exists_eq_succ_of_ne_zero (n := n) (by omega)
  simp only [Stmt.kinds, List.append_assoc, List.cons_append, List.nil_append, List.length_append,
    List.length_cons, List.length_nil] at hs hfuel
  rw [Stmt.nesting] at hnesting
  rw [declaration_succ]
  refine Gives.recovering (Gives.look_bind ?_)
  rw [hs.kind?]
  refine (gives_take hs).bind fun _ s₁ hs₁ => (gives_expectName _ hs₁).bind ?_
  rintro y s₂ ⟨hy, hs₂⟩
  refine (gives_superclass hs₂).bind ?_
  rintro super' s₃ ⟨hsuper, hs₃⟩
  refine (gives_expect _ hs₃).bind fun _ s₄ hs₄ => ?_
  refine (gives_methods h hs₄ hnesting (by omega)).bind ?_
  rintro ms' s₅ ⟨hms', hs₅⟩
  refine (gives_expect _ hs₅).bind fun _ s₆ hs₆ => Gives.look_bind (Gives.pure ⟨?_, hs₆⟩)
  simp only [Stmt.Like, Stmt.relabel, Ident.relabel_blank hy, hsuper, hms']
  rfl

/-! ### Every statement of the grammar -/

mutual

theorem StmtReadBack.of_conforms :
    ∀ t : Stmt, t.Conforms → t.elsesApart = true → StmtReadBack t
  | .var x init sp, .var _ _ hinit, _ => .of_declaration rfl (rereadsDecl_var x init sp hinit)
  | .print _ sp, .print _ he, _ => .of_statement rfl (rereadsStmt_print sp he)
  | .return_ value sp, .return_ _ hvalue, _ =>
    .of_statement rfl (rereadsStmt_return value sp hvalue)
  | .expr _ sp, .expr _ he, _ => .of_statement rfl (rereadsStmt_expr sp he)
  | .block body sp, .block _ hbody, hapart => by
    rw [Stmt.elsesApart] at hapart
    have hitems := rereadsDecl_of_conforms body hbody hapart
    exact .of_statement rfl (rereadsStmt_block sp hitems)
  | .ifElse _ t none sp, .ifElse _ hcond ht htd _ _, hapart => by
    rw [Stmt.elsesApart] at hapart
    have ih := StmtReadBack.of_conforms t ht hapart
    exact .of_statement rfl (rereadsStmt_if sp hcond (ih.statement htd))
  | .ifElse _ t (some f) sp, .ifElse _ hcond ht htd hf hfd, hapart => by
    simp only [Stmt.elsesApart, Bool.and_eq_true, Bool.not_eq_true'] at hapart
    obtain ⟨⟨hclosed, hapart⟩, hapart'⟩ := hapart
    have iht := (StmtReadBack.of_conforms t ht hapart).statement htd
    have ihf := (StmtReadBack.of_conforms f (hf f rfl) hapart').statement (hfd f rfl)
    exact .of_statement rfl (rereadsStmt_ifElse sp hcond iht hclosed ihf)
  | .while_ _ body sp, .while_ _ hcond hbody hd, hapart => by
    rw [Stmt.elsesApart] at hapart
    have ih := StmtReadBack.of_conforms body hbody hapart
    exact .of_statement rfl (rereadsStmt_while sp hcond (ih.statement hd))
  | .function decl, .function hd, hapart => by
    rw [Stmt.elsesApart] at hapart
    exact .of_declaration rfl (rereadsDecl_function (rereadsCallable_of_conforms decl hd hapart))
  | .class_ x super ms sp, .class_ _ _ _ hms, hapart => by
    rw [Stmt.elsesApart] at hapart
    have hmethods := rereadsCallables_of_conforms ms hms hapart
    exact .of_declaration rfl (rereadsDecl_class x super sp hmethods)

theorem rereadsDecl_of_conforms :
    ∀ ts : List Stmt, (∀ t ∈ ts, t.Conforms) → Stmt.listElsesApart ts = true →
      ∀ t ∈ ts, RereadsDecl t
  | [], _, _ => List.forall_mem_nil _
  | t :: ts, h, hapart => by
    rw [Stmt.listElsesApart, Bool.and_eq_true] at hapart
    rw [List.forall_mem_cons] at h ⊢
    exact ⟨(StmtReadBack.of_conforms t h.1 hapart.1).declaration,
      rereadsDecl_of_conforms ts h.2 hapart.2⟩

theorem rereadsCallable_of_conforms :
    ∀ decl : FunctionDecl, decl.Conforms → decl.elsesApart = true → RereadsCallable decl
  | ⟨_, _, body, sp⟩, .mk _ _ hparams hbody, hapart => by
    rw [FunctionDecl.elsesApart] at hapart
    exact rereadsCallable sp hparams (rereadsDecl_of_conforms body hbody hapart)

theorem rereadsCallables_of_conforms :
    ∀ ms : List FunctionDecl, (∀ m ∈ ms, m.Conforms) → FunctionDecl.listElsesApart ms = true →
      ∀ m ∈ ms, RereadsCallable m
  | [], _, _ => List.forall_mem_nil _
  | m :: ms, h, hapart => by
    rw [FunctionDecl.listElsesApart, Bool.and_eq_true] at hapart
    rw [List.forall_mem_cons] at h ⊢
    exact ⟨rereadsCallable_of_conforms m h.1 hapart.1,
      rereadsCallables_of_conforms ms h.2 hapart.2⟩

end

end Parser

end HostScript
