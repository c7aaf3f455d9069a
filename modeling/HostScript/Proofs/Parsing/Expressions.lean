import HostScript.Proofs.Parsing.Reading

/-!
# Expressions that are read

Every parser of expressions, run without a fault, reads an expression of the grammar: the tokens that it
took are those that the expression is written as, its span covers them, and it is of the parser's level or a
tighter one. There is a lemma for each production, about any parsers of its parts that read what they should,
and one induction on the fuel that puts them together. The fuel is enough as long as it is sixteen times the
number of tokens left, and some more for the levels that are passed before the next token is taken.
-/

namespace HostScript

namespace Parser

variable {s s₀ : Cursor}

/-! ### Lists -/

section

variable {α : Type} {piece : α → Piece} {P : α → Prop} {items : Parser (List α)}

theorem reads_listUnless {stop : Cursor → Bool} {Q : List α → Cursor → Prop}
    (hstop : stop s = true → (pure [] : Parser (List α)).Reads s Q) (h : items.Reads s Q) :
    (listUnless stop items).Reads s Q := by
  refine Reads.look_bind ?_
  split
  · exact hstop ‹_›
  · exact h

/-- What it is to have read items with commas between them since `s₀`, where `count` came before. -/
structure IsListed (piece : α → Piece) (P : α → Prop) (s₀ : Cursor) (count : Nat) (as : List α)
    (s : Cursor) : Prop where
  lays : s₀.Lays (Piece.separated (as.map piece)) s
  each : ∀ a ∈ as, P a
  length_le : count + as.length ≤ 255

theorem reads_limitedListOf {tooMany : Cause} {count : Nat} {item : Parser α}
    (hitem : item.Reads s fun a s' => s.Lays [piece a] s' ∧ P a)
    (hmore : ∀ s', s'.rest.length < s.rest.length →
      items.Reads s' fun as s'' => as ≠ [] ∧ IsListed piece P s' (count + 1) as s'') :
    (limitedListOf tooMany count item items).Reads s fun as s' =>
      as ≠ [] ∧ IsListed piece P s count as s' := by
  unfold limitedListOf
  split
  · exact Reads.complain_bind
  · rename_i hcount
    have hlt : count < 255 := Nat.lt_of_not_le hcount
    refine hitem.bind fun a s₁ ⟨h₁, ha⟩ => (reads_eat .comma s₁).bind ?_
    rintro _ s₂ (⟨rfl, h₂⟩ | ⟨rfl, rfl⟩)
    · refine (hmore s₂ (Nat.lt_trans h₂.lt h₁.lt)).bind fun as s₃ ⟨hne, h₃⟩ => Reads.pure ?_
      refine ⟨nofun, h₁.separated h₂ (mt List.map_eq_nil_iff.mp hne) h₃.lays, ?_, ?_⟩
      · exact List.forall_mem_cons.mpr ⟨ha, h₃.each⟩
      · have := h₃.length_le
        simp only [List.length_cons]
        omega
    · exact Reads.pure ⟨nofun, h₁, List.forall_mem_singleton.mpr ha, hlt⟩

theorem reads_listed_or_nil {stop : Cursor → Bool}
    (h : items.Reads s fun as s' => as ≠ [] ∧ IsListed piece P s 0 as s') :
    (listUnless stop items).Reads s (IsListed piece P s 0) :=
  reads_listUnless (fun _ => Reads.pure ⟨.refl s, nofun, Nat.zero_le _⟩) (h.mono fun _ _ h => h.2)

end

/-! ### Productions -/

/-- What it is to have read an expression of a level since `s₀`. -/
structure IsExpr (s₀ : Cursor) (rank : Nat) (e : Expr) (s : Cursor) : Prop where
  laid : s₀.LaysAt [.expr e] e.span s
  conforms : e.Conforms
  rank_le : rank ≤ e.rank

namespace IsExpr

variable {rank rank' : Nat} {e : Expr}

theorem lays (h : IsExpr s₀ rank e s) : s₀.Lays [.expr e] s :=
  h.laid.lays

theorem lt (h : IsExpr s₀ rank e s) : s.rest.length < s₀.rest.length :=
  h.laid.lt

theorem weaken (h : IsExpr s₀ rank e s) (hle : rank' ≤ rank) : IsExpr s₀ rank' e s :=
  ⟨h.laid, h.conforms, Nat.le_trans hle h.rank_le⟩

/-- It is enough that what the expression is written as has been taken. -/
theorem of_pieces (h : s₀.LaysAt e.pieces e.span s) (hconf : e.Conforms) (hrank : rank ≤ e.rank) :
    IsExpr s₀ rank e s :=
  ⟨Cursor.LaysAt.expr_iff.mpr h, hconf, hrank⟩

end IsExpr

/-- The nesting does not matter for what is read. -/
theorem reads_nested_expr {p : Parser Expr} {rank : Nat}
    (h : p.Reads { s with depth := s.depth + 1 } (IsExpr { s with depth := s.depth + 1 } rank)) :
    (nested p).Reads s (IsExpr s rank) :=
  Reads.nested (h.mono fun _ _ h => ⟨h.laid, h.conforms, h.rank_le⟩)

/-- A new node, whatever number it gets. -/
theorem reads_node_expr {sp : Span} {x : Mark → Expr} {rank : Nat}
    (h : ∀ i, IsExpr s₀ rank (x ⟨i, sp⟩) s) :
    (node sp x).Reads s fun e s' => IsExpr s₀ rank e s' ∧ s'.rest = s.rest :=
  fun _ => ⟨_, rfl, ⟨(h _).laid, (h _).conforms, (h _).rank_le⟩, rfl⟩

theorem reads_last_node {sp : Span} {x : Mark → Expr} {rank : Nat}
    (h : ∀ i, IsExpr s₀ rank (x ⟨i, sp⟩) s) : (node sp x).Reads s (IsExpr s₀ rank) :=
  (reads_node_expr h).mono fun _ _ h => h.1

/-- A leaf of one token. -/
theorem reads_leaf {x : Span → Mark → Expr}
    (h : ∀ i, IsExpr s callRank (x s.here ⟨i, s.here⟩) s.advance) :
    (leaf x).Reads s (IsExpr s callRank) := by
  have htake : take.Reads s fun sp s' => ∀ i, IsExpr s callRank (x sp ⟨i, sp⟩) s' :=
    fun _ => ⟨_, rfl, h⟩
  exact htake.bind fun sp s₁ h₁ => reads_last_node h₁

theorem reads_superAccess (hk : s.kind? = some (.keyword .super)) :
    superAccess.Reads s (IsExpr s callRank) := by
  refine (reads_take hk).bind fun sp s₁ h₁ => (reads_expect .dot _ s₁).bind fun _ s₂ h₂ => ?_
  refine (reads_expectName _ s₂).bind fun x s₃ h₃ => reads_last_node fun i => ?_
  exact .of_pieces (h₁.join h₂.lays h₃) (.super _ x) (Nat.le_succ callRank)

theorem reads_groupingOf {inner : Parser Expr} (hk : s.kind? = some (.symbol .lparen))
    (hinner : ∀ s', s'.rest.length < s.rest.length → inner.Reads s' (IsExpr s' 0)) :
    (groupingOf inner).Reads s (IsExpr s callRank) := by
  refine (reads_take hk).bind fun sp s₁ h₁ => (hinner s₁ h₁.lt).bind fun e s₂ h₂ => ?_
  refine (reads_expect .rparen _ s₂).bind fun close s₃ h₃ => reads_last_node fun i => ?_
  exact .of_pieces (h₁.join h₂.lays h₃) (.grouping _ h₂.conforms) (Nat.le_succ callRank)

theorem reads_primaryOf {inner : Parser Expr}
    (hinner : ∀ s', s'.rest.length < s.rest.length → inner.Reads s' (IsExpr s' 0)) :
    (primaryOf inner).Reads s (IsExpr s callRank) := by
  refine Reads.look_bind ?_
  split
  · exact reads_leaf fun i => .of_pieces (.advance ‹_›) (.this _) (Nat.le_succ callRank)
  · exact reads_superAccess ‹_›
  · exact reads_leaf fun i => .of_pieces (.advance_name ‹_›) (.var _ _) (Nat.le_succ callRank)
  · exact reads_groupingOf ‹_› hinner
  · split
    · rename_i v hv
      obtain ⟨k, hk, hv⟩ := Option.bind_eq_some_iff.mp hv
      refine reads_leaf fun i => .of_pieces ?_ (.literal _ v) (Nat.le_succ callRank)
      rw [Expr.pieces, Literal.token_of_ofToken? hv]
      exact .advance hk
    · exact Reads.failAt

theorem reads_assignTo {target v : Expr} {equals : Fault} {rank : Nat} {s₁ s₂ : Cursor}
    (ht : IsExpr s₀ rank target s₁) (heq : s₁.Lays [.symbol .eq] s₂) (hv : IsExpr s₂ 0 v s) :
    (assignTo target v equals).Reads s (IsExpr s₀ 0) := by
  have htarget := (Cursor.LaysAt.expr_iff.mp ht.laid).join heq hv.laid
  have hconf := ht.conforms
  unfold assignTo
  split
  · exact reads_last_node fun i => .of_pieces htarget (.assign _ _ hv.conforms) (Nat.zero_le _)
  · cases hconf with
    | get _ _ ho hrank =>
      exact reads_last_node fun i => .of_pieces htarget (.set _ _ ho hrank hv.conforms) (Nat.zero_le _)
  · exact Reads.complainOf_bind

theorem reads_assignmentOf {operand value : Parser Expr}
    (ho : operand.Reads s (IsExpr s 1))
    (hv : ∀ s', s'.rest.length < s.rest.length → value.Reads s' (IsExpr s' 0)) :
    (assignmentOf operand value).Reads s (IsExpr s 0) := by
  refine ho.bind fun target s₁ h₁ => Reads.look_bind ?_
  split
  · refine Reads.look_bind ((reads_take (Cursor.kind?_of_atSymbol ‹_›)).bind fun _ s₂ h₂ => ?_)
    refine (hv s₂ (Nat.lt_trans h₂.lt h₁.lt)).bind fun v s₃ h₃ => ?_
    exact reads_assignTo h₁ h₂.lays h₃
  · exact Reads.pure (h₁.weaken (Nat.zero_le 1))

theorem reads_operatorsOf {lv : Level} {left : Expr} {operand : Parser Expr}
    {more : Expr → Parser Expr} (hleft : IsExpr s₀ lv.rank left s)
    (hop : ∀ s', s'.rest.length < s.rest.length → operand.Reads s' (IsExpr s' (lv.rank + 1)))
    (hmore : ∀ e s', s'.rest.length < s.rest.length → IsExpr s₀ lv.rank e s' →
      (more e).Reads s' (IsExpr s₀ lv.rank)) :
    (operatorsOf lv left operand more).Reads s (IsExpr s₀ lv.rank) := by
  refine Reads.look_bind ?_
  split
  · exact Reads.pure hleft
  · rename_i op hop'
    obtain ⟨k, hk, hop'⟩ := Option.bind_eq_some_iff.mp hop'
    obtain ⟨rfl, rfl⟩ := Level.operator?_eq_some hop'
    refine (reads_take hk).bind fun _ s₁ h₁ => (hop s₁ h₁.lt).bind fun right s₂ h₂ => ?_
    have hnode (i : Nat) : IsExpr s₀ op.level.rank
        (op.expr left right ⟨i, left.span.merge right.span⟩) s₂ := by
      refine .of_pieces ?_ ?_ (Nat.le_of_eq (op.rank_expr ..).symm)
      · have hpieces := hleft.laid.join h₁.lays h₂.laid
        cases op <;> exact hpieces
      · exact Operator.conforms_expr hleft.conforms h₂.conforms hleft.rank_le h₂.rank_le
    refine (reads_node_expr hnode).bind ?_
    rintro e s₃ ⟨he, hrest⟩
    refine hmore e s₃ ?_ he
    rw [hrest]
    exact Nat.lt_trans h₂.lt h₁.lt

theorem reads_unaryOf {operand call : Parser Expr} (hcall : call.Reads s (IsExpr s callRank))
    (hop : ∀ s', s'.rest.length < s.rest.length → operand.Reads s' (IsExpr s' unaryRank)) :
    (unaryOf operand call).Reads s (IsExpr s unaryRank) := by
  refine Reads.look_bind ?_
  split
  · exact hcall.mono fun e s' h => h.weaken (Nat.le_succ unaryRank)
  · rename_i op hop'
    obtain ⟨k, hk, hop'⟩ := Option.bind_eq_some_iff.mp hop'
    refine (reads_take hk).bind fun start s₁ h₁ => ?_
    refine (reads_nested_expr (hop { s₁ with depth := s₁.depth + 1 } h₁.lt)).bind fun e s₂ h₂ => ?_
    rw [← UnaryOp.symbol_of_ofToken? hop'] at h₁
    refine reads_last_node fun i => .of_pieces ?_ (.unary _ op h₂.conforms h₂.rank_le) (Nat.le_refl _)
    exact h₁.join (.refl s₁) h₂.laid

/-- What it is to have read arguments since `s₀`, where `count` came before. -/
abbrev IsArguments : Cursor → Nat → List Expr → Cursor → Prop :=
  IsListed .expr Expr.Conforms

theorem reads_accessesOf {callee : Expr} {args : Parser (List Expr)} {more : Expr → Parser Expr}
    (hcallee : IsExpr s₀ callRank callee s)
    (hargs : ∀ s', s'.rest.length < s.rest.length →
      args.Reads s' fun es s'' => es ≠ [] ∧ IsArguments s' 0 es s'')
    (hmore : ∀ e s', s'.rest.length < s.rest.length → IsExpr s₀ callRank e s' →
      (more e).Reads s' (IsExpr s₀ callRank)) :
    (accessesOf callee args more).Reads s (IsExpr s₀ callRank) := by
  refine (reads_eat .lparen s).bind ?_
  rintro _ s₁ (⟨rfl, h₁⟩ | ⟨rfl, rfl⟩)
  · refine (reads_listed_or_nil (hargs s₁ h₁.lt)).bind fun as s₂ h₂ => ?_
    refine (reads_expect .rparen _ s₂).bind fun close s₃ h₃ => ?_
    have hlength : as.length ≤ 255 := by simpa using h₂.length_le
    have hnode (i : Nat) : IsExpr s₀ callRank (.call ⟨i, callee.span.merge close⟩ callee as) s₃ :=
      .of_pieces (hcallee.laid.join (h₁.trans h₂.lays) h₃)
        (.call _ hcallee.conforms hcallee.rank_le h₂.each hlength) (Nat.le_refl _)
    refine (reads_node_expr hnode).bind ?_
    rintro e s₄ ⟨he, hrest⟩
    refine hmore e s₄ ?_ he
    rw [hrest]
    exact Nat.lt_trans h₃.lt (Nat.lt_of_le_of_lt h₂.lays.le h₁.lt)
  · refine (reads_eat .dot s₁).bind ?_
    rintro _ s₂ (⟨rfl, h₂⟩ | ⟨rfl, rfl⟩)
    · refine (reads_expectName _ s₂).bind fun x s₃ h₃ => ?_
      have hnode (i : Nat) : IsExpr s₀ callRank (.get ⟨i, callee.span.merge x.span⟩ callee x) s₃ :=
        .of_pieces (hcallee.laid.join h₂ h₃) (.get _ x hcallee.conforms hcallee.rank_le) (Nat.le_refl _)
      refine (reads_node_expr hnode).bind ?_
      rintro e s₄ ⟨he, hrest⟩
      refine hmore e s₄ ?_ he
      rw [hrest]
      exact Nat.lt_trans h₃.lt h₂.lt
    · exact Reads.pure hcallee

/-! ### The recursive definitions -/

/-- All parsers of expressions read what they should with fuel `n`, where that is enough. -/
structure ExpressionsRead (n : Nat) : Prop where
  expression : ∀ s, 16 * s.rest.length + 16 ≤ n → (expression n).Reads s (IsExpr s 0)
  assignment : ∀ s, 16 * s.rest.length + 15 ≤ n → (assignment n).Reads s (IsExpr s 0)
  infixes : ∀ lv s, 16 * s.rest.length + (16 - 2 * lv.rank) ≤ n →
    (infixes n lv).Reads s (IsExpr s lv.rank)
  operand : ∀ lv s, 16 * s.rest.length + (15 - 2 * lv.rank) ≤ n →
    (operand n lv).Reads s (IsExpr s (lv.rank + 1))
  operators : ∀ lv left s₀ s, 16 * s.rest.length + 1 ≤ n → IsExpr s₀ lv.rank left s →
    (operators n lv left).Reads s (IsExpr s₀ lv.rank)
  unary : ∀ s, 16 * s.rest.length + 2 ≤ n → (unary n).Reads s (IsExpr s unaryRank)
  call : ∀ s, 16 * s.rest.length + 1 ≤ n → (call n).Reads s (IsExpr s callRank)
  accesses : ∀ e s₀ s, 16 * s.rest.length + 2 ≤ n → IsExpr s₀ callRank e s →
    (accesses n e).Reads s (IsExpr s₀ callRank)
  argumentList : ∀ count s, 16 * s.rest.length + 17 ≤ n →
    (argumentList n count).Reads s fun es s' => es ≠ [] ∧ IsArguments s count es s'

namespace ExpressionsRead

variable {n : Nat}

theorem zero : ExpressionsRead 0 := by
  refine ⟨?_, ?_, ?_, ?_, ?_, ?_, ?_, ?_, ?_⟩
  case refine_3 | refine_4 => intro lv s h; have := lv.rank_le_six; omega
  all_goals intros; omega

theorem succ (ih : ExpressionsRead n) : ExpressionsRead (n + 1) where
  expression s h := reads_nested_expr (ih.assignment _ (Nat.le_of_succ_le_succ h))
  assignment s h := by
    refine reads_assignmentOf (ih.infixes .or s ?_) fun s' hlt => ih.assignment s' ?_
    · simp only [Level.rank]; omega
    · omega
  infixes lv s h := by
    have := lv.rank_le_six
    refine Reads.bind (ih.operand lv s (by omega)) fun left s₁ h₁ => ?_
    have := h₁.lt
    exact ih.operators lv left s s₁ (by omega) (h₁.weaken (Nat.le_succ _))
  operand lv s h := by
    have := lv.rank_le_six
    have hoperand : (operandOf lv (Parser.infixes n) (Parser.unary n)).Reads s (IsExpr s (lv.rank + 1)) := by
      unfold operandOf
      split
      · rename_i lv' hlv
        have hrank := Level.rank_of_tighter?.1 lv' hlv
        rw [← hrank]
        exact ih.infixes lv' s (by omega)
      · rename_i hlv
        rw [← Level.rank_of_tighter?.2 hlv]
        exact ih.unary s (by omega)
    exact hoperand
  operators lv left s₀ s h hleft := by
    refine reads_operatorsOf hleft (fun s' hlt => ih.operand lv s' ?_) fun e s' hlt he => ?_
    · omega
    · exact ih.operators lv e s₀ s' (by omega) he
  unary s h := reads_unaryOf (ih.call s (by omega)) fun s' hlt => ih.unary s' (by omega)
  call s h := by
    have hinner : ∀ s', s'.rest.length < s.rest.length →
        (Parser.expression n).Reads s' (IsExpr s' 0) := fun s' hlt => ih.expression s' (by omega)
    refine Reads.bind (reads_primaryOf hinner) fun e s₁ h₁ => ?_
    have := h₁.lt
    exact ih.accesses e s s₁ (by omega) h₁
  accesses e s₀ s h he := by
    refine reads_accessesOf he (fun s' hlt => ih.argumentList 0 s' (by omega)) ?_
    exact fun e' s' hlt he' => ih.accesses e' s₀ s' (by omega) he'
  argumentList count s h := by
    have harg := (ih.expression s (by omega)).mono fun _ _ h => And.intro h.lays h.conforms
    refine reads_limitedListOf harg fun s' hlt => ?_
    exact ih.argumentList (count + 1) s' (by omega)

end ExpressionsRead

theorem expressionsRead (n : Nat) : ExpressionsRead n := by
  induction n with
  | zero => exact .zero
  | succ n ih => exact ih.succ

end Parser

end HostScript
