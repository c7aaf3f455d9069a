import HostScript.Proofs.Parsing.Expressions
import HostScript.Proofs.Parsing.Giving
import HostScript.Proofs.Relabeling

/-!
# Expressions that are read back

An expression of the grammar is read back from its own tokens, if the token behind them does not go on
with it and if there is room for its nesting. `Continues` says at which level of the grammar a token goes
on with the expression before it, and `Ends r` that no token does so at level `r` or a tighter one.

Operators group to the left and so do calls and accesses. The parsers of these levels read the leftmost
operand and then go round in a loop, whereas the tree has that operand at its bottom. So what is shown of
them is that the tokens of an expression bring the loop to the point where it has built the expression,
whatever it does from there on.
-/

namespace HostScript

/-! ### Where an expression ends -/

/-- A token behind an expression goes on with it, at a level of the grammar. -/
inductive TokenKind.Continues : TokenKind → Nat → Prop where
  | assign : Continues (.symbol .eq) 0
  | operator {lv : Level} {k : TokenKind} {op : Operator} (h : lv.operator? k = some op) :
    Continues k lv.rank
  | call : Continues (.symbol .lparen) callRank
  | access : Continues (.symbol .dot) callRank

/-- What comes next goes on with no expression at level `rank` or a tighter one. -/
def Ends (rank : Nat) (ks : List TokenKind) : Prop :=
  ∀ k, ks.head? = some k → ∀ r, k.Continues r → r < rank

namespace Ends

variable {rank rank' : Nat} {ks : List TokenKind}

theorem mono (h : Ends rank ks) (hle : rank ≤ rank') : Ends rank' ks :=
  fun k hk r hr => Nat.lt_of_lt_of_le (h k hk r hr) hle

theorem head_ne (h : Ends rank ks) {k : TokenKind} {r : Nat} (hk : k.Continues r) (hr : rank ≤ r) :
    ks.head? ≠ some k :=
  fun heq => Nat.not_lt_of_le hr (h k heq r hk)

theorem operator?_eq_none (h : Ends rank ks) {lv : Level} (hle : rank ≤ lv.rank) :
    ks.head?.bind lv.operator? = none := by
  refine Option.eq_none_iff_forall_ne_some.mpr fun op hop => ?_
  obtain ⟨k, hk, hop⟩ := Option.bind_eq_some_iff.mp hop
  exact h.head_ne (.operator hop) hle hk

/-- No expression goes on with one of these. -/
theorem separator {y : Symbol} (hy : y ∈ [Symbol.semicolon, .rparen, .comma]) :
    Ends rank (.symbol y :: ks) := by
  rintro _ ⟨⟩ r hr
  simp only [List.mem_cons, List.not_mem_nil, or_false] at hy
  rcases hy with rfl | rfl | rfl <;> (cases hr with | @operator lv _ _ h => cases lv <;> cases h)

end Ends

/-- Nothing goes on at a tighter level than calls. -/
theorem ends_callRank (ks : List TokenKind) : Ends (callRank + 1) ks := by
  intro k _ r hr
  cases hr with
  | assign | call | access => decide
  | @operator lv _ _ h =>
    have hle := lv.rank_le_six
    unfold callRank
    omega

theorem Operator.operator?_token (op : Operator) : op.level.operator? op.token = some op := by
  cases op with
  | binary op => cases op <;> rfl
  | logical op => cases op <;> rfl

/-- A token stands for an operator on one level only. -/
theorem Operator.level_of_operator? {op op' : Operator} {lv : Level}
    (h : lv.operator? op.token = some op') : lv = op.level := by
  cases op with
  | binary op => cases op <;> cases lv <;> cases h <;> rfl
  | logical op => cases op <;> cases lv <;> cases h <;> rfl

theorem Operator.ends_token (op : Operator) (ks : List TokenKind) :
    Ends (op.level.rank + 1) (op.token :: ks) := by
  rintro k hk r hr
  cases hk
  generalize ht : op.token = k at hr
  cases hr with
  | assign => omega
  | operator h =>
    rw [← ht] at h
    rw [Operator.level_of_operator? h]
    omega
  | call | access =>
    exfalso
    cases op with
    | binary op => cases op <;> cases ht
    | logical op => cases op <;> cases ht

/-! ### Where an expression starts -/

/-- Tokens that an expression may start with. -/
def TokenKind.startsExpr : TokenKind → Bool
  | .int _ | .float _ | .string _ | .name _ => true
  | .keyword w => w ∈ [Keyword.true, .false, .null, .undefined, .this, .super]
  | .symbol y => y ∈ [Symbol.lparen, .bang, .minus, .tilde]

theorem Literal.startsExpr_token (v : Literal) : v.token.startsExpr = true := by
  cases v with
  | bool b => cases b <;> rfl
  | _ => rfl

theorem UnaryOp.ofToken?_symbol (op : UnaryOp) : UnaryOp.ofToken? (.symbol op.symbol) = some op := by
  cases op <;> rfl

theorem Expr.kinds_eq_cons : ∀ e : Expr, ∃ k ks, e.kinds = k :: ks ∧ k.startsExpr = true
  | .literal _ v => ⟨v.token, [], by simp [Expr.kinds], v.startsExpr_token⟩
  | .var _ x => ⟨.name x.name, [], by simp [Expr.kinds], rfl⟩
  | .this _ => ⟨.keyword .this, [], by simp [Expr.kinds], rfl⟩
  | .super _ x => ⟨.keyword .super, _, by simp [Expr.kinds]; rfl, rfl⟩
  | .assign _ x v => ⟨.name x.name, _, by simp [Expr.kinds]; rfl, rfl⟩
  | .unary _ op e => ⟨.symbol op.symbol, _, by simp [Expr.kinds]; rfl, by cases op <;> rfl⟩
  | .grouping _ e => ⟨.symbol .lparen, _, by simp [Expr.kinds]; rfl, rfl⟩
  | .get _ e _ | .binary _ e _ _ | .logical _ e _ _ | .set _ e _ _ | .call _ e _ => by
    obtain ⟨k, ks, hk, hstart⟩ := Expr.kinds_eq_cons e
    exact ⟨k, _, by simp [Expr.kinds, hk]; rfl, hstart⟩

theorem Expr.listKinds_cons_cons (e₁ e₂ : Expr) (es : List Expr) :
    Expr.listKinds (e₁ :: e₂ :: es) = e₁.kinds ++ .symbol .comma :: Expr.listKinds (e₂ :: es) := by
  simp [Expr.listKinds]

theorem Expr.listKinds_eq_cons (e : Expr) (es : List Expr) :
    ∃ k ks, Expr.listKinds (e :: es) = k :: ks ∧ k.startsExpr = true := by
  obtain ⟨k, ks, hk, hstart⟩ := e.kinds_eq_cons
  cases es with
  | nil => exact ⟨k, ks, by rw [Expr.listKinds, hk], hstart⟩
  | cons e₂ es => exact ⟨k, _, by rw [Expr.listKinds_cons_cons, hk]; rfl, hstart⟩

/-- What is called or accessed does not start with a unary operator. -/
theorem Expr.Conforms.not_unary {e : Expr} (h : e.Conforms) (hrank : callRank ≤ e.rank) :
    e.kinds.head?.bind UnaryOp.ofToken? = none := by
  have happend : ∀ {o : Expr} (ks : List TokenKind), o.kinds.head?.bind UnaryOp.ofToken? = none →
      (o.kinds ++ ks).head?.bind UnaryOp.ofToken? = none := by
    intro o ks ho
    obtain ⟨k, ks', hk, -⟩ := o.kinds_eq_cons
    simpa [hk] using ho
  induction h with
  | literal k v =>
    rw [Expr.kinds]
    cases v with
    | bool b => cases b <;> rfl
    | _ => rfl
  | var | this | super | grouping => simp [Expr.kinds, UnaryOp.ofToken?]
  | get k x ho hrank' ih => rw [Expr.kinds]; exact happend _ (ih hrank')
  | call k hf hrank' has hlen ih =>
    rw [Expr.kinds, List.append_assoc, List.append_assoc]
    exact happend _ (ih hrank')
  | unary => exact absurd hrank (show ¬callRank ≤ unaryRank by decide)
  | assign | set => exact absurd hrank (show ¬callRank ≤ 0 by decide)
  | binary _ op | logical _ op =>
    have hle : op.level.rank ≤ 6 := op.level.rank_le_six
    exact absurd (Nat.le_trans hrank hle) (by decide)

/-! ### Parts that are alike -/

theorem Ident.relabel_blank {x y : Ident} (h : y.name = x.name) :
    y.relabel .blank = x.relabel .blank := by
  unfold Ident.relabel Relabeling.blank
  rw [h]

theorem Operator.like_expr (op : Operator) {l l' r r' : Expr} (hl : l'.Like l) (hr : r'.Like r)
    (m m' : Mark) : (op.expr l' r' m').Like (op.expr l r m) := by
  unfold Expr.Like at hl hr ⊢
  cases op <;> simp only [Operator.expr, Expr.relabel, hl, hr] <;> rfl

theorem Operator.nesting_expr (op : Operator) (l r : Expr) (m : Mark) :
    (op.expr l r m).nesting = max l.nesting r.nesting := by
  cases op <;> simp [Operator.expr, Expr.nesting]

namespace Expr.Like

variable {e o : Expr} {k : Mark} {x : Ident}

theorem of_var (h : e.Like (.var k x)) :
    ∃ k' x', e = .var k' x' ∧ x'.relabel .blank = x.relabel .blank := by
  cases e <;> simp only [Expr.Like, Expr.relabel, Expr.var.injEq, reduceCtorEq] at h
  exact ⟨_, _, rfl, h.2⟩

theorem of_get (h : e.Like (.get k o x)) :
    ∃ k' o' x', e = .get k' o' x' ∧ o'.Like o ∧ x'.relabel .blank = x.relabel .blank := by
  cases e <;> simp only [Expr.Like, Expr.relabel, Expr.get.injEq, reduceCtorEq] at h
  exact ⟨_, _, _, rfl, h.2⟩

end Expr.Like

namespace Parser

/-! ### What it is to be read back -/

/-- The tokens of an expression come next, and what is behind them ends it at level `rank`. There is room
for its nesting, and fuel for all the tokens and `extra` levels more. -/
structure Due (e : Expr) (rank extra n : Nat) (s : Cursor) (d : Nat) (rest : List TokenKind) :
    Prop where
  before : s.Before d (e.kinds ++ rest)
  ends : Ends rank rest
  nesting : d + e.nesting ≤ maxNesting
  fuel : 16 * (e.kinds.length + rest.length) + extra ≤ n

namespace Due

variable {e : Expr} {rank rank' extra extra' n n' d : Nat} {s : Cursor} {rest : List TokenKind}

theorem weaken (h : Due e rank extra n s d rest) (hrank : rank ≤ rank')
    (hfuel : extra' + n ≤ extra + n') : Due e rank' extra' n' s d rest :=
  ⟨h.before, h.ends.mono hrank, h.nesting, by have := h.fuel; omega⟩

/-- An expression has tokens, so there is fuel for a step, and more than for what comes behind. -/
theorem exists_succ (h : Due e rank extra n s d rest) :
    ∃ n', n = n' + 1 ∧ 16 * rest.length + 15 + extra ≤ n' := by
  have hpos := e.kinds_length_pos
  have hfuel := h.fuel
  exact ⟨n - 1, by omega, by omega⟩

theorem kind? (h : Due e rank extra n s d rest) : s.kind? = e.kinds.head? := by
  obtain ⟨k, ks, hk, -⟩ := e.kinds_eq_cons
  rw [h.before.kind?, hk]
  rfl

end Due

/-- The parser reads the expression back. -/
def Rereads (p : Nat → Parser Expr) (rank extra : Nat) (e : Expr) : Prop :=
  ∀ n s d rest, Due e rank extra n s d rest →
    (p n).Gives s fun e' s' => e'.Like e ∧ s'.Before d rest

/-- The parser goes round in the loop `more` until the expression is built, and then whatever way the
loop goes on. -/
def Builds (p : Nat → Parser Expr) (more : Nat → Expr → Parser Expr) (rank extra extra' : Nat)
    (e : Expr) : Prop :=
  ∀ n s d rest Q, Due e (rank + 1) extra n s d rest →
    (∀ n' e' s', 16 * rest.length + extra' ≤ n' → e'.Like e → s'.Before d rest →
      (more n' e').Gives s' Q) →
    (p n).Gives s Q

/-- The loop stops at what does not go on with an expression of the level. -/
def Stops (more : Nat → Expr → Parser Expr) (rank : Nat) : Prop :=
  ∀ n e s d rest, s.Before d rest → Ends rank rest →
    (more (n + 1) e).Gives s fun e' s' => e' = e ∧ s' = s

theorem Builds.rereads {p : Nat → Parser Expr} {more : Nat → Expr → Parser Expr}
    {rank extra extra' : Nat} {e : Expr} (h : Builds p more rank extra (extra' + 1) e)
    (hstops : Stops more rank) : Rereads p rank extra e := by
  intro n s d rest hdue
  refine h n s d rest _ (hdue.weaken (Nat.le_succ rank) (Nat.le_refl _)) fun n' e' s' hn he hs => ?_
  obtain ⟨n', rfl⟩ := Nat.exists_eq_succ_of_ne_zero (n := n') (by omega)
  refine (hstops n' e' s' d rest hs hdue.ends).mono ?_
  rintro _ _ ⟨rfl, rfl⟩
  exact ⟨he, hs⟩

/-! ### Infix operators -/

/-- The operators of a level are read back as operands are, with as many levels to pass. -/
def RereadsInfixes (lv : Level) (e : Expr) : Prop :=
  Rereads (infixes · lv) lv.rank (16 - 2 * lv.rank) e

def RereadsOperand (lv : Level) (e : Expr) : Prop :=
  Rereads (operand · lv) (lv.rank + 1) (15 - 2 * lv.rank) e

def BuildsInfixes (lv : Level) (e : Expr) : Prop :=
  Builds (infixes · lv) (operators · lv) lv.rank (16 - 2 * lv.rank) 1 e

variable {lv : Level} {e : Expr}

theorem stops_operators (lv : Level) : Stops (operators · lv) lv.rank := by
  intro n e s d rest hs hends
  dsimp only
  rw [operators_succ]
  refine Gives.look_bind ?_
  rw [hs.kind?, hends.operator?_eq_none (Nat.le_refl _)]
  exact Gives.pure ⟨rfl, rfl⟩

theorem BuildsInfixes.rereads (h : BuildsInfixes lv e) : RereadsInfixes lv e :=
  Builds.rereads h (stops_operators lv)

theorem rereads_operand (hinfixes : ∀ lv', lv'.rank = lv.rank + 1 → RereadsInfixes lv' e)
    (hunary : unaryRank = lv.rank + 1 → Rereads unary unaryRank 2 e) : RereadsOperand lv e := by
  intro n s d rest hdue
  have hle := lv.rank_le_six
  obtain ⟨n, rfl, -⟩ := hdue.exists_succ
  dsimp only
  rw [operand_succ, operandOf]
  split
  · rename_i lv' hlv
    have hrank := Level.rank_of_tighter?.1 lv' hlv
    exact hinfixes lv' hrank n s d rest (hdue.weaken (Nat.le_of_eq hrank.symm) (by omega))
  · rename_i hlv
    have hrank := Level.rank_of_tighter?.2 hlv
    exact hunary hrank n s d rest (hdue.weaken (Nat.le_of_eq hrank.symm) (by omega))

/-- An operand is what the loop starts with. -/
theorem buildsInfixes_of_operand (h : RereadsOperand lv e) : BuildsInfixes lv e := by
  intro n s d rest Q hdue hmore
  have hle := lv.rank_le_six
  obtain ⟨n, rfl, hn⟩ := hdue.exists_succ
  dsimp only
  rw [infixes_succ]
  refine (h n s d rest (hdue.weaken (Nat.le_refl _) (by omega))).bind ?_
  rintro e' s' ⟨he, hs⟩
  exact hmore n e' s' (by omega) he hs

/-- The loop builds the left operand, and then goes round once more. -/
theorem buildsInfixes_expr {op : Operator} {l r : Expr} (m : Mark) (hl : BuildsInfixes op.level l)
    (hr : RereadsOperand op.level r) : BuildsInfixes op.level (op.expr l r m) := by
  intro n s d rest Q hdue hmore
  have hle := op.level.rank_le_six
  obtain ⟨hbefore, hends, hnesting, hfuel⟩ := hdue
  rw [op.kinds_expr] at hbefore hfuel
  rw [op.nesting_expr] at hnesting
  simp only [List.append_assoc, List.cons_append, List.nil_append, List.length_append,
    List.length_cons] at hbefore hfuel
  refine hl n s d (op.token :: (r.kinds ++ rest)) Q ⟨hbefore, op.ends_token _, by omega, ?_⟩ ?_
  · simp only [List.length_cons, List.length_append]
    omega
  intro n' l' s₁ hn' hl' hs₁
  simp only [List.length_cons, List.length_append] at hn'
  obtain ⟨n', rfl⟩ := Nat.exists_eq_succ_of_ne_zero (n := n') (by omega)
  dsimp only
  rw [operators_succ]
  refine Gives.look_bind ?_
  rw [hs₁.kind?, List.head?_cons, Option.bind_some, op.operator?_token]
  refine (gives_take hs₁).bind fun _ s₂ hs₂ => ?_
  refine (hr n' s₂ d rest ⟨hs₂, hends, by omega, by omega⟩).bind ?_
  rintro r' s₃ ⟨hr', hs₃⟩
  refine (gives_node _ _ hs₃).bind ?_
  rintro _ s₄ ⟨⟨m', rfl⟩, hs₄⟩
  exact hmore n' _ s₄ (by omega) (op.like_expr hl' hr' m m') hs₄

/-- An expression is read back on every level that is not tighter than its own, if it is on its own. -/
theorem buildsInfixes_of_le (hunary : unaryRank ≤ e.rank → Rereads unary unaryRank 2 e)
    (hown : ∀ lv, lv.rank = e.rank → BuildsInfixes lv e) :
    ∀ lv, lv.rank ≤ e.rank → BuildsInfixes lv e := by
  intro lv hle
  -- The induction goes from the tightest level to looser ones.
  induction hk : 6 - lv.rank generalizing lv with
  | zero =>
    have hsix := lv.rank_le_six
    rcases Nat.eq_or_lt_of_le hle with heq | hlt
    · exact hown lv heq
    · refine buildsInfixes_of_operand (rereads_operand (fun lv' hlv' => ?_) fun h => hunary ?_)
      · have := lv'.rank_le_six
        omega
      · omega
  | succ k ih =>
    rcases Nat.eq_or_lt_of_le hle with heq | hlt
    · exact hown lv heq
    · refine buildsInfixes_of_operand (rereads_operand (fun lv' hlv' => ?_) fun h => hunary ?_)
      · exact (ih lv' (by omega) (by omega)).rereads
      · omega

/-! ### Unary operators and calls -/

theorem stops_accesses : Stops accesses callRank := by
  intro n e s d rest hs hends
  rw [accesses_succ]
  refine (gives_eat_other hs (hends.head_ne .call (Nat.le_refl _))).bind ?_
  rintro _ _ ⟨rfl, rfl⟩
  refine (gives_eat_other hs (hends.head_ne .access (Nat.le_refl _))).bind ?_
  rintro _ _ ⟨rfl, rfl⟩
  exact Gives.pure ⟨rfl, rfl⟩

/-- The loop of calls and accesses builds the expression. -/
def BuildsCall (e : Expr) : Prop :=
  Builds call accesses callRank 1 2 e

theorem rereads_unary_of_call (he : e.Conforms) (hrank : callRank ≤ e.rank) (h : BuildsCall e) :
    Rereads unary unaryRank 2 e := by
  intro n s d rest hdue
  obtain ⟨n, rfl, -⟩ := hdue.exists_succ
  rw [unary_succ]
  refine Gives.look_bind ?_
  rw [hdue.kind?, he.not_unary hrank]
  exact Builds.rereads h stops_accesses n s d rest (hdue.weaken (by decide) (by omega))

theorem rereads_unary {k : Mark} {op : UnaryOp} (h : Rereads unary unaryRank 2 e) :
    Rereads unary unaryRank 2 (.unary k op e) := by
  intro n s d rest hdue
  obtain ⟨n, rfl, -⟩ := hdue.exists_succ
  obtain ⟨hbefore, hends, hnesting, hfuel⟩ := hdue
  rw [Expr.kinds] at hbefore hfuel
  rw [Expr.nesting] at hnesting
  rw [List.length_append, List.length_singleton] at hfuel
  rw [unary_succ]
  refine Gives.look_bind ?_
  have hop : s.kind?.bind UnaryOp.ofToken? = some op := by
    rw [hbefore.kind?]
    exact op.ofToken?_symbol
  rw [hop]
  refine (gives_take hbefore).bind fun _ s₁ hs₁ => ?_
  have hoperand : (nested (unary n)).Gives s₁ fun e' s' => e'.Like e ∧ s'.Before d rest := by
    refine Gives.nested hs₁ (by omega) fun s₂ hs₂ => ?_
    exact h n s₂ (d + 1) rest ⟨hs₂, hends, by omega, by omega⟩
  refine hoperand.bind ?_
  rintro e' s₃ ⟨he', hs₃⟩
  refine (gives_node _ _ hs₃).mono ?_
  rintro _ s₄ ⟨⟨m, rfl⟩, hs₄⟩
  refine ⟨?_, hs₄⟩
  unfold Expr.Like at he' ⊢
  simp only [Expr.relabel, he']
  rfl

/-! ### Assignments -/

theorem rereads_assignment_of_infixes (h : RereadsInfixes .or e) : Rereads assignment 0 15 e := by
  intro n s d rest hdue
  obtain ⟨n, rfl, -⟩ := hdue.exists_succ
  rw [assignment_succ]
  have hor : Due e (Level.rank .or) (16 - 2 * Level.rank .or) n s d rest :=
    hdue.weaken (Nat.zero_le _) (by change 14 + _ ≤ _; omega)
  refine (h n s d rest hor).bind ?_
  rintro e' s' ⟨he, hs⟩
  refine Gives.look_bind ?_
  rw [if_neg (mt hs.atSymbol_iff.mp (hdue.ends.head_ne .assign (Nat.le_refl _)))]
  exact Gives.pure ⟨he, hs⟩

/-- The target, the equals sign and the value are read, whatever is made of them. -/
theorem gives_assignmentOf {t v : Expr} {n d : Nat} {s : Cursor} {rest : List TokenKind}
    {Q : Expr → Cursor → Prop} (ht : RereadsInfixes .or t) (hv : Rereads assignment 0 15 v)
    (hs : s.Before d (t.kinds ++ .symbol .eq :: (v.kinds ++ rest))) (hends : Ends 0 rest)
    (htn : d + t.nesting ≤ maxNesting) (hvn : d + v.nesting ≤ maxNesting)
    (hfuel : 16 * (t.kinds.length + (v.kinds.length + rest.length + 1)) + 14 ≤ n)
    (hto : ∀ t' v' equals s', t'.Like t → v'.Like v → s'.Before d rest →
      (assignTo t' v' equals).Gives s' Q) :
    (assignmentOf (infixes n .or) (assignment n)).Gives s Q := by
  have heq : Ends (Level.rank .or) (.symbol .eq :: (v.kinds ++ rest)) := by
    rintro k hk r hr
    cases hk
    cases hr with
    | assign => decide
    | @operator lv _ _ h => cases lv <;> cases h
  refine (ht n s d _ ⟨hs, heq, htn, ?_⟩).bind ?_
  · rw [List.length_cons, List.length_append]
    exact hfuel
  rintro t' s₁ ⟨ht', hs₁⟩
  refine Gives.look_bind ?_
  rw [if_pos (hs₁.atSymbol_iff.mpr rfl)]
  refine Gives.look_bind ((gives_take hs₁).bind fun _ s₂ hs₂ => ?_)
  refine (hv n s₂ d rest ⟨hs₂, hends, hvn, by omega⟩).bind ?_
  rintro v' s₃ ⟨hv', hs₃⟩
  exact hto t' v' _ s₃ ht' hv' hs₃

theorem rereads_assign {k : Mark} {x : Ident} {v : Expr} (ht : RereadsInfixes .or (.var k x))
    (hv : Rereads assignment 0 15 v) : Rereads assignment 0 15 (.assign k x v) := by
  intro n s d rest hdue
  obtain ⟨n, rfl, -⟩ := hdue.exists_succ
  obtain ⟨hbefore, hends, hnesting, hfuel⟩ := hdue
  rw [Expr.kinds] at hbefore hfuel
  rw [Expr.nesting] at hnesting
  rw [List.length_append, List.length_cons, List.length_singleton] at hfuel
  rw [assignment_succ]
  refine gives_assignmentOf ht hv ?_ hends ?_ hnesting ?_ ?_
  · rw [Expr.kinds]
    exact hbefore
  · rw [Expr.nesting]
    omega
  · rw [Expr.kinds, List.length_singleton]
    omega
  intro t' v' equals s' ht' hv' hs'
  obtain ⟨k', x', rfl, hx⟩ := ht'.of_var
  rw [assignTo]
  refine (gives_node _ _ hs').mono ?_
  rintro _ s₄ ⟨⟨m, rfl⟩, hs₄⟩
  refine ⟨?_, hs₄⟩
  unfold Expr.Like at hv' ⊢
  simp only [Expr.relabel, hv', hx]
  rfl

theorem rereads_set {k : Mark} {o v : Expr} {x : Ident} (ht : RereadsInfixes .or (.get k o x))
    (hv : Rereads assignment 0 15 v) : Rereads assignment 0 15 (.set k o x v) := by
  intro n s d rest hdue
  obtain ⟨n, rfl, -⟩ := hdue.exists_succ
  obtain ⟨hbefore, hends, hnesting, hfuel⟩ := hdue
  rw [Expr.kinds] at hbefore hfuel
  rw [Expr.nesting] at hnesting
  simp only [List.length_append, List.length_cons, List.length_nil] at hfuel
  rw [assignment_succ]
  refine gives_assignmentOf (d := d) ht hv ?_ hends ?_ ?_ ?_ ?_
  · simpa [Expr.kinds] using hbefore
  · rw [Expr.nesting]
    omega
  · omega
  · simp only [Expr.kinds, List.length_append, List.length_cons, List.length_nil]
    omega
  intro t' v' equals s' ht' hv' hs'
  obtain ⟨k', o', x', rfl, ho, hx⟩ := ht'.of_get
  rw [assignTo]
  refine (gives_node _ _ hs').mono ?_
  rintro _ s₄ ⟨⟨m, rfl⟩, hs₄⟩
  refine ⟨?_, hs₄⟩
  unfold Expr.Like at ho hv' ⊢
  simp only [Expr.relabel, ho, hv', hx]
  rfl

/-- An expression on its own is one level deeper than the place that it stands at. -/
theorem gives_expression {n d : Nat} {s : Cursor} {rest : List TokenKind}
    (h : Rereads assignment 0 15 e) (hs : s.Before d (e.kinds ++ rest)) (hends : Ends 0 rest)
    (hnesting : d + (e.nesting + 1) ≤ maxNesting)
    (hfuel : 16 * (e.kinds.length + rest.length) + 16 ≤ n) :
    (expression n).Gives s fun e' s' => e'.Like e ∧ s'.Before d rest := by
  obtain ⟨n, rfl⟩ := Nat.exists_eq_succ_of_ne_zero (n := n) (by omega)
  rw [expression_succ]
  refine Gives.nested hs (by omega) fun s₁ hs₁ => ?_
  exact h n s₁ (d + 1) rest ⟨hs₁, hends, by omega, by omega⟩

/-! ### Primaries, accesses and arguments -/

/-- What is read as a primary is what the loop of calls and accesses starts with. -/
theorem buildsCall_of_primary (h : ∀ n s d rest, Due e (callRank + 1) 0 n s d rest →
      (primaryOf (expression n)).Gives s fun e' s' => e'.Like e ∧ s'.Before d rest) :
    BuildsCall e := by
  intro n s d rest Q hdue hmore
  obtain ⟨n, rfl, hn⟩ := hdue.exists_succ
  rw [call_succ]
  refine (h n s d rest (hdue.weaken (Nat.le_refl _) (by omega))).bind ?_
  rintro e' s' ⟨he, hs⟩
  exact hmore n e' s' (by omega) he hs

theorem gives_leaf {g : Span → Mark → Expr} {k : TokenKind} {s : Cursor} {d : Nat}
    {rest : List TokenKind} (hs : s.Before d (k :: rest)) (hg : ∀ sp m, (g sp m).Like e) :
    (leaf g).Gives s fun e' s' => e'.Like e ∧ s'.Before d rest := by
  refine (gives_take hs).bind fun sp s₁ hs₁ => (gives_node _ _ hs₁).mono ?_
  rintro _ s₂ ⟨⟨m, rfl⟩, hs₂⟩
  exact ⟨hg sp m, hs₂⟩

theorem buildsCall_literal (k : Mark) (v : Literal) : BuildsCall (.literal k v) := by
  refine buildsCall_of_primary fun n s d rest hdue => Gives.look_bind ?_
  have hs := hdue.before
  rw [Expr.kinds] at hs
  rw [hs.kind?]
  have hleaf : (leaf fun _ m => .literal m v).Gives s fun e' s' =>
      e'.Like (.literal k v) ∧ s'.Before d rest :=
    gives_leaf hs fun sp m => by simp only [Expr.Like, Expr.relabel]; rfl
  cases v with
  | bool b => cases b <;> exact hleaf
  | _ => exact hleaf

theorem buildsCall_var (k : Mark) (x : Ident) : BuildsCall (.var k x) := by
  refine buildsCall_of_primary fun n s d rest hdue => Gives.look_bind ?_
  have hs := hdue.before
  rw [Expr.kinds] at hs
  rw [hs.kind?]
  exact gives_leaf hs fun sp m => by simp only [Expr.Like, Expr.relabel]; rfl

theorem buildsCall_this (k : Mark) : BuildsCall (.this k) := by
  refine buildsCall_of_primary fun n s d rest hdue => Gives.look_bind ?_
  have hs := hdue.before
  rw [Expr.kinds] at hs
  rw [hs.kind?]
  exact gives_leaf hs fun sp m => by simp only [Expr.Like, Expr.relabel]; rfl

theorem buildsCall_super (k : Mark) (x : Ident) : BuildsCall (.super k x) := by
  refine buildsCall_of_primary fun n s d rest hdue => Gives.look_bind ?_
  have hs := hdue.before
  rw [Expr.kinds] at hs
  rw [hs.kind?]
  refine (gives_take hs).bind fun _ s₁ hs₁ => ?_
  refine (gives_expect _ hs₁).bind fun _ s₂ hs₂ => (gives_expectName _ hs₂).bind ?_
  rintro y s₃ ⟨hy, hs₃⟩
  refine (gives_node _ _ hs₃).mono ?_
  rintro _ s₄ ⟨⟨m, rfl⟩, hs₄⟩
  refine ⟨?_, hs₄⟩
  simp only [Expr.Like, Expr.relabel, Ident.relabel_blank hy]
  rfl

theorem buildsCall_grouping (k : Mark) (h : Rereads assignment 0 15 e) :
    BuildsCall (.grouping k e) := by
  refine buildsCall_of_primary fun n s d rest hdue => Gives.look_bind ?_
  obtain ⟨hbefore, -, hnesting, hfuel⟩ := hdue
  rw [Expr.kinds] at hbefore hfuel
  rw [Expr.nesting] at hnesting
  simp only [List.length_append, List.length_cons, List.length_nil] at hfuel
  simp only [List.append_assoc, List.cons_append, List.nil_append] at hbefore
  rw [hbefore.kind?]
  refine (gives_take hbefore).bind fun _ s₁ hs₁ => ?_
  refine (gives_expression h hs₁ (.separator (by decide)) (by omega) ?_).bind ?_
  · rw [List.length_cons]
    omega
  rintro e' s₂ ⟨he', hs₂⟩
  refine (gives_expect _ hs₂).bind fun _ s₃ hs₃ => (gives_node _ _ hs₃).mono ?_
  rintro _ s₄ ⟨⟨m, rfl⟩, hs₄⟩
  refine ⟨?_, hs₄⟩
  unfold Expr.Like at he' ⊢
  simp only [Expr.relabel, he']
  rfl

theorem buildsCall_get {o : Expr} (k : Mark) (x : Ident) (h : BuildsCall o) :
    BuildsCall (.get k o x) := by
  intro n s d rest Q hdue hmore
  obtain ⟨hbefore, -, hnesting, hfuel⟩ := hdue
  rw [Expr.kinds] at hbefore hfuel
  rw [Expr.nesting] at hnesting
  simp only [List.length_append, List.length_cons, List.length_nil] at hfuel
  simp only [List.append_assoc, List.cons_append, List.nil_append] at hbefore
  refine h n s d _ Q ⟨hbefore, ends_callRank _, hnesting, ?_⟩ ?_
  · simp only [List.length_cons]
    omega
  intro n' o' s₁ hn' ho' hs₁
  simp only [List.length_cons] at hn'
  obtain ⟨n', rfl⟩ := Nat.exists_eq_succ_of_ne_zero (n := n') (by omega)
  rw [accesses_succ]
  refine (gives_eat_other (y := .lparen) hs₁ (by simp)).bind ?_
  rintro _ _ ⟨rfl, rfl⟩
  refine (gives_eat hs₁).bind ?_
  rintro _ s₂ ⟨rfl, hs₂⟩
  refine (gives_expectName _ hs₂).bind ?_
  rintro y s₃ ⟨hy, hs₃⟩
  refine (gives_node _ _ hs₃).bind ?_
  rintro _ s₄ ⟨⟨m, rfl⟩, hs₄⟩
  refine hmore n' _ s₄ (by omega) ?_ hs₄
  unfold Expr.Like at ho' ⊢
  simp only [Expr.relabel, ho', Ident.relabel_blank hy]
  rfl

theorem gives_argumentList {es : List Expr} (hes : es ≠ [])
    (h : ∀ e ∈ es, Rereads assignment 0 15 e) {n count d : Nat} {s : Cursor}
    {rest : List TokenKind} (hs : s.Before d (Expr.listKinds es ++ .symbol .rparen :: rest))
    (hnesting : d + Expr.listNesting es ≤ maxNesting) (hcount : count + es.length ≤ maxArguments)
    (hfuel : 16 * ((Expr.listKinds es).length + (rest.length + 1)) + 17 ≤ n) :
    (argumentList n count).Gives s fun es' s' =>
      Expr.listRelabel .blank es' = Expr.listRelabel .blank es ∧
        s'.Before d (.symbol .rparen :: rest) := by
  induction es generalizing n count s with
  | nil => exact absurd rfl hes
  | cons e es ih =>
    obtain ⟨n, rfl⟩ := Nat.exists_eq_succ_of_ne_zero (n := n) (by omega)
    rw [Expr.listNesting] at hnesting
    rw [List.length_cons] at hcount
    rw [argumentList_succ]
    have he := h e (List.mem_cons_self ..)
    cases es with
    | nil =>
      rw [Expr.listKinds] at hs hfuel
      have hitem := gives_expression he hs (.separator (by decide)) (n := n) (by omega) (by
        rw [List.length_cons]
        omega)
      refine (gives_limitedListOf_last (by omega) hitem (by simp)).mono ?_
      rintro _ s₁ ⟨⟨e', he', rfl⟩, hs₁⟩
      refine ⟨?_, hs₁⟩
      unfold Expr.Like at he'
      simp only [Expr.listRelabel, he']
    | cons e₂ es =>
      rw [Expr.listKinds_cons_cons] at hs hfuel
      simp only [List.append_assoc, List.cons_append] at hs
      simp only [List.length_append, List.length_cons] at hfuel
      have hitem := gives_expression he hs (.separator (by decide)) (n := n) (by omega) (by
        simp only [List.length_cons, List.length_append]
        omega)
      refine (gives_limitedListOf_cons (by omega) hitem fun s₁ hs₁ => ih (by simp)
        (fun e he => h e (List.mem_cons_of_mem _ he)) hs₁ (by omega) (by omega) (by omega)).mono ?_
      rintro _ s₂ ⟨e', es', he', rfl, hes', hs₂⟩
      refine ⟨?_, hs₂⟩
      unfold Expr.Like at he'
      rw [Expr.listRelabel, he', hes', ← Expr.listRelabel]

theorem gives_argumentList_or_nil {es : List Expr} (h : ∀ e ∈ es, Rereads assignment 0 15 e) {n d : Nat}
    {s : Cursor} {rest : List TokenKind}
    (hs : s.Before d (Expr.listKinds es ++ .symbol .rparen :: rest))
    (hnesting : d + Expr.listNesting es ≤ maxNesting) (hlen : es.length ≤ maxArguments)
    (hfuel : 16 * ((Expr.listKinds es).length + (rest.length + 1)) + 17 ≤ n) :
    (listUnless (·.atSymbol .rparen) (argumentList n 0)).Gives s fun es' s' =>
      Expr.listRelabel .blank es' = Expr.listRelabel .blank es ∧
        s'.Before d (.symbol .rparen :: rest) := by
  cases es with
  | nil => exact Gives.listUnless_stop (hs.atSymbol_iff.mpr rfl) ⟨rfl, hs⟩
  | cons e es =>
    obtain ⟨k, ks, hk, hstart⟩ := Expr.listKinds_eq_cons e es
    refine Gives.listUnless_go (Bool.eq_false_iff.mpr (mt hs.atSymbol_iff.mp ?_)) ?_
    · -- No expression starts with the parenthesis.
      rw [hk]
      rintro ⟨⟩
      cases hstart
    · exact gives_argumentList (List.cons_ne_nil e es) h hs hnesting (by omega) hfuel

theorem buildsCall_call {f : Expr} {as : List Expr} (k : Mark) (hf : BuildsCall f)
    (has : ∀ a ∈ as, Rereads assignment 0 15 a) (hlen : as.length ≤ maxArguments) :
    BuildsCall (.call k f as) := by
  intro n s d rest Q hdue hmore
  obtain ⟨hbefore, -, hnesting, hfuel⟩ := hdue
  rw [Expr.kinds] at hbefore hfuel
  rw [Expr.nesting] at hnesting
  simp only [List.length_append, List.length_cons, List.length_nil] at hfuel
  simp only [List.append_assoc, List.cons_append, List.nil_append] at hbefore
  refine hf n s d _ Q ⟨hbefore, ends_callRank _, by omega, ?_⟩ ?_
  · simp only [List.length_cons, List.length_append]
    omega
  intro n' f' s₁ hn' hf' hs₁
  simp only [List.length_cons, List.length_append] at hn'
  obtain ⟨n', rfl⟩ := Nat.exists_eq_succ_of_ne_zero (n := n') (by omega)
  rw [accesses_succ]
  refine (gives_eat hs₁).bind ?_
  rintro _ s₂ ⟨rfl, hs₂⟩
  refine (gives_argumentList_or_nil has hs₂ (by omega) hlen (by omega)).bind ?_
  rintro as' s₃ ⟨has', hs₃⟩
  refine (gives_expect _ hs₃).bind fun _ s₄ hs₄ => (gives_node _ _ hs₄).bind ?_
  rintro _ s₅ ⟨⟨m, rfl⟩, hs₅⟩
  refine hmore n' _ s₅ (by omega) ?_ hs₅
  unfold Expr.Like at hf' ⊢
  simp only [Expr.relabel, hf', has']
  rfl

/-! ### Every expression of the grammar -/

/-- An expression is read back on each level that is not tighter than its own. -/
structure ReadBack (e : Expr) : Prop where
  call : callRank ≤ e.rank → BuildsCall e
  unary : unaryRank ≤ e.rank → Rereads unary unaryRank 2 e
  infixes : ∀ lv, lv.rank ≤ e.rank → BuildsInfixes lv e
  assignment : Rereads assignment 0 15 e

namespace ReadBack

/-- From its own level an expression passes to the looser ones. -/
theorem of_call (he : e.Conforms) (hrank : callRank ≤ e.rank) (h : BuildsCall e) : ReadBack e := by
  have hunary := rereads_unary_of_call he hrank h
  have hinfixes : ∀ lv, lv.rank ≤ e.rank → BuildsInfixes lv e := by
    refine buildsInfixes_of_le (fun _ => hunary) fun lv hlv => ?_
    have hle := lv.rank_le_six
    unfold callRank at hrank
    omega
  refine ⟨fun _ => h, fun _ => hunary, hinfixes, ?_⟩
  refine rereads_assignment_of_infixes (hinfixes .or ?_).rereads
  exact Nat.le_trans (by decide) hrank

theorem of_primary (he : e.Conforms) (hrank : e.rank = primaryRank) (h : BuildsCall e) :
    ReadBack e :=
  of_call he (hrank ▸ Nat.le_succ callRank) h

theorem of_unary (hrank : e.rank = unaryRank) (h : Rereads Parser.unary unaryRank 2 e) :
    ReadBack e := by
  have hinfixes : ∀ lv, lv.rank ≤ e.rank → BuildsInfixes lv e := by
    refine buildsInfixes_of_le (fun _ => h) fun lv hlv => ?_
    have hle := lv.rank_le_six
    unfold unaryRank at hrank
    omega
  refine ⟨fun hc => absurd (hrank ▸ hc) (by decide), fun _ => h, hinfixes, ?_⟩
  refine rereads_assignment_of_infixes (hinfixes .or ?_).rereads
  exact hrank ▸ (by decide)

theorem of_infixes (hrank : e.rank = lv.rank) (h : BuildsInfixes lv e) : ReadBack e := by
  have hle := lv.rank_le_six
  have hlt : ¬unaryRank ≤ e.rank := by unfold unaryRank; omega
  have hinfixes : ∀ lv, lv.rank ≤ e.rank → BuildsInfixes lv e := by
    refine buildsInfixes_of_le (fun hu => absurd hu hlt) fun lv' hlv' => ?_
    rwa [show lv' = lv by cases lv <;> cases lv' <;> simp_all [Level.rank]]
  refine ⟨fun hc => absurd (Nat.le_trans (by decide) hc) hlt, fun hu => absurd hu hlt, hinfixes, ?_⟩
  refine rereads_assignment_of_infixes (hinfixes .or ?_).rereads
  rw [hrank]
  cases lv <;> decide

theorem of_assignment (hrank : e.rank = 0) (h : Rereads Parser.assignment 0 15 e) :
    ReadBack e := by
  have hlv : ∀ lv : Level, ¬lv.rank ≤ e.rank := by
    intro lv
    rw [hrank]
    cases lv <;> decide
  refine ⟨fun hc => ?_, fun hu => ?_, fun lv hle => absurd hle (hlv lv), h⟩
  · exact absurd (hrank ▸ hc) (by decide)
  · exact absurd (hrank ▸ hu) (by decide)

theorem operand (h : ReadBack e) (hlt : lv.rank < e.rank) : RereadsOperand lv e := by
  refine rereads_operand (fun lv' hlv' => ?_) fun hu => h.unary (hu ▸ hlt)
  exact (h.infixes lv' (hlv' ▸ hlt)).rereads

end ReadBack

theorem ReadBack.of_conforms {e : Expr} (he : e.Conforms) : ReadBack e := by
  induction he with
  | literal k v => exact .of_primary (.literal k v) rfl (buildsCall_literal k v)
  | var k x => exact .of_primary (.var k x) rfl (buildsCall_var k x)
  | this k => exact .of_primary (.this k) rfl (buildsCall_this k)
  | super k x => exact .of_primary (.super k x) rfl (buildsCall_super k x)
  | grouping k he ih =>
    exact .of_primary (.grouping k he) rfl (buildsCall_grouping k ih.assignment)
  | get k x ho hrank ih =>
    exact .of_call (.get k x ho hrank) (Nat.le_refl _) (buildsCall_get k x (ih.call hrank))
  | call k hf hrank has hlen ihf ihas =>
    refine .of_call (.call k hf hrank has hlen) (Nat.le_refl _) ?_
    exact buildsCall_call k (ihf.call hrank) (fun a ha => (ihas a ha).assignment) hlen
  | unary k op he hrank ih => exact .of_unary rfl (rereads_unary (ih.unary hrank))
  | binary k op hl hr hlrank hrrank ihl ihr =>
    exact .of_infixes rfl
      (buildsInfixes_expr k (ihl.infixes (Operator.level (.binary op)) hlrank) (ihr.operand hrrank))
  | logical k op hl hr hlrank hrrank ihl ihr =>
    exact .of_infixes rfl
      (buildsInfixes_expr k (ihl.infixes (Operator.level (.logical op)) hlrank) (ihr.operand hrrank))
  | assign k x hv ih =>
    have hvar : ReadBack (.var k x) := .of_primary (.var k x) rfl (buildsCall_var k x)
    exact .of_assignment rfl (rereads_assign (hvar.infixes .or (Nat.le_add_left 1 8)).rereads ih.assignment)
  | set k x ho hrank hv iho ihv =>
    have hget : ReadBack (.get k _ x) :=
      .of_call (.get k x ho hrank) (Nat.le_refl _) (buildsCall_get k x (iho.call hrank))
    exact .of_assignment rfl (rereads_set (hget.infixes .or (Nat.le_add_left 1 7)).rereads ihv.assignment)

end Parser

end HostScript
