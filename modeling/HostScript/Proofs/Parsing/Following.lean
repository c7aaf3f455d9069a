import HostScript.Proofs.Grammar
import HostScript.Proofs.Parsing.Agreeing
import HostScript.Syntax.Parsed

/-!
# Other fuel, other faults, other numbers

Each production agrees with itself in another run, if its parts do (`Agrees`). Those that come behind a token
need to agree only where fewer tokens are left. So the recursive parsers agree with whatever fuel is enough:
sixteen units for each token that is left, and some more to come to the first of them.
-/

namespace HostScript

namespace Parser

variable {r : Rerun} {s : Cursor}

/-! ### Lists -/

section

variable {α : Type} {f : α → α} {g : List α → List α} {items items' : Parser (List α)}

theorem agrees_listUnless {stop : Cursor → Bool} (hnil : g [] = [])
    (hstop : r.faults = [] ∨ (r.faults ++ s.faults).length < maxErrors → stop (r.place s) = stop s)
    (h : stop s = false → Agrees r g items items' s) :
    Agrees r g (listUnless stop items) (listUnless stop items') s := by
  refine Agrees.look_bind hstop ?_
  split
  · exact .pure hnil
  · exact h (Bool.eq_false_iff.mpr ‹_›)

theorem agrees_commaListOf {item item' : Parser α} (hnil : g [] = [])
    (hcons : ∀ a as, g (a :: as) = f a :: g as) (ha : Agrees r f item item' s)
    (hm : ∀ s', s'.rest.length < s.rest.length → Agrees r g items items' s') :
    Agrees r g (commaListOf item items) (commaListOf item' items') s := by
  refine ha.bind fun a s₁ h₁ => Agrees.eat_bind (fun s₂ h₂ => ?_) (.pure ?_)
  · exact (hm s₂ (by omega)).bind fun as _ _ => .pure (hcons a as)
  · rw [hcons, hnil]

theorem agrees_limitedListOf {item item' : Parser α} (tooMany : Cause) (count : Nat) (hnil : g [] = [])
    (hcons : ∀ a as, g (a :: as) = f a :: g as)
    (ha : ∀ s', s'.rest.length ≤ s.rest.length → Agrees r f item item' s')
    (hm : ∀ s', s'.rest.length < s.rest.length → Agrees r g items items' s') :
    Agrees r g (limitedListOf tooMany count item items) (limitedListOf tooMany count item' items') s := by
  unfold limitedListOf
  split
  · refine (Agrees.complain _).bind fun _ s₁ h₁ => ?_
    exact agrees_commaListOf hnil hcons (ha s₁ h₁) fun s' hlt => hm s' (by omega)
  · exact agrees_commaListOf hnil hcons (ha s (Nat.le_refl _)) hm

end

/-! ### Expressions -/

section

variable {operand operand' value value' call call' arg arg' inner inner' : Parser Expr}
  {args args' : Parser (List Expr)}

theorem agrees_assignTo (t v : Expr) (equals : Fault) :
    Agrees r r.expr (assignTo t v equals) (assignTo (r.expr t) (r.expr v) equals) s := by
  unfold assignTo
  rw [t.span_relabel_shift, v.span_relabel_shift]
  cases t <;> simp only [Expr.relabel]
  case var => exact .node _ fun m => by simp only [Expr.relabel]
  case get => exact .node _ fun m => by simp only [Expr.relabel]
  all_goals exact (Agrees.complainOf _).bind fun _ _ _ => .pure (by simp only [Expr.relabel])

theorem agrees_assignmentOf (ho : Agrees r r.expr operand operand' s)
    (hv : ∀ s', s'.rest.length < s.rest.length → Agrees r r.expr value value' s') :
    Agrees r r.expr (assignmentOf operand value) (assignmentOf operand' value') s := by
  refine ho.bind fun t s₁ hle => Agrees.look_bind (fun _ => rfl) ?_
  split
  · rename_i hat
    have htake : take.Leads s₁ := .take (Cursor.kind?_of_atSymbol hat)
    refine Agrees.look_bind (fun _ => rfl) (Agrees.take.bind_lt htake.takes fun _ s₂ hlt => ?_)
    exact (hv s₂ (by omega)).bind fun v _ _ => agrees_assignTo t v _
  · exact .pure rfl

theorem agrees_operatorsOf {lv : Level} (left : Expr) {more more' : Expr → Parser Expr}
    (ho : ∀ s', s'.rest.length < s.rest.length → Agrees r r.expr operand operand' s')
    (hm : ∀ e s', s'.rest.length < s.rest.length → Agrees r r.expr (more e) (more' (r.expr e)) s') :
    Agrees r r.expr (operatorsOf lv left operand more)
      (operatorsOf lv (r.expr left) operand' more') s := by
  refine Agrees.look_bind (fun _ => rfl) ?_
  split
  · exact .pure rfl
  · rename_i op hop
    obtain ⟨k, hk, -⟩ := Option.bind_eq_some_iff.mp hop
    refine Agrees.take.bind_lt (Leads.take hk).takes fun _ s₁ h₁ => ?_
    refine (ho s₁ h₁).bind fun right s₂ h₂ => ?_
    rw [left.span_relabel_shift, right.span_relabel_shift]
    refine (Agrees.node _ fun m => ?_).bind fun e s₃ h₃ => hm e s₃ (by omega)
    cases op <;> simp only [Operator.expr, Expr.relabel]

theorem agrees_unaryOf (hc : Agrees r r.expr call call' s)
    (ho : ∀ s', s'.rest.length < s.rest.length → Agrees r r.expr operand operand' s') :
    Agrees r r.expr (unaryOf operand call) (unaryOf operand' call') s := by
  refine Agrees.look_bind (fun _ => rfl) ?_
  split
  · exact hc
  · rename_i op hop
    obtain ⟨k, hk, -⟩ := Option.bind_eq_some_iff.mp hop
    refine Agrees.take.bind_lt (Leads.take hk).takes fun start s₁ h₁ => ?_
    have hnested : Agrees r r.expr (nested operand) (nested operand') s₁ := .nested (ho _ h₁)
    refine hnested.bind fun e _ _ => ?_
    rw [e.span_relabel_shift]
    exact .node _ fun m => by simp only [Expr.relabel]

theorem agrees_operandOf (lv : Level) {infixes infixes' : Level → Parser Expr}
    {unary unary' : Parser Expr}
    (hi : ∀ lv', lv.tighter? = some lv' → Agrees r r.expr (infixes lv') (infixes' lv') s)
    (hu : lv.tighter? = none → Agrees r r.expr unary unary' s) :
    Agrees r r.expr (operandOf lv infixes unary) (operandOf lv infixes' unary') s := by
  unfold operandOf
  cases hlv : lv.tighter? with
  | some lv' => exact hi lv' hlv
  | none => exact hu hlv

theorem agrees_accessesOf (callee : Expr) {more more' : Expr → Parser Expr}
    (ha : ∀ s', s'.rest.length < s.rest.length → Agrees r r.exprs args args' s')
    (hm : ∀ e s', s'.rest.length < s.rest.length → Agrees r r.expr (more e) (more' (r.expr e)) s') :
    Agrees r r.expr (accessesOf callee args more) (accessesOf (r.expr callee) args' more') s := by
  unfold accessesOf
  rw [callee.span_relabel_shift]
  refine Agrees.eat_bind (fun s₁ h₁ => ?_) (Agrees.eat_bind (fun s₁ h₁ => ?_) (.pure rfl))
  · refine (agrees_listUnless rfl (fun _ => rfl) fun _ => ha s₁ h₁).bind fun as s₂ h₂ => ?_
    refine (Agrees.expect _ _).bind fun close s₃ h₃ => ?_
    refine (Agrees.node _ fun m => ?_).bind fun e s₄ h₄ => hm e s₄ (by omega)
    simp only [Expr.relabel]
  · refine (Agrees.expectName _).bind fun x s₂ h₂ => ?_
    refine (Agrees.node _ fun m => ?_).bind fun e s₃ h₃ => hm e s₃ (by omega)
    simp only [Expr.relabel]
    rfl

theorem agrees_leaf {x : Span → Mark → Expr}
    (h : ∀ sp m, r.expr (x sp m) = x sp ((Relabeling.shift r.shift).mark m)) :
    Agrees r r.expr (leaf x) (leaf x) s :=
  Agrees.take.bind fun sp _ _ => .node sp (h sp)

theorem agrees_superAccess : Agrees r r.expr superAccess superAccess s := by
  refine Agrees.take.bind fun start s₁ _ => (Agrees.expect _ _).bind fun _ s₂ _ => ?_
  refine (Agrees.expectName _).bind fun x s₃ _ => .node _ fun m => ?_
  simp only [Expr.relabel]
  rfl

theorem agrees_groupingOf (hk : s.kind? = some (.symbol .lparen))
    (h : ∀ s', s'.rest.length < s.rest.length → Agrees r r.expr inner inner' s') :
    Agrees r r.expr (groupingOf inner) (groupingOf inner') s := by
  refine Agrees.take.bind_lt (Leads.take hk).takes fun start s₁ h₁ => (h s₁ h₁).bind fun e s₂ _ => ?_
  refine (Agrees.expect _ _).bind fun close s₃ _ => .node _ fun m => ?_
  simp only [Expr.relabel]

theorem agrees_primaryOf
    (h : ∀ s', s'.rest.length < s.rest.length → Agrees r r.expr inner inner' s') :
    Agrees r r.expr (primaryOf inner) (primaryOf inner') s := by
  refine Agrees.look_bind (fun _ => rfl) ?_
  split
  · exact agrees_leaf fun _ _ => by simp only [Expr.relabel]
  · exact agrees_superAccess
  · exact agrees_leaf fun _ _ => by simp only [Expr.relabel]; rfl
  · exact agrees_groupingOf ‹_› h
  · split
    · exact agrees_leaf fun _ _ => by simp only [Expr.relabel]
    · exact .failAt _

end

/-- With fuel `n` and with fuel `n'` in the other run, where both are enough, all parsers of expressions do the
same. -/
structure ExpressionsAgree (r : Rerun) (n n' : Nat) : Prop where
  expression : ∀ s, 16 * s.rest.length + 16 ≤ n → 16 * s.rest.length + 16 ≤ n' →
    Agrees r r.expr (expression n) (r.setting.expression n') s
  assignment : ∀ s, 16 * s.rest.length + 15 ≤ n → 16 * s.rest.length + 15 ≤ n' →
    Agrees r r.expr (assignment n) (r.setting.assignment n') s
  infixes : ∀ lv s, 16 * s.rest.length + (16 - 2 * lv.rank) ≤ n →
    16 * s.rest.length + (16 - 2 * lv.rank) ≤ n' →
    Agrees r r.expr (infixes n lv) (r.setting.infixes n' lv) s
  operand : ∀ lv s, 16 * s.rest.length + (15 - 2 * lv.rank) ≤ n →
    16 * s.rest.length + (15 - 2 * lv.rank) ≤ n' →
    Agrees r r.expr (operand n lv) (r.setting.operand n' lv) s
  operators : ∀ lv left s, 16 * s.rest.length + 1 ≤ n → 16 * s.rest.length + 1 ≤ n' →
    Agrees r r.expr (operators n lv left) (r.setting.operators n' lv (r.expr left)) s
  unary : ∀ s, 16 * s.rest.length + 2 ≤ n → 16 * s.rest.length + 2 ≤ n' →
    Agrees r r.expr (unary n) (r.setting.unary n') s
  call : ∀ s, 16 * s.rest.length + 1 ≤ n → 16 * s.rest.length + 1 ≤ n' →
    Agrees r r.expr (call n) (r.setting.call n') s
  accesses : ∀ e s, 16 * s.rest.length + 2 ≤ n → 16 * s.rest.length + 2 ≤ n' →
    Agrees r r.expr (accesses n e) (r.setting.accesses n' (r.expr e)) s
  argumentList : ∀ count s, 16 * s.rest.length + 17 ≤ n → 16 * s.rest.length + 17 ≤ n' →
    Agrees r r.exprs (argumentList n count) (r.setting.argumentList n' count) s

namespace ExpressionsAgree

variable {n n' : Nat}

/-- Without fuel there is not enough of it. -/
theorem of_eq_zero (h : n = 0 ∨ n' = 0) : ExpressionsAgree r n n' := by
  refine ⟨?_, ?_, ?_, ?_, ?_, ?_, ?_, ?_, ?_⟩
  case refine_3 | refine_4 => intro lv s _ _; have := lv.rank_le_six; omega
  all_goals intros; omega

theorem succ (ih : ExpressionsAgree r n n') : ExpressionsAgree r (n + 1) (n' + 1) where
  expression s h h' := by
    refine Agrees.guard (.nested (ih.assignment _ ?_ ?_)) <;> dsimp only <;> omega
  assignment s h h' := by
    refine Agrees.guard (agrees_assignmentOf (ih.infixes .or s ?_ ?_) fun s' hlt => ?_)
    · simp only [Level.rank]; omega
    · simp only [Level.rank]; omega
    · exact ih.assignment s' (by omega) (by omega)
  infixes lv s h h' := by
    have := lv.rank_le_six
    refine Agrees.guard ((ih.operand lv s (by omega) (by omega)).bind fun left s₁ h₁ => ?_)
    exact ih.operators lv left s₁ (by omega) (by omega)
  operand lv s h h' := by
    have := lv.rank_le_six
    refine Agrees.guard (agrees_operandOf lv (fun lv' hlv => ?_) fun hlv => ?_)
    · have hrank := Level.rank_of_tighter?.1 lv' hlv
      exact ih.infixes lv' s (by omega) (by omega)
    · exact ih.unary s (by omega) (by omega)
  operators lv left s h h' := by
    have := lv.rank_le_six
    refine Agrees.guard (agrees_operatorsOf left (fun s' hlt => ?_) fun e s' hlt => ?_)
    · exact ih.operand lv s' (by omega) (by omega)
    · exact ih.operators lv e s' (by omega) (by omega)
  unary s h h' := by
    refine Agrees.guard (agrees_unaryOf (ih.call s (by omega) (by omega)) fun s' hlt => ?_)
    exact ih.unary s' (by omega) (by omega)
  call s h h' := by
    have hprimary : Agrees r r.expr (primaryOf (Parser.expression n))
        (primaryOf (r.setting.expression n')) s :=
      agrees_primaryOf fun s' hlt => ih.expression s' (by omega) (by omega)
    refine Agrees.guard (hprimary.bind_lt (leads_primaryOf _ s).takes fun e s₁ h₁ => ?_)
    exact ih.accesses e s₁ (by omega) (by omega)
  accesses e s h h' := by
    refine Agrees.guard (agrees_accessesOf e (fun s' hlt => ?_) fun e' s' hlt => ?_)
    · exact ih.argumentList 0 s' (by omega) (by omega)
    · exact ih.accesses e' s' (by omega) (by omega)
  argumentList count s h h' := by
    refine Agrees.guard (agrees_limitedListOf _ count rfl (fun _ _ => rfl) (fun s' hle => ?_) fun s' hlt => ?_)
    · exact ih.expression s' (by omega) (by omega)
    · exact ih.argumentList (count + 1) s' (by omega) (by omega)

end ExpressionsAgree

theorem expressionsAgree (r : Rerun) (n n' : Nat) : ExpressionsAgree r n n' := by
  induction n generalizing n' with
  | zero => exact .of_eq_zero (.inl rfl)
  | succ n ih =>
    cases n' with
    | zero => exact .of_eq_zero (.inr rfl)
    | succ n' => exact (ih n').succ

/-! ### Statements -/

section

variable {expr expr' : Parser Expr} {stmt stmt' : Parser Stmt} {items items' : Parser (List Stmt)}
  {params params' : Parser (List Ident)} {methods methods' : Parser (List FunctionDecl)}

theorem agrees_initializerOf
    (h : ∀ s', s'.rest.length < s.rest.length → Agrees r r.expr expr expr' s') :
    Agrees r (Option.map r.expr) (initializerOf expr) (initializerOf expr') s :=
  Agrees.eat_bind (fun s₁ h₁ => (h s₁ h₁).bind fun _ _ _ => .pure rfl) (.pure rfl)

theorem agrees_varDeclOf (hk : s.kind? = some (.keyword .var))
    (h : ∀ s', s'.rest.length < s.rest.length → Agrees r r.expr expr expr' s') :
    Agrees r r.stmt (varDeclOf expr) (varDeclOf expr') s := by
  refine Agrees.take.bind_lt (Leads.take hk).takes fun start s₁ h₁ => ?_
  refine (Agrees.expectName _).bind fun x s₂ h₂ => ?_
  have hinit : Agrees r (Option.map r.expr) (initializerOf expr) (initializerOf expr') s₂ :=
    agrees_initializerOf fun s' hlt => h s' (by omega)
  refine hinit.bind fun init s₃ _ => (Agrees.expect _ _).bind fun _ s₄ _ => ?_
  exact (Agrees.spanFrom _).bind fun sp _ _ => .pure (by simp only [Stmt.relabel]; rfl)

theorem agrees_exprStmtOf (h : Agrees r r.expr expr expr' s) :
    Agrees r r.stmt (exprStmtOf expr) (exprStmtOf expr') s := by
  refine h.bind fun e s₁ _ => (Agrees.expect _ _).bind fun _ s₂ _ => ?_
  rw [e.span_relabel_shift]
  exact (Agrees.spanFrom _).bind fun sp _ _ => .pure (by simp only [Stmt.relabel]; rfl)

theorem agrees_printStmtOf (hk : s.kind? = some (.keyword .print))
    (h : ∀ s', s'.rest.length < s.rest.length → Agrees r r.expr expr expr' s') :
    Agrees r r.stmt (printStmtOf expr) (printStmtOf expr') s := by
  refine Agrees.take.bind_lt (Leads.take hk).takes fun start s₁ h₁ => (h s₁ h₁).bind fun e s₂ _ => ?_
  refine (Agrees.expect _ _).bind fun _ s₃ _ => ?_
  exact (Agrees.spanFrom _).bind fun sp _ _ => .pure (by simp only [Stmt.relabel]; rfl)

theorem agrees_unlessAt (y : Symbol) (h : Agrees r r.expr expr expr' s) :
    Agrees r (Option.map r.expr) (unlessAt y expr) (unlessAt y expr') s := by
  refine Agrees.look_bind (fun _ => rfl) ?_
  split
  · exact .pure rfl
  · exact h.bind fun e _ _ => .pure rfl

theorem agrees_returnStmtOf (hk : s.kind? = some (.keyword .return_))
    (h : ∀ s', s'.rest.length < s.rest.length → Agrees r r.expr expr expr' s') :
    Agrees r r.stmt (returnStmtOf expr) (returnStmtOf expr') s := by
  refine Agrees.take.bind_lt (Leads.take hk).takes fun start s₁ h₁ => ?_
  refine (agrees_unlessAt _ (h s₁ h₁)).bind fun value s₂ _ => (Agrees.expect _ _).bind fun _ s₃ _ => ?_
  exact (Agrees.spanFrom _).bind fun sp _ _ => .pure (by simp only [Stmt.relabel]; rfl)

theorem agrees_elseOf (h : ∀ s', s'.rest.length ≤ s.rest.length → Agrees r r.stmt stmt stmt' s') :
    Agrees r (Option.map r.stmt) (elseOf stmt) (elseOf stmt') s := by
  refine (Agrees.eatKeyword _).bind fun b s₁ h₁ => ?_
  cases b
  · exact .pure rfl
  · exact (h s₁ h₁).bind fun t _ _ => .pure rfl

theorem agrees_ifStmtOf (hk : s.kind? = some (.keyword .if_))
    (he : ∀ s', s'.rest.length < s.rest.length → Agrees r r.expr expr expr' s')
    (hs : ∀ s', s'.rest.length < s.rest.length → Agrees r r.stmt stmt stmt' s') :
    Agrees r r.stmt (ifStmtOf expr stmt) (ifStmtOf expr' stmt') s := by
  refine Agrees.take.bind_lt (Leads.take hk).takes fun start s₁ h₁ => ?_
  refine (Agrees.expect _ _).bind fun _ s₂ h₂ => (he s₂ (by omega)).bind fun cond s₃ h₃ => ?_
  refine (Agrees.expect _ _).bind fun _ s₄ h₄ => (hs s₄ (by omega)).bind fun t s₅ h₅ => ?_
  refine (agrees_elseOf fun s' hle => hs s' (by omega)).bind fun f s₆ _ => ?_
  refine (Agrees.spanFrom _).bind fun sp _ _ => .pure ?_
  cases f <;> simp only [Stmt.relabel, Option.map] <;> rfl

theorem agrees_whileStmtOf (hk : s.kind? = some (.keyword .while_))
    (he : ∀ s', s'.rest.length < s.rest.length → Agrees r r.expr expr expr' s')
    (hs : ∀ s', s'.rest.length < s.rest.length → Agrees r r.stmt stmt stmt' s') :
    Agrees r r.stmt (whileStmtOf expr stmt) (whileStmtOf expr' stmt') s := by
  refine Agrees.take.bind_lt (Leads.take hk).takes fun start s₁ h₁ => ?_
  refine (Agrees.expect _ _).bind fun _ s₂ h₂ => (he s₂ (by omega)).bind fun cond s₃ h₃ => ?_
  refine (Agrees.expect _ _).bind fun _ s₄ h₄ => (hs s₄ (by omega)).bind fun body s₅ _ => ?_
  exact (Agrees.spanFrom _).bind fun sp _ _ => .pure (by simp only [Stmt.relabel]; rfl)

theorem agrees_forInitOf
    (h : ∀ s', s'.rest.length ≤ s.rest.length → Agrees r r.expr expr expr' s') :
    Agrees r (Option.map r.stmt) (forInitOf expr) (forInitOf expr') s := by
  refine Agrees.eat_bind (fun s₁ _ => .pure rfl) (Agrees.look_bind (fun _ => rfl) ?_)
  split
  · rename_i hat
    have hvar : Agrees r r.stmt (varDeclOf expr) (varDeclOf expr') s :=
      agrees_varDeclOf (Cursor.kind?_of_atKeyword hat) fun s' hlt => h s' (Nat.le_of_lt hlt)
    exact hvar.bind fun t _ _ => .pure rfl
  · exact (agrees_exprStmtOf (h s (Nat.le_refl _))).bind fun t _ _ => .pure rfl

theorem agrees_conditionOr (sp : Span) (cond : Option Expr) :
    Agrees r r.expr (conditionOr sp cond) (conditionOr sp (cond.map r.expr)) s := by
  cases cond with
  | none =>
    rw [Option.map_none, conditionOr]
    exact .node sp fun m => by simp only [Expr.relabel]
  | some e => exact .pure rfl

theorem relabel_withIncrement (k : Nat) (sp : Span) (body : Stmt) (increment : Option Expr) :
    (withIncrement sp body increment).relabel (.shift k) =
      withIncrement sp (body.relabel (.shift k)) (increment.map (Expr.relabel (.shift k))) := by
  cases increment with
  | none => rfl
  | some e =>
    simp only [withIncrement, Stmt.relabel, Stmt.listRelabel, Option.map, e.span_relabel_shift]
    rfl

theorem relabel_withInit (k : Nat) (sp : Span) (loop : Stmt) (init : Option Stmt) :
    (withInit sp loop init).relabel (.shift k) =
      withInit sp (loop.relabel (.shift k)) (init.map (Stmt.relabel (.shift k))) := by
  cases init with
  | none => rfl
  | some t =>
    simp only [withInit, Stmt.relabel, Stmt.listRelabel, Option.map]
    rfl

theorem agrees_forStmtOf (hk : s.kind? = some (.keyword .for_))
    (he : ∀ s', s'.rest.length < s.rest.length → Agrees r r.expr expr expr' s')
    (hs : ∀ s', s'.rest.length < s.rest.length → Agrees r r.stmt stmt stmt' s') :
    Agrees r r.stmt (forStmtOf expr stmt) (forStmtOf expr' stmt') s := by
  refine Agrees.take.bind_lt (Leads.take hk).takes fun start s₁ h₁ => ?_
  refine (Agrees.expect _ _).bind fun _ s₂ h₂ => ?_
  refine (agrees_forInitOf fun s' hle => he s' (by omega)).bind fun init s₃ h₃ => ?_
  refine (agrees_unlessAt _ (he s₃ (by omega))).bind fun cond s₄ h₄ => ?_
  refine (Agrees.expect _ _).bind fun _ s₅ h₅ => ?_
  refine (agrees_unlessAt _ (he s₅ (by omega))).bind fun increment s₆ h₆ => ?_
  refine (Agrees.expect _ _).bind fun _ s₇ h₇ => (hs s₇ (by omega)).bind fun body s₈ _ => ?_
  refine (Agrees.spanFrom _).bind fun sp s₉ _ => ?_
  refine (agrees_conditionOr sp cond).bind fun cond _ _ => .pure ?_
  rw [Rerun.stmt, relabel_withInit, Stmt.relabel, relabel_withIncrement]
  rfl

theorem agrees_blockOf (h : ∀ s', s'.rest.length < s.rest.length → Agrees r r.stmts items items' s') :
    Agrees r (Prod.map r.stmts id) (blockOf items) (blockOf items') s := by
  refine Agrees.look_bind (fun _ => rfl) ?_
  refine (Agrees.expect _ _).bind_lt (Leads.expect _ _ s).takes fun _ s₁ h₁ => ?_
  refine (h s₁ h₁).bind fun body s₂ _ => (Agrees.expect _ _).bind fun _ s₃ _ => ?_
  exact (Agrees.spanFrom _).bind fun sp _ _ => .pure rfl

theorem agrees_callableOf (kind : CallableKind)
    (hp : ∀ s', s'.rest.length < s.rest.length → Agrees r id params params' s')
    (hi : ∀ s', s'.rest.length + 1 < s.rest.length → Agrees r r.stmts items items' s') :
    Agrees r r.function (callableOf kind params items) (callableOf kind params' items') s := by
  refine (Agrees.expectName _).bind_lt (Leads.expectName _ s).takes fun x s₁ h₁ => ?_
  refine (Agrees.expect _ _).bind fun _ s₂ h₂ => ?_
  refine (agrees_listUnless rfl (fun _ => rfl) fun _ => hp s₂ (by omega)).bind fun ps s₃ h₃ => ?_
  refine (Agrees.expect _ _).bind fun _ s₄ h₄ => Agrees.look_bind (fun _ => rfl) ?_
  split
  · refine (agrees_blockOf fun s' hlt => hi s' (by omega)).bind fun b _ _ => .pure ?_
    simp only [FunctionDecl.relabel, Ident.map_relabel_shift]
    rfl
  · exact .failAt _

theorem agrees_superclass :
    Agrees r (Option.map (Superclass.relabel (.shift r.shift))) superclass superclass s := by
  refine Agrees.eat_bind (fun s₁ _ => (Agrees.expectName _).bind fun x _ _ => ?_) (.pure rfl)
  exact (Agrees.node (f := Superclass.relabel (.shift r.shift)) _ fun m => rfl).bind fun p _ _ => .pure rfl

theorem agrees_classDeclOf (hk : s.kind? = some (.keyword .class_))
    (h : ∀ s', s'.rest.length < s.rest.length → Agrees r r.functions methods methods' s') :
    Agrees r r.stmt (classDeclOf methods) (classDeclOf methods') s := by
  refine Agrees.take.bind_lt (Leads.take hk).takes fun start s₁ h₁ => ?_
  refine (Agrees.expectName _).bind fun x s₂ h₂ => agrees_superclass.bind fun super s₃ h₃ => ?_
  refine (Agrees.expect _ _).bind fun _ s₄ h₄ => (h s₄ (by omega)).bind fun ms s₅ _ => ?_
  refine (Agrees.expect _ _).bind fun _ s₆ _ => ?_
  exact (Agrees.spanFrom _).bind fun sp _ _ => .pure (by simp only [Stmt.relabel]; rfl)

theorem agrees_statementOf
    (he : ∀ s', s'.rest.length ≤ s.rest.length → Agrees r r.expr expr expr' s')
    (hs : ∀ s', s'.rest.length < s.rest.length → Agrees r r.stmt stmt stmt' s')
    (hi : ∀ s', s'.rest.length < s.rest.length → Agrees r r.stmts items items' s') :
    Agrees r r.stmt (statementOf expr stmt items) (statementOf expr' stmt' items') s := by
  have he' : ∀ s', s'.rest.length < s.rest.length → Agrees r r.expr expr expr' s' :=
    fun s' hlt => he s' (Nat.le_of_lt hlt)
  refine Agrees.look_bind (fun _ => rfl) ?_
  split
  · exact agrees_printStmtOf ‹_› he'
  · exact agrees_returnStmtOf ‹_› he'
  · exact agrees_ifStmtOf ‹_› he' hs
  · exact agrees_whileStmtOf ‹_› he' hs
  · exact agrees_forStmtOf ‹_› he' hs
  · exact (agrees_blockOf hi).bind fun b _ _ => .pure (by simp only [Stmt.relabel]; rfl)
  · exact agrees_exprStmtOf (he s (Nat.le_refl _))

theorem agrees_declarationOf {function function' : Parser FunctionDecl}
    (he : ∀ s', s'.rest.length < s.rest.length → Agrees r r.expr expr expr' s')
    (hs : Agrees r r.stmt stmt stmt' s)
    (hf : ∀ s', s'.rest.length < s.rest.length → Agrees r r.function function function' s')
    (hm : ∀ s', s'.rest.length < s.rest.length → Agrees r r.functions methods methods' s') :
    Agrees r r.stmt (declarationOf expr stmt function methods)
      (declarationOf expr' stmt' function' methods') s := by
  refine Agrees.look_bind (fun _ => rfl) ?_
  split
  · exact agrees_classDeclOf ‹_› hm
  · refine Agrees.take.bind_lt (Leads.take ‹_›).takes fun _ s₁ h₁ => ?_
    exact (hf s₁ h₁).bind fun d _ _ => .pure (by simp only [Stmt.relabel])
  · exact agrees_varDeclOf ‹_› he
  · exact hs

theorem rest_ne_nil_of_atEnd_eq_false (h : s.atEnd = false) : s.rest ≠ [] := by
  intro hnil
  simp [Cursor.atEnd, hnil] at h

/-- One declaration and those behind it, where some token is left. -/
theorem agrees_itemsOf {n : Nat} {item : Parser Stmt}
    (hd : Agrees r r.stmt (declaration (n + 1)) item s) (hend : s.atEnd = false)
    (hm : ∀ s', s'.rest.length < s.rest.length → Agrees r r.stmts items items' s') :
    Agrees r r.stmts (itemsOf (declaration (n + 1)) items) (itemsOf item items') s := by
  have hlt := declaration_lt n (rest_ne_nil_of_atEnd_eq_false hend)
  refine hd.attempt.bind_lt (fun _ _ => hlt) fun t s₁ h₁ => ?_
  refine (hm s₁ h₁).bind fun ts _ _ => .pure ?_
  cases t <;> rfl

theorem agrees_methodsOf {method method' : Parser FunctionDecl} (hc : Agrees r r.function method method' s)
    (hlead : method.Leads s)
    (hm : ∀ s', s'.rest.length < s.rest.length → Agrees r r.functions methods methods' s') :
    Agrees r r.functions (methodsOf method methods) (methodsOf method' methods') s := by
  refine hc.bind_lt hlead.takes fun d s₁ h₁ => ?_
  exact (hm s₁ h₁).bind fun ds _ _ => .pure rfl

end

theorem agrees_parameters (n n' count : Nat) (s : Cursor) (hn : 16 * s.rest.length + 1 ≤ n)
    (hn' : 16 * s.rest.length + 1 ≤ n') :
    Agrees r id (parameters n count) (r.setting.parameters n' count) s := by
  induction n generalizing n' count s with
  | zero => omega
  | succ n ih =>
    obtain ⟨n', rfl⟩ := Nat.exists_eq_succ_of_ne_zero (n := n') (by omega)
    refine Agrees.guard (agrees_limitedListOf _ count rfl (fun _ _ => rfl)
      (fun _ _ => .expectName _) fun s' hlt => ?_)
    exact ih n' (count + 1) s' (by omega) (by omega)

/-- With fuel `n` and with fuel `n'` in the other run, where both are enough, all parsers of statements do the
same. -/
structure StatementsAgree (r : Rerun) (n n' : Nat) : Prop where
  declaration : ∀ s, 16 * s.rest.length + 18 ≤ n → 16 * s.rest.length + 18 ≤ n' →
    Agrees r r.stmt (declaration n) (r.setting.declaration n') s
  statement : ∀ s, 16 * s.rest.length + 17 ≤ n → 16 * s.rest.length + 17 ≤ n' →
    Agrees r r.stmt (statement n) (r.setting.statement n') s
  callable : ∀ kind s, 16 * s.rest.length + 4 ≤ n → 16 * s.rest.length + 4 ≤ n' →
    Agrees r r.function (callable n kind) (r.setting.callable n' kind) s
  blockItems : ∀ s, 16 * s.rest.length + 19 ≤ n → 16 * s.rest.length + 19 ≤ n' →
    Agrees r r.stmts (blockItems n) (r.setting.blockItems n') s
  methods : ∀ s, 16 * s.rest.length + 5 ≤ n → 16 * s.rest.length + 5 ≤ n' →
    Agrees r r.functions (methods n) (r.setting.methods n') s

namespace StatementsAgree

variable {n n' : Nat}

theorem of_eq_zero (h : n = 0 ∨ n' = 0) : StatementsAgree r n n' := by
  refine ⟨?_, ?_, ?_, ?_, ?_⟩ <;> intros <;> omega

theorem succ (ih : StatementsAgree r n n') : StatementsAgree r (n + 1) (n' + 1) where
  declaration s h h' := by
    have hstmt := ih.statement s (by omega) (by omega)
    refine Agrees.guard (.recovering (agrees_declarationOf (fun s' hlt => ?_) hstmt
      (fun s' hlt => ?_) fun s' hlt => ?_))
    · exact (expressionsAgree r n n').expression s' (by omega) (by omega)
    · exact ih.callable .function s' (by omega) (by omega)
    · exact ih.methods s' (by omega) (by omega)
  statement s h h' := by
    refine Agrees.guard (.nested (.guard (agrees_statementOf (fun s' hle => ?_) (fun s' hlt => ?_)
      fun s' hlt => ?_))) <;> dsimp only at *
    · exact (expressionsAgree r n n').expression s' (by omega) (by omega)
    · exact ih.statement s' (by omega) (by omega)
    · exact ih.blockItems s' (by omega) (by omega)
  callable kind s h h' := by
    refine Agrees.guard (agrees_callableOf kind (fun s' hlt => ?_) fun s' hlt => ?_)
    · exact agrees_parameters n n' 0 s' (by omega) (by omega)
    · exact ih.blockItems s' (by omega) (by omega)
  blockItems s h h' := by
    obtain ⟨m, rfl⟩ := Nat.exists_eq_succ_of_ne_zero (n := n) (by omega)
    refine Agrees.guard (agrees_listUnless rfl (fun hfew => ?_) fun hgo => ?_)
    · rw [Rerun.tooManyFaults_place hfew]
      rfl
    · refine agrees_itemsOf (ih.declaration s (by omega) (by omega)) (by simp_all) fun s' hlt => ?_
      exact ih.blockItems s' (by omega) (by omega)
  methods s h h' := by
    refine Agrees.guard (agrees_listUnless rfl (fun _ => rfl) fun _ => ?_)
    refine agrees_methodsOf (ih.callable .method s (by omega) (by omega)) (leads_callable n .method s) ?_
    exact fun s' hlt => ih.methods s' (by omega) (by omega)

end StatementsAgree

theorem statementsAgree (r : Rerun) (n n' : Nat) : StatementsAgree r n n' := by
  induction n generalizing n' with
  | zero => exact .of_eq_zero (.inl rfl)
  | succ n ih =>
    cases n' with
    | zero => exact .of_eq_zero (.inr rfl)
    | succ n' => exact (ih n').succ

theorem agrees_topLevel (r : Rerun) (n n' : Nat) (s : Cursor) (hn : 16 * s.rest.length + 19 ≤ n)
    (hn' : 16 * s.rest.length + 19 ≤ n') :
    Agrees r r.stmts (topLevel n) (r.setting.topLevel n') s := by
  induction n generalizing n' s with
  | zero => omega
  | succ n ih =>
    obtain ⟨n', rfl⟩ := Nat.exists_eq_succ_of_ne_zero (n := n') (by omega)
    obtain ⟨m, rfl⟩ := Nat.exists_eq_succ_of_ne_zero (n := n) (by omega)
    have hdeclaration := (statementsAgree r (m + 1) n').declaration s (by omega) (by omega)
    refine Agrees.guard (agrees_listUnless rfl (fun hfew => ?_) fun hgo => ?_)
    · rw [Rerun.tooManyFaults_place hfew]
      rfl
    · exact agrees_itemsOf hdeclaration (by simp_all) fun s' hlt => ih n' s' (by omega) (by omega)

end Parser

/-! ### Other faults and other numbers -/

/-- The same place, with other faults found before. -/
def Cursor.behind (fs : List Fault) (s : Cursor) : Cursor :=
  { s with faults := fs ++ s.faults }

theorem Parser.run_topLevel_behind (fs : List Fault) (n n' : Nat) (s : Cursor)
    (hn : 16 * s.rest.length + 19 ≤ n) (hn' : 16 * s.rest.length + 19 ≤ n')
    (hfew : ((topLevel n').run (s.behind fs)).2.faults.length < maxErrors) :
    (topLevel n').run (s.behind fs) = (((topLevel n).run s).1, ((topLevel n).run s).2.behind fs) := by
  have hagrees := agrees_topLevel (.plain 0 fs s.depth) n n' s hn hn'
  have hrun : (topLevel n').run (s.behind fs) =
      (((topLevel n).run s).1.map (Stmt.listRelabel (.shift 0)), ((topLevel n).run s).2.behind fs) :=
    hagrees.run_place (Nat.le_max_right _ _) (.inr hfew)
  have hid : Stmt.listRelabel (.shift 0) = id := funext Stmt.listRelabel_shift_zero
  rw [hrun, hid, Option.map_id]
  rfl

namespace Parsed

/-- The same program with numbers that are greater by `k`. -/
def shift (k : Nat) (p : Parsed) : Parsed :=
  ⟨p.program.relabel (.shift k), p.nextId + k, p.faults⟩

theorem ofTokens_add (tokens : List Token) (finish : Span) (firstId k : Nat) :
    ofTokens tokens finish (firstId + k) = (ofTokens tokens finish firstId).shift k := by
  have hfuel : 16 * tokens.length + 19 ≤ fuelFor tokens.length := by
    unfold fuelFor
    omega
  have hagrees := Parser.agrees_topLevel (.plain k [] 0) _ _ (.ofTokens tokens finish firstId) hfuel hfuel
  have hrun := hagrees.run_place (Nat.zero_le _) (.inl rfl)
  change (Parser.topLevel _).run (Cursor.ofTokens tokens finish (firstId + k)) = _ at hrun
  unfold ofTokens shift Program.relabel
  dsimp only
  rw [hrun]
  cases hr : ((Parser.topLevel (fuelFor tokens.length)).run
    (Cursor.ofTokens tokens finish firstId)).1 <;> rfl

theorem ofText_add (text : String) (firstId k : Nat) :
    ofText text (firstId + k) = (ofText text firstId).shift k := by
  unfold ofText
  dsimp only
  rw [ofTokens_add]
  rfl

end Parsed

end HostScript
