import HostScript.Proofs.Parsing.Reading

/-!
# What parsers give

`p.Gives s Q`: the parser `p`, started at the cursor `s`, gives a result, and `Q` holds of the result and
of the cursor that it leaves. `s.Before d ks`: in front of the cursor stand tokens of the kinds `ks`, the
place is nested `d` deep, and nothing was found wrong so far. The rules below say how each primitive gets
from one such cursor to the next.
-/

namespace HostScript

namespace Cursor

/-- The kinds of the tokens that are left. -/
def kinds (s : Cursor) : List TokenKind :=
  s.rest.map (·.kind)

structure Before (s : Cursor) (d : Nat) (ks : List TokenKind) : Prop where
  depth : s.depth = d
  kinds : s.kinds = ks
  clean : s.faults = []

variable {s : Cursor} {d : Nat} {k : TokenKind} {ks : List TokenKind}

namespace Before

theorem length (h : s.Before d ks) : s.rest.length = ks.length := by
  rw [← h.kinds, Cursor.kinds, List.length_map]

theorem kind? (h : s.Before d ks) : s.kind? = ks.head? := by
  rw [← h.kinds, Cursor.kinds, List.head?_map]
  rfl

theorem atSymbol_iff (h : s.Before d ks) {y : Symbol} :
    s.atSymbol y = true ↔ ks.head? = some (.symbol y) := by
  rw [← h.kind?]
  refine ⟨kind?_of_atSymbol, fun hk => ?_⟩
  unfold atSymbol
  rw [hk]
  exact beq_self_eq_true y

theorem atKeyword_iff (h : s.Before d ks) {w : Keyword} :
    s.atKeyword w = true ↔ ks.head? = some (.keyword w) := by
  rw [← h.kind?]
  refine ⟨kind?_of_atKeyword, fun hk => ?_⟩
  unfold atKeyword
  rw [hk]
  exact beq_self_eq_true w

theorem atEnd_iff (h : s.Before d ks) : s.atEnd = true ↔ ks = [] := by
  rw [← h.kinds, Cursor.kinds, Cursor.atEnd, List.isEmpty_iff, List.map_eq_nil_iff]

theorem not_atSymbol (h : s.Before d (k :: ks)) {y : Symbol} (hk : k ≠ .symbol y) :
    s.atSymbol y = false :=
  Bool.eq_false_iff.mpr fun hat => hk (Option.some.inj (h.atSymbol_iff.mp hat))

theorem not_atEnd (h : s.Before d (k :: ks)) : s.atEnd = false :=
  Bool.eq_false_iff.mpr fun hat => List.cons_ne_nil k ks (h.atEnd_iff.mp hat)

theorem not_tooManyFaults (h : s.Before d ks) : s.tooManyFaults = false := by
  unfold tooManyFaults
  rw [h.clean]
  rfl

theorem advance (h : s.Before d (k :: ks)) : s.advance.Before d ks := by
  obtain ⟨t, ts, hr, -⟩ := exists_of_kind? h.kind?
  have hkinds := h.kinds
  unfold Cursor.kinds at hkinds
  rw [hr, List.map_cons] at hkinds
  unfold Cursor.advance
  rw [hr]
  exact ⟨h.depth, (List.cons.inj hkinds).2, h.clean⟩

end Before

end Cursor

namespace Parser

variable {α β : Type} {p : Parser α} {f : α → Parser β} {s : Cursor} {Q : α → Cursor → Prop}
  {d : Nat} {ks : List TokenKind}

def Gives (p : Parser α) (s : Cursor) (Q : α → Cursor → Prop) : Prop :=
  ∃ a s', p.run s = (some a, s') ∧ Q a s'

theorem Gives.mono {Q' : α → Cursor → Prop} (h : p.Gives s Q) (hQ : ∀ a s', Q a s' → Q' a s') :
    p.Gives s Q' := by
  obtain ⟨a, s', hrun, hq⟩ := h
  exact ⟨a, s', hrun, hQ a s' hq⟩

theorem Gives.bind {Q' : β → Cursor → Prop} (h : p.Gives s Q)
    (hf : ∀ a s', Q a s' → (f a).Gives s' Q') : (p >>= f).Gives s Q' := by
  obtain ⟨a, s₁, hrun, hq⟩ := h
  obtain ⟨b, s₂, hrun', hq'⟩ := hf a s₁ hq
  refine ⟨b, s₂, ?_, hq'⟩
  rw [run_bind, hrun]
  exact hrun'

theorem Gives.pure {a : α} (h : Q a s) : (Pure.pure a : Parser α).Gives s Q :=
  ⟨a, s, rfl, h⟩

theorem Gives.look_bind {g : Cursor → α} {Q' : β → Cursor → Prop} (h : (f (g s)).Gives s Q') :
    (look g >>= f).Gives s Q' :=
  h

theorem Gives.listUnless_stop {stop : Cursor → Bool} {items : Parser (List α)}
    {Q : List α → Cursor → Prop} (hstop : stop s = true) (h : Q [] s) :
    (listUnless stop items).Gives s Q := by
  refine look_bind ?_
  rw [if_pos hstop]
  exact Gives.pure h

theorem Gives.listUnless_go {stop : Cursor → Bool} {items : Parser (List α)}
    {Q : List α → Cursor → Prop} (hgo : stop s = false) (h : items.Gives s Q) :
    (listUnless stop items).Gives s Q := by
  refine look_bind ?_
  rw [hgo]
  exact h

theorem Gives.attempt (h : p.Gives s Q) :
    (attempt p).Gives s fun r s' => ∃ a, r = some a ∧ Q a s' := by
  obtain ⟨a, s', hrun, hq⟩ := h
  refine ⟨some a, s', ?_, a, rfl, hq⟩
  unfold Parser.attempt
  dsimp only
  rw [hrun]

theorem Gives.recovering (h : p.Gives s Q) : (recovering p).Gives s Q := by
  obtain ⟨a, s', hrun, hq⟩ := h
  refine ⟨a, s', ?_, hq⟩
  unfold Parser.recovering
  dsimp only
  rw [hrun]

/-- One level deeper there has to be room. -/
theorem Gives.nested {q : α → Prop} {ks' : List TokenKind} (hs : s.Before d ks)
    (hd : d < maxNesting)
    (h : ∀ s₁ : Cursor, s₁.Before (d + 1) ks → p.Gives s₁ fun a s' => q a ∧ s'.Before (d + 1) ks') :
    (nested p).Gives s fun a s' => q a ∧ s'.Before d ks' := by
  refine Gives.look_bind ?_
  rw [if_neg (by rw [hs.depth]; omega)]
  obtain ⟨a, s', hrun, hq, hs'⟩ :=
    h { s with depth := s.depth + 1 } ⟨congrArg (· + 1) hs.depth, hs.kinds, hs.clean⟩
  refine ⟨a, { s' with depth := s'.depth - 1 }, ?_, hq, ?_, hs'.kinds, hs'.clean⟩
  · unfold Parser.deeper
    dsimp only
    rw [hrun]
  · rw [hs'.depth, Nat.add_sub_cancel]

/-! ### The primitives -/

theorem gives_take {k : TokenKind} (h : s.Before d (k :: ks)) :
    take.Gives s fun _ s' => s'.Before d ks :=
  ⟨_, _, rfl, h.advance⟩

theorem gives_expect {y : Symbol} (e : Expectation) (h : s.Before d (.symbol y :: ks)) :
    (expect y e).Gives s fun _ s' => s'.Before d ks := by
  refine Gives.look_bind ?_
  rw [if_pos (h.atSymbol_iff.mpr rfl)]
  exact gives_take h

theorem gives_expectName {x : String} (e : Expectation) (h : s.Before d (.name x :: ks)) :
    (expectName e).Gives s fun y s' => y.name = x ∧ s'.Before d ks := by
  refine Gives.look_bind ?_
  rw [h.kind?]
  exact (gives_take h).bind fun _ s' h' => Gives.pure ⟨rfl, h'⟩

theorem gives_eat {y : Symbol} (h : s.Before d (.symbol y :: ks)) :
    (eat y).Gives s fun b s' => b = true ∧ s'.Before d ks := by
  refine Gives.look_bind ?_
  rw [if_pos (h.atSymbol_iff.mpr rfl)]
  exact (gives_take h).bind fun _ s' h' => Gives.pure ⟨rfl, h'⟩

theorem gives_eat_other {y : Symbol} (h : s.Before d ks) (hy : ks.head? ≠ some (.symbol y)) :
    (eat y).Gives s fun b s' => b = false ∧ s' = s := by
  refine Gives.look_bind ?_
  rw [if_neg (mt h.atSymbol_iff.mp hy)]
  exact Gives.pure ⟨rfl, rfl⟩

theorem gives_eatKeyword {w : Keyword} (h : s.Before d (.keyword w :: ks)) :
    (eatKeyword w).Gives s fun b s' => b = true ∧ s'.Before d ks := by
  refine Gives.look_bind ?_
  rw [if_pos (h.atKeyword_iff.mpr rfl)]
  exact (gives_take h).bind fun _ s' h' => Gives.pure ⟨rfl, h'⟩

theorem gives_eatKeyword_other {w : Keyword} (h : s.Before d ks)
    (hw : ks.head? ≠ some (.keyword w)) :
    (eatKeyword w).Gives s fun b s' => b = false ∧ s' = s := by
  refine Gives.look_bind ?_
  rw [if_neg (mt h.atKeyword_iff.mp hw)]
  exact Gives.pure ⟨rfl, rfl⟩

theorem gives_node (sp : Span) (g : Mark → α) (h : s.Before d ks) :
    (node sp g).Gives s fun a s' => (∃ m, a = g m) ∧ s'.Before d ks :=
  ⟨_, _, rfl, ⟨_, rfl⟩, h.depth, h.kinds, h.clean⟩

/-! ### Lists -/

section

variable {item : Parser α} {items : Parser (List α)} {P : α → Prop} {tooMany : Cause} {count : Nat}

/-- The last item, which has no comma behind it. -/
theorem gives_limitedListOf_last (hcount : count < maxArguments)
    (h : item.Gives s fun a s' => P a ∧ s'.Before d ks) (hks : ks.head? ≠ some (.symbol .comma)) :
    (limitedListOf tooMany count item items).Gives s fun as s' =>
      (∃ a, P a ∧ as = [a]) ∧ s'.Before d ks := by
  rw [limitedListOf, if_neg (Nat.not_le.mpr hcount)]
  refine h.bind fun a s₁ ⟨ha, hs₁⟩ => (gives_eat_other hs₁ hks).bind ?_
  rintro _ _ ⟨rfl, rfl⟩
  exact Gives.pure ⟨⟨a, ha, rfl⟩, hs₁⟩

theorem gives_limitedListOf_cons {R : List α → Cursor → Prop} (hcount : count < maxArguments)
    (h : item.Gives s fun a s' => P a ∧ s'.Before d (.symbol .comma :: ks))
    (hmore : ∀ s', s'.Before d ks → items.Gives s' R) :
    (limitedListOf tooMany count item items).Gives s fun as s' =>
      ∃ a as', P a ∧ as = a :: as' ∧ R as' s' := by
  rw [limitedListOf, if_neg (Nat.not_le.mpr hcount)]
  refine h.bind fun a s₁ ⟨ha, hs₁⟩ => (gives_eat hs₁).bind ?_
  rintro _ s₂ ⟨rfl, hs₂⟩
  exact (hmore s₂ hs₂).bind fun as s₃ has => Gives.pure ⟨a, as, ha, rfl, has⟩

end

/-! ### The recursive parsers -/

section

variable (n : Nat)

theorem expression_succ : expression (n + 1) = nested (assignment n) :=
  rfl

theorem assignment_succ : assignment (n + 1) = assignmentOf (infixes n .or) (assignment n) :=
  rfl

theorem infixes_succ (lv : Level) : infixes (n + 1) lv = operand n lv >>= operators n lv :=
  rfl

theorem operand_succ (lv : Level) : operand (n + 1) lv = operandOf lv (infixes n) (unary n) :=
  rfl

theorem operators_succ (lv : Level) (e : Expr) :
    operators (n + 1) lv e = operatorsOf lv e (operand n lv) (operators n lv) :=
  rfl

theorem unary_succ : unary (n + 1) = unaryOf (unary n) (call n) :=
  rfl

theorem call_succ : call (n + 1) = primaryOf (expression n) >>= accesses n :=
  rfl

theorem accesses_succ (e : Expr) : accesses (n + 1) e = accessesOf e (argumentList n 0) (accesses n) :=
  rfl

theorem argumentList_succ (count : Nat) : argumentList (n + 1) count =
    limitedListOf .tooManyArguments count (expression n) (argumentList n (count + 1)) :=
  rfl

theorem parameters_succ (count : Nat) : parameters (n + 1) count =
    limitedListOf .tooManyParameters count (expectName .parameterName) (parameters n (count + 1)) :=
  rfl

theorem declaration_succ : declaration (n + 1) =
    recovering (declarationOf (expression n) (statement n) (callable n .function) (methods n)) :=
  rfl

theorem statement_succ :
    statement (n + 1) = nested (statementOf (expression n) (statement n) (blockItems n)) :=
  rfl

theorem callable_succ (kind : CallableKind) :
    callable (n + 1) kind = callableOf kind (parameters n 0) (blockItems n) :=
  rfl

end

end Parser

end HostScript
