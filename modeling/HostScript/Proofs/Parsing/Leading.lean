import HostScript.Proofs.Parsing.Reading

/-!
# The first token

Most parsers begin with a token: before anything else they take one, or give up. `p.Leads s`: so does `p`,
started at the cursor `s`. Then fewer tokens are left where it gives something, and what it does is the same
whatever token was taken before, since the span of that one is never looked at. A declaration leads, and where
it gives up some tokens are passed over, so it takes one in any case.
-/

namespace HostScript

/-- The same place, behind another token. -/
def Cursor.after (sp : Span) (s : Cursor) : Cursor :=
  { s with prev := sp }

theorem Cursor.advance_after (sp : Span) (s : Cursor) : (s.after sp).advance = s.advance := by
  obtain ⟨rest, finish, prev, nextId, depth, faults⟩ := s
  cases rest <;> rfl

theorem Cursor.synchronize_after (sp : Span) (s : Cursor) :
    (s.after sp).synchronize = s.synchronize := by
  obtain ⟨rest, finish, prev, nextId, depth, faults⟩ := s
  cases rest <;> rfl

/-- After a fault parsing resumes behind a token, if there is one. -/
theorem Cursor.synchronize_lt {s : Cursor} (h : s.rest ≠ []) :
    s.synchronize.rest.length < s.rest.length := by
  unfold synchronize
  split
  · rename_i t ts hrest
    rw [hrest]
    exact Nat.lt_succ_of_le (Onward.suffix_resume _ _ ts).length_le
  · contradiction

namespace Parser

variable {α β : Type} {p : Parser α} {f : α → Parser β} {s : Cursor}

theorem rest_le (p : Parser α) (s : Cursor) : (p.run s).2.rest.length ≤ s.rest.length :=
  (p.onward s).rest.length_le

structure Leads (p : Parser α) (s : Cursor) : Prop where
  takes : ∀ a, (p.run s).1 = some a → (p.run s).2.rest.length < s.rest.length
  renews : ∀ sp, p.run (s.after sp) = p.run s ∨
    (p.run s).1 = none ∧ ∃ sp', p.run (s.after sp) = (none, (p.run s).2.after sp')

/-! ### Rules -/

namespace Leads

theorem take {k : TokenKind} (h : s.kind? = some k) : take.Leads s where
  takes a _ := by
    obtain ⟨t, ts, hrest, -⟩ := Cursor.exists_of_kind? h
    change s.advance.rest.length < _
    unfold Cursor.advance
    rw [hrest]
    exact Nat.lt_succ_self _
  renews sp := by
    have hrun : Parser.take.run (s.after sp) = (some s.here, (s.after sp).advance) := rfl
    rw [hrun, s.advance_after]
    exact .inl rfl

theorem giveUp : (giveUp : Parser α).Leads s :=
  ⟨nofun, fun sp => .inr ⟨rfl, sp, rfl⟩⟩

theorem failAt (c : Cause) : (failAt c : Parser α).Leads s :=
  ⟨nofun, fun sp => .inr ⟨rfl, sp, rfl⟩⟩

/-- It is enough that the first part leads. -/
theorem bind (h : p.Leads s) : (p >>= f).Leads s where
  takes b hb := by
    rw [run_bind] at hb ⊢
    cases hp : p.run s with
    | mk r s₁ =>
      rw [hp] at hb
      cases r with
      | none => cases hb
      | some a =>
        have hlt := h.takes a (congrArg Prod.fst hp)
        rw [hp] at hlt
        exact Nat.lt_of_le_of_lt ((f a).rest_le s₁) hlt
  renews sp := by
    rw [run_bind, run_bind]
    rcases h.renews sp with heq | ⟨hnone, sp', hrun⟩
    · rw [heq]
      exact .inl rfl
    · rw [hrun]
      cases hp : p.run s with
      | mk r s₁ =>
        rw [hp] at hnone
        obtain rfl : r = none := hnone
        exact .inr ⟨rfl, sp', rfl⟩

/-- What is looked up at the cursor has to be the same behind another token. -/
theorem look_bind {h : Cursor → α} (hh : ∀ sp, h (s.after sp) = h s) (hf : (f (h s)).Leads s) :
    (look h >>= f).Leads s where
  takes := hf.takes
  renews sp := by
    have hrun : (look h >>= f).run (s.after sp) = (f (h s)).run (s.after sp) := by
      change (f (h (s.after sp))).run _ = _
      rw [hh]
    rw [hrun]
    exact hf.renews sp

theorem deeper (h : p.Leads { s with depth := s.depth + 1 }) : (deeper p).Leads s where
  takes := h.takes
  renews sp := by
    unfold Parser.deeper
    rcases h.renews sp with heq | ⟨hnone, sp', hrun⟩
    · refine .inl ?_
      dsimp only [Cursor.after] at heq ⊢
      rw [heq]
    · refine .inr ⟨hnone, sp', ?_⟩
      dsimp only [Cursor.after] at hrun ⊢
      rw [hrun]

theorem nested (h : p.Leads { s with depth := s.depth + 1 }) : (nested p).Leads s := by
  refine look_bind (fun _ => rfl) ?_
  split
  · exact failAt _
  · exact h.deeper

theorem expect (y : Symbol) (e : Expectation) (s : Cursor) : (expect y e).Leads s := by
  refine look_bind (fun _ => rfl) ?_
  split
  · exact take (Cursor.kind?_of_atSymbol ‹_›)
  · exact failAt _

theorem expectName (e : Expectation) (s : Cursor) : (expectName e).Leads s := by
  refine look_bind (fun _ => rfl) ?_
  split
  · exact (take ‹_›).bind
  · exact failAt _

/-- Where the parser gives up, some tokens are passed over. -/
theorem recovering_lt (h : p.Leads s) (hrest : s.rest ≠ []) :
    ((recovering p).run s).2.rest.length < s.rest.length := by
  have hle := p.rest_le s
  unfold recovering
  dsimp only
  split
  · rename_i a s₁ hp
    have hlt := h.takes a (congrArg Prod.fst hp)
    rwa [hp] at hlt
  · rename_i s₁ hp
    rw [hp] at hle
    by_cases hend : s₁.rest = []
    · have hsync := (Cursor.Onward.synchronize s₁).rest.length_le
      rw [hend] at hsync
      exact Nat.lt_of_le_of_lt hsync (List.length_pos_iff.mpr hrest)
    · exact Nat.lt_of_lt_of_le (Cursor.synchronize_lt hend) hle

theorem run_recovering (h : p.Leads s) (sp : Span) :
    (recovering p).run (s.after sp) = (recovering p).run s := by
  unfold recovering
  dsimp only
  rcases h.renews sp with heq | ⟨hnone, sp', hrun⟩
  · rw [heq]
  · rw [hrun]
    cases hp : p.run s with
    | mk r s₁ =>
      rw [hp] at hnone
      obtain rfl : r = none := hnone
      dsimp only
      rw [s₁.synchronize_after]

end Leads

/-! ### Expressions -/

theorem leads_primaryOf (inner : Parser Expr) (s : Cursor) : (primaryOf inner).Leads s := by
  refine .look_bind (fun _ => rfl) ?_
  split
  · exact (Leads.take ‹_›).bind
  · exact (Leads.take ‹_›).bind
  · exact (Leads.take ‹_›).bind
  · exact (Leads.take ‹_›).bind
  · split
    · rename_i v hv
      obtain ⟨k, hk, -⟩ := Option.bind_eq_some_iff.mp hv
      exact (Leads.take hk).bind
    · exact .failAt _

theorem leads_unaryOf {operand call : Parser Expr} (h : call.Leads s) : (unaryOf operand call).Leads s := by
  refine .look_bind (fun _ => rfl) ?_
  split
  · exact h
  · rename_i op hop
    obtain ⟨k, hk, -⟩ := Option.bind_eq_some_iff.mp hop
    exact (Leads.take hk).bind

theorem leads_operandOf (lv : Level) {infixes : Level → Parser Expr} {unary : Parser Expr}
    (hi : ∀ lv, (infixes lv).Leads s) (hu : unary.Leads s) : (operandOf lv infixes unary).Leads s := by
  unfold operandOf
  split
  · exact hi _
  · exact hu

/-- The parsers of expressions lead, but for those that go on behind one. -/
structure ExpressionsLead (n : Nat) : Prop where
  expression : ∀ s, (expression n).Leads s
  assignment : ∀ s, (assignment n).Leads s
  infixes : ∀ lv s, (infixes n lv).Leads s
  operand : ∀ lv s, (operand n lv).Leads s
  unary : ∀ s, (unary n).Leads s
  call : ∀ s, (call n).Leads s

namespace ExpressionsLead

variable {n : Nat}

theorem zero : ExpressionsLead 0 := by
  constructor <;> intros <;> exact Leads.giveUp

theorem succ (ih : ExpressionsLead n) : ExpressionsLead (n + 1) where
  expression _ := Leads.nested (ih.assignment _)
  assignment s := (ih.infixes .or s).bind
  infixes lv s := (ih.operand lv s).bind
  operand lv s := leads_operandOf lv (fun lv => ih.infixes lv s) (ih.unary s)
  unary s := leads_unaryOf (ih.call s)
  call s := (leads_primaryOf _ s).bind

end ExpressionsLead

theorem expressionsLead (n : Nat) : ExpressionsLead n := by
  induction n with
  | zero => exact .zero
  | succ n ih => exact ih.succ

/-! ### Statements -/

theorem leads_blockOf (items : Parser (List Stmt)) (s : Cursor) : (blockOf items).Leads s :=
  .look_bind (fun _ => rfl) (Leads.expect _ _ s).bind

theorem leads_callableOf (kind : CallableKind) (params : Parser (List Ident))
    (items : Parser (List Stmt)) (s : Cursor) : (callableOf kind params items).Leads s :=
  (Leads.expectName _ s).bind

theorem leads_statementOf {expr : Parser Expr} {stmt : Parser Stmt} {items : Parser (List Stmt)}
    (h : expr.Leads s) : (statementOf expr stmt items).Leads s := by
  refine .look_bind (fun _ => rfl) ?_
  split
  · exact (Leads.take ‹_›).bind
  · exact (Leads.take ‹_›).bind
  · exact (Leads.take ‹_›).bind
  · exact (Leads.take ‹_›).bind
  · exact (Leads.take ‹_›).bind
  · exact (leads_blockOf items s).bind
  · exact h.bind

theorem leads_declarationOf {expr : Parser Expr} {stmt : Parser Stmt} {function : Parser FunctionDecl}
    {methods : Parser (List FunctionDecl)} (h : stmt.Leads s) :
    (declarationOf expr stmt function methods).Leads s := by
  refine .look_bind (fun _ => rfl) ?_
  split
  · exact (Leads.take ‹_›).bind
  · exact (Leads.take ‹_›).bind
  · exact (Leads.take ‹_›).bind
  · exact h

theorem leads_statement (n : Nat) (s : Cursor) : (statement n).Leads s := by
  cases n with
  | zero => exact .giveUp
  | succ n => exact Leads.nested (leads_statementOf ((expressionsLead n).expression _))

theorem leads_callable (n : Nat) (kind : CallableKind) (s : Cursor) : (callable n kind).Leads s := by
  cases n with
  | zero => exact .giveUp
  | succ n => exact leads_callableOf kind _ _ s

/-- A declaration takes a token, whether it has a fault or not. -/
theorem declaration_lt (n : Nat) (h : s.rest ≠ []) :
    ((declaration (n + 1)).run s).2.rest.length < s.rest.length :=
  Leads.recovering_lt (leads_declarationOf (leads_statement n s)) h

/-- A declaration is the same behind whatever token it stands. -/
theorem run_declaration_after (n : Nat) (s : Cursor) (sp : Span) :
    (declaration (n + 1)).run (s.after sp) = (declaration (n + 1)).run s :=
  Leads.run_recovering (leads_declarationOf (leads_statement n s)) sp

end Parser

end HostScript
