import HostScript.Proofs.Layout

/-!
# What parsers read

`p.Reads s Q`: if the parser `p`, started at the cursor `s`, leaves no fault, then it gives a result,
and `Q` holds of the result and of the cursor that it leaves. No parser takes a fault back, so in a run
without faults no part of it has left one, and the rules below follow the run from part to part.

`s.Lays ps s'`: between `s` and `s'` stand tokens that the pieces `ps` are written as. `s.LaysAt ps sp s'`: and
the span `sp` covers these tokens. The span of a new node is that of the first token taken for it, merged with
that of the last one, or with the spans of the nodes that stand first and last in it. So it covers all tokens
that were taken for the node.
-/

namespace HostScript

/-! ### Pieces between two cursors -/

namespace Cursor

def Lays (s : Cursor) (ps : List Piece) (s' : Cursor) : Prop :=
  ∃ ts, s.rest = ts ++ s'.rest ∧ Written (fun e => e.span.CoversOrdered) ps ts

def LaysAt (s : Cursor) (ps : List Piece) (sp : Span) (s' : Cursor) : Prop :=
  ∃ ts, s.rest = ts ++ s'.rest ∧ Written (fun e => e.span.CoversOrdered) ps ts ∧ sp.CoversOrdered ts

variable {s s₁ s₂ s₃ : Cursor} {p : Piece} {ps qs mid : List Piece} {a b : Span} {e : Expr}

theorem exists_of_kind? {k : TokenKind} (h : s.kind? = some k) :
    ∃ t ts, s.rest = t :: ts ∧ t.kind = k := by
  unfold kind? at h
  cases hr : s.rest with
  | nil => rw [hr] at h; cases h
  | cons t ts => rw [hr] at h; cases h; exact ⟨t, ts, rfl, rfl⟩

theorem kind?_of_atSymbol {y : Symbol} (h : s.atSymbol y = true) : s.kind? = some (.symbol y) := by
  unfold atSymbol at h
  split at h
  · rename_i z hz
    rw [hz, eq_of_beq h]
  · cases h

theorem kind?_of_atKeyword {k : Keyword} (h : s.atKeyword k = true) :
    s.kind? = some (.keyword k) := by
  unfold atKeyword at h
  split at h
  · rename_i l hl
    rw [hl, eq_of_beq h]
  · cases h

theorem Lays.refl (s : Cursor) : s.Lays [] s :=
  ⟨[], rfl, .nil⟩

theorem Lays.trans (h : s.Lays ps s₁) (h' : s₁.Lays qs s₂) : s.Lays (ps ++ qs) s₂ := by
  obtain ⟨ts, hrest, hwritten⟩ := h
  obtain ⟨us, hrest', hwritten'⟩ := h'
  exact ⟨ts ++ us, by rw [hrest, hrest', List.append_assoc], hwritten.append hwritten'⟩

theorem Lays.le (h : s.Lays ps s₁) : s₁.rest.length ≤ s.rest.length := by
  obtain ⟨ts, hrest, -⟩ := h
  rw [hrest, List.length_append]
  exact Nat.le_add_left _ _

theorem Lays.lt (h : s.Lays (p :: ps) s₁) : s₁.rest.length < s.rest.length := by
  obtain ⟨ts, hrest, hwritten⟩ := h
  have hpos := List.length_pos_iff.mpr (hwritten.ne_nil (List.cons_ne_nil p ps))
  rw [hrest, List.length_append]
  omega

/-- One piece more in front of others, with commas between them. -/
theorem Lays.separated (h : s.Lays [p] s₁) (hcomma : s₁.Lays [.symbol .comma] s₂)
    (hps : ps ≠ []) (h' : s₂.Lays (Piece.separated ps) s₃) : s.Lays (Piece.separated (p :: ps)) s₃ := by
  obtain ⟨q, ps, rfl⟩ := List.exists_cons_of_ne_nil hps
  exact h.trans (hcomma.trans h')

theorem Lays.stmt {d : Stmt} (h : s.Lays d.pieces s₁) : s.Lays [.stmt d] s₁ := by
  obtain ⟨ts, hrest, hwritten⟩ := h
  exact ⟨ts, hrest, .of_stmt hwritten⟩

theorem Lays.loop {m : Mark} {sp : Span} {init : Option Stmt} {cond increment : Option Expr}
    {body : Stmt} (h : s.Lays (Piece.loop init cond increment body) s₁) :
    s.Lays [.stmt (.loop m sp init cond increment body)] s₁ := by
  obtain ⟨ts, hrest, hwritten⟩ := h
  exact ⟨ts, hrest, .of_loop hwritten⟩

namespace LaysAt

theorem lays (h : s.LaysAt ps a s₁) : s.Lays ps s₁ := by
  obtain ⟨ts, hrest, hwritten, -⟩ := h
  exact ⟨ts, hrest, hwritten⟩

theorem lt (h : s.LaysAt (p :: ps) a s₁) : s₁.rest.length < s.rest.length :=
  h.lays.lt

/-- A merged span covers all that is between. -/
theorem join (h : s.LaysAt ps a s₁) (hmid : s₁.Lays mid s₂) (h' : s₂.LaysAt qs b s₃) :
    s.LaysAt (ps ++ (mid ++ qs)) (a.merge b) s₃ := by
  obtain ⟨ts, hrest, hwritten, hcovers⟩ := h
  obtain ⟨ms, hrestMid, hwrittenMid⟩ := hmid
  obtain ⟨us, hrest', hwritten', hcovers'⟩ := h'
  refine ⟨ts ++ (ms ++ us), ?_, hwritten.append (hwrittenMid.append hwritten'), fun hordered => ?_⟩
  · rw [hrest, hrestMid, hrest', List.append_assoc, List.append_assoc]
  · obtain ⟨hts, hrest, -⟩ := List.pairwise_append.mp hordered
    exact (hcovers hts).merge (hcovers' (List.pairwise_append.mp hrest).2.1) hordered

/-- An expression stands where it is written, if it has the span of its tokens. -/
theorem expr_iff : s.LaysAt [.expr e] e.span s₁ ↔ s.LaysAt e.pieces e.span s₁ := by
  constructor
  · rintro ⟨ts, hrest, hwritten, hcovers⟩
    exact ⟨ts, hrest, (Written.expr_iff.mp hwritten).1, hcovers⟩
  · rintro ⟨ts, hrest, hwritten, hcovers⟩
    exact ⟨ts, hrest, Written.expr_iff.mpr ⟨hwritten, hcovers⟩, hcovers⟩

theorem advance {k : TokenKind} (h : s.kind? = some k) : s.LaysAt [.token k] s.here s.advance := by
  obtain ⟨t, ts, hrest, hk⟩ := exists_of_kind? h
  unfold Cursor.advance Cursor.here
  rw [hrest]
  exact ⟨[t], hrest, .token hk .nil, fun _ => Span.covers_singleton t⟩

theorem advance_name {x : String} (h : s.kind? = some (.name x)) :
    s.LaysAt [.name ⟨x, s.here⟩] s.here s.advance := by
  obtain ⟨t, ts, hrest, hk⟩ := exists_of_kind? h
  unfold Cursor.advance Cursor.here
  rw [hrest]
  exact ⟨[t], hrest, .name hk rfl .nil, fun _ => Span.covers_singleton t⟩

end LaysAt

end Cursor

/-! ### Runs without faults -/

namespace Parser

variable {α β : Type} {p : Parser α} {f : α → Parser β} {s : Cursor} {Q : α → Cursor → Prop}

def Reads (p : Parser α) (s : Cursor) (Q : α → Cursor → Prop) : Prop :=
  (p.run s).2.faults = [] → ∃ a, (p.run s).1 = some a ∧ Q a (p.run s).2

theorem Reads.mono {Q' : α → Cursor → Prop} (h : p.Reads s Q) (hQ : ∀ a s', Q a s' → Q' a s') :
    p.Reads s Q' := by
  intro hc
  obtain ⟨a, ha, hq⟩ := h hc
  exact ⟨a, ha, hQ a _ hq⟩

theorem run_bind (p : Parser α) (f : α → Parser β) (s : Cursor) :
    (p >>= f).run s = match p.run s with
      | (some a, s) => (f a).run s
      | (none, s) => (none, s) := rfl

/-- The first part has left no fault, since the second takes none back. -/
theorem Reads.bind {Q' : β → Cursor → Prop} (h : p.Reads s Q)
    (hf : ∀ a s', Q a s' → (f a).Reads s' Q') : (p >>= f).Reads s Q' := by
  intro hc
  rw [run_bind] at hc ⊢
  cases hp : p.run s with
  | mk r s₁ =>
    rw [hp] at hc
    unfold Reads at h
    rw [hp] at h
    cases r with
    | none =>
      obtain ⟨a, ha, -⟩ := h hc
      cases ha
    | some a =>
      have hclean : s₁.faults = [] := List.prefix_nil.mp (hc ▸ ((f a).onward s₁).faults)
      obtain ⟨a', ha', hq⟩ := h hclean
      cases ha'
      exact hf a s₁ hq hc

theorem Reads.pure {a : α} (h : Q a s) : (Pure.pure a : Parser α).Reads s Q :=
  fun _ => ⟨a, rfl, h⟩

theorem Reads.look_bind {g : Cursor → α} {Q' : β → Cursor → Prop} (h : (f (g s)).Reads s Q') :
    (look g >>= f).Reads s Q' :=
  h

theorem Reads.failAt {c : Cause} : (failAt c : Parser α).Reads s Q := by
  intro hc
  cases List.append_eq_nil_iff.mp hc |>.2

/-- A complaint is a fault, whatever comes behind it. -/
theorem Reads.complainOf_bind {x : Fault} {g : Unit → Parser β} {Q' : β → Cursor → Prop} :
    (complainOf x >>= g).Reads s Q' := by
  intro hc
  have hprefix : (s.report x).faults <+: [] := hc ▸ ((g ()).onward (s.report x)).faults
  cases List.append_eq_nil_iff.mp (List.prefix_nil.mp hprefix) |>.2

theorem Reads.complain_bind {c : Cause} {g : Unit → Parser β} {Q' : β → Cursor → Prop} :
    (complain c >>= g).Reads s Q' :=
  Reads.complainOf_bind (x := ⟨c, s.here, s.near⟩)

theorem Reads.deeper (h : p.Reads { s with depth := s.depth + 1 }
    fun a s' => Q a { s' with depth := s'.depth - 1 }) : (deeper p).Reads s Q :=
  h

theorem Reads.nested (h : p.Reads { s with depth := s.depth + 1 }
    fun a s' => Q a { s' with depth := s'.depth - 1 }) : (nested p).Reads s Q := by
  refine Reads.look_bind ?_
  split
  · exact Reads.failAt
  · exact Reads.deeper h

theorem Reads.recovering (h : p.Reads s Q) : (recovering p).Reads s Q := by
  intro hc
  unfold Reads at h
  unfold Parser.recovering at hc ⊢
  dsimp only at hc ⊢
  cases hp : p.run s with
  | mk r s₁ =>
    rw [hp] at h hc
    cases r with
    | some a => exact h hc
    | none =>
      have hsync : s₁.synchronize.faults = s₁.faults := by
        unfold Cursor.synchronize
        split <;> rfl
      obtain ⟨a, ha, -⟩ := h (hsync ▸ hc)
      cases ha

theorem Reads.attempt (h : p.Reads s Q) :
    (attempt p).Reads s fun r s' => ∃ a, r = some a ∧ Q a s' :=
  fun hc => ⟨_, rfl, h hc⟩

/-! ### The primitives -/

theorem reads_take {k : TokenKind} (h : s.kind? = some k) :
    take.Reads s fun sp s' => s.LaysAt [.token k] sp s' :=
  fun _ => ⟨_, rfl, .advance h⟩

theorem reads_expect (y : Symbol) (e : Expectation) (s : Cursor) :
    (expect y e).Reads s fun sp s' => s.LaysAt [.symbol y] sp s' := by
  refine Reads.look_bind ?_
  split
  · exact reads_take (Cursor.kind?_of_atSymbol ‹_›)
  · exact Reads.failAt

theorem reads_expectName (e : Expectation) (s : Cursor) :
    (expectName e).Reads s fun x s' => s.LaysAt [.name x] x.span s' := by
  refine Reads.look_bind ?_
  split
  · exact fun _ => ⟨_, rfl, .advance_name ‹_›⟩
  · exact Reads.failAt

theorem reads_eat (y : Symbol) (s : Cursor) :
    (eat y).Reads s fun b s' => (b = true ∧ s.Lays [.symbol y] s') ∨ (b = false ∧ s' = s) := by
  refine Reads.look_bind ?_
  split
  · refine (reads_take (Cursor.kind?_of_atSymbol ‹_›)).bind fun _ s' h => Reads.pure ?_
    exact .inl ⟨rfl, h.lays⟩
  · exact Reads.pure (.inr ⟨rfl, rfl⟩)

theorem reads_eatKeyword (k : Keyword) (s : Cursor) :
    (eatKeyword k).Reads s fun b s' => (b = true ∧ s.Lays [.keyword k] s') ∨ (b = false ∧ s' = s) := by
  refine Reads.look_bind ?_
  split
  · refine (reads_take (Cursor.kind?_of_atKeyword ‹_›)).bind fun _ s' h => Reads.pure ?_
    exact .inl ⟨rfl, h.lays⟩
  · exact Reads.pure (.inr ⟨rfl, rfl⟩)

/-- A node takes a number, and no token. -/
theorem reads_node (sp : Span) (x : Mark → α) (s : Cursor) :
    (node sp x).Reads s fun a s' => (∃ i, a = x ⟨i, sp⟩) ∧ s'.rest = s.rest :=
  fun _ => ⟨_, rfl, ⟨s.nextId, rfl⟩, rfl⟩

end Parser

end HostScript
