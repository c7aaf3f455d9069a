import HostScript.Proofs.Parsing.Reading

/-!
# What parsers make

A `Standard` asks something of spans, and something of statements by the depth at which they are begun.
It has to be closed under all that parsers do: a span is that of a token or merged from two others, and a
statement is put together from statements that were begun inside it. Then all that parsing makes is up to
the standard, faults included, whether or not the tokens have any.

Nor is a number given to two nodes. `Makes S d g p nodes Q`: if the nodes `g` that were made before have
different numbers, so have the nodes of what `p` gives, and `g` is among these where `p` builds on it. Parsing
never goes back to a smaller number, so a parser that throws away what it made, or makes no node at all, does no
harm. There is a rule for each way to build a parser.
-/

namespace HostScript

/-! ### Numbers -/

/-- Numbers from `a` up to below `b`, none of them twice. -/
structure Numbered (a : Nat) (ids : List Nat) (b : Nat) : Prop where
  le : a ≤ b
  nodup : ids.Nodup
  bounds : ∀ i ∈ ids, a ≤ i ∧ i < b

namespace Numbered

variable {a b d : Nat} {l l' : List Nat}

theorem nil (a : Nat) : Numbered a [] a :=
  ⟨Nat.le_refl a, List.nodup_nil, nofun⟩

theorem append (h : Numbered a l b) (h' : Numbered b l' d) : Numbered a (l ++ l') d := by
  refine ⟨Nat.le_trans h.le h'.le, List.nodup_append.mpr ⟨h.nodup, h'.nodup, ?_⟩, ?_⟩
  · intro i hi j hj heq
    have := h.bounds i hi
    have := h'.bounds j hj
    omega
  · intro i hi
    rcases List.mem_append.mp hi with hi | hi
    · exact ⟨(h.bounds i hi).1, Nat.lt_of_lt_of_le (h.bounds i hi).2 h'.le⟩
    · exact ⟨Nat.le_trans h.le (h'.bounds i hi).1, (h'.bounds i hi).2⟩

theorem singleton (a : Nat) : Numbered a [a] (a + 1) :=
  ⟨Nat.le_succ a, List.pairwise_singleton _ a, by simp⟩

theorem sublist (h : Numbered a l b) (hs : l'.Sublist l) : Numbered a l' b :=
  ⟨h.le, hs.nodup h.nodup, fun i hi => h.bounds i (hs.subset hi)⟩

theorem perm (h : Numbered a l b) (hp : l.Perm l') : Numbered a l' b :=
  ⟨h.le, hp.nodup_iff.mp h.nodup, fun i hi => h.bounds i (hp.mem_iff.mpr hi)⟩

theorem widen {c : Nat} (h : Numbered a l b) (hle : b ≤ c) : Numbered a l c :=
  ⟨Nat.le_trans h.le hle, h.nodup, fun i hi =>
    ⟨(h.bounds i hi).1, Nat.lt_of_lt_of_le (h.bounds i hi).2 hle⟩⟩

end Numbered

/-! ### Standards -/

/-- A statement with no statement inside it. -/
def Stmt.isPlain : Stmt → Bool
  | .var .. | .print .. | .return_ .. | .expr .. => true
  | _ => false

/-- A statement with no statement inside it, in which all spans have a property. -/
structure Stmt.PlainSpans (P : Span → Prop) (s : Stmt) : Prop where
  isPlain : s.isPlain = true
  span : P s.span
  declared : ∀ x init sp, s = .var x init sp → P x.span
  exprs : ∀ e ∈ s.exprs, e.Spans P

/-- The name of a function and its parameters have spans with a property. -/
structure FunctionDecl.Spans (P : Span → Prop) (d : FunctionDecl) : Prop where
  name : P d.name.span
  params : ∀ x ∈ d.params, P x.span

structure Standard where
  span : Span → Prop
  /-- What is asked of a statement that is begun at a depth. -/
  stmt : Nat → Stmt → Prop
  merge : ∀ {a b}, span a → span b → span (a.merge b)
  plain : ∀ {d s}, s.PlainSpans span → stmt d s
  block : ∀ {d body sp}, d < maxNesting → (∀ t ∈ body, stmt (d + 1) t) → stmt d (.block body sp)
  ifElse : ∀ {d cond t f sp}, d < maxNesting → cond.Spans span → stmt (d + 1) t →
    (∀ t' ∈ f, stmt (d + 1) t') → stmt d (.ifElse cond t f sp)
  /-- A `while` is a `for` without the other clauses. -/
  loop : ∀ {d} {init : Option Stmt} {cond} {increment : Option Expr} {body sp}, d < maxNesting →
    (∀ s ∈ init, s.PlainSpans span) → cond.Spans span → (∀ e ∈ increment, e.Spans span) →
    stmt (d + 1) body →
    stmt d (Parser.withInit sp (.while_ cond (Parser.withIncrement sp body increment) sp) init)
  function : ∀ {d decl}, decl.Spans span → (∀ t ∈ decl.body, stmt d t) → stmt d (.function decl)
  class_ : ∀ {d x super ms sp}, span x.span →
    (∀ p ∈ super, span p.mark.span ∧ span p.name.span) → (∀ m ∈ ms, m.Spans span) →
    (∀ m ∈ ms, ∀ t ∈ m.body, stmt d t) → stmt d (.class_ x super ms sp)

variable {S : Standard} {d : Nat}

namespace Standard

/-- All nodes of an expression and all names in it have spans up to the standard. -/
def expr (S : Standard) (e : Expr) : Prop :=
  e.Spans S.span

theorem expr.span {e : Expr} (h : S.expr e) : S.span e.span :=
  (h e e.mem_nodes_self).1

/-- What is asked of a function that is declared at a depth. -/
structure Function (S : Standard) (d : Nat) (decl : FunctionDecl) : Prop where
  spans : decl.Spans S.span
  body : ∀ t ∈ decl.body, S.stmt d t

/-- What the spans at a cursor are like: those of the tokens that are left, of the one taken last and of
the faults found so far. -/
structure Holds (S : Standard) (s : Cursor) : Prop where
  rest : ∀ t ∈ s.rest, S.span t.span
  finish : S.span s.finish
  prev : S.span s.prev
  faults : ∀ f ∈ s.faults, S.span f.span

namespace Holds

variable {s s' : Cursor}

theorem onward (h : S.Holds s) (hs : s.Onward s') (hprev : S.span s'.prev)
    (hfaults : s'.faults = s.faults) : S.Holds s' :=
  ⟨fun t ht => h.rest t (hs.rest.subset ht), hs.finish ▸ h.finish, hprev, hfaults ▸ h.faults⟩

theorem here (h : S.Holds s) : S.span s.here := by
  unfold Cursor.here
  split
  · rename_i t ts heq
    exact h.rest t (heq ▸ List.mem_cons_self)
  · exact h.finish

theorem advance (h : S.Holds s) : S.Holds s.advance := by
  have hhere := h.here
  unfold Cursor.here at hhere
  refine h.onward (.advance s) ?_ ?_
  · unfold Cursor.advance
    split at hhere <;> exact hhere
  · unfold Cursor.advance
    split <;> rfl

theorem report (h : S.Holds s) {f : Fault} (hf : S.span f.span) : S.Holds (s.report f) :=
  ⟨h.rest, h.finish, h.prev, List.forall_mem_append.mpr ⟨h.faults, List.forall_mem_singleton.mpr hf⟩⟩

theorem resume {b : Bool} {prev : Span} {ts : List Token} (hprev : S.span prev)
    (hts : ∀ t ∈ ts, S.span t.span) : S.span (Cursor.resume b prev ts).2 := by
  induction ts generalizing b prev with
  | nil => exact hprev
  | cons t ts ih =>
    rw [Cursor.resume]
    split
    · exact hprev
    · exact ih (hts t List.mem_cons_self) fun u hu => hts u (List.mem_cons_of_mem _ hu)

theorem synchronize (h : S.Holds s) : S.Holds s.synchronize := by
  refine h.onward (.synchronize s) ?_ ?_
  · unfold Cursor.synchronize
    split
    · rename_i t ts heq
      have hrest := h.rest
      rw [heq] at hrest
      exact resume (hrest t List.mem_cons_self) fun u hu => hrest u (List.mem_cons_of_mem _ hu)
    · exact h.finish
  · unfold Cursor.synchronize
    split <;> rfl

end Holds

end Standard

namespace Parser

variable {α β : Type}

/-- At the depth `d`, with spans up to the standard, the parser gives only what satisfies `Q`. -/
def Meets (S : Standard) (d : Nat) (p : Parser α) (Q : α → Prop) : Prop :=
  ∀ s, s.depth = d → S.Holds s → S.Holds (p.run s).2 ∧ ∀ a, (p.run s).1 = some a → Q a

/-! ### Rules -/

namespace Meets

variable {p : Parser α} {F : α → Parser β} {Q : α → Prop} {Q' : β → Prop}

theorem bind (h : Meets S d p Q) (hF : ∀ a, Q a → Meets S d (F a) Q') : Meets S d (p >>= F) Q' := by
  intro s hd hs
  obtain ⟨hs₁, hQ⟩ := h s hd hs
  have hdepth := (p.onward s).depth
  rw [run_bind]
  split
  · rename_i a s₁ hp
    rw [hp] at hs₁ hQ hdepth
    exact hF a (hQ a rfl) s₁ (hdepth.trans hd) hs₁
  · rename_i s₁ hp
    rw [hp] at hs₁
    exact ⟨hs₁, fun _ h => by cases h⟩

theorem pure {a : α} (h : Q a) : Meets S d (Pure.pure a) Q := by
  intro s _ hs
  refine ⟨hs, ?_⟩
  rintro _ ⟨⟩
  exact h

theorem failAt (c : Cause) : Meets S d (failAt c) Q :=
  fun _ _ hs => ⟨hs.report hs.here, nofun⟩

theorem complainOf {f : Fault} (hf : S.span f.span) : Meets S d (complainOf f) fun _ => True :=
  fun _ _ hs => ⟨hs.report hf, fun _ _ => trivial⟩

/-- What is looked up at the cursor. -/
theorem lookAt {f : Cursor → α} (h : ∀ s, S.Holds s → Q (f s)) : Meets S d (look f) Q := by
  intro s _ hs
  refine ⟨hs, ?_⟩
  rintro _ ⟨⟩
  exact h s hs

theorem look (f : Cursor → α) : Meets S d (look f) fun _ => True :=
  lookAt fun _ _ => trivial

theorem complain (c : Cause) : Meets S d (complain c) fun _ => True :=
  Meets.bind (lookAt fun _ hs => hs.here) fun _ hf => complainOf hf

theorem take : Meets S d take S.span := by
  intro s _ hs
  refine ⟨hs.advance, ?_⟩
  rintro _ ⟨⟩
  exact hs.here

theorem eat (y : Symbol) : Meets S d (eat y) fun _ => True := by
  refine (look _).bind fun b _ => ?_
  cases b
  · exact .pure trivial
  · exact take.bind fun _ _ => .pure trivial

theorem eatKeyword (k : Keyword) : Meets S d (eatKeyword k) fun _ => True := by
  refine (look _).bind fun b _ => ?_
  cases b
  · exact .pure trivial
  · exact take.bind fun _ _ => .pure trivial

theorem expect (y : Symbol) (e : Expectation) : Meets S d (expect y e) S.span := by
  refine (look _).bind fun b _ => ?_
  cases b
  · exact .failAt _
  · exact take

theorem expectName (e : Expectation) : Meets S d (expectName e) fun x => S.span x.span := by
  refine (look _).bind fun k _ => ?_
  split
  · exact take.bind fun sp hsp => .pure hsp
  · exact .failAt _

theorem spanFrom {start : Span} (h : S.span start) : Meets S d (spanFrom start) S.span :=
  lookAt fun _ hs => S.merge h hs.prev

end Meets

/-- At the depth `d`, with spans up to the standard and numbers given to the nodes `g`, the parser gives only
what satisfies `Q`, and whose `nodes` have different numbers. -/
def Makes (S : Standard) (d : Nat) (g : List Expr) (p : Parser α) (nodes : α → List Expr)
    (Q : α → Prop) : Prop :=
  ∀ s first, s.depth = d → S.Holds s → Numbered first (g.map (·.id)) s.nextId →
    S.Holds (p.run s).2 ∧ ∀ a, (p.run s).1 = some a →
      Q a ∧ Numbered first ((nodes a).map (·.id)) (p.run s).2.nextId

namespace Makes

variable {p : Parser α} {F : α → Parser β} {Q : α → Prop} {Q' : β → Prop} {g g' : List Expr}
  {nodes : α → List Expr} {nodes' : β → List Expr}

/-- A parser that makes no nodes, or whose nodes are put aside, leaves those of before. -/
theorem of_meets (h : Meets S d p Q) : Makes S d g p (fun _ => g) Q := by
  intro s first hd hs hg
  obtain ⟨hs₁, hQ⟩ := h s hd hs
  exact ⟨hs₁, fun a ha => ⟨hQ a ha, hg.widen (p.onward s).nextId⟩⟩

/-- The nodes made before are handed on to what comes next. -/
theorem andThen (h : Makes S d g p nodes Q) (hF : ∀ a, Q a → Makes S d (nodes a) (F a) nodes' Q') :
    Makes S d g (p >>= F) nodes' Q' := by
  intro s first hd hs hg
  obtain ⟨hs₁, hrest⟩ := h s first hd hs hg
  have hdepth := (p.onward s).depth
  rw [run_bind]
  split
  · rename_i a s₁ hp
    rw [hp] at hs₁ hrest hdepth
    obtain ⟨hQ, hnumbered⟩ := hrest a rfl
    exact hF a hQ s₁ first (hdepth.trans hd) hs₁ hnumbered
  · rename_i s₁ hp
    rw [hp] at hs₁
    exact ⟨hs₁, fun _ h => by cases h⟩

theorem skip (h : Meets S d p Q) (hF : ∀ a, Q a → Makes S d g (F a) nodes' Q') :
    Makes S d g (p >>= F) nodes' Q' :=
  (of_meets h).andThen hF

/-- A part that starts anew gets greater numbers than what was made before. -/
theorem bind (h : Makes S d [] p nodes Q) (hF : ∀ a, Q a → Makes S d (g ++ nodes a) (F a) nodes' Q') :
    Makes S d g (p >>= F) nodes' Q' := by
  have hp : Makes S d g p (fun a => g ++ nodes a) Q := by
    intro s first hd hs hg
    obtain ⟨hs₁, hrest⟩ := h s s.nextId hd hs (.nil _)
    refine ⟨hs₁, fun a ha => ?_⟩
    obtain ⟨hQ, hnumbered⟩ := hrest a ha
    rw [List.map_append]
    exact ⟨hQ, hg.append hnumbered⟩
  exact hp.andThen hF

theorem drop (hsub : g'.Sublist g) (h : Makes S d g' p nodes Q) : Makes S d g p nodes Q :=
  fun s first hd hs hg => h s first hd hs (hg.sublist (hsub.map _))

theorem perm (hperm : g.Perm g') (h : Makes S d g' p nodes Q) : Makes S d g p nodes Q :=
  fun s first hd hs hg => h s first hd hs (hg.perm (hperm.map _))

theorem mono (h : Makes S d g p nodes Q) {Q₁ : α → Prop} (hQ : ∀ a, Q a → Q₁ a) :
    Makes S d g p nodes Q₁ := by
  intro s first hd hs hg
  obtain ⟨hs₁, hrest⟩ := h s first hd hs hg
  exact ⟨hs₁, fun a ha => ⟨hQ a (hrest a ha).1, (hrest a ha).2⟩⟩

theorem pure {a : α} (h : Q a) (hnodes : nodes a = g) : Makes S d g (Pure.pure a) nodes Q := by
  intro s first _ hs hg
  refine ⟨hs, ?_⟩
  rintro _ ⟨⟩
  rw [hnodes]
  exact ⟨h, hg⟩

theorem giveUp : Makes S d g giveUp nodes Q :=
  fun _ _ _ hs _ => ⟨hs, nofun⟩

theorem failAt (c : Cause) : Makes S d g (failAt c) nodes Q :=
  fun _ _ _ hs _ => ⟨hs.report hs.here, nofun⟩

theorem node {sp : Span} {x : Mark → α} (h : ∀ i, Q (x ⟨i, sp⟩))
    (hnodes : ∀ m, (nodes (x m)).map (·.id) = g.map (·.id) ++ [m.id]) :
    Makes S d g (node sp x) nodes Q := by
  intro s first _ hs hg
  refine ⟨⟨hs.rest, hs.finish, hs.prev, hs.faults⟩, ?_⟩
  rintro _ ⟨⟩
  rw [hnodes]
  exact ⟨h s.nextId, hg.append (.singleton s.nextId)⟩

theorem deeper (h : Makes S (d + 1) g p nodes Q) : Makes S d g (deeper p) nodes Q := by
  intro s first hd hs hg
  obtain ⟨hs₁, hrest⟩ := h { s with depth := s.depth + 1 } first (congrArg (· + 1) hd)
    ⟨hs.rest, hs.finish, hs.prev, hs.faults⟩ hg
  exact ⟨⟨hs₁.rest, hs₁.finish, hs₁.prev, hs₁.faults⟩, hrest⟩

theorem nested (h : d < maxNesting → Makes S (d + 1) g p nodes Q) :
    Makes S d g (nested p) nodes Q := by
  intro s first hd hs hg
  by_cases hlt : d < maxNesting
  · have hrun : (Parser.nested p).run s = (Parser.deeper p).run s := by
      change (if maxNesting ≤ s.depth then _ else Parser.deeper p).run s = _
      rw [if_neg (by omega)]
    rw [hrun]
    exact (h hlt).deeper s first hd hs hg
  · have hrun : (Parser.nested p).run s = (Parser.failAt .nestingTooDeep).run s := by
      change (if maxNesting ≤ s.depth then Parser.failAt .nestingTooDeep else _).run s = _
      rw [if_pos (by omega)]
    rw [hrun]
    exact failAt _ s first hd hs hg

theorem attempt (h : Makes S d [] p nodes Q) :
    Makes S d [] (attempt p) (fun r => r.toList.flatMap nodes) fun r => ∀ a ∈ r, Q a := by
  intro s first hd hs hg
  obtain ⟨hs₁, hrest⟩ := h s first hd hs hg
  refine ⟨hs₁, ?_⟩
  rintro _ ⟨⟩
  refine ⟨fun a ha => (hrest a ha).1, ?_⟩
  cases hr : (p.run s).1 with
  | none => exact hg.widen (p.onward s).nextId
  | some a =>
    dsimp only
    rw [Option.toList_some, List.flatMap_singleton]
    exact (hrest a hr).2

theorem recovering (h : Makes S d g p nodes Q) : Makes S d g (recovering p) nodes Q := by
  intro s first hd hs hg
  obtain ⟨hs₁, hrest⟩ := h s first hd hs hg
  unfold Parser.recovering
  dsimp only
  split
  · rename_i a s' hp
    rw [hp] at hs₁ hrest
    exact ⟨hs₁, hrest⟩
  · rename_i s' hp
    rw [hp] at hs₁
    exact ⟨hs₁.synchronize, fun _ h => by cases h⟩

end Makes

end Parser

end HostScript
