import HostScript.Proofs.Lexing.Segments
import HostScript.Proofs.Parsing.Trees

/-!
# Lines of a tree

Scanning goes on to the next line at each line feed, so what it finds starts in one of the lines of the text.
A span that is merged from two others starts where one of them starts. So the nodes of a tree start in lines
of the text that it was parsed from, whether or not the text has faults.
-/

namespace HostScript

/-! ### Lines of a text -/

/-- The span starts in a line of the text. -/
def Span.StartsIn (cs : List Char) (sp : Span) : Prop :=
  1 ≤ sp.line ∧ sp.line ≤ (Text.segments cs).length

/-- The position behind the beginning of a text is in one of its lines. -/
theorem Position.advance_startsIn (before rest : List Char) {sp : Span}
    (h : sp.line = (start.advance before).line) : sp.StartsIn (before ++ rest) := by
  have hfirst : start.line = 1 := rfl
  have hline := line_advance start before
  have hcount : (before ++ rest).count '\n' = before.count '\n' + rest.count '\n' :=
    List.count_append
  unfold Span.StartsIn
  rw [Text.length_segments]
  omega

/-- Lexemes, and the end of what is scanned, are in lines of the text. -/
theorem Lexer.Scanned.startsIn {room : Nat} {before cs : List Char} {ls : List Placed} {q : Position}
    (h : Scanned room before cs ls q) :
    (∀ l ∈ ls, l.span.StartsIn (before ++ cs)) ∧ (Span.point q.line q.col).StartsIn (before ++ cs) := by
  induction h with
  | @full before cs => exact ⟨nofun, Position.advance_startsIn before cs rfl⟩
  | @finished room before g hgap =>
    refine ⟨nofun, ?_⟩
    rw [← List.append_nil (before ++ g)]
    exact Position.advance_startsIn (before ++ g) [] (by simp [Span.point, Span.line])
  | @lexeme room before g rest c ls q hgap h ih =>
    have hpieces : before ++ g ++ (next c rest).1.text ++ (next c rest).2 =
        before ++ (g ++ c :: rest) := by
      rw [List.append_assoc _ _ (next c rest).2, next_text_append, List.append_assoc]
    rw [hpieces] at ih
    refine ⟨List.forall_mem_cons.mpr ⟨?_, ih.1⟩, ih.2⟩
    rw [← List.append_assoc]
    exact Position.advance_startsIn (before ++ g) (c :: rest) rfl

theorem Lexed.startsIn (text : String) :
    (∀ t ∈ (ofText text).tokens, t.span.StartsIn text.toList) ∧
      (ofText text).finish.StartsIn text.toList := by
  obtain ⟨hlexemes, hend⟩ := (scanned text).startsIn
  refine ⟨fun t ht => ?_, hend⟩
  obtain ⟨l, hl, htoken⟩ := List.mem_filterMap.mp ht
  have hspan : t.span = l.span := by
    unfold Lexer.Placed.token? at htoken
    split at htoken <;> cases htoken
    rfl
  rw [hspan]
  exact hlexemes l hl

/-! ### Lines of nodes -/

theorem Span.line_merge (a b : Span) : (a.merge b).line = a.line ∨ (a.merge b).line = b.line := by
  unfold merge line
  dsimp only
  split
  · exact .inl rfl
  · exact .inr rfl

theorem Span.StartsIn.merge {cs : List Char} {a b : Span} (ha : a.StartsIn cs) (hb : b.StartsIn cs) :
    (a.merge b).StartsIn cs := by
  unfold StartsIn at ha hb ⊢
  rcases line_merge a b with h | h <;> rwa [h]

theorem Stmt.nodes_of_isPlain {s : Stmt} (h : s.isPlain = true) {n : Expr} (hn : n ∈ s.nodes) :
    ∃ e ∈ s.exprs, n ∈ e.nodes := by
  cases s with
  | var x init sp | return_ init sp =>
    cases init with
    | none => simp [Stmt.nodes, Expr.optionNodes] at hn
    | some e => exact ⟨e, List.mem_cons_self, by simpa [Stmt.nodes, Expr.optionNodes] using hn⟩
  | print e sp | expr e sp => exact ⟨e, List.mem_cons_self, by simpa [Stmt.nodes] using hn⟩
  | _ => cases h

/-- All nodes of statements have spans with a property that merged spans have. -/
def Standard.nodes (P : Span → Prop) (hmerge : ∀ {a b}, P a → P b → P (a.merge b)) : Standard where
  span := P
  stmt _ s := ∀ n ∈ s.nodes, P n.span
  merge := hmerge
  plain h n hn := by
    obtain ⟨e, hmem, hn⟩ := Stmt.nodes_of_isPlain h.isPlain hn
    exact (h.exprs e hmem n hn).1
  block _ h n hn := by
    rw [Stmt.nodes] at hn
    obtain ⟨t, ht, hn⟩ := Stmt.mem_listNodes.mp hn
    exact h t ht n hn
  ifElse {d cond t f sp} _ hcond ht hf n hn := by
    cases f with
    | none =>
      rw [Stmt.nodes] at hn
      exact (List.mem_append.mp hn).elim (fun hn => (hcond n hn).1) (ht n)
    | some f =>
      rw [Stmt.nodes, List.mem_append, List.mem_append] at hn
      rcases hn with (hn | hn) | hn
      · exact (hcond n hn).1
      · exact ht n hn
      · exact hf f rfl n hn
  loop {d init cond increment body sp} _ hinit hcond hincrement hbody n hn := by
    have hround : ∀ n ∈ (Parser.withIncrement sp body increment).nodes, P n.span := by
      intro n hn
      cases increment with
      | none => exact hbody n hn
      | some e =>
        simp only [Parser.withIncrement, Stmt.nodes, Stmt.listNodes, List.append_nil,
          List.mem_append] at hn
        exact hn.elim (hbody n) fun hn => (hincrement e rfl n hn).1
    have hloop : ∀ n ∈ (Stmt.while_ cond (Parser.withIncrement sp body increment) sp).nodes,
        P n.span := by
      intro n hn
      rw [Stmt.nodes] at hn
      exact (List.mem_append.mp hn).elim (fun hn => (hcond n hn).1) (hround n)
    cases init with
    | none => exact hloop n hn
    | some s =>
      rw [Parser.withInit, Stmt.nodes, Stmt.mem_listNodes] at hn
      obtain ⟨t, ht, hn⟩ := hn
      rcases List.mem_cons.mp ht with rfl | ht
      · have hplain := hinit t rfl
        obtain ⟨e, hmem, hn⟩ := Stmt.nodes_of_isPlain hplain.isPlain hn
        exact (hplain.exprs e hmem n hn).1
      · cases List.mem_singleton.mp ht
        exact hloop n hn
  function _ h n hn := by
    rw [Stmt.nodes, FunctionDecl.nodes_eq] at hn
    obtain ⟨t, ht, hn⟩ := Stmt.mem_listNodes.mp hn
    exact h t ht n hn
  class_ {d x super ms sp} _ hsuper _ h n hn := by
    rw [Stmt.nodes] at hn
    rcases List.mem_append.mp hn with hn | hn
    · cases super with
      | none => cases hn
      | some p =>
        cases List.mem_singleton.mp hn
        exact (hsuper p rfl).1
    · obtain ⟨d, hd, t, ht, hn⟩ := FunctionDecl.mem_listNodes.mp hn
      exact h d hd t ht n hn

theorem Parsed.nodes_startsIn (text : String) (firstId : Nat) :
    ∀ n ∈ Stmt.listNodes (ofText text firstId).program.stmts, n.span.StartsIn text.toList := by
  let lines := Standard.nodes (Span.StartsIn text.toList) .merge
  have hstart : (Span.point 1 1).StartsIn text.toList :=
    Position.advance_startsIn [] text.toList rfl
  obtain ⟨htokens, hfinish⟩ := Lexed.startsIn text
  intro n hn
  obtain ⟨t, ht, hn⟩ := Stmt.mem_listNodes.mp hn
  exact meets_ofTokens lines firstId htokens hfinish hstart t ht n hn

end HostScript
