import HostScript.Proofs.Parsing.Statements
import HostScript.Proofs.Parsing.Trees

/-!
# Soundness of the parser

A token list that parses without a fault is what its program is written as, and the program is one of
the grammar. No number is given to two nodes, and the names that the program binds are among the tokens.
-/

namespace HostScript.Parsed

variable {tokens : List Token} {finish : Span} {firstId : Nat}

/-- What it is to be parsed from tokens without a fault. -/
structure Faithful (p : Parsed) (tokens : List Token) (firstId : Nat) : Prop where
  conforms : p.program.Conforms
  kinds : .keyword .for_ ∉ tokens.map (·.kind) → p.program.kinds = tokens.map (·.kind)
  numbered : Numbered firstId ((Stmt.listNodes p.program.stmts).map (·.id)) p.nextId
  names : ∀ x ∈ Stmt.listNames p.program.stmts, .name x ∈ tokens.map (·.kind)

/-- The end was reached, so the tokens taken are all there are. -/
theorem written_and_conforms (h : (ofTokens tokens finish firstId).faults = []) :
    Written (fun e => e.span.CoversOrdered) ((ofTokens tokens finish firstId).program.stmts.map .stmt)
      tokens ∧ (ofTokens tokens finish firstId).program.Conforms := by
  have hfuel : 16 * tokens.length + 19 ≤ fuelFor tokens.length := by
    unfold fuelFor
    omega
  obtain ⟨ds, hds, hend, hitems⟩ :=
    Parser.reads_topLevel _ (Cursor.ofTokens tokens finish firstId) hfuel h
  obtain ⟨ts, hrest, hwritten⟩ := hitems.lays
  have hstmts : (ofTokens tokens finish firstId).program.stmts = ds := by
    unfold ofTokens
    dsimp only
    rw [hds]
    rfl
  rw [hend, List.append_nil] at hrest
  have htokens : tokens = ts := hrest
  unfold Program.Conforms
  rw [hstmts, htokens]
  exact ⟨hwritten, hitems.conforms⟩

theorem faithful_ofTokens (h : (ofTokens tokens finish firstId).faults = []) :
    (ofTokens tokens finish firstId).Faithful tokens firstId := by
  obtain ⟨hwritten, hconforms⟩ := written_and_conforms h
  refine ⟨hconforms, fun hfor => ?_, numbered_ofTokens tokens finish firstId, fun x hx => ?_⟩
  · rw [hwritten.kinds hfor, Piece.kinds_stmts]
    rfl
  · obtain ⟨t, ht, hx⟩ := Stmt.mem_listNames.mp hx
    exact hwritten.name_mem (List.mem_map_of_mem ht) hx

/-- A token list without `for` that parses without a fault is, token for token, what the program is
written as, and the program is one of the grammar. -/
theorem kinds_eq_and_conforms (tokens : List Token) (finish : Span) (firstId : Nat)
    (hfor : ∀ t ∈ tokens, t.kind ≠ .keyword .for_)
    (hclean : (ofTokens tokens finish firstId).faults = []) :
    (ofTokens tokens finish firstId).program.kinds = tokens.map (·.kind) ∧
      (ofTokens tokens finish firstId).program.Conforms := by
  have hfaithful := faithful_ofTokens hclean
  refine ⟨hfaithful.kinds fun hmem => ?_, hfaithful.conforms⟩
  obtain ⟨t, ht, hkind⟩ := List.mem_map.mp hmem
  exact hfor t ht hkind

/-- The tokens of `class A < B { init(x, y) { this.z = y = super.init(x)(1); } }` and of
`if (a or b and 1 < -x * 2 - 3) print (null); else while (true) { f(); }`. -/
def classTokens : List Token :=
  let kinds : List TokenKind :=
    [.keyword .class_, .name "A", .symbol .less, .name "B", .symbol .lbrace, .name "init",
      .symbol .lparen, .name "x", .symbol .comma, .name "y", .symbol .rparen, .symbol .lbrace,
      .keyword .this, .symbol .dot, .name "z", .symbol .eq, .name "y", .symbol .eq, .keyword .super,
      .symbol .dot, .name "init", .symbol .lparen, .name "x", .symbol .rparen, .symbol .lparen,
      .int 1, .symbol .rparen, .symbol .semicolon, .symbol .rbrace, .symbol .rbrace,
      .keyword .if_, .symbol .lparen, .name "a", .keyword .or, .name "b", .keyword .and, .int 1,
      .symbol .less, .symbol .minus, .name "x", .symbol .star, .int 2, .symbol .minus, .int 3,
      .symbol .rparen, .keyword .print, .symbol .lparen, .keyword .null, .symbol .rparen,
      .symbol .semicolon, .keyword .else_, .keyword .while_, .symbol .lparen, .keyword .true,
      .symbol .rparen, .symbol .lbrace, .name "f", .symbol .lparen, .symbol .rparen,
      .symbol .semicolon, .symbol .rbrace]
  kinds.map fun k => ⟨k, k.text, .point 1 1⟩

theorem kinds_eq_and_conforms_classTokens :
    (∀ t ∈ classTokens, t.kind ≠ .keyword .for_) ∧
    (ofTokens classTokens (.point 1 1) 0).faults = [] ∧
    (ofTokens classTokens (.point 1 1) 0).program.stmts.length = 2 ∧
    (ofTokens classTokens (.point 1 1) 0).program.kinds = classTokens.map (·.kind) ∧
    (ofTokens classTokens (.point 1 1) 0).program.Conforms := by
  have hfor : ∀ t ∈ classTokens, t.kind ≠ .keyword .for_ := by decide +kernel
  have hclean : (ofTokens classTokens (.point 1 1) 0).faults = [] := by decide +kernel
  have hlen : (ofTokens classTokens (.point 1 1) 0).program.stmts.length = 2 := by decide +kernel
  exact ⟨hfor, hclean, hlen, kinds_eq_and_conforms classTokens (.point 1 1) 0 hfor hclean⟩

end HostScript.Parsed
