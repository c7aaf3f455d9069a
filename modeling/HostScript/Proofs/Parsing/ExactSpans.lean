import HostScript.Proofs.Lexing.Lossless
import HostScript.Proofs.Parsing.Soundness

/-!
# Spans are exact

The tokens of a text stand in reading order, since they lie one behind the other in its bytes. So the spans
that parsing merges are those of the tokens: every expression starts where the first of its tokens starts and
ends where the last one ends, and all that is in it lies in between.
-/

namespace HostScript

open Text (lineFeed)

/-! ### Tokens in reading order -/

namespace Position

/-- The position behind more bytes is no earlier one. -/
theorem behind_append_notAfter (bs ds : List UInt8) :
    Span.NotAfter (behind bs).line (behind bs).col (behind (bs ++ ds)).line (behind (bs ++ ds)).col := by
  by_cases h : lineFeed ∈ ds
  · have hpos : 0 < ds.count lineFeed := List.count_pos_iff.mpr h
    refine .inl ?_
    simp only [behind, List.count_append]
    omega
  · rw [behind_append h]
    exact .inr ⟨rfl, Nat.le_add_right _ _⟩

theorem ofOffset_notAfter (bs : List UInt8) {i j : Nat} (h : i ≤ j) :
    Span.NotAfter (ofOffset bs i).line (ofOffset bs i).col (ofOffset bs j).line (ofOffset bs j).col := by
  have hcut : bs.take j = bs.take i ++ (bs.take j).drop i := by
    have hall := List.take_append_drop i (bs.take j)
    rw [List.take_take, Nat.min_eq_left h] at hall
    exact hall.symm
  unfold ofOffset
  rw [hcut]
  exact behind_append_notAfter _ _

end Position

namespace Token

variable {bs : List UInt8} {ts : List Token} {ranges : List (Nat × Nat)}

theorem Lies.before {t u : Token} {r r' : Nat × Nat} (ht : t.Lies bs r) (hu : u.Lies bs r')
    (h : r.2 ≤ r'.1) : t.Before u := by
  have hr := ht.nonempty
  have hr' := hu.nonempty
  constructor
  · rw [ht.span, hu.span]
    exact Position.ofOffset_notAfter bs (by omega)
  · rw [ht.span, hu.span]
    exact Position.ofOffset_notAfter bs (by omega)

theorem Lies.exists_of_mem {t : Token} (h : List.Forall₂ (Lies bs) ts ranges) (ht : t ∈ ts) :
    ∃ r ∈ ranges, t.Lies bs r := by
  induction h with
  | nil => cases ht
  | cons hfirst _ ih =>
    rcases List.mem_cons.mp ht with rfl | ht
    · exact ⟨_, List.mem_cons_self, hfirst⟩
    · obtain ⟨r, hr, hlies⟩ := ih ht
      exact ⟨r, List.mem_cons_of_mem _ hr, hlies⟩

theorem pairwise_before (h : List.Forall₂ (Lies bs) ts ranges)
    (hranges : ranges.Pairwise fun r r' => r.2 ≤ r'.1) : ts.Pairwise Before := by
  induction h with
  | nil => exact .nil
  | cons hfirst hrest ih =>
    obtain ⟨hbehind, hranges⟩ := List.pairwise_cons.mp hranges
    refine List.pairwise_cons.mpr ⟨fun t ht => ?_, ih hranges⟩
    obtain ⟨r, hr, hlies⟩ := Lies.exists_of_mem hrest ht
    exact hfirst.before hlies (hbehind r hr)

end Token

theorem Lexed.pairwise_before (text : String) : (ofText text).tokens.Pairwise Token.Before := by
  obtain ⟨ranges, hlies, hranges, -⟩ := (scanned text).exists_ranges
  exact Token.pairwise_before hlies hranges

/-! ### Spans of a program -/

namespace Parsed

/-- A text without faults is the program as it is written, and the span of every expression in it goes from the
start of the first token of the expression to the end of the last one, with all nodes and names of the
expression in between. So does every node have tokens of its own, but for the condition that is made up for a
`for`, which stands for the tokens of that `for`. -/
theorem spans_exact (text : String) (firstId : Nat) (hclean : (ofText text firstId).faults = []) :
    let tokens := (Lexed.ofText text).tokens
    let stmts := (ofText text firstId).program.stmts
    Written Expr.Exact (stmts.map .stmt) tokens ∧
      ∀ n ∈ Stmt.listNodes stmts, n.Located Expr.Exact (stmts.map .stmt) tokens := by
  intro tokens stmts
  obtain ⟨-, hparsed⟩ := List.append_eq_nil_iff.mp hclean
  have hwritten : Written Expr.Exact (stmts.map .stmt) tokens :=
    (written_and_conforms hparsed).1.exact (Lexed.pairwise_before text)
  refine ⟨hwritten, fun n hn => ?_⟩
  obtain ⟨t, ht, hn⟩ := Stmt.mem_listNodes.mp hn
  exact hwritten.located (List.mem_map_of_mem ht) hn

/-- A property set over three lines in a method, and a `for` without condition. -/
def layoutText : String :=
  "class B < A \x7b m(x) \x7b this.p = super.m(x,\n (x)\n); \x7d \x7d for (;;) a = -b.c;"

/-- The property set goes from `this` to the parenthesis that closes the call. -/
theorem spans_exact_layoutText :
    let tokens := (Lexed.ofText layoutText).tokens
    let stmts := (ofText layoutText 0).program.stmts
    (ofText layoutText 0).faults = [] ∧ Written Expr.Exact (stmts.map .stmt) tokens ∧
      ∃ n ∈ Stmt.listNodes stmts, n.span = ⟨1, 22, 3, 1⟩ ∧
        n.Located Expr.Exact (stmts.map .stmt) tokens := by
  intro tokens stmts
  have hclean : (ofText layoutText 0).faults = [] := by decide +kernel
  have hmem : ⟨1, 22, 3, 1⟩ ∈ (Stmt.listNodes stmts).map Expr.span := by decide +kernel
  obtain ⟨hwritten, hlocated⟩ := spans_exact layoutText 0 hclean
  obtain ⟨n, hn, hspan⟩ := List.mem_map.mp hmem
  exact ⟨hclean, hwritten, n, hn, hspan, hlocated n hn⟩

end Parsed

end HostScript
