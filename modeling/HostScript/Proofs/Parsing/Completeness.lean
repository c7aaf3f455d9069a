import HostScript.Proofs.Parsing.Rereading.Statements
import HostScript.Syntax.Parsed

/-!
# Completeness of the parser

A program of the grammar is parsed back from what it is written as, up to labels. Two things are asked of
the program that the grammar does not ask: that it is nested no deeper than parsing allows, and that an
`else` comes behind the `if` that it belongs to and behind no nearer one.
-/

namespace HostScript.Parsed

/-- Tokens that spell out a program of the grammar are parsed without a fault, and the outcome is that
program up to labels. -/
theorem relabel_ofTokens_eq_of_conforms (p : Program) (tokens : List Token) (finish : Span)
    (firstId : Nat) (hconforms : p.Conforms) (hapart : p.elsesApart = true)
    (hnesting : p.nesting ≤ 64) (hkinds : tokens.map (·.kind) = p.kinds) :
    (ofTokens tokens finish firstId).faults = [] ∧
      (ofTokens tokens finish firstId).program.relabel .blank = p.relabel .blank := by
  have hbefore : (Cursor.ofTokens tokens finish firstId).Before 0 (Stmt.listKinds p.stmts) :=
    ⟨rfl, hkinds, rfl⟩
  have hfuel : 16 * (Stmt.listKinds p.stmts).length + 19 ≤ fuelFor tokens.length := by
    have hlen := hbefore.length
    change tokens.length = _ at hlen
    unfold fuelFor
    omega
  have hitems := Parser.rereadsDecl_of_conforms p.stmts hconforms hapart
  obtain ⟨ts, s', hrun, hts, hs'⟩ :=
    Parser.gives_topLevel hitems hbefore (Nat.le_trans (Nat.le_of_eq (Nat.zero_add _)) hnesting) hfuel
  unfold ofTokens Program.relabel
  dsimp only
  rw [hrun]
  exact ⟨hs'.clean, by rw [Option.getD_some, hts]; rfl⟩

/-- The program `class A < B { m(x, y) { if (x.y) while (y - 1 - 2) z = !f(x, (y or 3) and x); else if (y)
{ var w; } } }`. -/
def branches : Program :=
  let k : Mark := ⟨0, .point 1 1⟩
  let sp : Span := .point 1 1
  let x : Ident := ⟨"x", sp⟩
  let y : Ident := ⟨"y", sp⟩
  let difference : Expr :=
    .binary k (.binary k (.var k y) .sub (.literal k (.int 1))) .sub (.literal k (.int 2))
  let either : Expr := .grouping k (.logical k (.var k y) .or (.literal k (.int 3)))
  let call : Expr := .call k (.var k ⟨"f", sp⟩) [.var k x, .logical k either .and (.var k x)]
  let loop : Stmt := .while_ difference (.expr (.assign k ⟨"z", sp⟩ (.unary k .not call)) sp) sp
  let inner : Stmt := .ifElse (.var k y) (.block [.var ⟨"w", sp⟩ none sp] sp) none sp
  let body : List Stmt := [.ifElse (.get k (.var k x) y) loop (some inner) sp]
  ⟨[.class_ ⟨"A", sp⟩ (some ⟨k, ⟨"B", sp⟩⟩) [⟨⟨"m", sp⟩, [x, y], body, sp⟩] sp], sp⟩

theorem conforms_branches : branches.Conforms := by
  simp only [Program.Conforms, branches, List.mem_singleton, forall_eq]
  refine .class_ _ _ _ ?_
  simp only [List.mem_singleton, forall_eq]
  refine .mk _ _ (by decide) ?_
  simp only [List.mem_singleton, forall_eq]
  refine .ifElse _ (.get _ _ (.var _ _) (by decide)) ?_ rfl ?_ (by rintro _ ⟨⟩; rfl)
  · have hdifference := Expr.Conforms.binary ⟨0, .point 1 1⟩ .sub (.binary ⟨0, .point 1 1⟩ .sub
      (.var ⟨0, .point 1 1⟩ ⟨"y", .point 1 1⟩) (.literal ⟨0, .point 1 1⟩ (.int 1)) (by decide)
      (by decide)) (.literal ⟨0, .point 1 1⟩ (.int 2)) (by decide) (by decide)
    refine .while_ _ hdifference (.expr _ (.assign _ _ (.unary _ _ ?_ (by decide)))) rfl
    refine .call _ (.var _ _) (by decide) ?_ (by decide)
    simp only [List.mem_cons, List.not_mem_nil, or_false, forall_eq_or_imp, forall_eq]
    refine ⟨.var _ _, .logical _ _ (.grouping _ ?_) (.var _ _) (by decide) (by decide)⟩
    exact .logical _ _ (.var _ _) (.literal _ _) (by decide) (by decide)
  · rintro _ ⟨⟩
    refine .ifElse _ (.var _ _) (.block _ ?_) rfl (by simp) (by simp)
    simp only [List.mem_singleton, forall_eq]
    exact .var _ _ (by simp)

/-- The tokens that `branches` is written as. -/
def branchTokens : List Token :=
  branches.kinds.map fun k => ⟨k, k.text, .point 1 1⟩

theorem relabel_ofTokens_branchTokens :
    branches.Conforms ∧ branches.elsesApart = true ∧ branches.nesting = 7 ∧
    branchTokens.map (·.kind) = branches.kinds ∧ branchTokens.length = 54 ∧
    (ofTokens branchTokens (.point 1 1) 7).faults = [] ∧
    (ofTokens branchTokens (.point 1 1) 7).program.relabel .blank = branches.relabel .blank := by
  have hapart : branches.elsesApart = true := by decide +kernel
  have hnesting : branches.nesting = 7 := by decide +kernel
  have hkinds : branchTokens.map (·.kind) = branches.kinds := by decide +kernel
  have hlen : branchTokens.length = 54 := by decide +kernel
  exact ⟨conforms_branches, hapart, hnesting, hkinds, hlen,
    relabel_ofTokens_eq_of_conforms branches branchTokens (.point 1 1) 7 conforms_branches hapart
      (hnesting ▸ by decide) hkinds⟩

end HostScript.Parsed
