import HostScript.Proofs.Parsing.Following

/-!
# Parsing makes progress

From wherever a declaration is parsed, whatever the tokens are, it ends with fewer tokens left and as deep as
it began, and where it gives up there is a new fault. That it ends says more than that its result is there:
fuel is a bound which the parsers run on and which never shows. A `Watch` is a setting with an alarm, which goes
off where a parser is out of fuel, and where one starts nested deeper than a limit. What the alarm does is left
open: it may report, take tokens or give something. Under any watch, with any fuel that is enough for the tokens
left, the result is the same, so no parser inside runs out of fuel, and none starts deeper than the limit. The
loops of a program, a block and a class end in the same sense.
-/

namespace HostScript

open HostScript.Parser

structure Watch where
  /-- How deep a parser may be nested. -/
  limit : Nat
  maxNesting_le : maxNesting ≤ limit
  alarm : {α : Type} → Parser α

namespace Watch

/-- Run `p`, unless the place is nested too deep. -/
def guard {α : Type} (w : Watch) (p : Parser α) : Parser α := do
  if w.limit < (← look (·.depth)) then w.alarm else p

/-- The parsers under watch. -/
def setting (w : Watch) : Setting :=
  ⟨w.alarm, w.guard⟩

abbrev declaration (w : Watch) : Nat → Parser Stmt := w.setting.declaration

abbrev blockItems (w : Watch) : Nat → Parser (List Stmt) := w.setting.blockItems

abbrev methods (w : Watch) : Nat → Parser (List FunctionDecl) := w.setting.methods

abbrev topLevel (w : Watch) : Nat → Parser (List Stmt) := w.setting.topLevel

theorem run_guard {α : Type} (w : Watch) (p : Parser α) (s : Cursor) (h : s.depth ≤ w.limit) :
    (w.guard p).run s = p.run s := by
  change (if w.limit < s.depth then (_ : Parser α) else _).run s = _
  rw [if_neg (Nat.not_lt.mpr h)]

/-- Parsing once more under watch, with the same numbers and no other faults. -/
def rerun (w : Watch) : Rerun :=
  ⟨w.setting, w.limit, w.maxNesting_le, w.run_guard, 0, []⟩

end Watch

namespace Parser

open Parsed (fuelFor)

variable {s : Cursor}

/-- A declaration takes at least one of the tokens that are left, and no others. -/
theorem exists_taken_declaration {n : Nat} (hn : 0 < n) (hrest : s.rest ≠ []) :
    ∃ taken, taken ≠ [] ∧ taken ++ ((declaration n).run s).2.rest = s.rest := by
  obtain ⟨n, rfl⟩ := Nat.exists_eq_succ_of_ne_zero (Nat.ne_zero_of_lt hn)
  obtain ⟨taken, htaken⟩ := ((declaration (n + 1)).onward s).rest
  have hlt := declaration_lt n hrest
  refine ⟨taken, ?_, htaken⟩
  rintro rfl
  rw [← htaken] at hlt
  exact Nat.lt_irrefl _ hlt

/-- Where a parser has reported something, the faults of before are still there. -/
theorem exists_new_fault {α : Type} (p : Parser α) (h : s.faults.length < (p.run s).2.faults.length) :
    ∃ f fs, (p.run s).2.faults = s.faults ++ f :: fs := by
  obtain ⟨new, hnew⟩ := (p.onward s).faults
  cases new with
  | nil =>
    rw [← hnew, List.append_nil] at h
    exact absurd h (Nat.lt_irrefl _)
  | cons f fs => exact ⟨f, fs, hnew.symm⟩

/-- Parsing a declaration ends further on, at the same depth, and not without a fault if without a result.
A watch changes nothing: inside no fuel runs out, and no place is deeper than the limit. So the loops over
declarations and methods end as well. -/
theorem declaration_progresses (w : Watch) (s : Cursor) (hdepth : s.depth ≤ w.limit) :
    (s.rest ≠ [] → ∀ n, fuelFor s.rest.length ≤ n →
      ∃ r s', (declaration n).run s = (r, s') ∧ (∃ taken, taken ≠ [] ∧ taken ++ s'.rest = s.rest) ∧
        s'.depth = s.depth ∧ (r = none → ∃ f fs, s'.faults = s.faults ++ f :: fs) ∧
        ∀ n', fuelFor s.rest.length ≤ n' → (w.declaration n').run s = (r, s')) ∧
    ∀ n n', fuelFor s.rest.length ≤ n → fuelFor s.rest.length ≤ n' →
      (w.topLevel n').run s = (topLevel n).run s ∧ (w.blockItems n').run s = (blockItems n).run s ∧
      (w.methods n').run s = (methods n).run s := by
  have hfuel {n : Nat} (hn : fuelFor s.rest.length ≤ n) : 16 * s.rest.length + 19 ≤ n := by
    unfold fuelFor at hn
    omega
  refine ⟨fun hrest n hn => ⟨_, _, rfl, ?_, ?_, ?_, ?_⟩, fun n n' hn hn' => ⟨?_, ?_, ?_⟩⟩
  · have := hfuel hn
    exact exists_taken_declaration (by omega) hrest
  · exact ((declaration n).onward s).depth
  · have := hfuel hn
    have hagrees := (statementsAgree w.rerun n n).declaration s (by omega) (by omega)
    exact fun hnone => exists_new_fault _ (hagrees.complains hnone)
  · intro n' hn'
    have := hfuel hn
    have := hfuel hn'
    have hagrees := (statementsAgree w.rerun n n').declaration s (by omega) (by omega)
    exact hagrees.run_eq rfl rfl Stmt.relabel_shift_zero hdepth
  · have hagrees := agrees_topLevel w.rerun n n' s (hfuel hn) (hfuel hn')
    exact hagrees.run_eq rfl rfl Stmt.listRelabel_shift_zero hdepth
  · have hagrees := (statementsAgree w.rerun n n').blockItems s (hfuel hn) (hfuel hn')
    exact hagrees.run_eq rfl rfl Stmt.listRelabel_shift_zero hdepth
  · have := hfuel hn
    have := hfuel hn'
    have hagrees := (statementsAgree w.rerun n n').methods s (by omega) (by omega)
    exact hagrees.run_eq rfl rfl FunctionDecl.listRelabel_shift_zero hdepth

/-- As deep as can be, in front of tokens with which no declaration starts. -/
def deepest : Cursor :=
  let l := Lexed.ofText "1 + ) print 2;"
  { Cursor.ofTokens l.tokens l.finish 0 with depth := maxNesting }

/-- Nothing is taken before parsing gives up at the limit, and still it goes on behind some of the tokens. -/
theorem declaration_progresses_deepest :
    let w : Watch := ⟨maxNesting, Nat.le_refl _, failAt .expectedExpression⟩
    let n := fuelFor deepest.rest.length
    deepest.depth ≤ w.limit ∧ deepest.rest ≠ [] ∧ n ≤ 1000 ∧
      (∃ s', (declaration n).run deepest = (none, s') ∧
        (∃ taken, taken ≠ [] ∧ taken ++ s'.rest = deepest.rest) ∧ s'.depth = maxNesting ∧
        (∃ f fs, s'.faults = [] ++ f :: fs) ∧ (w.declaration 1000).run deepest = (none, s')) ∧
      (w.topLevel 1000).run deepest = (topLevel n).run deepest := by
  intro w n
  have hrest : deepest.rest ≠ [] := by
    refine List.ne_nil_of_length_pos ?_
    decide +kernel
  have hfuel : n ≤ 1000 := by decide +kernel
  obtain ⟨hdeclaration, hloops⟩ := declaration_progresses w deepest (Nat.le_refl _)
  obtain ⟨r, s', hrun, htaken, hdepth, hfault, hwatched⟩ := hdeclaration hrest n (Nat.le_refl _)
  obtain rfl : r = none := by
    have hnone : ((declaration n).run deepest).1.isNone = true := by decide +kernel
    rw [hrun] at hnone
    exact Option.isNone_iff_eq_none.mp hnone
  exact ⟨Nat.le_refl _, hrest, hfuel, ⟨s', hrun, htaken, hdepth, hfault rfl, hwatched 1000 hfuel⟩,
    (hloops n 1000 (Nat.le_refl _) hfuel).1⟩

end Parser

end HostScript
