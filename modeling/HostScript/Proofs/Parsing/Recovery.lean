import HostScript.Proofs.Parsing.Following

/-!
# Recovery from faults

After a fault in a declaration, however deep inside it, parsing goes on with the next one as if the tokens
before it had never been there. A cursor keeps four things besides the tokens that are left: the numbers that
were used, the depth, the faults, and the span of the token taken last. Numbers go on from where they are,
the depth is the one at the start, other faults make no difference (`Parser.run_topLevel_behind`), and the span
makes none either: a declaration takes a token before it looks at it (`Parser.run_declaration_after`).
-/

namespace HostScript

namespace Parser

variable {s : Cursor}

/-! ### The loop over declarations -/

/-- One turn of the loop. -/
theorem run_topLevel (n : Nat) (hend : s.atEnd = false) (hfew : s.tooManyFaults = false) :
    (topLevel (n + 1)).run s =
      (((topLevel n).run ((declaration n).run s).2).1.map (((declaration n).run s).1.toList ++ ·),
        ((topLevel n).run ((declaration n).run s).2).2) := by
  have hturn : (topLevel (n + 1)).run s = (itemsOf (declaration n) (topLevel n)).run s := by
    change (if (s.atEnd || s.tooManyFaults) = true then _ else _ : Parser (List Stmt)).run s = _
    rw [hend, hfew]
    rfl
  rw [hturn, itemsOf, run_bind]
  dsimp only [attempt]
  rw [run_bind]
  cases (topLevel n).run ((declaration n).run s).2 with
  | mk r s₁ => cases r <;> rfl

/-- The last turn. -/
theorem run_topLevel_stop (n : Nat) (h : s.atEnd = true ∨ s.tooManyFaults = true) :
    (topLevel (n + 1)).run s = (some [], s) := by
  have hstop : (s.atEnd || s.tooManyFaults) = true := by simpa using h
  change (if (s.atEnd || s.tooManyFaults) = true then _ else _ : Parser (List Stmt)).run s = _
  rw [hstop]
  rfl

theorem run_topLevel_after (n : Nat) (s : Cursor) (sp : Span) : ∃ sp',
    (topLevel n).run (s.after sp) = (((topLevel n).run s).1, ((topLevel n).run s).2.after sp') := by
  rcases n with - | n
  · exact ⟨sp, rfl⟩
  by_cases hstop : s.atEnd = true ∨ s.tooManyFaults = true
  · have hturn := run_topLevel_stop n (s := s.after sp) hstop
    rw [hturn, run_topLevel_stop n hstop]
    exact ⟨sp, rfl⟩
  · obtain ⟨hend, hfew⟩ := not_or.mp hstop
    have hend' : s.atEnd = false := Bool.eq_false_iff.mpr hend
    have hfew' : s.tooManyFaults = false := Bool.eq_false_iff.mpr hfew
    have hturn := run_topLevel n (s := s.after sp) hend' hfew'
    rw [hturn, run_topLevel n hend' hfew']
    rcases n with - | n
    · exact ⟨sp, rfl⟩
    · rw [run_declaration_after n s sp]
      exact ⟨_, rfl⟩

/-- The loop over declarations, at `s` with fuel `n`, comes to its turn at `s'`, where its fuel is `n'`. On
the way it has kept the declarations `ds`, and has left out those with a fault. -/
inductive ComesTo : Nat → Cursor → List Stmt → Nat → Cursor → Prop
  | here {n s} : ComesTo n s [] n s
  | next {n s ds n' s'} : s.atEnd = false → s.tooManyFaults = false →
      ComesTo n ((declaration n).run s).2 ds n' s' →
      ComesTo (n + 1) s (((declaration n).run s).1.toList ++ ds) n' s'

namespace ComesTo

variable {n n' : Nat} {s' : Cursor} {ds : List Stmt}

theorem run_eq (h : ComesTo n s ds n' s') :
    (topLevel n).run s = (((topLevel n').run s').1.map (ds ++ ·), ((topLevel n').run s').2) := by
  induction h with
  | here => simp
  | next hend hfew _ ih =>
    rw [run_topLevel _ hend hfew, ih, Option.map_map]
    simp [Function.comp_def]

theorem onward (h : ComesTo n s ds n' s') : s.Onward s' := by
  induction h with
  | here => exact .refl _
  | next _ _ _ ih => exact ((declaration _).onward _).trans ih

/-- Each turn takes a token, so that the fuel stays enough. -/
theorem fuel_le (h : ComesTo n s ds n' s') (hn : 16 * s.rest.length + 19 ≤ n) :
    16 * s'.rest.length + 19 ≤ n' := by
  induction h with
  | here => exact hn
  | @next n s ds n' s' hend _ _ ih =>
    cases n with
    | zero => omega
    | succ n =>
      have hlt := declaration_lt n (rest_ne_nil_of_atEnd_eq_false hend)
      exact ih (by omega)

end ComesTo

theorem isSome_topLevel (n : Nat) (s : Cursor) (hn : 16 * s.rest.length + 19 ≤ n) :
    ((topLevel n).run s).1.isSome := by
  induction n generalizing s with
  | zero => omega
  | succ n ih =>
    by_cases hstop : s.atEnd = true ∨ s.tooManyFaults = true
    · rw [run_topLevel_stop n hstop]
      rfl
    · obtain ⟨hend, hfew⟩ := not_or.mp hstop
      have hend' : s.atEnd = false := Bool.eq_false_iff.mpr hend
      rw [run_topLevel n hend' (Bool.eq_false_iff.mpr hfew)]
      cases n with
      | zero => omega
      | succ n =>
        have hlt := declaration_lt n (rest_ne_nil_of_atEnd_eq_false hend')
        have hsome := ih ((declaration (n + 1)).run s).2 (by omega)
        simpa using hsome

end Parser

namespace Parsed

open HostScript.Parser

variable {tokens : List Token} {finish : Span} {firstId n : Nat} {before : List Stmt} {s : Cursor}

/-- What is found from a turn of the loop on is what is found in the tokens from there on alone, numbered
from where the numbers stand. Faults before make no difference, wherever inside a declaration they were. -/
theorem ofTokens_of_comesTo
    (hfew : (ofTokens tokens finish firstId).faults.length < maxErrors)
    (h : ComesTo (fuelFor tokens.length) (.ofTokens tokens finish firstId) before n s) :
    s.rest <:+ tokens ∧
      (ofTokens tokens finish firstId).program.stmts =
        before ++ (ofTokens s.rest finish s.nextId).program.stmts ∧
      (ofTokens tokens finish firstId).faults =
        s.faults ++ (ofTokens s.rest finish s.nextId).faults ∧
      (ofTokens tokens finish firstId).nextId = (ofTokens s.rest finish s.nextId).nextId := by
  have honward := h.onward
  have hfuel : 16 * s.rest.length + 19 ≤ n := h.fuel_le (by simp only [Cursor.ofTokens, fuelFor]; omega)
  have hfuel' : 16 * s.rest.length + 19 ≤ fuelFor s.rest.length := by simp only [fuelFor]; omega
  have hs : s = ((Cursor.ofTokens s.rest finish s.nextId).behind s.faults).after s.prev := by
    have hfinish : s.finish = finish := honward.finish
    have hdepth : s.depth = 0 := honward.depth
    obtain ⟨rest, finish', prev, nextId, depth, faults⟩ := s
    subst hfinish hdepth
    simp [Cursor.ofTokens, Cursor.behind, Cursor.after]
  -- the turn at `s`, first behind another token and then without the faults before
  obtain ⟨sp, hafter⟩ :=
    run_topLevel_after n ((Cursor.ofTokens s.rest finish s.nextId).behind s.faults) s.prev
  rw [← hs] at hafter
  have hwhole := h.run_eq
  have hfaults : ((topLevel n).run s).2.faults.length < maxErrors := by
    unfold ofTokens at hfew
    dsimp only at hfew
    rwa [hwhole] at hfew
  rw [hafter] at hfaults
  have halone := run_topLevel_behind s.faults (fuelFor s.rest.length) n
    (Cursor.ofTokens s.rest finish s.nextId) hfuel' hfuel hfaults
  obtain ⟨ts, hts⟩ := Option.isSome_iff_exists.mp
    (isSome_topLevel (fuelFor s.rest.length) (.ofTokens s.rest finish s.nextId) hfuel')
  unfold ofTokens
  dsimp only
  rw [hwhole, hafter, halone, hts]
  exact ⟨honward.rest, rfl, rfl, rfl⟩

/-- A declaration with a fault four levels deep, and another one. -/
def faulty : Lexed :=
  Lexed.ofText "print -(1; print 2;"

/-- Behind the fault, three tokens are left, and these alone give what is found. -/
theorem ofTokens_of_comesTo_faulty : ∃ n s,
    ComesTo (fuelFor faulty.tokens.length) (.ofTokens faulty.tokens faulty.finish 0) [] n s ∧
      s.faults.length = 1 ∧ s.rest.length = 3 ∧
      (ofTokens faulty.tokens faulty.finish 0).program.stmts =
        [] ++ (ofTokens s.rest faulty.finish s.nextId).program.stmts ∧
      (ofTokens faulty.tokens faulty.finish 0).faults =
        s.faults ++ (ofTokens s.rest faulty.finish s.nextId).faults := by
  have hfuel : fuelFor faulty.tokens.length = 159 + 1 := by decide +kernel
  let s₀ := Cursor.ofTokens faulty.tokens faulty.finish 0
  have hnone : ((declaration 159).run s₀).1 = none := by
    refine Option.isNone_iff_eq_none.mp ?_
    decide +kernel
  have hcomes : ComesTo (fuelFor faulty.tokens.length) s₀ [] 159 ((declaration 159).run s₀).2 := by
    have hnext : ComesTo (159 + 1) s₀ (((declaration 159).run s₀).1.toList ++ []) 159
        ((declaration 159).run s₀).2 :=
      .next (by decide +kernel) (by decide +kernel) .here
    rw [hnone] at hnext
    rw [hfuel]
    exact hnext
  have hfew : (ofTokens faulty.tokens faulty.finish 0).faults.length < maxErrors := by decide +kernel
  obtain ⟨-, hstmts, hfaults, -⟩ := ofTokens_of_comesTo hfew hcomes
  exact ⟨159, _, hcomes, by decide +kernel, by decide +kernel, hstmts, hfaults⟩

end Parsed

end HostScript
