import HostScript.Proofs.Parsing.Soundness
import HostScript.Proofs.Scoping.Lookups
import HostScript.Session
import Mathlib.Data.List.Nodup

/-!
# Programs that are accepted

What is known of a program that compiled without errors: it is of the grammar and binds no reserved name,
its nodes have numbers of their own, and the distances that were found are those of its visits.
-/

namespace HostScript

/-! ### Names are no keywords -/

namespace Lexer

variable {c : Char} {cs : List Char} {x : String}

theorem number_ne_name : (number c cs).1.reading ≠ .ok (.name x) := by
  intro h
  have hradix : ∀ r mark cs, (radixNumber r mark cs).1.reading ≠ .ok (.name x) := by
    intro r mark cs h
    unfold radixNumber at h
    dsimp only at h
    repeat (split at h; · cases h)
    cases h
  unfold number at h
  split at h
  · exact hradix _ _ _ h
  · exact hradix _ _ _ h
  · unfold decimal at h
    dsimp only at h
    split at h
    · cases h
    · unfold decimalReading at h
      dsimp only at h
      split at h <;> cases h

theorem symbol_ne_name : (symbol c cs).1.reading ≠ .ok (.name x) := by
  intro h
  have hsingle : (singleSymbol c).reading ≠ .ok (.name x) := by
    unfold singleSymbol
    dsimp only
    split <;> nofun
  unfold symbol at h
  split at h
  · split at h
    · cases h
    · exact hsingle h
  · exact hsingle h

/-- Only words are read as names, and only those that are no keywords. -/
theorem ofText?_of_next (h : (next c cs).1.reading = .ok (.name x)) :
    Keyword.ofText? x = none := by
  unfold next at h
  split at h
  · unfold string at h
    dsimp only at h
    split at h <;> cases h
  · split at h
    · exact absurd h number_ne_name
    · split at h
      · unfold word at h
        dsimp only at h
        split at h
        · cases h
        · cases h
          assumption
      · exact absurd h symbol_ne_name

theorem ofText?_of_scan (room : Nat) (p : Position) (cs : List Char) :
    ∀ l ∈ (scan room p cs).1, ∀ x, l.lexeme.reading = .ok (.name x) →
      Keyword.ofText? x = none := by
  fun_induction scan room p cs with
  | case1 => nofun
  | case2 => nofun
  | case3 _ _ _ _ _ _ _ _ _ _ _ ih =>
    intro l hl
    rcases List.mem_cons.mp hl with rfl | hl
    · exact fun x => ofText?_of_next
    · exact ih l hl

end Lexer

theorem Lexed.ofText?_of_mem {text : String} {t : Token} (ht : t ∈ (Lexed.ofText text).tokens)
    {x : String} (hx : t.kind = .name x) : Keyword.ofText? x = none := by
  obtain ⟨l, hl, hlt⟩ := List.mem_filterMap.mp ht
  unfold Lexer.Placed.token? at hlt
  split at hlt
  · rename_i k hk
    cases hlt
    exact Lexer.ofText?_of_scan _ _ _ l hl x (hk.trans (congrArg Except.ok hx))
  · cases hlt

/-! ### Accepted programs -/

/-- What it takes for a program with nodes numbered from `firstId` on to be run. -/
structure Program.Accepted (p : Program) (firstId nextId : Nat) : Prop where
  conforms : p.Conforms
  unreserved : ∀ x ∈ Stmt.listNames p.stmts, ¬ Reserved x
  numbered : Numbered firstId ((Stmt.listNodes p.stmts).map (·.id)) nextId
  resolved : (Resolution.ofProgram p).faults = []

theorem ofText?_of_reserved {x : String} (h : Reserved x) : Keyword.ofText? x ≠ none := by
  rcases h with rfl | rfl <;> decide

/-- A script that compiles without errors has an accepted program, and its names were resolved. -/
theorem Compiled.accepted {src : Source} {firstId : Nat}
    (h : (Compiled.ofSource src firstId).diagnostics.hasErrors = false) :
    (Compiled.ofSource src firstId).program.Accepted firstId
        (Compiled.ofSource src firstId).nextId ∧
      (Compiled.ofSource src firstId).locals =
        (Resolution.ofProgram (Compiled.ofSource src firstId).program).locals := by
  let parsed := Parsed.ofText src.text firstId
  let resolved := if parsed.faults.isEmpty then Resolution.ofProgram parsed.program else .empty
  have hnone : parsed.faults ++ resolved.faults = [] := by
    have hlen : ¬ 0 < (parsed.faults ++ resolved.faults).length := of_decide_eq_false h
    exact List.length_eq_zero_iff.mp (Nat.eq_zero_of_not_pos hlen)
  obtain ⟨hparsed, hresolved⟩ := List.append_eq_nil_iff.mp hnone
  have heq : resolved = Resolution.ofProgram parsed.program := if_pos (List.isEmpty_iff.mpr hparsed)
  have hfaithful := Parsed.faithful_ofTokens (List.append_eq_nil_iff.mp hparsed).2
  refine ⟨⟨hfaithful.conforms, fun x hx hres => ?_, hfaithful.numbered, heq ▸ hresolved⟩,
    congrArg (·.locals) heq⟩
  -- A reserved name would have been read as a keyword.
  obtain ⟨t, ht, hkind⟩ := List.mem_map.mp (hfaithful.names x hx)
  exact ofText?_of_reserved hres (Lexed.ofText?_of_mem ht hkind)

namespace Program.Accepted

variable {p : Program} {firstId nextId : Nat} {v w : Visit}

theorem placed (h : p.Accepted firstId nextId) (hv : v ∈ p.visits) : v.Placed :=
  Stmt.placed_list h.conforms (fun hx => h.unreserved _ hx (.inr rfl)) .topLevel v hv

theorem gathers (p : Program) : (Resolution.ofProgram p).Gathers p.visits :=
  Resolution.gathers_ofStmts .topLevel [] p.stmts

theorem faultless (h : p.Accepted firstId nextId) (hv : v ∈ p.visits) :
    v.resolution.faults = [] :=
  List.subset_nil.mp (h.resolved ▸ (gathers p).faults v hv)

/-- The recorded distances are those of the names that the nodes use. -/
theorem mem_locals (h : p.Accepted firstId nextId) {q : Nat × Nat} :
    q ∈ (Resolution.ofProgram p).locals ↔
      ∃ v ∈ p.visits, q.1 = v.expr.id ∧ v.distance? = some q.2 := by
  rw [(gathers p).locals]
  refine exists_congr fun v => and_congr_right fun hv => ?_
  exact Visit.mem_locals_resolution (h.faultless hv)

theorem map_id_visits (p : Program) :
    p.visits.map (·.expr.id) = (Stmt.listNodes p.stmts).map (·.id) := by
  rw [← Stmt.map_expr_listVisits .topLevel [] p.stmts, List.map_map]
  rfl

theorem id_bounds (h : p.Accepted firstId nextId) (hv : v ∈ p.visits) :
    firstId ≤ v.expr.id ∧ v.expr.id < nextId :=
  h.numbered.bounds _ (map_id_visits p ▸ List.mem_map_of_mem hv)

/-- Every node is visited once, so its number determines the visit. -/
theorem eq_of_id_eq (h : p.Accepted firstId nextId) (hv : v ∈ p.visits) (hw : w ∈ p.visits)
    (heq : v.expr.id = w.expr.id) : v = w :=
  List.inj_on_of_nodup_map (map_id_visits p ▸ h.numbered.nodup) hv hw heq

theorem known (h : p.Accepted firstId nextId) {V : Visit → Prop} (hV : ∀ v ∈ p.visits, V v) :
    ∀ s ∈ p.stmts, s.Known V .topLevel [] :=
  Stmt.ListKnown.outside ⟨h.conforms, h.unreserved, hV⟩

end Program.Accepted

end HostScript
