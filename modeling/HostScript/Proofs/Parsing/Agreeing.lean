import HostScript.Proofs.Parsing.Leading
import HostScript.Proofs.Relabeling

/-!
# Parsing once more

A parser reads the number of the next node off its cursor and gives it to a node, and does nothing else with
it. It looks at the faults found so far only to see whether there are too many. How much fuel it has makes no
difference, if it is enough for the tokens that are left, whether or not these have faults. A `Rerun` is
another run that differs in all of this: it is in a setting of its own, its numbers are greater by some shift,
and other faults were found before. `Agrees r f p q s` says that from `s` on, `q` in the other run does what
`p` does, and what it gives is the image under `f`. Where `p` gives up, it has reported a fault.

Fuel is enough because tokens are taken on the way, by parsers that lead.
-/

namespace HostScript

structure Rerun where
  setting : Parser.Setting
  /-- The guard does nothing at a place that is not nested deeper than this. -/
  limit : Nat
  maxNesting_le : maxNesting ≤ limit
  guard_run : ∀ {α : Type} (p : Parser α) (s : Cursor), s.depth ≤ limit →
    (setting.guard p).run s = p.run s
  shift : Nat
  /-- The faults found before. -/
  faults : List Fault

namespace Rerun

/-- The parsers as they are, with other numbers and behind other faults. -/
def plain (shift : Nat) (faults : List Fault) (depth : Nat) : Rerun :=
  ⟨.plain, max maxNesting depth, Nat.le_max_left _ _, fun _ _ _ => rfl, shift, faults⟩

/-- The same place in the other run. -/
def place (r : Rerun) (s : Cursor) : Cursor :=
  { s with nextId := s.nextId + r.shift, faults := r.faults ++ s.faults }

/-! ### What the other run gives -/

abbrev expr (r : Rerun) : Expr → Expr := Expr.relabel (.shift r.shift)

abbrev exprs (r : Rerun) : List Expr → List Expr := Expr.listRelabel (.shift r.shift)

abbrev stmt (r : Rerun) : Stmt → Stmt := Stmt.relabel (.shift r.shift)

abbrev stmts (r : Rerun) : List Stmt → List Stmt := Stmt.listRelabel (.shift r.shift)

abbrev function (r : Rerun) : FunctionDecl → FunctionDecl := FunctionDecl.relabel (.shift r.shift)

abbrev functions (r : Rerun) : List FunctionDecl → List FunctionDecl :=
  FunctionDecl.listRelabel (.shift r.shift)

variable {r : Rerun} {s : Cursor}

theorem advance_place (s : Cursor) : (r.place s).advance = r.place s.advance := by
  obtain ⟨rest, finish, prev, nextId, depth, faults⟩ := s
  cases rest <;> rfl

theorem synchronize_place (s : Cursor) : (r.place s).synchronize = r.place s.synchronize := by
  obtain ⟨rest, finish, prev, nextId, depth, faults⟩ := s
  cases rest <;> rfl

theorem report_place (s : Cursor) (f : Fault) : (r.place s).report f = r.place (s.report f) := by
  unfold Cursor.report place
  rw [List.append_assoc]

theorem tooManyFaults_place (h : r.faults = [] ∨ (r.faults ++ s.faults).length < maxErrors) :
    (r.place s).tooManyFaults = s.tooManyFaults := by
  rcases h with h | h
  · unfold Cursor.tooManyFaults place
    rw [h]
    rfl
  · rw [List.length_append] at h
    simp only [Cursor.tooManyFaults, place, List.length_append, decide_eq_decide]
    omega

/-- With the same numbers and no other faults it is the same place. -/
theorem place_eq (hshift : r.shift = 0) (hfaults : r.faults = []) (s : Cursor) : r.place s = s := by
  unfold place
  rw [hshift, hfaults]
  rfl

end Rerun

namespace Parser

variable {α β : Type} {r : Rerun} {f : α → α} {g : β → β} {p q : Parser α} {F G : α → Parser β}
  {s : Cursor}

/-- From `s` on, `q` does in the other run what `p` does, and it has reported a fault where it gives up. There
are no other faults in the other run, or there are few in all. -/
structure Agrees (r : Rerun) (f : α → α) (p q : Parser α) (s : Cursor) : Prop where
  complains : (p.run s).1 = none → s.faults.length < (p.run s).2.faults.length
  run_place : s.depth ≤ r.limit → r.faults = [] ∨ (q.run (r.place s)).2.faults.length < maxErrors →
    q.run (r.place s) = ((p.run s).1.map f, r.place (p.run s).2)

/-- Faults are not taken back, so there were few of them before. -/
theorem few_of_onward {s s' : Cursor} (h : s.Onward s') (hfew : s'.faults.length < maxErrors) :
    s.faults.length < maxErrors :=
  Nat.lt_of_le_of_lt h.faults.length_le hfew

theorem onward_bind (p : Parser α) (F : α → Parser β) (s : Cursor) :
    (p.run s).2.Onward ((p >>= F).run s).2 := by
  rw [run_bind]
  cases p.run s with
  | mk a s₁ =>
    cases a with
    | none => exact .refl s₁
    | some a => exact (F a).onward s₁

theorem onward_recovering (p : Parser α) (s : Cursor) :
    (p.run s).2.Onward ((recovering p).run s).2 := by
  unfold recovering
  dsimp only
  split
  · rename_i a s₁ hp
    rw [hp]
    exact .refl s₁
  · rename_i s₁ hp
    rw [hp]
    exact .synchronize s₁

/-! ### Rules -/

namespace Agrees

/-- With the same numbers and no other faults, the two do the same. -/
theorem run_eq (h : Agrees r f p q s) (hshift : r.shift = 0) (hfaults : r.faults = []) (hf : ∀ a, f a = a)
    (hdepth : s.depth ≤ r.limit) : q.run s = p.run s := by
  have hrun := h.run_place hdepth (.inl hfaults)
  rw [Rerun.place_eq hshift hfaults, Rerun.place_eq hshift hfaults] at hrun
  obtain rfl : f = id := funext hf
  rw [hrun, Option.map_id]
  rfl

theorem bind_run (h : Agrees r f p q s)
    (hF : ∀ a s', p.run s = (some a, s') → Agrees r g (F a) (G (f a)) s') :
    Agrees r g (p >>= F) (q >>= G) s where
  complains := by
    have hle := (p.onward s).faults.length_le
    have hfirst := h.complains
    rw [run_bind]
    cases hp : p.run s with
    | mk a s₁ =>
      rw [hp] at hle hfirst
      cases a with
      | none => exact fun _ => hfirst rfl
      | some a => exact fun hnone => Nat.lt_of_le_of_lt hle ((hF a s₁ hp).complains hnone)
  run_place hdepth hfew := by
    have hdepth' := (p.onward s).depth
    have hfirst := h.run_place hdepth (hfew.imp_right (few_of_onward (onward_bind q G _)))
    rw [run_bind, hfirst] at hfew ⊢
    rw [run_bind]
    cases hp : p.run s with
    | mk a s₁ =>
      rw [hp] at hfew hdepth'
      cases a with
      | none => rfl
      | some a => exact (hF a s₁ hp).run_place (Nat.le_trans (Nat.le_of_eq hdepth') hdepth) hfew

theorem bind (h : Agrees r f p q s)
    (hF : ∀ a s', s'.rest.length ≤ s.rest.length → Agrees r g (F a) (G (f a)) s') :
    Agrees r g (p >>= F) (q >>= G) s := by
  refine h.bind_run fun a s' hp => hF a s' ?_
  have hle := p.rest_le s
  rwa [hp] at hle

/-- Behind a part that takes a token. -/
theorem bind_lt (h : Agrees r f p q s)
    (htakes : ∀ a, (p.run s).1 = some a → (p.run s).2.rest.length < s.rest.length)
    (hF : ∀ a s', s'.rest.length < s.rest.length → Agrees r g (F a) (G (f a)) s') :
    Agrees r g (p >>= F) (q >>= G) s := by
  refine h.bind_run fun a s' hp => hF a s' ?_
  have hlt := htakes a (congrArg Prod.fst hp)
  rwa [hp] at hlt

theorem pure {a b : α} (h : f a = b) : Agrees r f (Pure.pure a) (Pure.pure b) s where
  complains := nofun
  run_place _ _ := by
    rw [← h]
    rfl

/-- The guard does nothing at a place that is not nested too deep. -/
theorem guard (h : Agrees r f p q s) : Agrees r f p (r.setting.guard q) s where
  complains := h.complains
  run_place hdepth hfew := by
    have hguard := r.guard_run q (r.place s) hdepth
    rw [hguard] at hfew ⊢
    exact h.run_place hdepth hfew

theorem failAt (c : Cause) : Agrees r f (failAt c) (failAt c) s where
  complains _ := by
    change s.faults.length < (s.faults ++ _).length
    simp
  run_place _ _ := by
    change (none, (r.place s).report _) = (none, r.place (s.report _))
    rw [Rerun.report_place]
    rfl

theorem complainOf (x : Fault) : Agrees r id (complainOf x) (complainOf x) s where
  complains := nofun
  run_place _ _ := by
    change (some (), (r.place s).report _) = (some (), r.place (s.report _))
    rw [Rerun.report_place]

/-- What is looked up at the cursor may be the same only as long as there are few faults. -/
theorem look_bind {h : Cursor → α} {F G : α → Parser β}
    (hh : r.faults = [] ∨ (r.faults ++ s.faults).length < maxErrors → h (r.place s) = h s)
    (hF : Agrees r g (F (h s)) (G (h s)) s) : Agrees r g (look h >>= F) (look h >>= G) s where
  complains := hF.complains
  run_place hdepth hfew := by
    have heq : h (r.place s) = h s :=
      hh (hfew.imp_right (few_of_onward ((Parser.look h >>= G).onward (r.place s))))
    have hrun : (Parser.look h >>= G).run (r.place s) = (G (h (r.place s))).run (r.place s) := rfl
    rw [hrun, heq] at hfew ⊢
    exact hF.run_place hdepth hfew

theorem take : Agrees r id take take s where
  complains := nofun
  run_place _ _ := by
    change (some s.here, (r.place s).advance) = (some s.here, r.place s.advance)
    rw [Rerun.advance_place]

theorem node (sp : Span) {x y : Mark → α} (h : ∀ m, f (x m) = y ((Relabeling.shift r.shift).mark m)) :
    Agrees r f (node sp x) (node sp y) s where
  complains := nofun
  run_place _ _ := by
    unfold Parser.node Rerun.place
    dsimp only
    rw [Option.map_some, h, Nat.add_right_comm]
    rfl

theorem complain (c : Cause) : Agrees r id (complain c) (complain c) s :=
  look_bind (fun _ => rfl) (complainOf _)

theorem expect (y : Symbol) (e : Expectation) : Agrees r id (expect y e) (expect y e) s := by
  refine look_bind (fun _ => rfl) ?_
  split
  · exact take
  · exact failAt _

theorem expectName (e : Expectation) : Agrees r id (expectName e) (expectName e) s := by
  refine look_bind (fun _ => rfl) ?_
  split
  · exact take.bind fun _ _ _ => .pure rfl
  · exact failAt _

/-- What comes behind a symbol that may be there. -/
theorem eat_bind {y : Symbol} {F G : Bool → Parser β}
    (htrue : ∀ s', s'.rest.length < s.rest.length → Agrees r g (F true) (G true) s')
    (hfalse : Agrees r g (F false) (G false) s) : Agrees r g (eat y >>= F) (eat y >>= G) s := by
  have hat : (eat y).run s = if s.atSymbol y then (some true, s.advance) else (some false, s) := by
    change (if s.atSymbol y = true then (_ : Parser Bool) else _).run s = _
    split <;> rfl
  have heat : Agrees r id (eat y) (eat y) s := by
    refine look_bind (fun _ => rfl) ?_
    split
    · exact take.bind fun _ _ _ => .pure rfl
    · exact .pure rfl
  refine heat.bind_run fun b s' hrun => ?_
  rw [hat] at hrun
  split at hrun
  · cases hrun
    exact htrue _ ((Leads.take (Cursor.kind?_of_atSymbol ‹_›)).takes _ rfl)
  · cases hrun
    exact hfalse

theorem eatKeyword (k : Keyword) : Agrees r id (eatKeyword k) (eatKeyword k) s := by
  refine look_bind (fun _ => rfl) ?_
  split
  · exact take.bind fun _ _ _ => .pure rfl
  · exact .pure rfl

theorem spanFrom (start : Span) : Agrees r id (spanFrom start) (spanFrom start) s :=
  ⟨nofun, fun _ _ => rfl⟩

theorem deeper (hdeep : s.depth < r.limit) (h : Agrees r f p q { s with depth := s.depth + 1 }) :
    Agrees r f (deeper p) (deeper q) s where
  complains := h.complains
  run_place _ hfew := by
    have hrun := h.run_place hdeep hfew
    unfold Parser.deeper
    unfold Rerun.place at hrun ⊢
    dsimp only at hrun ⊢
    rw [hrun]

theorem nested (h : Agrees r f p q { s with depth := s.depth + 1 }) :
    Agrees r f (nested p) (nested q) s := by
  refine look_bind (fun _ => rfl) ?_
  split
  · exact failAt _
  · rename_i hdeep
    exact h.deeper (Nat.lt_of_lt_of_le (Nat.not_le.mp hdeep) r.maxNesting_le)

theorem attempt (h : Agrees r f p q s) : Agrees r (Option.map f) (attempt p) (attempt q) s where
  complains := nofun
  run_place hdepth hfew := by
    have hrun := h.run_place hdepth hfew
    unfold Parser.attempt
    dsimp only
    rw [hrun]
    rfl

theorem recovering (h : Agrees r f p q s) : Agrees r f (recovering p) (recovering q) s where
  complains hnone := by
    have hgave : (p.run s).1 = none := by
      unfold Parser.recovering at hnone
      dsimp only at hnone
      split at hnone
      · cases hnone
      · simp [*]
    exact Nat.lt_of_lt_of_le (h.complains hgave) (onward_recovering p s).faults.length_le
  run_place hdepth hfew := by
    have hrun := h.run_place hdepth (hfew.imp_right (few_of_onward (onward_recovering q _)))
    unfold Parser.recovering
    dsimp only
    rw [hrun]
    cases hp : p.run s with
    | mk a s₁ =>
      cases a with
      | some a => rfl
      | none =>
        dsimp only [Option.map]
        rw [Rerun.synchronize_place]

end Agrees

end Parser

end HostScript
