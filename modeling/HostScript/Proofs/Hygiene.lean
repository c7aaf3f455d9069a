import HostScript.Proofs.Remembering

/-!
# Which scopes get new names

A scope that is there keeps the scope around it, and it keeps its names: evaluation gives it other values,
but no name goes, and one comes only where a statement declares it, in the scope in which the statement is
executed. What is declared inside a block or a call is declared in a scope that was opened for it.
-/

namespace HostScript

/-- The machine on which a computation ends, however it ends, is as asked. -/
def Outcome.EndsOn {α : Type} (P : Machine → Prop) : Outcome α → Prop
  | .done _ m | .fail _ m => P m
  | .crash | .outOfFuel => True

theorem Bindings.names_insert_of_not_contains {α : Type} {b : Bindings α} {x : String}
    (h : b.contains x = false) (a : α) : (b.insert x a).names = b.names ++ [x] := by
  obtain ⟨entries⟩ := b
  unfold contains get? at h
  unfold insert names
  induction entries with
  | nil => rfl
  | cons y rest ih =>
    by_cases hy : y.1 = x
    · simp [find, hy] at h
    · simp only [find, hy, if_false] at h
      simpa [put, hy] using ih h

/-- Names are added behind those that are there. -/
theorem Bindings.names_prefix_insert {α : Type} (b : Bindings α) (x : String) (a : α) :
    b.names <+: (b.insert x a).names := by
  cases h : b.contains x with
  | true =>
    rewrite [names_insert_of_contains h]
    exact List.prefix_rfl
  | false =>
    rw [names_insert_of_not_contains h]
    exact List.prefix_append _ _

namespace Machine

/-- The scopes of `m` are on `m'`, each within the same scope and with its names. Only those for which
`grown` holds may have got further names. -/
structure KeepsNames (grown : ScopeId → Prop) (m m' : Machine) : Prop where
  scopes_le : m.store.scopes.size ≤ m'.store.scopes.size
  parent : ∀ e : ScopeId, e.index < m.store.scopes.size →
    (m'.store.scope e).parent = (m.store.scope e).parent
  names_le : ∀ e : ScopeId, e.index < m.store.scopes.size →
    (m.store.scope e).vars.names <+: (m'.store.scope e).vars.names
  names : ∀ e : ScopeId, e.index < m.store.scopes.size → ¬ grown e →
    (m'.store.scope e).vars.names = (m.store.scope e).vars.names

variable {own declares : Prop} {grown grown' : ScopeId → Prop} {m m₁ m' : Machine}

namespace KeepsNames

theorem refl (m : Machine) : m.KeepsNames grown m :=
  ⟨Nat.le_refl _, fun _ _ => rfl, fun _ _ => List.prefix_rfl, fun _ _ _ => rfl⟩

theorem trans (h : m.KeepsNames grown m₁) (h' : m₁.KeepsNames grown m') :
    m.KeepsNames grown m' := by
  have hthere : ∀ e : ScopeId, e.index < m.store.scopes.size → e.index < m₁.store.scopes.size :=
    fun e he => Nat.lt_of_lt_of_le he h.scopes_le
  refine ⟨Nat.le_trans h.scopes_le h'.scopes_le, fun e he => ?_, fun e he => ?_, fun e he hg => ?_⟩
  · exact (h'.parent e (hthere e he)).trans (h.parent e he)
  · exact (h.names_le e he).trans (h'.names_le e (hthere e he))
  · exact (h'.names e (hthere e he) hg).trans (h.names e he hg)

theorem mono (h : m.KeepsNames grown m')
    (hg : ∀ e : ScopeId, e.index < m.store.scopes.size → grown e → grown' e) :
    m.KeepsNames grown' m' :=
  { h with names := fun e he hnot => h.names e he fun hgrown => hnot (hg e he hgrown) }

/-- Where a machine is, and how deep, does not matter. -/
theorem moved (h : m.KeepsNames grown m') (e : ScopeId) (d : Nat) :
    m.KeepsNames grown { m' with env := e, depth := d } :=
  { h with }

/-- The scope in which a block or a call goes on is none of those that were there. -/
theorem inside {sc : Scope} (h : (m.enter sc).KeepsNames (· = m.nextScope) m') :
    m.KeepsNames grown m' := by
  have hopened : m.KeepsNames (· = m.nextScope) (m.enter sc) := by
    have hsame : ∀ e : ScopeId, e.index < m.store.scopes.size →
        (m.enter sc).store.scope e = m.store.scope e := by
      intro e he
      rw [enter, Store.scope_open, if_neg (Nat.ne_of_lt he)]
    refine ⟨(extends_enter sc).scopes_le, (extends_enter sc).parent, fun e he => ?_,
      fun e he _ => ?_⟩
    · rewrite [hsame e he]
      exact List.prefix_rfl
    · rw [hsame e he]
  refine (hopened.trans h).mono fun e he hnext => ?_
  rw [hnext] at he
  exact absurd he (Nat.lt_irrefl _)

end KeepsNames

theorem Change.keepsNames (h : Change declares m m') :
    m.KeepsNames (fun e => declares ∧ e = m.env) m' := by
  refine ⟨h.extends.scopes_le, h.extends.parent, fun e he => ?_, fun e he hg => ?_⟩
  · rcases h.scope_cases he with heq | ⟨x, v, -, -, heq⟩
    · rewrite [heq]
      exact List.prefix_rfl
    · rw [heq]
      exact Bindings.names_prefix_insert _ x v
  · rcases h.scope_cases he with heq | ⟨x, v, -, henv | hbound, heq⟩
    · rw [heq]
    · exact absurd henv hg
    · rw [heq]
      exact Bindings.names_insert_of_contains hbound v

/-- Whatever is declared in blocks and calls on the way, only the scope in which the machine is gets
names. -/
theorem Evolves.keepsNames (h : Evolves own declares m m') :
    m.KeepsNames (fun e => declares ∧ e = m.env) m' := by
  induction h with
  | refl => exact .refl _
  | change h hc ih =>
    have hlast := hc.keepsNames
    rw [h.env] at hlast
    exact ih.trans hlast
  | block h hb ih ihb =>
    have hinner := ihb.mono fun _ _ hg => hg.2
    exact ih.trans (hinner.inside.moved _ _)
  | @call declares m m₁ m₂ f d closure isInit args h hf hargs hb ih ihb =>
    have hinner := ihb.mono fun _ _ hg => hg.2
    have hentered : (m₁.enter ⟨.ofList ((d.params.map (·.name)).zip args), some closure⟩).KeepsNames
        (· = m₁.nextScope) m₂ := { hinner with }
    exact ih.trans (hentered.inside.moved _ _)

end Machine

namespace Run.Evolves

variable {α : Type} {x : Run α} {own declares : Prop} {Q : α → Machine → Prop} {m : Machine}

theorem endsOn {P : Machine → Prop} (h : x.Evolves own declares Q m)
    (hP : ∀ m', Machine.Evolves own declares m m' → P m') : (x m).EndsOn P := by
  cases hx : x m with
  | done a m' => exact hP m' (h.done hx).2.1
  | fail e m' => exact hP m' (h.failed hx).2
  | crash => trivial
  | outOfFuel => trivial

theorem keepsNames (h : x.Evolves own False Q m) :
    (x m).EndsOn (m.KeepsNames fun _ => False) :=
  h.endsOn fun _ he => he.keepsNames.mono fun _ _ hg => hg.1

end Run.Evolves

/-- Evaluating an expression, calling whatever there is to call, from a script or from the host, and
executing a block leave every scope that was there with its names and within the same scope. Any other
statement adds names to no scope but the one in which it is executed. This holds on all machines and
however evaluation ends: by itself, by a return or by an error. -/
theorem scopes_hygienic :
    (∀ c n e m, (Evaluation.eval c n e m).EndsOn (m.KeepsNames fun _ => False)) ∧
    (∀ c n f args m, (Evaluation.call c n f args m).EndsOn (m.KeepsNames fun _ => False)) ∧
    (∀ c n f args m, (Evaluation.callFromHost c n f args m).EndsOn (m.KeepsNames fun _ => False)) ∧
    (∀ c n body sp m,
      (Evaluation.exec c n (.block body sp) m).EndsOn (m.KeepsNames fun _ => False)) ∧
    (∀ c n s m, (Evaluation.exec c n s m).EndsOn (m.KeepsNames fun e => e = m.env)) := by
  refine ⟨fun c n e m => ?_, fun c n f args m => ?_, fun c n f args m => ?_,
    fun c n body sp m => ?_, fun c n s m => ?_⟩
  · exact Run.Evolves.keepsNames (Evaluation.evolves_layer False c n (.eval e) m False.elim)
  · exact Run.Evolves.keepsNames (Evaluation.evolves_layer False c n (.call f args) m False.elim)
  · exact Run.Evolves.keepsNames (Evaluation.evolves_callByHost c n f False.elim)
  · have hblock : Run.Evolves (Evaluation.exec c n (.block body sp)) False False _ m :=
      Evaluation.evolves_blockStmt c n body sp
    exact hblock.keepsNames
  · refine Run.Evolves.endsOn (Evaluation.evolves_layer False c n (.exec s) m False.elim) fun m' he => ?_
    exact he.keepsNames.mono fun e _ hg => hg.2

end HostScript
