import HostScript.Proofs.Scoping.Visits

/-!
# The scopes at a visit

Where resolution comes to a node, all names of the scopes around the innermost one are marked as defined,
and so are those of the innermost one, unless the node is in the initializer of a variable. In a subclass,
the nearest scope with `super` is directly around one with `this`. So without faults, what a node uses is
defined where it is found.
-/

namespace HostScript

open Resolution (thisName superName)

namespace StaticScopes

variable {ss : StaticScopes} {x y : String}

theorem distance?_cons (sc : StaticScope) (ss : StaticScopes) (x : String) :
    distance? (sc :: ss) x = if sc.contains x then some 0 else (distance? ss x).map (· + 1) :=
  List.findIdx?_cons

/-- A name is declared in the scope that its distance leads to. -/
theorem contains_of_distance? {d : Nat} (h : ss.distance? x = some d) :
    ∃ sc, ss[d]? = some sc ∧ sc.contains x = true := by
  obtain ⟨hlt, hd, -⟩ := List.findIdx?_eq_some_iff_getElem.mp h
  exact ⟨ss[d], List.getElem?_eq_getElem hlt, hd⟩

theorem declare_cons (sc : StaticScope) (ss : StaticScopes) (x : String) :
    declare (sc :: ss) x = (if sc.contains x then sc else sc.insert x false) :: ss := by
  unfold declare
  dsimp only
  split <;> rfl

/-- A name that is introduced is marked as defined in the innermost scope. -/
theorem introduce_cons (sc : StaticScope) (ss : StaticScopes) (x : String) :
    ∃ sc', introduce (sc :: ss) x = sc' :: ss ∧
      ∀ y, sc'.get? y = if y = x then some true else sc.get? y := by
  unfold introduce
  rw [declare_cons]
  refine ⟨_, rfl, fun y => ?_⟩
  rw [Bindings.get?_insert]
  split
  · rfl
  · rename_i hy
    split
    · rfl
    · exact Bindings.get?_insert_of_ne _ _ hy

/-- The scopes of a function, with its parameters introduced. -/
theorem ofParams_eq_foldl (ss : StaticScopes) (xs : List Ident) :
    (Resolution.ofParams ss xs).1 = xs.foldl (fun ss x => ss.introduce x.name) ss := by
  induction xs generalizing ss with
  | nil => rfl
  | cons x xs ih => exact ih _

/-- The innermost scope has the parameters as well, all of them defined. -/
theorem ofParams_cons (sc : StaticScope) (ss : StaticScopes) (xs : List Ident) :
    ∃ sc', (Resolution.ofParams (sc :: ss) xs).1 = sc' :: ss ∧
      ∀ y, sc'.get? y = if y ∈ xs.map (·.name) then some true else sc.get? y := by
  rw [ofParams_eq_foldl]
  induction xs generalizing sc with
  | nil => exact ⟨sc, rfl, fun y => rfl⟩
  | cons x xs ih =>
    obtain ⟨sc₁, heq₁, hget₁⟩ := introduce_cons sc ss x.name
    obtain ⟨sc₂, heq₂, hget₂⟩ := ih sc₁
    refine ⟨sc₂, by rw [List.foldl_cons, heq₁, heq₂], fun y => ?_⟩
    rw [hget₂, hget₁]
    by_cases hy : y = x.name <;> simp [hy]

/-! ### All names are defined -/

/-- All names of the scopes are marked as defined. -/
def Settled (ss : StaticScopes) : Prop :=
  ∀ sc ∈ ss, ∀ x b, sc.get? x = some b → b = true

theorem Settled.cons {sc : StaticScope} (hsc : ∀ x b, sc.get? x = some b → b = true)
    (h : ss.Settled) : Settled (sc :: ss) :=
  List.forall_mem_cons.mpr ⟨hsc, h⟩

theorem Settled.push (h : ss.Settled) : Settled (Bindings.empty :: ss) :=
  h.cons fun _ _ hb => nomatch hb

theorem Settled.introduce (h : ss.Settled) (x : String) : (ss.introduce x).Settled := by
  cases ss with
  | nil => exact h
  | cons sc rest =>
    obtain ⟨sc', heq, hget⟩ := introduce_cons sc rest x
    rw [heq]
    refine Settled.cons (fun y b hb => ?_) (List.forall_mem_cons.mp h).2
    rw [hget] at hb
    split at hb
    · cases hb; rfl
    · exact h sc List.mem_cons_self y b hb

theorem Settled.tail (h : ss.Settled) : Settled ss.tail :=
  fun sc hsc => h sc (List.mem_of_mem_tail hsc)

theorem Settled.params (h : ss.Settled) (xs : List Ident) : (Resolution.ofParams ss xs).1.Settled := by
  rw [ofParams_eq_foldl]
  induction xs generalizing ss with
  | nil => exact h
  | cons x xs ih => exact ih (h.introduce x.name)

/-- The scopes of methods bind `this` and `super` from the start. -/
theorem Settled.methods (h : ss.Settled) (super : Option Superclass) :
    (Resolution.methodScopes ss super).Settled := by
  have hone : ∀ {ss : StaticScopes} (x : String), ss.Settled →
      Settled (Bindings.empty.insert x true :: ss) := by
    intro ss x hss
    refine hss.cons fun y b hb => ?_
    rw [Bindings.get?_insert] at hb
    split at hb
    · cases hb; rfl
    · cases hb
  cases super with
  | none => exact hone _ h
  | some p => exact hone _ (hone _ h)

theorem tail_declare (ss : StaticScopes) (x : String) : (ss.declare x).tail = ss.tail := by
  cases ss with
  | nil => rfl
  | cons sc rest => rw [declare_cons]; rfl

/-! ### `this` within `super` -/

/-- In a subclass, the nearest scope with `super` is directly around one with `this`. -/
def Housed (c : ClassMode) (ss : StaticScopes) : Prop :=
  c = .subclass → ∃ j sc, ss.distance? superName = some (j + 1) ∧ ss[j]? = some sc ∧
    sc.contains thisName = true

variable {c : ClassMode}

/-- The innermost scope may have more names, as long as `super` is none of them. -/
theorem Housed.head {sc sc' : StaticScope} (h : Housed c (sc :: ss))
    (hsuper : sc'.contains superName = sc.contains superName)
    (hthis : sc.contains thisName = true → sc'.contains thisName = true) :
    Housed c (sc' :: ss) := by
  intro hc
  obtain ⟨j, sc₁, hd, hj, hsc₁⟩ := h hc
  rw [distance?_cons, ← hsuper, ← distance?_cons] at hd
  cases j with
  | zero => cases hj; exact ⟨0, sc', hd, rfl, hthis hsc₁⟩
  | succ j => exact ⟨j + 1, sc₁, hd, hj, hsc₁⟩

theorem Housed.push (h : Housed c ss) : Housed c (Bindings.empty :: ss) := by
  intro hc
  obtain ⟨j, sc, hd, hj, hsc⟩ := h hc
  refine ⟨j + 1, sc, ?_, hj, hsc⟩
  rw [distance?_cons, hd]
  rfl

theorem Housed.declare (h : Housed c ss) (hx : x ≠ superName) : Housed c (ss.declare x) := by
  cases ss with
  | nil => exact h
  | cons sc rest =>
    rw [declare_cons]
    split
    · exact h
    · refine h.head ?_ fun hthis => ?_
      · rw [Bindings.contains_insert, beq_false_of_ne hx.symm, Bool.false_or]
      · rw [Bindings.contains_insert, hthis, Bool.or_true]

theorem Housed.introduce (h : Housed c ss) (hx : x ≠ superName) : Housed c (ss.introduce x) := by
  cases ss with
  | nil => exact h
  | cons sc rest =>
    obtain ⟨sc', heq, hget⟩ := introduce_cons sc rest x
    rw [heq]
    refine h.head ?_ fun hthis => ?_
    · unfold Bindings.contains
      rw [hget, if_neg hx.symm]
    · unfold Bindings.contains at hthis ⊢
      rw [hget]
      split
      · rfl
      · exact hthis

/-! ### Places of statements -/

/-- What the scopes are like where a statement stands. -/
structure Regular (c : ClassMode) (ss : StaticScopes) : Prop where
  settled : ss.Settled
  housed : Housed c ss

namespace Regular

theorem topLevel : Regular .none [] :=
  ⟨nofun, nofun⟩

theorem push (h : Regular c ss) : Regular c (Bindings.empty :: ss) :=
  ⟨h.settled.push, h.housed.push⟩

theorem introduce (h : Regular c ss) (hx : x ≠ superName) : Regular c (ss.introduce x) :=
  ⟨h.settled.introduce x, h.housed.introduce hx⟩

theorem params (h : Regular c ss) {xs : List Ident} (hxs : superName ∉ xs.map (·.name)) :
    Regular c (Resolution.ofParams ss xs).1 := by
  rw [ofParams_eq_foldl]
  induction xs generalizing ss with
  | nil => exact h
  | cons x xs ih =>
    rw [List.map_cons, List.mem_cons, not_or] at hxs
    exact ih (h.introduce (Ne.symm hxs.1)) hxs.2

theorem methods (h : Regular c ss) (super : Option Superclass) :
    Regular (Resolution.classMode super) (Resolution.methodScopes ss super) := by
  refine ⟨h.settled.methods super, ?_⟩
  cases super with
  | none => exact nofun
  | some p => exact fun _ => ⟨0, _, rfl, rfl, rfl⟩

end Regular

/-- The scopes behind a statement of the grammar: at most its own name is introduced. -/
def after (ss : StaticScopes) (s : Stmt) : StaticScopes :=
  match s.declares with
  | none => ss
  | some x => ss.introduce x

theorem ofStmt_eq_after (c : Surroundings) (ss : StaticScopes) :
    ∀ {s : Stmt}, s.Conforms → (Resolution.ofStmt c ss s).1 = ss.after s
  | .ifElse _ t none _, h => by
    cases h with
    | ifElse _ _ ht htd _ _ =>
      have hthen := ofStmt_eq_after c ss ht
      unfold after at hthen
      rw [htd] at hthen
      rw [Resolution.ofStmt]
      exact hthen
  | .ifElse _ t (some e) _, h => by
    cases h with
    | ifElse _ _ ht htd he hed =>
      have hthen := ofStmt_eq_after c ss ht
      have helse := ofStmt_eq_after c ss (he e rfl)
      unfold after at hthen helse
      rw [htd] at hthen
      rw [hed e rfl] at helse
      rw [Resolution.ofStmt]
      dsimp only
      rw [hthen]
      exact helse
  | .while_ _ body _, h => by
    cases h with
    | while_ _ _ hbody hd =>
      have hone := ofStmt_eq_after c ss hbody
      unfold after at hone
      rw [hd] at hone
      rw [Resolution.ofStmt]
      exact hone
  | .var _ _ _, _ | .block _ _, _ | .function _, _ | .class_ _ _ _ _, _ | .print _ _, _
  | .return_ _ _, _ | .expr _ _, _ => by
    rw [Resolution.ofStmt]
    rfl

theorem Regular.after (h : Regular c ss) {s : Stmt} (hs : superName ∉ s.names) :
    Regular c (ss.after s) := by
  unfold StaticScopes.after
  split
  · exact h
  · rename_i x hx
    exact h.introduce fun heq => hs (heq ▸ Stmt.mem_names_of_declares hx)

end StaticScopes

/-! ### Places of nodes -/

/-- What the scopes are like where resolution comes to a node. -/
structure Visit.Placed (v : Visit) : Prop where
  settled : StaticScopes.Settled v.scopes.tail
  housed : StaticScopes.Housed v.class_ v.scopes

open StaticScopes

theorem Visit.placed_of_mem_ofNodes {ss : StaticScopes} {c : ClassMode} {nodes : List Expr}
    {v : Visit} (h : Regular c ss) (hv : v ∈ Visit.ofNodes ss c nodes) : v.Placed := by
  obtain ⟨-, hss, hc⟩ := Visit.mem_ofNodes.mp hv
  exact ⟨hss ▸ h.settled.tail, hss ▸ hc ▸ h.housed⟩

mutual

theorem Stmt.placed {c : Surroundings} {ss : StaticScopes} :
    ∀ {s : Stmt}, s.Conforms → superName ∉ s.names → Regular c.class_ ss →
      ∀ v ∈ s.visits c ss, v.Placed
  | .var x init _, _, hn, hr => by
    intro v hv
    rw [Stmt.names, List.mem_cons, not_or] at hn
    obtain ⟨-, hss, hc⟩ := Visit.mem_ofNodes.mp hv
    -- The name is declared but not yet defined, so only the scopes further out are settled.
    refine ⟨?_, hss ▸ hc ▸ hr.housed.declare (Ne.symm hn.1)⟩
    rw [hss, tail_declare]
    exact hr.settled.tail
  | .block body _, h, hn, hr => by
    cases h with
    | block _ hbody =>
      rw [Stmt.names] at hn
      rw [Stmt.visits]
      exact Stmt.placed_list hbody hn hr.push
  | .ifElse cond t none _, h, hn, hr => by
    cases h with
    | ifElse _ _ ht _ _ _ =>
      rw [Stmt.names, List.mem_append, not_or] at hn
      rw [Stmt.visits]
      exact List.forall_mem_append.mpr
        ⟨fun _ => Visit.placed_of_mem_ofNodes hr, Stmt.placed ht hn.2 hr⟩
  | .ifElse cond t (some e) _, h, hn, hr => by
    cases h with
    | ifElse _ _ ht _ he _ =>
      rw [Stmt.names, List.mem_append, List.mem_append, not_or, not_or] at hn
      -- Resolution goes on from the first branch to the second with the scopes that it left.
      have hthen : Regular c.class_ (Resolution.ofStmt c ss t).1 :=
        ofStmt_eq_after c ss ht ▸ hr.after hn.1.2
      rw [Stmt.visits]
      refine List.forall_mem_append.mpr ⟨List.forall_mem_append.mpr ⟨?_, ?_⟩, ?_⟩
      · exact fun _ => Visit.placed_of_mem_ofNodes hr
      · exact Stmt.placed ht hn.1.2 hr
      · exact Stmt.placed (he e rfl) hn.2 hthen
  | .while_ cond body _, h, hn, hr => by
    cases h with
    | while_ _ _ hbody _ =>
      rw [Stmt.names, List.mem_append, not_or] at hn
      rw [Stmt.visits]
      exact List.forall_mem_append.mpr
        ⟨fun _ => Visit.placed_of_mem_ofNodes hr, Stmt.placed hbody hn.2 hr⟩
  | .function d, h, hn, hr => by
    cases h with
    | function hd =>
      have hx : d.name.name ≠ superName := fun heq =>
        hn (heq ▸ Stmt.mem_names_of_declares rfl)
      rw [Stmt.names] at hn
      rw [Stmt.visits]
      exact FunctionDecl.placed hd hn (hr.introduce hx)
  | .class_ x super ms _, h, hn, hr => by
    cases h with
    | class_ _ _ _ hms =>
      rw [Stmt.names, List.mem_cons, not_or] at hn
      have hinner := hr.introduce (Ne.symm hn.1)
      rw [Stmt.visits]
      exact List.forall_mem_append.mpr ⟨fun _ => Visit.placed_of_mem_ofNodes hinner,
        FunctionDecl.placed_list hms hn.2 (hinner.methods super)⟩
  | .print _ _, _, _, hr | .return_ _ _, _, _, hr | .expr _ _, _, _, hr => by
    rw [Stmt.visits]
    exact fun _ => Visit.placed_of_mem_ofNodes hr

theorem Stmt.placed_list {c : Surroundings} {ss : StaticScopes} :
    ∀ {body : List Stmt}, (∀ s ∈ body, s.Conforms) → superName ∉ Stmt.listNames body →
      Regular c.class_ ss → ∀ v ∈ Stmt.listVisits c ss body, v.Placed
  | [], _, _, _ => nofun
  | s :: rest, h, hn, hr => by
    obtain ⟨hs, hrest⟩ := List.forall_mem_cons.mp h
    rw [Stmt.listNames, List.mem_append, not_or] at hn
    have hafter : Regular c.class_ (Resolution.ofStmt c ss s).1 :=
      ofStmt_eq_after c ss hs ▸ hr.after hn.1
    rw [Stmt.listVisits]
    exact List.forall_mem_append.mpr
      ⟨Stmt.placed hs hn.1 hr, Stmt.placed_list hrest hn.2 hafter⟩

theorem FunctionDecl.placed {c : Surroundings} {ss : StaticScopes} :
    ∀ {d : FunctionDecl}, d.Conforms → superName ∉ d.names → Regular c.class_ ss →
      ∀ v ∈ d.visits c ss, v.Placed
  | ⟨x, params, body, _⟩, h, hn, hr => by
    cases h with
    | mk _ _ _ hbody =>
      rw [FunctionDecl.names, List.mem_append, List.mem_cons, not_or, not_or] at hn
      rw [FunctionDecl.visits]
      exact Stmt.placed_list hbody hn.2 (hr.push.params hn.1.2)

theorem FunctionDecl.placed_list {c : ClassMode} {ss : StaticScopes} :
    ∀ {ds : List FunctionDecl}, (∀ d ∈ ds, d.Conforms) → superName ∉ FunctionDecl.listNames ds →
      Regular c ss → ∀ v ∈ FunctionDecl.listVisits c ss ds, v.Placed
  | [], _, _, _ => nofun
  | d :: ds, h, hn, hr => by
    obtain ⟨hd, hds⟩ := List.forall_mem_cons.mp h
    rw [FunctionDecl.listNames, List.mem_append, not_or] at hn
    rw [FunctionDecl.listVisits]
    exact List.forall_mem_append.mpr
      ⟨FunctionDecl.placed hd hn.1 hr, FunctionDecl.placed_list hds hn.2 hr⟩

end

end HostScript
