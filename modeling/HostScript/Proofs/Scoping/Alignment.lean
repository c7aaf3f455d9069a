import HostScript.Proofs.Scoping.Known
import HostScript.Proofs.Stored

/-!
# Scopes in line with those of resolution

`S.Aligned e ss`: from the scope `e` outward there is one scope for each of the static scopes `ss`, which
binds the names that are marked as defined there, and behind them come the globals. Scopes are opened and
names are bound, but no scope gets another scope around it and no name is unbound, so scopes that are in
line stay in line.
-/

namespace HostScript

open Resolution (thisName superName)

namespace Store

/-- A scope binds what is defined in a static scope; `this` is an instance and `super` a class. -/
structure Mirrors (S : Store) (e : ScopeId) (sc : StaticScope) : Prop where
  defined : ∀ x, sc.get? x = some true → S.contains e x = true
  this : sc.contains thisName = true → ∃ i, S.own? e thisName = some (.instance_ i)
  super : sc.contains superName = true → ∃ k, S.own? e superName = some (.class_ k)

def Aligned (S : Store) : ScopeId → StaticScopes → Prop
  | e, [] => e = .globals
  | e, sc :: rest => S.Mirrors e sc ∧ ∃ p, S.outer? e = some p ∧ S.Aligned p rest

/-- A later store: scopes stay where they are and names stay bound, the reserved ones to what they
were bound to. -/
structure Grows (S S' : Store) : Prop where
  size : S.scopes.size ≤ S'.scopes.size
  outer : ∀ {e p}, S.outer? e = some p → S'.outer? e = some p
  contains : ∀ {e x}, S.contains e x = true → S'.contains e x = true
  reserved : ∀ {e x v}, Reserved x → S.own? e x = some v → S'.own? e x = some v

namespace Grows

variable {S S' S'' : Store}

theorem refl (S : Store) : S.Grows S :=
  ⟨Nat.le_refl _, id, id, fun _ => id⟩

theorem trans (h : S.Grows S') (h' : S'.Grows S'') : S.Grows S'' :=
  ⟨Nat.le_trans h.size h'.size, fun hp => h'.outer (h.outer hp),
    fun hx => h'.contains (h.contains hx), fun hr hv => h'.reserved hr (h.reserved hr hv)⟩

theorem withCells (S : Store) (cs : Cells) : S.Grows { S with cells := cs } :=
  ⟨Nat.le_refl _, id, id, fun _ => id⟩

end Grows

variable {S S' : Store} {e p : ScopeId} {x : String} {ss : StaticScopes}

/-- Only scopes that were opened lie in another. -/
theorem index_lt_size_of_outer? (h : S.outer? e = some p) : e.index < S.scopes.size := by
  refine Nat.lt_of_not_le fun hle => ?_
  unfold outer? scope at h
  rw [Array.getD_eq_getD_getElem?, Array.getElem?_eq_none hle] at h
  cases h

theorem grows_open (S : Store) (sc : Scope) : S.Grows (S.open sc).2 := by
  have hold : ∀ e : ScopeId, e.index < S.scopes.size → (S.open sc).2.scope e = S.scope e := by
    intro e hlt
    rw [scope_open, if_neg (Nat.ne_of_lt hlt)]
  refine ⟨?_, ?_, ?_, ?_⟩
  · simp [«open»]
  · intro e p hp
    unfold outer? at hp ⊢
    rw [hold e (index_lt_size_of_outer? hp)]
    exact hp
  · intro e x hx
    obtain ⟨v, hv⟩ := Option.isSome_iff_exists.mp hx
    unfold contains own?
    rw [hold e (index_lt_size_of_own? hv)]
    exact hx
  · intro e x v _ hv
    unfold own?
    rw [hold e (index_lt_size_of_own? hv)]
    exact hv

theorem grows_define (S : Store) (e : ScopeId) (hx : ¬ Reserved x) (v : Value) :
    S.Grows (S.define e x v) := by
  refine ⟨?_, ?_, ?_, ?_⟩
  · simp [define]
  · intro e' p hp
    unfold outer? at hp ⊢
    rw [scope_define]
    split
    · rename_i heq
      rw [heq.1] at hp
      exact heq.1 ▸ hp
    · exact hp
  · intro e' y hy
    unfold contains own? at hy ⊢
    rw [scope_define]
    split
    · rename_i heq
      rw [Bindings.get?_insert]
      split
      · rfl
      · exact heq.1 ▸ hy
    · exact hy
  · intro e' y w hy hw
    unfold own? at hw ⊢
    rw [scope_define]
    split
    · rename_i heq
      rw [Bindings.get?_insert, if_neg (hy.ne hx)]
      exact heq.1 ▸ hw
    · exact hw

/-- A name is bound once it is defined. -/
theorem contains_define (h : e.index < S.scopes.size) (v : Value) :
    (S.define e x v).contains e x = true := by
  unfold contains own?
  rw [scope_define, if_pos ⟨rfl, h⟩, Bindings.get?_insert_self]
  rfl

theorem Mirrors.mono {sc : StaticScope} (h : S.Mirrors e sc) (hg : S.Grows S') :
    S'.Mirrors e sc where
  defined y hy := hg.contains (h.defined y hy)
  this ht := (h.this ht).imp fun _ hi => hg.reserved (.inl rfl) hi
  super hs := (h.super hs).imp fun _ hk => hg.reserved (.inr rfl) hk

/-- A new scope mirrors what its first bindings mirror. -/
theorem mirrors_open (S : Store) {vars : Bindings Value} (p : ScopeId) {sc : StaticScope}
    (hdefined : ∀ x, sc.get? x = some true → vars.contains x = true)
    (hthis : sc.contains thisName = true → ∃ i, vars.get? thisName = some (.instance_ i))
    (hsuper : sc.contains superName = true → ∃ k, vars.get? superName = some (.class_ k)) :
    (S.open ⟨vars, some p⟩).2.Mirrors ⟨S.scopes.size⟩ sc := by
  have hown : ∀ x, (S.open ⟨vars, some p⟩).2.own? ⟨S.scopes.size⟩ x = vars.get? x := by
    intro x
    unfold own?
    rw [scope_open, if_pos rfl]
  refine ⟨fun x hx => ?_, fun ht => ?_, fun hs => ?_⟩
  · unfold contains
    rw [hown]
    exact hdefined x hx
  · rw [hown]
    exact hthis ht
  · rw [hown]
    exact hsuper hs

namespace Aligned

theorem mono (h : S.Aligned e ss) (hg : S.Grows S') : S'.Aligned e ss := by
  induction ss generalizing e with
  | nil => exact h
  | cons sc rest ih =>
    obtain ⟨hm, p, hp, hrest⟩ := h
    exact ⟨hm.mono hg, p, hg.outer hp, ih hrest⟩

theorem index_lt (h : S.Aligned e ss) (hpos : 0 < S.scopes.size) : e.index < S.scopes.size := by
  cases ss with
  | nil => rw [show e = .globals from h]; exact hpos
  | cons sc rest =>
    obtain ⟨-, p, hp, -⟩ := h
    exact index_lt_size_of_outer? hp

/-- A new scope over scopes that are in line. -/
theorem «open» (h : S.Aligned p ss) (hpos : 0 < S.scopes.size) {vars : Bindings Value}
    {sc : StaticScope} (hm : (S.open ⟨vars, some p⟩).2.Mirrors ⟨S.scopes.size⟩ sc) :
    (S.open ⟨vars, some p⟩).2.Aligned ⟨S.scopes.size⟩ (sc :: ss) := by
  refine ⟨hm, p, ?_, h.mono (grows_open ..)⟩
  unfold outer?
  rw [scope_open, if_pos rfl]
  exact Option.filter_eq_some_iff.mpr ⟨rfl, by simpa using h.index_lt hpos⟩

/-- A name is introduced once it is bound. -/
theorem introduce (h : S.Aligned e ss) (hx : ¬ Reserved x) (hbound : S.contains e x = true) :
    S.Aligned e (ss.introduce x) := by
  cases ss with
  | nil => exact h
  | cons sc rest =>
    obtain ⟨hm, houter⟩ := h
    obtain ⟨sc', heq, hget⟩ := StaticScopes.introduce_cons sc rest x
    have hreserved : ∀ y, Reserved y → sc'.contains y = sc.contains y := by
      intro y hy
      unfold Bindings.contains
      rw [hget, if_neg (hy.ne hx)]
    rw [heq]
    refine ⟨⟨fun y hy => ?_, fun ht => ?_, fun hs => ?_⟩, houter⟩
    · rw [hget] at hy
      split at hy
      · rename_i hyx
        exact hyx ▸ hbound
      · exact hm.defined y hy
    · exact hm.this (hreserved _ (.inl rfl) ▸ ht)
    · exact hm.super (hreserved _ (.inr rfl) ▸ hs)

/-- A name that is only declared is not bound yet. -/
theorem declare (h : S.Aligned e ss) (hx : ¬ Reserved x) : S.Aligned e (ss.declare x) := by
  cases ss with
  | nil => exact h
  | cons sc rest =>
    obtain ⟨hm, houter⟩ := h
    rw [StaticScopes.declare_cons]
    refine ⟨?_, houter⟩
    split
    · exact hm
    · have hreserved : ∀ y, Reserved y → (sc.insert x false).contains y = sc.contains y := by
        intro y hy
        unfold Bindings.contains
        rw [Bindings.get?_insert, if_neg (hy.ne hx)]
      refine ⟨fun y hy => ?_, fun ht => ?_, fun hs => ?_⟩
      · rw [Bindings.get?_insert] at hy
        split at hy
        · cases hy
        · exact hm.defined y hy
      · exact hm.this (hreserved _ (.inl rfl) ▸ ht)
      · exact hm.super (hreserved _ (.inr rfl) ▸ hs)

end Aligned

end Store

end HostScript
