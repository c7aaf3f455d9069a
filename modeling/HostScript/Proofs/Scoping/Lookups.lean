import HostScript.Proofs.Scoping.Running
import HostScript.Machine.Evaluation

/-!
# Lookups by distance

Where a node is evaluated in a scope that is in line with the scopes of its visit, what it uses is found
in the scope that its distance leads to: a variable is bound, `this` is an instance, and `super` is a
class, one step out from an instance.
-/

namespace HostScript

open Resolution (thisName superName)

namespace Store

/-- From a scope outward there are as many scopes as static ones, each of which binds the names that
are marked as defined in its static scope, and behind them come the globals. -/
structure InStep (S : Store) (e : ScopeId) (ss : StaticScopes) : Prop where
  globals : S.ancestor? e ss.length = some .globals
  scopes : ∀ k sc, ss[k]? = some sc → ∃ p, S.ancestor? e k = some p ∧ p ≠ .globals ∧
    ∀ x, sc.get? x = some true → S.contains p x = true

namespace Aligned

variable {S : Store} {e : ScopeId} {ss : StaticScopes}

theorem ancestor?_length (h : S.Aligned e ss) : S.ancestor? e ss.length = some .globals := by
  induction ss generalizing e with
  | nil => exact congrArg some h
  | cons sc rest ih =>
    obtain ⟨-, p, hp, hrest⟩ := h
    rw [List.length_cons, ancestor?, hp]
    exact ih hrest

theorem mirrors {k : Nat} {sc : StaticScope} (h : S.Aligned e ss) (hk : ss[k]? = some sc) :
    ∃ p, S.ancestor? e k = some p ∧ p ≠ .globals ∧ S.Mirrors p sc := by
  induction ss generalizing e k with
  | nil => cases hk
  | cons sc' rest ih =>
    obtain ⟨hm, p, hp, hrest⟩ := h
    cases k with
    | zero =>
      cases hk
      refine ⟨e, rfl, fun heq => ?_, hm⟩
      have hlt := index_lt_of_outer? hp
      rw [heq] at hlt
      exact Nat.not_lt_zero _ hlt
    | succ k =>
      rw [ancestor?, hp]
      exact ih hrest hk

theorem inStep (h : S.Aligned e ss) : S.InStep e ss where
  globals := h.ancestor?_length
  scopes k sc hk := by
    obtain ⟨p, hp, hne, hm⟩ := h.mirrors hk
    exact ⟨p, hp, hne, hm.defined⟩

variable {d : Nat} {sc : StaticScope}

theorem getAt?_defined {x : String} (h : S.Aligned e ss) (hd : ss[d]? = some sc)
    (hx : sc.get? x = some true) : ∃ v, S.getAt? e d x = some v := by
  obtain ⟨p, hp, -, hm⟩ := h.mirrors hd
  rw [getAt?, hp]
  exact Option.isSome_iff_exists.mp (hm.defined x hx)

theorem getAt?_this (h : S.Aligned e ss) (hd : ss[d]? = some sc)
    (hthis : sc.contains thisName = true) : ∃ i, S.getAt? e d thisName = some (.instance_ i) := by
  obtain ⟨p, hp, -, hm⟩ := h.mirrors hd
  rw [getAt?, hp]
  exact hm.this hthis

theorem getAt?_super (h : S.Aligned e ss) (hd : ss[d]? = some sc)
    (hsuper : sc.contains superName = true) : ∃ k, S.getAt? e d superName = some (.class_ k) := by
  obtain ⟨p, hp, -, hm⟩ := h.mirrors hd
  rw [getAt?, hp]
  exact hm.super hsuper

end Aligned

end Store

/-! ### What a visit without faults tells -/

namespace Resolution

theorem faultIf_eq_empty {p : Bool} {c : Cause} {span : Span} {lexeme : String}
    (h : (faultIf p c span lexeme).faults = []) : p = false := by
  cases p with
  | false => rfl
  | true => cases h

end Resolution

namespace Visit

variable {v : Visit}

/-- The distance of the name that a node uses is recorded for it, and nothing else. -/
theorem mem_locals_resolution (h : v.resolution.faults = []) {p : Nat × Nat} :
    p ∈ v.resolution.locals ↔ p.1 = v.expr.id ∧ v.distance? = some p.2 := by
  refine ⟨of_mem_locals, fun hp => ?_⟩
  obtain ⟨e, ss, c⟩ := v
  unfold resolution at h ⊢
  cases e with
  | var k x =>
    dsimp only
    rw [Resolution.read, Resolution.locals_append, Resolution.locals_faultIf]
    exact Resolution.mem_locals_use.mpr hp
  | assign k x e => exact Resolution.mem_locals_use.mpr hp
  | this k =>
    cases c with
    | none => cases h
    | class_ | subclass => exact Resolution.mem_locals_use.mpr hp
  | super k x =>
    cases c with
    | none | class_ => cases h
    | subclass => exact Resolution.mem_locals_use.mpr hp
  | _ => cases hp.2

/-- A name is defined where its distance leads, unless it is that of a variable that is being
initialized. -/
theorem defined_of_not_undefined (hv : v.Placed) {x : String} (hx : v.scopes.undefined x = false)
    {d : Nat} (hd : v.scopes.distance? x = some d) :
    ∃ sc, v.scopes[d]? = some sc ∧ sc.get? x = some true := by
  obtain ⟨sc, hsc, hdeclared⟩ := StaticScopes.contains_of_distance? hd
  refine ⟨sc, hsc, ?_⟩
  obtain ⟨b, hb⟩ := Option.isSome_iff_exists.mp hdeclared
  rw [hb]
  cases d with
  | zero =>
    cases b with
    | true => rfl
    | false =>
      obtain ⟨rest, hrest⟩ := List.head?_eq_some_iff.mp (List.head?_eq_getElem? ▸ hsc)
      rw [hrest, StaticScopes.undefined, hb] at hx
      cases hx
  | succ d =>
    refine congrArg some (hv.settled sc ?_ x b hb)
    rw [← List.getElem?_tail] at hsc
    exact List.mem_of_getElem? hsc

/-- A variable that is read is defined: it is not the one that is being initialized. -/
theorem defined_of_var (hv : v.Placed) (h : v.resolution.faults = []) {k : Mark} {x : Ident}
    (he : v.expr = .var k x) {d : Nat} (hd : v.scopes.distance? x.name = some d) :
    ∃ sc, v.scopes[d]? = some sc ∧ sc.get? x.name = some true := by
  refine defined_of_not_undefined hv ?_ hd
  unfold resolution at h
  rw [he] at h
  exact Resolution.faultIf_eq_empty (List.append_eq_nil_iff.mp h).1

/-- `super` is used in a subclass only. -/
theorem subclass_of_super (h : v.resolution.faults = []) {k : Mark} {x : Ident}
    (he : v.expr = .super k x) : v.class_ = .subclass := by
  unfold resolution at h
  rw [he] at h
  cases hc : v.class_ with
  | subclass => rfl
  | none | class_ => rw [hc] at h; cases h

end Visit

/-! ### Evaluation -/

/-- If there is a distance for a node, then what the node uses is found there: any value of a variable,
an instance for `this`, a class for `super` and an instance one step within it. -/
def Expr.Found (c : Context) (m : Machine) : Expr → Prop
  | .var k x => ∀ d, c.locals k.id = some d → ∃ v, m.store.getAt? m.env d x.name = some v ∧
      Evaluation.lookUp c k.id x.name k.span.line m = .done (v.detach m.store.cells) m
  | .this k => ∀ d, c.locals k.id = some d → ∃ i,
      m.store.getAt? m.env d thisName = some (.instance_ i) ∧
      Evaluation.lookUp c k.id thisName k.span.line m = .done (.instance_ i) m
  | .super k _ => ∀ d, c.locals k.id = some d → ∃ j super this, d = j + 1 ∧
      m.store.getAt? m.env d superName = some (.class_ super) ∧
      m.store.getAt? m.env j thisName = some (.instance_ this) ∧
      Evaluation.superclass d k.span.line m = .done super m ∧
      Evaluation.receiver d k.span.line m = .done this m
  | _ => True

theorem Evaluation.lookUp_eq_done {c : Context} {m : Machine} {id d : Nat} {x : String} {v : Value}
    (line : Nat) (hd : c.locals id = some d) (hv : m.store.getAt? m.env d x = some v) :
    lookUp c id x line m = .done (v.detach m.store.cells) m := by
  unfold lookUp
  dsimp only
  rw [hd]
  dsimp only
  rw [hv]

theorem Evaluation.superclass_eq_done {m : Machine} {d : Nat} {k : ClassId} (line : Nat)
    (h : m.store.getAt? m.env d superName = some (.class_ k)) :
    superclass d line m = .done k m := by
  have hread : superclass d line m =
      (Run.ofOption (m.store.getAt? m.env d superName) (.undefinedName line superName) >>=
        fun v => Run.ofExcept v.asClass fun e => .type line (.value e)) m := rfl
  rw [hread, h]
  rfl

theorem Evaluation.receiver_eq_done {m : Machine} {d : Nat} {i : InstanceId} (line : Nat)
    (h : m.store.getAt? m.env d thisName = some (.instance_ i)) :
    receiver (d + 1) line m = .done i m := by
  have hread : receiver (d + 1) line m =
      (Run.ofOption (m.store.getAt? m.env d thisName) (.undefinedName line thisName) >>=
        fun v => Run.ofExcept v.asInstance fun e => .type line (.value e)) m := rfl
  rw [hread, h]
  rfl

/-- In line with its visit, a node finds what it uses. -/
theorem Visit.found {v : Visit} (hv : v.Placed) (h : v.resolution.faults = []) {c : Context}
    (hc : c.locals v.expr.id = v.distance?) {m : Machine} (hm : m.store.Aligned m.env v.scopes) :
    v.expr.Found c m := by
  obtain ⟨e, ss, mode⟩ := v
  cases e with
  | var k x =>
    intro d hd
    have hdist : ss.distance? x.name = some d := hc.symm.trans hd
    obtain ⟨sc, hsc, hx⟩ := Visit.defined_of_var hv h rfl hdist
    obtain ⟨u, hu⟩ := hm.getAt?_defined hsc hx
    exact ⟨u, hu, Evaluation.lookUp_eq_done _ hd hu⟩
  | this k =>
    intro d hd
    obtain ⟨sc, hsc, hx⟩ := StaticScopes.contains_of_distance? (hc.symm.trans hd)
    obtain ⟨i, hi⟩ := hm.getAt?_this hsc hx
    exact ⟨i, hi, Evaluation.lookUp_eq_done _ hd hi⟩
  | super k x =>
    intro d hd
    have hdist : ss.distance? superName = some d := hc.symm.trans hd
    obtain ⟨sc, hsc, hx⟩ := StaticScopes.contains_of_distance? hdist
    obtain ⟨j, sc', hj, hsc', hthis⟩ := hv.housed (Visit.subclass_of_super h rfl)
    obtain rfl : d = j + 1 := Option.some.inj (hdist.symm.trans hj)
    obtain ⟨p, hp⟩ := hm.getAt?_super hsc hx
    obtain ⟨i, hi⟩ := hm.getAt?_this hsc' hthis
    refine ⟨j, p, i, rfl, hp, hi, ?_, ?_⟩
    · exact Evaluation.superclass_eq_done _ hp
    · exact Evaluation.receiver_eq_done _ hi
  | _ => trivial

end HostScript
