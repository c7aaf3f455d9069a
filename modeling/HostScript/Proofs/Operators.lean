import HostScript.Value.Operators

/-!
# What operators give

Which kinds of operands an operator takes, and of which kind its result is then, is a table
(`BinOp.result?`, `UnaryOp.result?`). An operator gives a result exactly for the operands that it takes,
unless a whole number is divided by zero. On whole numbers the results are those of the integers, reduced
to 32 bits.
-/

namespace HostScript

/-- The kind of the result for operands of given kinds; nothing where the operands do not fit. -/
def BinOp.result? (op : BinOp) (l r : Kind) : Option Kind :=
  match op with
  | .eq | .notEq => some .bool
  | .add | .sub | .mul | .div =>
    if l = .int ∧ r = .int then some .int
    else if l = .float ∧ r = .float then some .float
    else none
  | .less | .lessEq | .greater | .greaterEq =>
    if l = .int ∧ r = .int then some .bool
    else if l = .float ∧ r = .float then some .bool
    else none
  | .mod | .bitAnd | .bitOr | .bitXor | .shl | .shr =>
    if l = .int ∧ r = .int then some .int else none
  | .concat => if l = .string ∧ r = .string then some .string else none

def UnaryOp.result? (op : UnaryOp) (k : Kind) : Option Kind :=
  match op with
  | .not => some .bool
  | .neg => if k = .int ∨ k = .float then some k else none
  | .bitNot => if k = .int then some .int else none

/-! ### Operands -/

/-- An owning value of a scalar kind has contents of that kind. -/
theorem Value.contents_of_kind {v : Value} (h : v.isBound = false) :
    (v.kind = .int → ∃ n, v = .int n) ∧ (v.kind = .float → ∃ x, v = .float x) ∧
      (v.kind = .string → ∃ t, v = .string t) := by
  cases v <;> simp [kind, isBound] at h ⊢

namespace BinOp

variable {op : BinOp} {l r : Value} {k i j : Kind}

theorem ok_kind_iff {v : Value} (h : v.kind = i) :
    (∃ w, (Except.ok v : Except OperandFault Value) = .ok w ∧ w.kind = k) ↔ some i = some k := by
  constructor
  · rintro ⟨_, ⟨⟩, rfl⟩
    rw [h]
  · rintro ⟨⟩
    exact ⟨v, rfl, h⟩

theorem not_ints (hl : l.isBound = false) (hr : r.isBound = false)
    (h : ∀ a b, l = .int a → r = .int b → False) : ¬ (l.kind = .int ∧ r.kind = .int) := by
  rintro ⟨hlk, hrk⟩
  obtain ⟨a, rfl⟩ := (Value.contents_of_kind hl).1 hlk
  obtain ⟨b, rfl⟩ := (Value.contents_of_kind hr).1 hrk
  exact h a b rfl rfl

theorem onNumbers_ok_iff (hl : l.isBound = false) (hr : r.isBound = false)
    {onInt : Int32 → Int32 → Value} {onFloat : Float32 → Float32 → Value}
    (hi : ∀ a b, (onInt a b).kind = i) (hj : ∀ a b, (onFloat a b).kind = j) :
    (∃ v, op.onNumbers onInt onFloat l r = .ok v ∧ v.kind = k) ↔
      (if l.kind = .int ∧ r.kind = .int then some i
        else if l.kind = .float ∧ r.kind = .float then some j else none) = some k := by
  unfold onNumbers
  split
  · exact ok_kind_iff (hi _ _)
  · exact ok_kind_iff (hj _ _)
  · rename_i hint hfloat
    have hnot : ¬ (l.kind = .float ∧ r.kind = .float) := by
      rintro ⟨hlk, hrk⟩
      obtain ⟨a, rfl⟩ := (Value.contents_of_kind hl).2.1 hlk
      obtain ⟨b, rfl⟩ := (Value.contents_of_kind hr).2.1 hrk
      exact hfloat a b rfl rfl
    simp [not_ints hl hr hint, hnot]

theorem onInts_ok_iff (hl : l.isBound = false) (hr : r.isBound = false)
    {f : Int32 → Int32 → Int32} :
    (∃ v, op.onInts f l r = .ok v ∧ v.kind = k) ↔
      (if l.kind = .int ∧ r.kind = .int then some Kind.int else none) = some k := by
  unfold onInts
  split
  · exact ok_kind_iff rfl
  · rename_i hint
    simp [not_ints hl hr hint]

theorem onStrings_ok_iff (hl : l.isBound = false) (hr : r.isBound = false)
    {f : String → String → String} :
    (∃ v, op.onStrings f l r = .ok v ∧ v.kind = k) ↔
      (if l.kind = .string ∧ r.kind = .string then some Kind.string else none) = some k := by
  unfold onStrings
  split
  · exact ok_kind_iff rfl
  · rename_i hstring
    have hnot : ¬ (l.kind = .string ∧ r.kind = .string) := by
      rintro ⟨hlk, hrk⟩
      obtain ⟨a, rfl⟩ := (Value.contents_of_kind hl).2.2 hlk
      obtain ⟨b, rfl⟩ := (Value.contents_of_kind hr).2.2 hrk
      exact hstring a b rfl rfl
    simp [hnot]

theorem byZero_eq_true (h : byZero l r = true) : r = .int 0 := by
  unfold byZero at h
  split at h
  · rw [eq_of_beq h]
  · cases h

/-- A zero divides only a whole number. -/
theorem int_of_result? {x : Kind} (hop : op = .div ∨ op = .mod) (h : op.result? x .int = some k) :
    x = .int := by
  rcases hop with rfl | rfl <;> simp only [result?] at h <;> grind

/-- What comes behind the test for a zero. -/
theorem unless_byZero_ok_iff (hop : op = .div ∨ op = .mod) (hl : l.isBound = false)
    {x : Except OperandFault Value} {e : OperandFault}
    (h : (∃ v, x = .ok v ∧ v.kind = k) ↔ op.result? l.kind r.kind = some k) :
    (∃ v, (if byZero l r then .error e else x) = .ok v ∧ v.kind = k) ↔
      op.result? l.kind r.kind = some k ∧ (op = .div ∨ op = .mod → r ≠ .int 0) := by
  by_cases hzero : byZero l r = true
  · rw [if_pos hzero]
    constructor
    · rintro ⟨v, ⟨⟩, -⟩
    · rintro ⟨-, hne⟩
      exact absurd (byZero_eq_true hzero) (hne hop)
  · rw [if_neg hzero, h]
    refine (and_iff_left_of_imp fun hk _ hr => ?_).symm
    subst hr
    obtain ⟨a, rfl⟩ := (Value.contents_of_kind hl).1 (int_of_result? hop hk)
    exact hzero rfl

theorem applyOwning_ok_iff (hl : l.isBound = false) (hr : r.isBound = false) :
    (∃ v, op.applyOwning l r = .ok v ∧ v.kind = k) ↔
      op.result? l.kind r.kind = some k ∧ (op = .div ∨ op = .mod → r ≠ .int 0) := by
  cases op with
  | eq | notEq => exact (ok_kind_iff rfl).trans (and_iff_left (by simp)).symm
  | add | sub | mul | less | lessEq | greater | greaterEq =>
    refine Iff.trans ?_ (and_iff_left (by simp)).symm
    exact onNumbers_ok_iff hl hr (fun _ _ => rfl) (fun _ _ => rfl)
  | bitAnd | bitOr | bitXor | shl | shr =>
    exact (onInts_ok_iff hl hr).trans (and_iff_left (by simp)).symm
  | concat => exact (onStrings_ok_iff hl hr).trans (and_iff_left (by simp)).symm
  | div =>
    refine unless_byZero_ok_iff (.inl rfl) hl ?_
    exact onNumbers_ok_iff hl hr (fun _ _ => rfl) (fun _ _ => rfl)
  | mod => exact unless_byZero_ok_iff (.inr rfl) hl (onInts_ok_iff hl hr)

end BinOp

theorem UnaryOp.applyOwning_ok_iff {op : UnaryOp} {v : Value} {k : Kind} (hv : v.isBound = false) :
    (∃ w, op.applyOwning v = .ok w ∧ w.kind = k) ↔ op.result? v.kind = some k := by
  cases op with
  | not => exact BinOp.ok_kind_iff rfl
  | neg =>
    cases v with
    | int n => exact BinOp.ok_kind_iff rfl
    | float x => exact BinOp.ok_kind_iff rfl
    | bound c => cases hv
    | _ => simp [applyOwning, result?, Value.kind]
  | bitNot =>
    cases v with
    | int n => exact BinOp.ok_kind_iff rfl
    | bound c => cases hv
    | _ => simp [applyOwning, result?, Value.kind]

/-! ### Whole numbers -/

section

variable (a b : Int32)

/-- The count of a shift is taken modulo 32, for a negative one too. -/
theorem toNat_count : (b.toBitVec.smod 32).toNat = (b.toInt % 32).toNat := by
  have hint : (b.toBitVec.smod 32).toInt = b.toInt % 32 := by
    rw [BitVec.toInt_smod, Int32.toInt_toBitVec]
    exact Int.fmod_eq_emod_of_nonneg _ (by decide)
  have hnonneg : 0 ≤ b.toInt % 32 := Int.emod_nonneg _ (by decide)
  have hlt : b.toInt % 32 < 32 := Int.emod_lt_of_pos _ (by decide)
  rw [← hint]
  rw [BitVec.toInt_eq_toNat_cond] at hint ⊢
  split at hint <;> omega

theorem shiftLeft_eq : a <<< b = .ofInt (a.toInt * Nat.pow 2 (b.toInt % 32).toNat) := by
  symm
  rw [Int32.ofInt_eq_iff_bmod_eq_toInt, ← Int32.toInt_toBitVec (a <<< b), Int32.toBitVec_shiftLeft,
    BitVec.shiftLeft_eq', toNat_count, BitVec.toInt_shiftLeft, Nat.shiftLeft_eq, ← Int32.toInt_toBitVec a,
    BitVec.toInt_eq_toNat_bmod, Int.bmod_mul_bmod, Int.natCast_mul]
  rfl

theorem shiftRight_eq : a >>> b = .ofInt (a.toInt / Nat.pow 2 (b.toInt % 32).toNat) := by
  have hint : (a >>> b).toInt = a.toInt / Nat.pow 2 (b.toInt % 32).toNat := by
    rw [← Int32.toInt_toBitVec (a >>> b), Int32.toBitVec_shiftRight, BitVec.toInt_sshiftRight', toNat_count,
      Int32.toInt_toBitVec, Int.shiftRight_eq_div_pow]
    rfl
  rw [← hint, Int32.ofInt_toInt]

theorem div_mul_add_mod : a / b * b + a % b = a := by
  rw [← Int32.toInt_inj, Int32.toInt_add, Int32.toInt_mul, Int32.toInt_div, Int32.toInt_mod,
    Int.bmod_mul_bmod, Int.bmod_add_bmod, Int.tdiv_mul_add_tmod]
  exact a.toInt_bmod

theorem sign_mod : (a % b).toInt = 0 ∨ (a % b).toInt.sign = a.toInt.sign := by
  rw [Int32.toInt_mod, Int.sign_tmod]
  split
  · exact .inl (Int.tmod_eq_zero_of_dvd ‹_›)
  · exact .inr rfl

theorem natAbs_mod_lt {b : Int32} (h : b ≠ 0) : (a % b).toInt.natAbs < b.toInt.natAbs := by
  have hne : b.toInt ≠ 0 := fun heq => h (Int32.toInt_inj.mp heq)
  rw [Int32.toInt_mod, Int.natAbs_tmod]
  exact Nat.mod_lt _ (Int.natAbs_pos.mpr hne)

end

/-- What operators give for operands that hold the whole numbers `a` and `b`. -/
structure IntegerResults (s : Cells) (l r : Value) (a b : Int32) : Prop where
  add : BinOp.add.apply s l r = .ok (.int (.ofInt (a.toInt + b.toInt)))
  sub : BinOp.sub.apply s l r = .ok (.int (.ofInt (a.toInt - b.toInt)))
  mul : BinOp.mul.apply s l r = .ok (.int (.ofInt (a.toInt * b.toInt)))
  neg : UnaryOp.neg.apply s l = .ok (.int (.ofInt (-a.toInt)))
  shl : BinOp.shl.apply s l r = .ok (.int (.ofInt (a.toInt * Nat.pow 2 (b.toInt % 32).toNat)))
  shr : BinOp.shr.apply s l r = .ok (.int (.ofInt (a.toInt / Nat.pow 2 (b.toInt % 32).toNat)))
  /-- The quotient goes toward zero, and what is left has the sign of `a` and is less than `b`. -/
  division : b ≠ 0 → ∃ q p m : Int32,
    BinOp.div.apply s l r = .ok (.int q) ∧ q = .ofInt (a.toInt.tdiv b.toInt) ∧
    BinOp.mod.apply s l r = .ok (.int m) ∧ (m.toInt = 0 ∨ m.toInt.sign = a.toInt.sign) ∧
    m.toInt.natAbs < b.toInt.natAbs ∧
    BinOp.mul.apply s (.int q) r = .ok (.int p) ∧ BinOp.add.apply s (.int p) (.int m) = .ok (.int a)

theorem integerResults {s : Cells} {l r : Value} {a b : Int32} (hl : l.detach s = .int a)
    (hr : r.detach s = .int b) : IntegerResults s l r a b where
  add := by
    rw [BinOp.apply, hl, hr, Int32.ofInt_add, Int32.ofInt_toInt, Int32.ofInt_toInt]
    rfl
  sub := by
    rw [BinOp.apply, hl, hr, Int32.ofInt_sub, Int32.ofInt_toInt, Int32.ofInt_toInt]
    rfl
  mul := by
    rw [BinOp.apply, hl, hr, Int32.ofInt_mul, Int32.ofInt_toInt, Int32.ofInt_toInt]
    rfl
  neg := by
    rw [UnaryOp.apply, hl, Int32.ofInt_neg, Int32.ofInt_toInt]
    rfl
  shl := by
    rw [BinOp.apply, hl, hr, ← shiftLeft_eq]
    rfl
  shr := by
    rw [BinOp.apply, hl, hr, ← shiftRight_eq]
    rfl
  division hb := by
    have hzero : ¬ BinOp.byZero (.int a) (.int b) = true := fun h => hb (eq_of_beq h)
    refine ⟨a / b, a / b * b, a % b, ?_, ?_, ?_, sign_mod a b, natAbs_mod_lt a hb, ?_, ?_⟩
    · rw [BinOp.apply, hl, hr]
      exact if_neg hzero
    · rw [eq_comm, Int32.ofInt_eq_iff_bmod_eq_toInt, Int32.toInt_div]
    · rw [BinOp.apply, hl, hr]
      exact if_neg hzero
    · rw [BinOp.apply, hr]
      rfl
    · change Except.ok (Value.int (a / b * b + a % b)) = _
      rw [div_mul_add_mod]

/-! ### All operands -/

theorem BinOp.apply_ok_iff {op : BinOp} {s : Cells} {l r : Value} {k : Kind} :
    (∃ v, op.apply s l r = .ok v ∧ v.kind = k) ↔
      op.result? l.kind r.kind = some k ∧ (op = .div ∨ op = .mod → r.detach s ≠ .int 0) := by
  rw [← l.kind_detach s, ← r.kind_detach s]
  exact applyOwning_ok_iff (l.isBound_detach s) (r.isBound_detach s)

theorem UnaryOp.apply_ok_iff {op : UnaryOp} {s : Cells} {v : Value} {k : Kind} :
    (∃ w, op.apply s v = .ok w ∧ w.kind = k) ↔ op.result? v.kind = some k := by
  rw [← v.kind_detach s]
  exact applyOwning_ok_iff (v.isBound_detach s)

/-- A bound operand counts as what its cell holds, so its detached copy does as well. An operator gives a
result exactly for operands of the kinds that it takes, and the result has the kind that the table says;
only a whole number is not divided by zero. On whole numbers the results are those of the integers. -/
theorem operators_typed_and_exact (s : Cells) :
    (∀ (op : BinOp) (l r : Value), op.apply s (l.detach s) r = op.apply s l r ∧
      op.apply s l (r.detach s) = op.apply s l r) ∧
    (∀ (op : UnaryOp) (v : Value), op.apply s (v.detach s) = op.apply s v) ∧
    (∀ (op : BinOp) (l r : Value), ((∃ v, op.apply s l r = .ok v) ↔
        (op.result? l.kind r.kind).isSome ∧ (op = .div ∨ op = .mod → r.detach s ≠ .int 0)) ∧
      ∀ v, op.apply s l r = .ok v → op.result? l.kind r.kind = some v.kind) ∧
    (∀ (op : UnaryOp) (v : Value), ((∃ w, op.apply s v = .ok w) ↔ (op.result? v.kind).isSome) ∧
      ∀ w, op.apply s v = .ok w → op.result? v.kind = some w.kind) ∧
    ∀ (l r : Value) (a b : Int32), l.detach s = .int a → r.detach s = .int b →
      IntegerResults s l r a b := by
  refine ⟨fun op l r => ?_, fun op v => ?_, fun op l r => ?_, fun op v => ?_, fun l r a b => integerResults⟩
  · simp [BinOp.apply]
  · simp [UnaryOp.apply]
  · refine ⟨?_, fun v hv => (BinOp.apply_ok_iff.mp ⟨v, hv, rfl⟩).1⟩
    constructor
    · rintro ⟨v, hv⟩
      obtain ⟨hk, hzero⟩ := BinOp.apply_ok_iff.mp ⟨v, hv, rfl⟩
      exact ⟨Option.isSome_of_eq_some hk, hzero⟩
    · rintro ⟨hsome, hzero⟩
      obtain ⟨k, hk⟩ := Option.isSome_iff_exists.mp hsome
      obtain ⟨v, hv, -⟩ := BinOp.apply_ok_iff.mpr ⟨hk, hzero⟩
      exact ⟨v, hv⟩
  · refine ⟨?_, fun w hw => UnaryOp.apply_ok_iff.mp ⟨w, hw, rfl⟩⟩
    constructor
    · rintro ⟨w, hw⟩
      exact Option.isSome_of_eq_some (UnaryOp.apply_ok_iff.mp ⟨w, hw, rfl⟩)
    · intro hsome
      obtain ⟨k, hk⟩ := Option.isSome_iff_exists.mp hsome
      obtain ⟨w, hw, -⟩ := UnaryOp.apply_ok_iff.mpr hk
      exact ⟨w, hw⟩

/-- The least whole number, in a cell, by minus one: the quotient wraps and nothing is left. -/
theorem operators_typed_and_exact_least :
    let s : Cells := { Cells.empty with ints := #[-2147483648] }
    IntegerResults s (.bound (.int 0)) (.int (-1)) (-2147483648) (-1) ∧
      BinOp.div.apply s (.bound (.int 0)) (.int (-1)) = .ok (.int (-2147483648)) := by
  intro s
  have h := (operators_typed_and_exact s).2.2.2.2 (.bound (.int 0)) (.int (-1)) (-2147483648) (-1) rfl rfl
  obtain ⟨q, -, -, hdiv, rfl, -⟩ := h.division (by decide)
  exact ⟨h, hdiv⟩

end HostScript
