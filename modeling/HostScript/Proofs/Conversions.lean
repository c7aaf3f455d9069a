import HostScript.Proofs.Decimal
import HostScript.Proofs.Lexing.Numerals
import HostScript.Proofs.Wp
import HostScript.Session

/-!
# Converting texts to whole numbers

What the function `int` reads is said here without it: an optional sign and digits, with blanks around
them (`Numeral.ReadsAs`). It reads exactly the texts that denote a 32-bit number in this way, and gives that
number. What `str` writes for a number is such a text, so `int` gives the number back.
-/

namespace HostScript

namespace Text

/-- A text of blanks only. -/
def Blank (cs : List Char) : Prop :=
  ∀ c ∈ cs, isBlank c = true

instance (cs : List Char) : Decidable (Blank cs) :=
  decidable_of_iff (cs.all isBlank = true) List.all_eq_true

/-- A text is what trimming leaves of it, with blanks around. -/
theorem exists_eq_trim (cs : List Char) : ∃ u v, Blank u ∧ Blank v ∧ cs = u ++ trim cs ++ v := by
  let inner := cs.dropWhile isBlank
  refine ⟨cs.takeWhile isBlank, (inner.reverse.takeWhile isBlank).reverse, ?_, ?_, ?_⟩
  · exact fun c hc => List.all_eq_true.mp List.all_takeWhile c hc
  · exact fun c hc => List.all_eq_true.mp List.all_takeWhile c (List.mem_reverse.mp hc)
  · have hinner : inner = trim cs ++ (inner.reverse.takeWhile isBlank).reverse := by
      have h := congrArg List.reverse (inner.reverse.takeWhile_append_dropWhile (p := isBlank))
      rw [List.reverse_append, List.reverse_reverse] at h
      exact h.symm
    rw [List.append_assoc, ← hinner, List.takeWhile_append_dropWhile]

theorem dropWhile_blank {u t : List Char} (hu : Blank u) (ht : ∀ c ∈ t.head?, isBlank c = false) :
    (u ++ t).dropWhile isBlank = t := by
  rw [List.dropWhile_append_of_pos hu]
  cases t with
  | nil => rfl
  | cons c t => rw [List.dropWhile_cons_of_neg (by simp [ht c rfl])]

/-- Blanks around a text without blanks are all that is trimmed. -/
theorem trim_append {u t v : List Char} (hu : Blank u) (hv : Blank v)
    (ht : ∀ c ∈ t, isBlank c = false) : trim (u ++ t ++ v) = t := by
  have hback : (v.reverse ++ t.reverse).dropWhile isBlank = t.reverse := by
    refine dropWhile_blank (fun c hc => hv c (List.mem_reverse.mp hc)) fun c hc => ?_
    exact ht c (List.mem_reverse.mp (List.mem_of_mem_head? hc))
  cases t with
  | nil =>
    have hnil : (u ++ [] ++ v).dropWhile isBlank = [] := by
      rw [List.append_nil, ← List.append_nil v, ← List.append_assoc]
      refine dropWhile_blank (fun c hc => ?_) nofun
      exact (List.mem_append.mp hc).elim (hu c) (hv c)
    rw [trim, hnil]
    rfl
  | cons c t =>
    have hfront : (u ++ c :: t ++ v).dropWhile isBlank = c :: t ++ v := by
      rw [List.append_assoc]
      refine dropWhile_blank hu ?_
      rintro _ ⟨⟩
      exact ht c (.head t)
    rw [trim, hfront, List.reverse_append, hback, List.reverse_reverse]

end Text

namespace Numeral

/-- A text is an optional sign and digits of base ten, and denotes a number. -/
def Denotes (cs : List Char) (n : Int) : Prop :=
  ∃ sign ds, cs = sign ++ ds ∧ Valid 10 (.ofList ds) ∧
    ((sign = [] ∨ sign = ['+']) ∧ n = value 10 (.ofList ds) ∨
      sign = ['-'] ∧ n = -(value 10 (.ofList ds) : Int))

/-- A text is a signed numeral with blanks around it. -/
def ReadsAs (text : String) (n : Int) : Prop :=
  ∃ u t v, text.toList = u ++ t ++ v ∧ Text.Blank u ∧ Text.Blank v ∧ Denotes t n

theorem exists_digit?_of_isDigit {c : Char} (h : c.isDigit = true) : ∃ v < 10, digit? c = some v := by
  have hall : ∀ n < 10, digit? (Char.ofNat (48 + n)) = some n := by decide
  have hrange : 48 ≤ c.toNat ∧ c.toNat ≤ 57 := by
    simpa [Char.isDigit, UInt32.le_iff_toNat_le] using h
  refine ⟨c.toNat - 48, by omega, ?_⟩
  have hc := hall (c.toNat - 48) (by omega)
  rwa [Nat.add_sub_cancel' hrange.1, Char.ofNat_toNat] at hc

theorem valid_ten_iff {ds : List Char} :
    Valid 10 (.ofList ds) ↔ ds ≠ [] ∧ ∀ c ∈ ds, c.isDigit = true := by
  have hempty : String.ofList ds = "" ↔ ds = [] := String.ofList_eq_empty_iff
  constructor
  · rintro ⟨hne, hdigits⟩
    refine ⟨mt hempty.mpr hne, fun c hc => ?_⟩
    obtain ⟨v, hlt, hv⟩ := hdigits c (by simpa using hc)
    exact isDigit_of_digit? hv hlt
  · rintro ⟨hne, hdigits⟩
    exact ⟨mt hempty.mp hne, fun c hc => exists_digit?_of_isDigit (hdigits c (by simpa using hc))⟩

theorem value_ten_eq {ds : List Char} (h : Valid 10 (.ofList ds)) :
    value 10 (.ofList ds) = Decimal.value 10 ds := by
  rw [← decimalValue_eq h, String.toList_ofList]

theorem splitSign_of_isDigit {ds : List Char} (h : ∀ c ∈ ds, c.isDigit = true) :
    Decimal.splitSign ds = (false, ds) := by
  unfold Decimal.splitSign
  split
  · next => cases h '-' (.head _)
  · next => cases h '+' (.head _)
  · rfl

/-- The sign and the digits that a text is cut into say whether it is a signed numeral, and which. -/
theorem denotes_iff_splitSign {cs : List Char} {n : Int} :
    Denotes cs n ↔ (Decimal.splitSign cs).2 ≠ [] ∧ (∀ c ∈ (Decimal.splitSign cs).2, c.isDigit = true) ∧
      n = if (Decimal.splitSign cs).1 then -(Decimal.value 10 (Decimal.splitSign cs).2 : Int)
        else Decimal.value 10 (Decimal.splitSign cs).2 := by
  constructor
  · rintro ⟨sign, ds, rfl, hvalid, hsign⟩
    obtain ⟨hne, hdigits⟩ := valid_ten_iff.mp hvalid
    rw [value_ten_eq hvalid] at hsign
    rcases hsign with ⟨rfl | rfl, rfl⟩ | ⟨rfl, rfl⟩
    · rw [List.nil_append, splitSign_of_isDigit hdigits]
      exact ⟨hne, hdigits, rfl⟩
    · exact ⟨hne, hdigits, rfl⟩
    · exact ⟨hne, hdigits, rfl⟩
  · rintro ⟨hne, hdigits, rfl⟩
    have hvalid := valid_ten_iff.mpr ⟨hne, hdigits⟩
    rw [← value_ten_eq hvalid]
    revert hvalid
    unfold Decimal.splitSign
    split
    · exact fun hvalid => ⟨['-'], _, rfl, hvalid, .inr ⟨rfl, rfl⟩⟩
    · exact fun hvalid => ⟨['+'], _, rfl, hvalid, .inl ⟨.inr rfl, rfl⟩⟩
    · exact fun hvalid => ⟨[], _, rfl, hvalid, .inl ⟨.inl rfl, rfl⟩⟩

/-- A text is read as a 32-bit number exactly if it is a signed numeral for it. -/
theorem int32?_eq_some_iff {cs : List Char} {k : Int32} :
    Decimal.int32? cs = some k ↔ Denotes cs k.toInt := by
  rw [denotes_iff_splitSign]
  have hlow : -0x80000000 ≤ k.toInt := k.le_toInt
  have hhigh : k.toInt < 0x80000000 := k.toInt_lt
  unfold Decimal.int32?
  generalize Decimal.splitSign cs = p
  obtain ⟨negative, ds⟩ := p
  dsimp only
  have hguard : (ds.isEmpty || !ds.all Char.isDigit) = true ↔
      ¬(ds ≠ [] ∧ ∀ c ∈ ds, c.isDigit = true) := by
    simp [Classical.or_iff_not_imp_left]
  by_cases hds : ds ≠ [] ∧ ∀ c ∈ ds, c.isDigit = true
  · rw [if_neg (mt hguard.mp (not_not_intro hds)), ← and_assoc, and_iff_right hds]
    generalize Decimal.value 10 ds = n
    cases negative with
    | true =>
      rw [if_pos rfl, if_pos rfl]
      split
      · rw [Option.some_inj, ← Int32.toInt_inj, Int32.toInt_ofInt_of_le (by omega) (by omega), eq_comm]
      · exact ⟨nofun, by omega⟩
    | false =>
      rw [if_neg Bool.false_ne_true, if_neg Bool.false_ne_true]
      split
      · rw [Option.some_inj, ← Int32.toInt_inj, Int32.toInt_ofNat_of_lt (by omega), eq_comm]
      · exact ⟨nofun, by omega⟩
  · rw [if_pos (hguard.mpr hds), ← and_assoc]
    exact ⟨nofun, fun h => absurd h.1 hds⟩

theorem isBlank_of_isDigit {c : Char} (h : c.isDigit = true) : Text.isBlank c = false := by
  have hall : ∀ p ∈ table, Text.isBlank p.1 = false := by decide
  obtain ⟨v, -, hv⟩ := exists_digit?_of_isDigit h
  exact hall (c, v) (mem_table hv)

/-- No character of a signed numeral is blank. -/
theorem Denotes.isBlank_eq_false {cs : List Char} {n : Int} (h : Denotes cs n) {c : Char} (hc : c ∈ cs) :
    Text.isBlank c = false := by
  obtain ⟨sign, ds, rfl, hvalid, hsign⟩ := h
  rcases List.mem_append.mp hc with hc | hc
  · rcases hsign with ⟨rfl | rfl, -⟩ | ⟨rfl, -⟩
    · cases hc
    · rw [List.mem_singleton.mp hc]
      rfl
    · rw [List.mem_singleton.mp hc]
      rfl
  · exact isBlank_of_isDigit ((valid_ten_iff.mp hvalid).2 c hc)

/-- What trimming leaves of a text decides what number it is read as. -/
theorem readsAs_iff_trim {text : String} {n : Int} :
    ReadsAs text n ↔ Denotes (Text.trim text.toList) n := by
  constructor
  · rintro ⟨u, t, v, htext, hu, hv, ht⟩
    rwa [htext, Text.trim_append hu hv fun c => ht.isBlank_eq_false]
  · intro h
    obtain ⟨u, v, hu, hv, htext⟩ := Text.exists_eq_trim text.toList
    exact ⟨u, _, v, htext, hu, hv, h⟩

/-- The decimal text of a whole number is a signed numeral for it. -/
theorem denotes_ofInt (n : Int) : Denotes (Decimal.ofInt n) n := by
  have hvalid (k : Nat) : Valid 10 (.ofList (Decimal.digits k)) :=
    valid_ten_iff.mpr ⟨Decimal.digits_ne_nil k, fun _ => Decimal.isDigit_of_mem_digits⟩
  have hvalue (k : Nat) : value 10 (.ofList (Decimal.digits k)) = k := by
    rw [value_ten_eq (hvalid k), Decimal.value_digits]
  cases n with
  | ofNat n => exact ⟨[], _, rfl, hvalid n, .inl ⟨.inl rfl, by rw [hvalue n]; rfl⟩⟩
  | negSucc n => exact ⟨['-'], _, rfl, hvalid (n + 1), .inr ⟨rfl, by rw [hvalue (n + 1)]; rfl⟩⟩

end Numeral

/-- A function on the heap is a given one of the host. -/
structure Heap.Provides (h : Heap) (f : CallableId) (b : Builtin) : Prop where
  present : h.hasCallable f = true
  native : ∃ name, h.callable f = .native name b.arity b

instance (h : Heap) (f : CallableId) (b : Builtin) : Decidable (h.Provides f b) :=
  let isNative : Callable → Bool
    | .native _ n g => n = b.arity ∧ g = b
    | _ => false
  decidable_of_iff (h.hasCallable f = true ∧ isNative (h.callable f) = true) <| by
    refine ⟨fun ⟨hpresent, hnative⟩ => ⟨hpresent, ?_⟩, fun ⟨hpresent, name, hf⟩ => ⟨hpresent, ?_⟩⟩
    · cases hf : h.callable f with
      | native name n g =>
        rw [hf] at hnative
        obtain ⟨rfl, rfl⟩ := of_decide_eq_true hnative
        exact ⟨name, rfl⟩
      | _ =>
        rw [hf] at hnative
        cases hnative
    · rw [hf]
      exact decide_eq_true ⟨rfl, rfl⟩

namespace Evaluation

variable {c : Context} {fuel : Nat} {m : Machine} {f : CallableId} {w : Value}

theorem call_provided {b : Builtin} (h : m.heap.Provides f b) {args : List Value}
    (harity : b.arity = args.length) :
    call c (fuel + 1) (.function f) args m = b.run (call c fuel) args m := by
  obtain ⟨name, hnative⟩ := h.native
  have hcheck : checkArity (Callable.native name b.arity b).arity args.length m = .done () m :=
    if_pos harity
  rw [call, callWith, callFunction, Run.demand_bind_apply h.present, Run.read_bind_apply, hnative,
    Run.bind_apply, hcheck]

/-- `int` of a text is what the text without the blanks around it is read as. -/
theorem call_int_of_string (h : m.heap.Provides f .int) {text : String}
    (hw : w.detach m.store.cells = .string text) :
    call c (fuel + 1) (.function f) [w] m =
      match Decimal.int32? (Text.trim text.toList) with
      | some k => .done (.int k) m
      | none => .fail (.type m.line (.unreadableText text .int)) m := by
  have hrun : Builtin.int.run (call c fuel) [w] m =
      (Builtin.convert .int Builtin.toInt? w >>= fun k => pure (.int k)) m := rfl
  rw [call_provided h rfl, hrun, Run.bind_apply, Builtin.convert, Run.read_bind_apply, hw, Builtin.toInt?]
  cases Decimal.int32? (Text.trim text.toList) <;> rfl

theorem call_int_eq_done_iff (h : m.heap.Provides f .int) {text : String}
    (hw : w.detach m.store.cells = .string text) {k : Int32} :
    call c (fuel + 1) (.function f) [w] m = .done (.int k) m ↔ Numeral.ReadsAs text k.toInt := by
  rw [call_int_of_string h hw, Numeral.readsAs_iff_trim, ← Numeral.int32?_eq_some_iff]
  cases Decimal.int32? (Text.trim text.toList) with
  | none => exact ⟨nofun, nofun⟩
  | some k' => simp

theorem call_int_eq_fail (h : m.heap.Provides f .int) {text : String}
    (hw : w.detach m.store.cells = .string text) (hnone : ∀ k : Int32, ¬Numeral.ReadsAs text k.toInt) :
    call c (fuel + 1) (.function f) [w] m = .fail (.type m.line (.unreadableText text .int)) m := by
  have hunread : Decimal.int32? (Text.trim text.toList) = none := by
    refine Option.eq_none_iff_forall_ne_some.mpr fun k hk => hnone k ?_
    exact Numeral.readsAs_iff_trim.mpr (Numeral.int32?_eq_some_iff.mp hk)
  rw [call_int_of_string h hw, hunread]

/-- `str` of a whole number is its decimal text. -/
theorem call_str_of_int (h : m.heap.Provides f .string) {k : Int32}
    (hw : w.detach m.store.cells = .int k) :
    call c (fuel + 1) (.function f) [w] m = .done (.string (.ofList (Decimal.ofInt k.toInt))) m := by
  have hrun : Builtin.string.run (call c fuel) [w] m =
      (Builtin.text w >>= fun text => pure (.string text)) m := rfl
  have hshown : w.displayable m.heap = true := by
    cases w with
    | int | bound => rfl
    | _ => cases hw
  have htext : w.display m.heap m.store.cells = .ofList (Decimal.ofInt k.toInt) := by
    rw [Value.display, hw, Value.owningText]
  rw [call_provided h rfl, hrun, Run.bind_apply, Builtin.text, Run.demand_bind_apply hshown, Run.read, htext]
  rfl

end Evaluation

/-- `int` reads exactly the texts that are a signed numeral for a 32-bit number, with blanks around it, and
gives this number; any other text is a type fault. What `str` writes for a number is read as the number. -/
theorem Evaluation.int_inverts_str (c : Context) (fuel : Nat) {m : Machine} {int str : CallableId}
    (hint : m.heap.Provides int .int) (hstr : m.heap.Provides str .string) :
    (∀ w k, w.detach m.store.cells = .int k →
      ∃ text, call c (fuel + 1) (.function str) [w] m = .done (.string text) m ∧
        ∀ u v : String, Text.Blank u.toList → Text.Blank v.toList →
          call c (fuel + 1) (.function int) [.string (u ++ text ++ v)] m = .done (.int k) m) ∧
    ∀ w text, w.detach m.store.cells = .string text →
      (∀ n : Int, (∃ k, call c (fuel + 1) (.function int) [w] m = .done (.int k) m ∧ k.toInt = n) ↔
        Numeral.ReadsAs text n ∧ -0x80000000 ≤ n ∧ n ≤ 0x7FFFFFFF) ∧
      ((¬∃ n, Numeral.ReadsAs text n ∧ -0x80000000 ≤ n ∧ n ≤ 0x7FFFFFFF) →
        call c (fuel + 1) (.function int) [w] m =
          .fail (.type m.line (.unreadableText text .int)) m) := by
  refine ⟨fun w k hw => ?_, fun w text hw => ⟨fun n => ⟨?_, ?_⟩, fun hnone => ?_⟩⟩
  · refine ⟨_, call_str_of_int hstr hw, fun u v hu hv => ?_⟩
    rw [call_int_eq_done_iff hint rfl]
    exact ⟨_, _, _, by simp, hu, hv, Numeral.denotes_ofInt k.toInt⟩
  · rintro ⟨k, hk, rfl⟩
    exact ⟨(call_int_eq_done_iff hint hw).mp hk, k.le_toInt, Int.le_of_lt_add_one k.toInt_lt⟩
  · rintro ⟨hn, hlow, hhigh⟩
    have hk : (Int32.ofInt n).toInt = n := Int32.toInt_ofInt_of_le (by omega) (by omega)
    exact ⟨.ofInt n, (call_int_eq_done_iff hint hw).mpr (hk.symm ▸ hn), hk⟩
  · refine call_int_eq_fail hint hw fun k hk => hnone ⟨_, hk, k.le_toInt, ?_⟩
    exact Int.le_of_lt_add_one k.toInt_lt

/-- In a new session: the least number, whose magnitude is no 32-bit number, a numeral with a sign and leading
zeros, one that is past the largest number, and a text with two signs. -/
theorem Evaluation.int_inverts_str_new :
    let s := Session.new 8 (.ofInput [])
    let m := s.machine
    let int (w : Value) := call s.context 1 (.function ⟨0⟩) [w] m
    let str (w : Value) := call s.context 1 (.function ⟨3⟩) [w] m
    (m.heap.Provides ⟨0⟩ .int ∧ m.heap.Provides ⟨3⟩ .string) ∧
      (∃ text, str (.int (-2147483648)) = .done (.string text) m ∧
        int (.string ("\t " ++ text ++ "\n")) = .done (.int (-2147483648)) m) ∧
      (∃ k, int (.string " +007") = .done (.int k) m ∧ k.toInt = 7) ∧
      (¬∃ k, int (.string "2147483648") = .done (.int k) m ∧ k.toInt = 2147483648) ∧
      int (.string "+-7") = .fail (.type m.line (.unreadableText "+-7" .int)) m := by
  intro s m int str
  have hint : m.heap.Provides ⟨0⟩ .int := by decide +kernel
  have hstr : m.heap.Provides ⟨3⟩ .string := by decide +kernel
  obtain ⟨hinverts, hreads⟩ := int_inverts_str s.context 0 hint hstr
  have hseven : Numeral.ReadsAs " +007" 7 := by
    refine ⟨[' '], "+007".toList, [], rfl, by decide, nofun, ['+'], "007".toList, rfl, by decide, ?_⟩
    exact .inl ⟨.inr rfl, by decide⟩
  have hsigns : ¬∃ n, Numeral.ReadsAs "+-7" n ∧ -0x80000000 ≤ n ∧ n ≤ 0x7FFFFFFF := by
    rintro ⟨n, hn, -⟩
    have hdigits := (Numeral.denotes_iff_splitSign.mp (Numeral.readsAs_iff_trim.mp hn)).2.1
    exact absurd (hdigits '-' (by decide)) (by decide)
  refine ⟨⟨hint, hstr⟩, ?_, ?_, ?_, ?_⟩
  · obtain ⟨text, htext, hback⟩ := hinverts (.int (-2147483648)) _ rfl
    exact ⟨text, htext, hback "\t " "\n" (by decide) (by decide)⟩
  · exact ((hreads (.string " +007") _ rfl).1 7).mpr ⟨hseven, by decide, by decide⟩
  · rw [(hreads (.string "2147483648") _ rfl).1 2147483648]
    exact fun h => absurd h.2.2 (by decide)
  · exact (hreads (.string "+-7") _ rfl).2 hsigns

end HostScript
