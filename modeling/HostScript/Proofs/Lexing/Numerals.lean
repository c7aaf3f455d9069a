import HostScript.Proofs.Lexing.Respacing
import Mathlib.Data.Nat.Digits.Defs

/-!
# Integer literals

What a numeral denotes is said here without the lexer: a table gives what each digit counts, and the
places weigh the powers of the base. Digits alone, and digits behind the mark of a base, make up one lexeme
whatever their number, and it reads as an integer exactly if what they denote fits into 32 bits. In base
ten the sign bit is not among them; behind a mark it is.
-/

namespace HostScript

namespace Numeral

/-- The digits and what each of them counts. -/
def table : List (Char × Nat) :=
  "0123456789abcdef".toList.zipIdx ++ "ABCDEF".toList.zipIdx 10

def digit? (c : Char) : Option Nat :=
  table.lookup c

/-- A text of one or more digits of a base. -/
structure Valid (base : Nat) (text : String) : Prop where
  nonempty : text ≠ ""
  digits : ∀ c ∈ text.toList, ∃ v < base, digit? c = some v

instance (base : Nat) (text : String) : Decidable (Valid base text) :=
  decidable_of_iff (text ≠ "" ∧ text.toList.all fun c => (digit? c).any (· < base)) <| by
    simp only [List.all_eq_true, Option.any_eq_true, decide_eq_true_eq]
    constructor
    · rintro ⟨hne, hall⟩
      refine ⟨hne, fun c hc => ?_⟩
      obtain ⟨v, hv, hlt⟩ := hall c hc
      exact ⟨v, hlt, hv⟩
    · rintro ⟨hne, hdigits⟩
      refine ⟨hne, fun c hc => ?_⟩
      obtain ⟨v, hlt, hv⟩ := hdigits c hc
      exact ⟨v, hv, hlt⟩

/-- What a text of digits denotes: each digit counts as often as its place says. -/
def value (base : Nat) (text : String) : Nat :=
  Nat.ofDigits base (text.toList.reverse.filterMap digit?)

/-- A number below `2 ^ 32` whose bits are taken as two's complement. -/
def signed (n : Nat) : Int :=
  if n < 0x80000000 then n else n - 0x100000000

theorem mem_table {c : Char} {v : Nat} (h : digit? c = some v) : (c, v) ∈ table := by
  obtain ⟨l₁, l₂, heq, -⟩ := List.lookup_eq_some_iff.mp h
  rw [heq]
  simp

/-- The digits count for the lexer what they count in the table. -/
theorem digitValue_of_digit? {c : Char} {v : Nat} (h : digit? c = some v) :
    Decimal.digitValue c = v := by
  have hall : ∀ p ∈ table, Decimal.digitValue p.1 = p.2 := by decide
  exact hall (c, v) (mem_table h)

theorem isDigit_of_digit? {c : Char} {v : Nat} (h : digit? c = some v) (hv : v < 10) :
    c.isDigit = true := by
  have hall : ∀ p ∈ table, p.2 < 10 → p.1.isDigit = true := by decide
  exact hall (c, v) (mem_table h) hv

theorem isRadixDigit_of_digit? {r : Radix} {c : Char} {v : Nat} (h : digit? c = some v)
    (hv : v < r.base) : Lexer.isRadixDigit r c = true := by
  have hall : ∀ r, ∀ p ∈ table, p.2 < r.base → Lexer.isRadixDigit r p.1 = true := by
    intro r
    cases r <;> decide
  exact hall r (c, v) (mem_table h) hv

/-- Digit by digit, the lexer counts what a numeral denotes. -/
theorem decimalValue_eq {base : Nat} {text : String} (h : Valid base text) :
    Decimal.value base text.toList = value base text := by
  have hdigits : ∀ cs : List Char, (∀ c ∈ cs, ∃ v < base, digit? c = some v) →
      cs.filterMap digit? = cs.map Decimal.digitValue := by
    intro cs hcs
    induction cs with
    | nil => rfl
    | cons c cs ih =>
      obtain ⟨⟨v, -, hv⟩, hcs⟩ := List.forall_mem_cons.mp hcs
      rw [List.filterMap_cons_some hv, List.map_cons, ih hcs, digitValue_of_digit? hv]
  unfold value Decimal.value
  rw [List.filterMap_reverse, hdigits _ h.digits, Nat.ofDigits_eq_foldr, List.foldr_reverse,
    List.foldl_map]
  simp [Nat.mul_comm, Nat.add_comm]

theorem toInt_ofNat {n : Nat} (h : n < 0x100000000) : (Int32.ofNat n).toInt = signed n := by
  rw [Int32.toInt_ofNat', signed, Int.bmod_def]
  have hmod : (n : Int) % (Int32.size : Nat) = n := Int.emod_eq_of_lt (by omega) (by simp; omega)
  rw [hmod]
  simp only [Int32.size]
  split <;> split <;> omega

end Numeral

/-- The character that names a base, behind a zero. -/
def Radix.mark : Radix → Char
  | .binary => 'b'
  | .hexadecimal => 'x'

/-- A numeral with its base in front. -/
def Radix.marked (r : Radix) (text : String) : String :=
  String.ofList ['0', r.mark] ++ text

namespace Lexer

theorem scan_nil (room : Nat) (p : Position) : (scan room p []).1 = [] := by
  rcases Nat.eq_zero_or_pos room with rfl | hroom
  · rw [scan, if_pos rfl]
  · rw [(scan_of_skipGap hroom).1 rfl]

/-- A text that is one lexeme. -/
theorem scan_whole {room : Nat} (hroom : 0 < room) (p : Position) {c : Char} {cs : List Char} {l : Lexeme}
    (hc : c.isDigit = true) (h : next c cs = (l, [])) : (scan room p (c :: cs)).1 = [⟨p, l⟩] := by
  have hgap := isGap_of_isDigit hc
  have hhash : c ≠ '#' := by
    rintro rfl
    cases hc
  have hskip : skipGap false p (c :: cs) = (p, c :: cs) := by
    rw [skipGap, if_neg Bool.false_ne_true, if_neg (by simp [hgap]), if_neg hhash]
  rw [(scan_of_skipGap hroom).2 c cs hskip, h]
  dsimp only
  rw [scan_nil]

theorem next_of_isDigit {c : Char} (hc : c.isDigit = true) (cs : List Char) :
    next c cs = number c cs := by
  have hquote : c ≠ '"' := by
    rintro rfl
    cases hc
  rw [next, if_neg hquote, if_pos hc]

theorem radixNumber_digits {r : Radix} {mark : Char} {ds : List Char}
    (hds : ∀ x ∈ ds, isRadixDigit r x = true) (hne : ds ≠ []) :
    radixNumber r mark ds =
      (⟨'0' :: mark :: ds, if Decimal.value r.base ds < 0x100000000
          then .ok (.int (Int32.ofNat (Decimal.value r.base ds)))
          else .error (.integerTooLarge (String.ofList ('0' :: mark :: ds)))⟩, []) := by
  have hspan := span_apart (by cases r <;> rfl) hds apart_nil
  rw [List.append_nil] at hspan
  unfold radixNumber
  dsimp only
  rw [hspan.1, hspan.2, if_neg (by simpa using hne), fractionFollows_apart apart_nil,
    if_neg Bool.false_ne_true]

end Lexer

namespace Lexed

open Lexer

/-- The one token is an integer, written as the text. -/
structure IsInteger (l : Lexed) (text : String) (n : Int) : Prop where
  token : ∃ v sp, l.tokens = [⟨.int v, text, sp⟩] ∧ v.toInt = n
  faults : l.faults = []

/-- There is no token, and one fault, of a number that is not valid. -/
structure IsRefused (l : Lexed) : Prop where
  tokens : l.tokens = []
  fault : ∃ f, l.faults = [f] ∧ f.cause.code = 102

variable {text : String} {l : Lexeme}

theorem ofText_of_scan {ls : List Placed} (h : (scan maxErrors .start text.toList).1 = ls) :
    (ofText text).tokens = ls.filterMap (·.token?) ∧ (ofText text).faults = ls.filterMap (·.fault?) := by
  subst h
  exact ⟨rfl, rfl⟩

/-- One lexeme that reads as an integer if it is below a bound. -/
theorem integer_of_scan (h : (scan maxErrors .start text.toList).1 = [⟨.start, l⟩])
    (htext : l.text = text.toList) {n bound : Nat} {s : String}
    (hreading : l.reading = if n < bound then .ok (.int (Int32.ofNat n)) else .error (.integerTooLarge s)) :
    (n < bound → (ofText text).IsInteger text (Int32.ofNat n).toInt) ∧
      (bound ≤ n → (ofText text).IsRefused) := by
  obtain ⟨htokens, hfaults⟩ := ofText_of_scan h
  constructor
  · intro hlt
    rw [if_pos hlt] at hreading
    refine ⟨⟨Int32.ofNat n, Placed.span ⟨.start, l⟩, ?_, rfl⟩, ?_⟩
    · simp [htokens, Placed.token?, hreading, htext]
    · simp [hfaults, Placed.fault?, hreading]
  · intro hle
    rw [if_neg (Nat.not_lt.mpr hle)] at hreading
    refine ⟨?_, ⟨.integerTooLarge s, Placed.span ⟨.start, l⟩, .unnamed⟩, ?_, rfl⟩
    · simp [htokens, Placed.token?, hreading]
    · simp [hfaults, Placed.fault?, hreading]

/-- Digits of base ten are one lexeme. -/
theorem scan_decimal (h : Numeral.Valid 10 text) :
    (scan maxErrors .start text.toList).1 =
      [⟨.start, ⟨text.toList, decimalReading text.toList⟩⟩] := by
  have hdigits : ∀ c ∈ text.toList, c.isDigit = true := by
    intro c hc
    obtain ⟨v, hlt, hv⟩ := h.digits c hc
    exact Numeral.isDigit_of_digit? hv hlt
  cases hcs : text.toList with
  | nil => exact absurd (String.toList_eq_nil_iff.mp hcs) h.nonempty
  | cons c cs =>
    rw [hcs] at hdigits
    obtain ⟨hc, htail⟩ := List.forall_mem_cons.mp hdigits
    have hnumber : number c (cs ++ []) = decimal c (cs ++ []) := number_digits htail nofun
    rw [List.append_nil] at hnumber
    have hwhole := decimal_whole (c := c) htail apart_nil
    rw [List.append_nil] at hwhole
    exact scan_whole (by decide) .start hc ((next_of_isDigit hc cs).trans (hnumber.trans hwhole))

/-- Digits of a base behind its mark are one lexeme. -/
theorem scan_radix (r : Radix) (h : Numeral.Valid r.base text) :
    (scan maxErrors .start (r.marked text).toList).1 =
      [⟨.start, ⟨(r.marked text).toList, if Decimal.value r.base text.toList < 0x100000000
          then .ok (.int (Int32.ofNat (Decimal.value r.base text.toList)))
          else .error (.integerTooLarge (r.marked text))⟩⟩] := by
  have hdigits : ∀ c ∈ text.toList, isRadixDigit r c = true := by
    intro c hc
    obtain ⟨v, hlt, hv⟩ := h.digits c hc
    exact Numeral.isRadixDigit_of_digit? hv hlt
  have hne : text.toList ≠ [] := fun hnil => h.nonempty (String.toList_eq_nil_iff.mp hnil)
  have hmarked : (r.marked text).toList = '0' :: r.mark :: text.toList := by
    simp [Radix.marked]
  have hnext : next '0' (r.mark :: text.toList) = radixNumber r r.mark text.toList := by
    cases r <;> rfl
  rw [← String.ofList_toList (s := r.marked text), String.toList_ofList, hmarked]
  refine scan_whole (by decide) .start rfl ?_
  rw [hnext, radixNumber_digits hdigits hne]

end Lexed

/-- Digits of base ten read as the integer that they denote if it is at most the greatest one, and are
refused otherwise. Behind the mark of a base, digits read as the integer with the bits that they denote if
these are at most 32, and are refused otherwise. -/
theorem Lexed.integers_denote :
    (∀ text, Numeral.Valid 10 text →
      (Numeral.value 10 text ≤ 0x7FFFFFFF →
        (ofText text).IsInteger text (Numeral.value 10 text)) ∧
      (0x7FFFFFFF < Numeral.value 10 text → (ofText text).IsRefused)) ∧
    ∀ (r : Radix) text, Numeral.Valid r.base text →
      (Numeral.value r.base text < 0x100000000 →
        (ofText (r.marked text)).IsInteger (r.marked text)
          (Numeral.signed (Numeral.value r.base text))) ∧
      (0x100000000 ≤ Numeral.value r.base text → (ofText (r.marked text)).IsRefused) := by
  constructor
  · intro text h
    have hall := integer_of_scan (scan_decimal h) rfl rfl
    rw [Numeral.decimalValue_eq h] at hall
    refine ⟨fun hle => ?_, hall.2⟩
    have hint := hall.1 (Nat.lt_succ_of_le hle)
    rwa [Numeral.toInt_ofNat (by omega), Numeral.signed, if_pos (by omega)] at hint
  · intro r text h
    have hall := integer_of_scan (scan_radix r h) rfl rfl
    rw [Numeral.decimalValue_eq h] at hall
    refine ⟨fun hlt => ?_, hall.2⟩
    rw [← Numeral.toInt_ofNat hlt]
    exact hall.1 hlt

/-- The integers around the sign bit, with zeros in front, and one bit too many. -/
theorem Lexed.integers_denote_signBit :
    Numeral.Valid 10 "0002147483647" ∧ Numeral.Valid 16 "fFfffFFff" ∧
      Numeral.value 16 "fFfffFFff" = 0xFFFFFFFFF ∧
      (ofText "0002147483647").IsInteger "0002147483647" 2147483647 ∧
      (ofText "2147483648").IsRefused ∧ (ofText "0x80000000").IsInteger "0x80000000" (-2147483648) ∧
      (ofText "0b11111111111111111111111111111111").IsInteger
        "0b11111111111111111111111111111111" (-1) ∧
      (ofText "0xfFfffFFff").IsRefused := by
  obtain ⟨hdecimal, hradix⟩ := Lexed.integers_denote
  refine ⟨by decide +kernel, by decide +kernel, by decide +kernel, ?_, ?_, ?_, ?_, ?_⟩
  · exact (hdecimal "0002147483647" (by decide +kernel)).1 (by decide +kernel)
  · exact (hdecimal "2147483648" (by decide +kernel)).2 (by decide +kernel)
  · exact (hradix .hexadecimal "80000000" (by decide +kernel)).1 (by decide +kernel)
  · exact (hradix .binary "11111111111111111111111111111111" (by decide +kernel)).1
      (by decide +kernel)
  · exact (hradix .hexadecimal "fFfffFFff" (by decide +kernel)).2 (by decide +kernel)

end HostScript
