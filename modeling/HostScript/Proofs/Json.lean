import HostScript.Json.Printer
import HostScript.Json.Reader
import HostScript.Proofs.Decimal

/-!
# Reading what was written

A text that was written for a value reads as that value. `v.Fits room`: the value can be kept, since its
numbers are below `2 ^ 64` and its arrays and objects nest at most `room` deep.

In the text of a value, what stands inside an array or object is followed by a comma or a new line, and
so no number runs on into what follows it (`Ends`). The reader never runs out of fuel: each of its calls
stands for a character at least.
-/

namespace HostScript.Json

inductive Fits : Nat → Json → Prop where
  | null {room : Nat} : Fits room .null
  | bool {room : Nat} {b : Bool} : Fits room (.bool b)
  | natural {room n : Nat} (h : n < 0x10000000000000000) : Fits room (.natural n)
  | string {room : Nat} {s : String} : Fits room (.string s)
  | array {room : Nat} {vs : List Json} (h : ∀ v ∈ vs, Fits room v) : Fits (room + 1) (.array vs)
  | object {room : Nat} {ms : List (String × Json)} (h : ∀ m ∈ ms, Fits room m.2) :
      Fits (room + 1) (.object ms)

/-- What can follow a value inside another one, or the end of the text. -/
def Ends (rest : List Char) : Prop :=
  ∀ c ∈ rest.head?, c = ',' ∨ c = '\n'

theorem ends_comma (rest : List Char) : Ends (',' :: rest) := by
  rintro c ⟨⟩
  exact .inl rfl

theorem ends_newline (depth : Nat) (rest : List Char) : Ends (newline depth ++ rest) := by
  rintro c ⟨⟩
  exact .inr rfl

/-! ### Strings -/

theorem unit?_control {n : Nat} (h : n < 0x20) (rest : List Char) :
    unit? ('0' :: '0' :: hexDigit (n / 16) :: hexDigit (n % 16) :: rest) = some (n, rest) := by
  have hdigits : ∀ n < 0x20, ['0', '0', hexDigit (n / 16), hexDigit (n % 16)].all isHexDigit = true ∧
      Decimal.value 16 ['0', '0', hexDigit (n / 16), hexDigit (n % 16)] = n := by decide
  obtain ⟨hall, hvalue⟩ := hdigits n h
  rw [unit?, if_pos hall, hvalue]

theorem unicode?_control {c : Char} (h : c.toNat < 0x20) (rest : List Char) :
    unicode? ('0' :: '0' :: hexDigit (c.toNat / 16) :: hexDigit (c.toNat % 16) :: rest) =
      some (c, rest) := by
  unfold unicode?
  rw [unit?_control h]
  dsimp only
  rw [if_neg (by omega), if_neg (by omega), Char.ofNat_toNat]

theorem stringBody_escape {cs rest : List Char} {c : Char} (h : escape? true cs = some (c, rest)) :
    stringBody true ('\\' :: cs) = (stringBody true rest).map fun (s, rest) => (c :: s, rest) := by
  rw [stringBody, if_neg (by decide), if_pos rfl]
  split
  · rename_i hnone
    rw [h] at hnone
    cases hnone
  · rename_i hsome
    rw [h] at hsome
    cases hsome
    rfl

/-- A character is escaped or stands for itself. -/
theorem escapeChar_cases (c : Char) :
    (∃ e, escapeChar c = '\\' :: e ∧ ∀ rest, escape? true (e ++ rest) = some (c, rest)) ∨
      (escapeChar c = [c] ∧ c ≠ '"' ∧ c ≠ '\\' ∧ 0x20 ≤ c.toNat) := by
  unfold escapeChar
  split
  · exact .inl ⟨['"'], rfl, fun _ => by subst c; rfl⟩
  split
  · exact .inl ⟨['\\'], rfl, fun _ => by subst c; rfl⟩
  split
  · exact .inl ⟨['n'], rfl, fun _ => by subst c; rfl⟩
  split
  · exact .inl ⟨['r'], rfl, fun _ => by subst c; rfl⟩
  split
  · exact .inl ⟨['t'], rfl, fun _ => by subst c; rfl⟩
  split
  · exact .inl ⟨['b'], rfl, fun _ => by subst c; rfl⟩
  split
  · exact .inl ⟨['f'], rfl, fun _ => by subst c; rfl⟩
  split
  · rename_i hcontrol
    exact .inl ⟨_, rfl, fun rest => unicode?_control hcontrol rest⟩
  · rename_i hquote hslash _ _ _ _ _ hcontrol
    exact .inr ⟨rfl, hquote, hslash, Nat.le_of_not_lt hcontrol⟩

/-- What is written for a character is read as that character. -/
theorem stringBody_escapeChar (c : Char) (rest : List Char) :
    stringBody true (escapeChar c ++ rest) =
      (stringBody true rest).map fun (s, rest) => (c :: s, rest) := by
  rcases escapeChar_cases c with ⟨e, hchar, hescape⟩ | ⟨hchar, hquote, hslash, hcontrol⟩
  · rw [hchar]
    exact stringBody_escape (hescape rest)
  · rw [hchar, List.singleton_append, stringBody, if_neg hquote, if_neg hslash,
      if_neg (Nat.not_lt.mpr hcontrol)]

theorem stringBody_flatMap (s rest : List Char) :
    stringBody true (s.flatMap escapeChar ++ '"' :: rest) = some (s, rest) := by
  induction s with
  | nil => rw [List.flatMap_nil, List.nil_append, stringBody, if_pos rfl]
  | cons c s ih => rw [List.flatMap_cons, List.append_assoc, stringBody_escapeChar, ih]; rfl

/-! ### Numbers -/

theorem le_foldl_digits (n : Nat) (ds : List Char) :
    n ≤ ds.foldl (fun n c => n * 10 + Decimal.digitValue c) n := by
  induction ds generalizing n with
  | nil => exact Nat.le_refl n
  | cons c ds ih =>
    have hstep : n ≤ n * 10 + Decimal.digitValue c := by omega
    exact Nat.le_trans hstep (ih _)

/-- Digits that denote a number below `2 ^ 64` are all taken. -/
theorem significand_eq {n : Nat} {ds : List Char}
    (h : ds.foldl (fun n c => n * 10 + Decimal.digitValue c) n < 0x10000000000000000) :
    significand n ds = (ds.foldl (fun n c => n * 10 + Decimal.digitValue c) n, ds.length) := by
  induction ds generalizing n with
  | nil => rfl
  | cons c ds ih =>
    rw [List.foldl_cons] at h ⊢
    rw [significand, if_pos (Nat.lt_of_le_of_lt (le_foldl_digits _ ds) h), ih h]
    rfl

theorem roundHalfEven_le (num den : Nat) : Decimal.roundHalfEven num den ≤ num / den + 1 := by
  unfold Decimal.roundHalfEven
  dsimp only
  split
  · omega
  · split <;> omega

/-- Rounding goes up by less than a place, and no place weighs more than the number. -/
theorem nearest_le {n : Nat} (h : n ≠ 0) : Decimal.Binary64.nearest n ≤ 2 * n := by
  let u := Nat.pow 2 (n.log2 - 52)
  have hu : u ≤ n :=
    Nat.le_trans (Nat.pow_le_pow_right (by decide) (Nat.sub_le _ _)) (Nat.log2_self_le h)
  calc Decimal.Binary64.nearest n
      = Decimal.roundHalfEven n u * u := rfl
    _ ≤ (n / u + 1) * u := Nat.mul_le_mul_right u (roundHalfEven_le n u)
    _ = n / u * u + u := Nat.succ_mul _ _
    _ ≤ n + n := Nat.add_le_add (Nat.div_mul_le_self n u) hu
    _ = 2 * n := by omega

theorem not_overflows {n : Nat} (h : n < 0x10000000000000000) :
    Decimal.Binary64.overflows n 0 = false := by
  by_cases hzero : n = 0
  · rw [hzero]; rfl
  have hone : Decimal.Binary64.nearest (Nat.pow 10 (0 : Int).toNat) = 1 := by decide +kernel
  have hbound : 2 * 0x10000000000000000 < Decimal.Binary64.finiteBound := by decide +kernel
  have hnearest := nearest_le hzero
  unfold Decimal.Binary64.overflows
  rw [hone, Nat.mul_one]
  have hlt : ¬ Decimal.Binary64.finiteBound ≤ Decimal.Binary64.nearest n := by omega
  simp [hlt, Decimal.Binary64.maxExponent]

theorem not_isTooLarge {n : Nat} (h : n < 0x10000000000000000) :
    isTooLarge (Decimal.digits n) [] 0 = false := by
  have hvalue : (Decimal.digits n).foldl (fun n c => n * 10 + Decimal.digitValue c) 0 = n :=
    Decimal.value_digits n
  unfold isTooLarge
  rw [significand_eq (by rwa [hvalue]), hvalue]
  simpa [significand] using not_overflows h

theorem fraction?_of_ends {rest : List Char} (h : Ends rest) : fraction? rest = some ([], rest) := by
  unfold fraction?
  split
  · cases h '.' rfl <;> contradiction
  · rfl

theorem exponent?_of_ends {rest : List Char} (h : Ends rest) : exponent? rest = some ([], rest) := by
  unfold exponent?
  split
  · rfl
  · rename_i c cs
    rw [if_neg]
    rcases h c rfl with rfl | rfl <;> decide

theorem takeWhile_digits {n : Nat} {rest : List Char} (h : Ends rest) :
    (Decimal.digits n ++ rest).takeWhile Char.isDigit = Decimal.digits n ∧
      (Decimal.digits n ++ rest).dropWhile Char.isDigit = rest := by
  have hdigits : ∀ c ∈ Decimal.digits n, c.isDigit = true := fun _ => Decimal.isDigit_of_mem_digits
  rw [List.takeWhile_append_of_pos hdigits, List.dropWhile_append_of_pos hdigits]
  cases rest with
  | nil => simp
  | cons c rest => rcases h c rfl with rfl | rfl <;> simp

theorem number?_digits {n : Nat} (hn : n < 0x10000000000000000) {rest : List Char} (h : Ends rest) :
    number? true (Decimal.digits n ++ rest) = some (.natural n, rest) := by
  obtain ⟨htake, hdrop⟩ := takeWhile_digits (n := n) h
  have hminus : ∀ r, Decimal.digits n ++ rest ≠ '-' :: r := by
    intro r heq
    have hhead := congrArg List.head? heq
    rw [List.head?_append, Option.or_of_isSome (by simp [Decimal.digits_ne_nil])] at hhead
    cases Decimal.isDigit_of_mem_digits (List.mem_of_mem_head? hhead)
  -- no zero stands in front of another digit
  have hzero : ((Decimal.digits n).isEmpty ||
      ((Decimal.digits n).head? == some '0' && decide ((Decimal.digits n).length > 1))) = false := by
    by_cases hten : 10 ≤ n
    · simp [Decimal.digits_ne_nil, Decimal.head?_digits_ne hten]
    · rw [Decimal.digits, if_pos (by omega)]
      simp
  unfold number?
  split
  rename_i minus cs hsplit
  split at hsplit
  · exact absurd ‹_› (hminus _)
  · cases hsplit
    dsimp only
    rw [htake, hdrop, hzero, if_neg Bool.false_ne_true, fraction?_of_ends h]
    dsimp only
    rw [exponent?_of_ends h]
    have hlarge : isTooLarge (Decimal.digits n) [] (exponentValue []) = false := not_isTooLarge hn
    simp [hlarge]

/-! ### Values -/

/-- What a value starts with: no blank, and no bracket that closes an array. -/
def Opens (cs : List Char) : Prop :=
  ∃ c r, cs = c :: r ∧ isSpace c = false ∧ c ≠ ']'

theorem digits_eq_cons (n : Nat) :
    ∃ c cs, Decimal.digits n = c :: cs ∧ ∀ x : Char, x.isDigit = false → c ≠ x := by
  cases hdigits : Decimal.digits n with
  | nil => exact absurd hdigits (Decimal.digits_ne_nil n)
  | cons c cs =>
    have hc : c.isDigit = true := Decimal.isDigit_of_mem_digits (by rw [hdigits]; exact .head cs)
    refine ⟨c, cs, rfl, ?_⟩
    rintro x hx rfl
    rw [hc] at hx
    cases hx

theorem opens_prettyAt {room : Nat} {v : Json} (h : v.Fits room) (depth : Nat) (rest : List Char) :
    Opens (prettyAt depth v ++ rest) := by
  cases h with
  | null => exact ⟨'n', _, rfl, rfl, by decide⟩
  | @bool _ b => cases b <;> exact ⟨_, _, rfl, rfl, by decide⟩
  | @natural _ n hn =>
    obtain ⟨c, cs, hdigits, hne⟩ := digits_eq_cons n
    rw [prettyAt, hdigits]
    refine ⟨c, cs ++ rest, rfl, ?_, hne ']' rfl⟩
    simp [isSpace, hne ' ' rfl, hne '\n' rfl, hne '\t' rfl, hne '\r' rfl]
  | string => exact ⟨'"', _, rfl, rfl, by decide⟩
  | @array _ vs hvs => cases vs <;> exact ⟨'[', _, rfl, rfl, by decide⟩
  | @object _ ms hms =>
    cases ms with
    | nil => exact ⟨'\x7b', _, rfl, rfl, by decide⟩
    | cons m ms => exact ⟨'\x7b', _, rfl, rfl, by decide⟩

theorem skipSpace_of_opens {cs : List Char} (h : Opens cs) : skipSpace cs = cs := by
  obtain ⟨c, r, rfl, hc, -⟩ := h
  simp [skipSpace, hc]

theorem skipSpace_newline (depth : Nat) (cs : List Char) :
    skipSpace (newline depth ++ cs) = skipSpace cs := by
  have hblank : ∀ c ∈ newline depth, isSpace c = true := by
    intro c hc
    rcases List.mem_cons.mp hc with rfl | hc
    · rfl
    · rw [List.eq_of_mem_replicate hc]
      rfl
  exact List.dropWhile_append_of_pos hblank

section

variable {wanted : String → Bool} {room fuel depth : Nat} {rest : List Char}

theorem value?_digits {n : Nat} (hn : n < 0x10000000000000000) (h : Ends rest) :
    value? wanted (.kept room) (fuel + 1) (Decimal.digits n ++ rest) = some (.natural n, rest) := by
  have hnumber := number?_digits hn h
  obtain ⟨c, cs, hdigits, hne⟩ := digits_eq_cons n
  rw [hdigits, List.cons_append] at hnumber ⊢
  unfold value?
  split
  · exact absurd (List.cons.inj ‹_›).1 (hne 'n' rfl)
  · exact absurd (List.cons.inj ‹_›).1 (hne 't' rfl)
  · exact absurd (List.cons.inj ‹_›).1 (hne 'f' rfl)
  · exact absurd (List.cons.inj ‹_›).1 (hne '"' rfl)
  · exact absurd (List.cons.inj ‹_›).1 (hne '[' rfl)
  · exact absurd (List.cons.inj ‹_›).1 (hne '\x7b' rfl)
  · exact hnumber

theorem stringBody_quote (s : String) (rest : List Char) :
    ∃ cs, quote s ++ rest = '"' :: cs ∧ stringBody true cs = some (s.toList, rest) := by
  refine ⟨s.toList.flatMap escapeChar ++ '"' :: rest, ?_, stringBody_flatMap s.toList rest⟩
  simp [quote]

theorem value?_quote (s : String) :
    value? wanted (.kept room) (fuel + 1) (quote s ++ rest) = some (.string s, rest) := by
  obtain ⟨cs, hquote, hbody⟩ := stringBody_quote s rest
  simp [hquote, value?, Purpose.isKept, hbody]

/-- Reading the text of a value, with as much fuel as there are characters and if all members are wanted. -/
def Rereads (room : Nat) (v : Json) : Prop :=
  ∀ wanted depth fuel rest, (∀ ms, v = .object ms → ∀ m ∈ ms, wanted m.1 = true) →
    (prettyAt depth v).length ≤ fuel → Ends rest →
      value? wanted (.kept room) fuel (prettyAt depth v ++ rest) = some (v, rest)

/-- Inside an array or object all members are wanted. -/
theorem Rereads.inner {v : Json} (h : Rereads room v) (hfuel : (prettyAt depth v).length ≤ fuel)
    (hrest : Ends rest) :
    value? (fun _ => true) (.kept room) fuel (prettyAt depth v ++ rest) = some (v, rest) :=
  h _ depth fuel rest (fun _ _ _ _ => rfl) hfuel hrest

theorem prettyItems_append (depth : Nat) (w : Json) (vs : List Json) (tail : List Char) :
    prettyItems depth (w :: vs) ++ tail =
      ',' :: (newline depth ++ (prettyAt depth w ++ (prettyItems depth vs ++ tail))) := by
  simp [prettyItems]

theorem prettyMembers_append (depth : Nat) (k : String) (w : Json) (ms : List (String × Json))
    (tail : List Char) :
    prettyMembers depth ((k, w) :: ms) ++ tail =
      ',' :: (newline depth ++ (quote k ++ (':' :: ' ' ::
        (prettyAt depth w ++ (prettyMembers depth ms ++ tail))))) := by
  simp [prettyMembers]

theorem items?_pretty {v : Json} {vs : List Json} (h : ∀ w ∈ v :: vs, w.Fits room ∧ Rereads room w)
    (hfuel : 1 + (prettyAt (depth + 1) v).length + (prettyItems (depth + 1) vs).length ≤ fuel) :
    items? (.kept room) fuel
        (prettyAt (depth + 1) v ++ (prettyItems (depth + 1) vs ++ (newline depth ++ ']' :: rest))) =
      some (v :: vs, rest) := by
  induction vs generalizing v fuel with
  | nil =>
    obtain ⟨fuel, rfl⟩ := Nat.exists_eq_succ_of_ne_zero (n := fuel) (by omega)
    have hv := (h v (.head _)).2
    rw [items?, prettyItems, List.nil_append, hv.inner (by omega) (ends_newline _ _)]
    dsimp only
    rw [skipSpace_newline]
    rfl
  | cons w vs ih =>
    obtain ⟨fuel, rfl⟩ := Nat.exists_eq_succ_of_ne_zero (n := fuel) (by omega)
    obtain ⟨⟨-, hv⟩, htail⟩ := List.forall_mem_cons.mp h
    have hopens := opens_prettyAt (htail w (.head _)).1 (depth + 1)
      (prettyItems (depth + 1) vs ++ (newline depth ++ ']' :: rest))
    have hlength := congrArg List.length (prettyItems_append (depth + 1) w vs [])
    simp only [List.length_cons, List.length_append, List.append_nil] at hlength
    rw [items?, prettyItems_append, hv.inner (by omega) (ends_comma _)]
    change Option.map _ (items? _ _ (skipSpace (newline _ ++ _))) = _
    rw [skipSpace_newline, skipSpace_of_opens hopens, ih htail (by omega)]
    rfl

/-- The first member of an object. Behind a comma others follow, and a brace ends the object. -/
theorem members?_quote {k : String} {v : Json} {tail : List Char} (hfits : v.Fits room)
    (h : Rereads room v) (hk : wanted k = true) (hfuel : (prettyAt depth v).length ≤ fuel)
    (htail : Ends tail) :
    (∀ rest, skipSpace tail = ',' :: rest →
      members? wanted (.kept room) (fuel + 1) (quote k ++ (':' :: ' ' :: (prettyAt depth v ++ tail))) =
        (members? wanted (.kept room) fuel (skipSpace rest)).map fun (ms, rest) => ((k, v) :: ms, rest)) ∧
    ∀ rest, skipSpace tail = '\x7d' :: rest →
      members? wanted (.kept room) (fuel + 1) (quote k ++ (':' :: ' ' :: (prettyAt depth v ++ tail))) =
        some ([(k, v)], rest) := by
  obtain ⟨cs, hquote, hbody⟩ := stringBody_quote k (':' :: ' ' :: (prettyAt depth v ++ tail))
  have hcolon : skipSpace (':' :: ' ' :: (prettyAt depth v ++ tail)) =
      ':' :: ' ' :: (prettyAt depth v ++ tail) := rfl
  have hblank : skipSpace (' ' :: (prettyAt depth v ++ tail)) = prettyAt depth v ++ tail :=
    skipSpace_of_opens (opens_prettyAt hfits depth tail)
  constructor <;> intro rest hrest <;>
    simp only [hquote, members?, Purpose.isKept, hbody, hcolon, String.ofList_toList, hk, if_true,
      hblank, h.inner hfuel htail, List.singleton_append, hrest]

theorem members?_pretty (depth : Nat) (rest : List Char) {k : String} {v : Json}
    {ms : List (String × Json)}
    (h : ∀ m ∈ (k, v) :: ms, m.2.Fits room ∧ Rereads room m.2)
    (hwanted : ∀ m ∈ (k, v) :: ms, wanted m.1 = true)
    (hfuel : 1 + (prettyAt (depth + 1) v).length + (prettyMembers (depth + 1) ms).length ≤ fuel) :
    members? wanted (.kept room) fuel
        (quote k ++ (':' :: ' ' :: (prettyAt (depth + 1) v ++
          (prettyMembers (depth + 1) ms ++ (newline depth ++ '\x7d' :: rest))))) =
      some ((k, v) :: ms, rest) := by
  induction ms generalizing k v fuel with
  | nil =>
    obtain ⟨fuel, rfl⟩ := Nat.exists_eq_succ_of_ne_zero (n := fuel) (by omega)
    obtain ⟨hfits, hv⟩ : v.Fits room ∧ Rereads room v := h (k, v) (.head _)
    rw [prettyMembers, List.nil_append]
    refine (members?_quote hfits hv (hwanted _ (.head _)) (by omega) (ends_newline _ _)).2 rest ?_
    rw [skipSpace_newline]
    rfl
  | cons m ms ih =>
    obtain ⟨l, w⟩ := m
    obtain ⟨fuel, rfl⟩ := Nat.exists_eq_succ_of_ne_zero (n := fuel) (by omega)
    obtain ⟨hfirst, htail⟩ := List.forall_mem_cons.mp h
    obtain ⟨hfits, hv⟩ : v.Fits room ∧ Rereads room v := hfirst
    obtain ⟨hk, hwanted⟩ := List.forall_mem_cons.mp hwanted
    have hlength := congrArg List.length (prettyMembers_append (depth + 1) l w ms [])
    simp only [List.length_cons, List.length_append, List.append_nil] at hlength
    have hopens : Opens (quote l ++ (':' :: ' ' :: (prettyAt (depth + 1) w ++
        (prettyMembers (depth + 1) ms ++ (newline depth ++ '\x7d' :: rest))))) :=
      ⟨'"', _, rfl, rfl, by decide⟩
    rw [prettyMembers_append, (members?_quote hfits hv hk (by omega) (ends_comma _)).1 _ rfl,
      skipSpace_newline, skipSpace_of_opens hopens, ih htail hwanted (by omega)]
    rfl

theorem value?_bracket {cs : List Char} (h : Opens cs) :
    value? wanted (.kept (room + 1)) (fuel + 1) ('[' :: (newline depth ++ cs)) =
      (items? (.kept room) fuel cs).map fun (vs, rest) => (.array vs, rest) := by
  have hskip : skipSpace (newline depth ++ cs) = cs := by
    rw [skipSpace_newline, skipSpace_of_opens h]
  obtain ⟨c, r, rfl, -, hne⟩ := h
  rw [value?, Purpose.inner?, hskip]
  split
  · cases ‹some _ = none›
  · exact absurd (List.cons.inj ‹_›).1 hne
  · rename_i heq _
    cases heq
    rfl

theorem value?_brace (depth : Nat) (cs : List Char) :
    value? wanted (.kept (room + 1)) (fuel + 1) ('\x7b' :: (newline depth ++ '"' :: cs)) =
      (members? wanted (.kept room) fuel ('"' :: cs)).map fun (ms, rest) => (.object ms, rest) := by
  have hskip : skipSpace (newline depth ++ '"' :: cs) = '"' :: cs := by
    rw [skipSpace_newline]
    rfl
  rw [value?, Purpose.inner?, hskip]
  rfl

end

/-- There is always a character, and so there is fuel. -/
theorem exists_fuel {room fuel depth : Nat} {v : Json} (h : v.Fits room)
    (hfuel : (prettyAt depth v).length ≤ fuel) : ∃ n, fuel = n + 1 := by
  obtain ⟨c, r, hopens, -⟩ := opens_prettyAt h depth []
  rw [List.append_nil] at hopens
  rw [hopens, List.length_cons] at hfuel
  exact ⟨fuel - 1, by omega⟩

/-- What was written for a value reads as that value. -/
theorem rereads_of_fits {room : Nat} {v : Json} (h : v.Fits room) : Rereads room v := by
  induction h with
  | @null room =>
    intro wanted depth fuel rest _ hfuel _
    obtain ⟨fuel, rfl⟩ := exists_fuel (.null : Fits room .null) hfuel
    rfl
  | @bool room b =>
    intro wanted depth fuel rest _ hfuel _
    obtain ⟨fuel, rfl⟩ := exists_fuel (.bool : Fits room (.bool b)) hfuel
    cases b <;> rfl
  | @natural room n hn =>
    intro wanted depth fuel rest _ hfuel hrest
    obtain ⟨fuel, rfl⟩ := exists_fuel (.natural hn : Fits room (.natural n)) hfuel
    rw [prettyAt]
    exact value?_digits hn hrest
  | @string room s =>
    intro wanted depth fuel rest _ hfuel _
    obtain ⟨fuel, rfl⟩ := exists_fuel (.string : Fits room (.string s)) hfuel
    rw [prettyAt]
    exact value?_quote s
  | @array room vs hvs ih =>
    intro wanted depth fuel rest _ hfuel _
    obtain ⟨fuel, rfl⟩ := exists_fuel (Fits.array hvs) hfuel
    cases vs with
    | nil => rfl
    | cons v vs =>
      have hitems : ∀ w ∈ v :: vs, w.Fits room ∧ Rereads room w := fun w hw => ⟨hvs w hw, ih w hw⟩
      have htext : prettyAt depth (.array (v :: vs)) ++ rest =
          '[' :: (newline (depth + 1) ++ (prettyAt (depth + 1) v ++
            (prettyItems (depth + 1) vs ++ (newline depth ++ ']' :: rest)))) := by
        simp [prettyAt]
      rw [prettyAt] at hfuel
      simp only [List.length_cons, List.length_append] at hfuel
      rw [htext, value?_bracket (opens_prettyAt (hvs v (.head _)) _ _),
        items?_pretty hitems (by omega)]
      rfl
  | @object room ms hms ih =>
    intro wanted depth fuel rest hwanted hfuel _
    obtain ⟨fuel, rfl⟩ := exists_fuel (Fits.object hms) hfuel
    cases ms with
    | nil => rfl
    | cons m ms =>
      obtain ⟨k, v⟩ := m
      have hmembers : ∀ m ∈ (k, v) :: ms, m.2.Fits room ∧ Rereads room m.2 :=
        fun m hm => ⟨hms m hm, ih m hm⟩
      have htext : prettyAt depth (.object ((k, v) :: ms)) ++ rest =
          '\x7b' :: (newline (depth + 1) ++ (quote k ++ (':' :: ' ' :: (prettyAt (depth + 1) v ++
            (prettyMembers (depth + 1) ms ++ (newline depth ++ '\x7d' :: rest)))))) := by
        simp [prettyAt]
      rw [prettyAt] at hfuel
      simp only [List.length_cons, List.length_append] at hfuel
      have hread := members?_pretty depth rest hmembers (hwanted _ rfl)
        (show 1 + (prettyAt (depth + 1) v).length + (prettyMembers (depth + 1) ms).length ≤ fuel by omega)
      rw [htext]
      refine (value?_brace (depth + 1) _).trans ?_
      exact congrArg (Option.map fun (ms, rest) => (Json.object ms, rest)) hread

/-- A text over several lines denotes the value that it was written for. -/
theorem parse?_pretty {v : Json} (h : v.Fits maxNesting) {wanted : String → Bool}
    (hwanted : ∀ ms, v = .object ms → ∀ m ∈ ms, wanted m.1 = true) :
    parse? wanted v.pretty = some v := by
  have hopens := opens_prettyAt h 0 []
  have hread := rereads_of_fits h wanted 0 (2 * (prettyAt 0 v).length + 1) [] hwanted (by omega) nofun
  rw [List.append_nil] at hopens hread
  unfold parse? pretty
  dsimp only
  rw [String.toList_ofList, skipSpace_of_opens hopens, hread]
  rfl

end HostScript.Json
