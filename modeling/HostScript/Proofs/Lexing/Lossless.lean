import HostScript.Proofs.Lexing.Bytes

/-!
# Nothing is lost in scanning

Scanning cuts a text into gaps and lexemes, one behind the other (`Lexer.Scanned`), so the tokens lie in
ranges of its bytes that do not touch each other, and nothing but gaps lies between them where no lexeme
has a fault. Their spans are the places of their first and last bytes, since no token ends with a line
feed.
-/

namespace HostScript

open Text (bytes lineFeed)

/-- A token is what stands in a range of bytes: its text is theirs, and its span goes from the place of the
first of them to that of the last. A string is what stands between its quotes. -/
structure Token.Lies (bs : List UInt8) (t : Token) (range : Nat × Nat) : Prop where
  nonempty : range.1 < range.2
  inside : range.2 ≤ bs.length
  lexeme : t.lexeme.toUTF8.data.toList = (bs.drop range.1).take (range.2 - range.1)
  span :
    let first := Position.ofOffset bs range.1
    let last := Position.ofOffset bs (range.2 - 1)
    t.span = ⟨first.line, first.col, last.line, last.col⟩
  string : ∀ s, t.kind = .string s → t.lexeme = "\"" ++ s ++ "\""

namespace Token.Lies

variable {bs : List UInt8} {t : Token} {range : Nat × Nat}

/-- Decoding the bytes of a token never fails, and gives its text. -/
theorem fromUTF8?_range (h : t.Lies bs range) :
    String.fromUTF8? ⟨((bs.drop range.1).take (range.2 - range.1)).toArray⟩ = some t.lexeme := by
  rw [← h.lexeme, Array.toArray_toList]
  exact dif_pos t.lexeme.isValidUTF8

/-- A string can be cut out of the text of its token, from behind the first byte up to the last one. -/
theorem slice?_lexeme (h : t.Lies bs range) {s : String} (hs : t.kind = .string s) :
    Text.slice? t.lexeme 1 (t.lexeme.utf8ByteSize - 1) = some s := by
  have hcut : t.lexeme.toList = ['"'] ++ (s.toList ++ ['"']) := by
    rw [h.string s hs]
    simp
  have hstop : t.lexeme.utf8ByteSize - 1 = (bytes (['"'] ++ s.toList)).length := by
    rw [← Text.length_bytes_toList, hcut, ← List.append_assoc, Text.bytes_append, List.length_append]
    rfl
  have hslice := Text.slice?_of_cut hcut
  rw [← hstop, String.ofList_toList] at hslice
  exact hslice

end Token.Lies

namespace Lexer

/-! ### Gaps -/

/-- The bytes of a space, a tab, a carriage return and a line feed. -/
def blanks : List UInt8 := [0x20, 0x09, 0x0D, lineFeed]

/-- The byte that starts a comment. -/
def hash : UInt8 := 0x23

/-- Blanks and comments. A comment runs up to the end of its line; only one at the end of the text, where
`last` holds, has no line feed behind it. -/
inductive Gap (last : Prop) : List UInt8 → Prop where
  | nil : Gap last []
  | blank {b : UInt8} {g : List UInt8} (hb : b ∈ blanks) (h : Gap last g) : Gap last (b :: g)
  | comment {body g : List UInt8} (hbody : lineFeed ∉ body) (h : Gap last g) :
      Gap last (hash :: (body ++ lineFeed :: g))
  | unended {body : List UInt8} (hlast : last) (hbody : lineFeed ∉ body) : Gap last (hash :: body)

/-- What is passed over from inside a comment ends the comment, and what is passed over from outside of
comments is a gap. -/
theorem skipGap_cut (p : Position) (cs : List Char) :
    (∃ g, cs = g ++ (skipGap true p cs).2 ∧ (skipGap true p cs).1 = p.advance g ∧
      ∀ body, lineFeed ∉ body → Gap ((skipGap true p cs).2 = []) (hash :: (body ++ bytes g))) ∧
    (∃ g, cs = g ++ (skipGap false p cs).2 ∧ (skipGap false p cs).1 = p.advance g ∧
      Gap ((skipGap false p cs).2 = []) (bytes g)) := by
  induction cs generalizing p with
  | nil =>
    refine ⟨⟨[], rfl, rfl, fun body hbody => ?_⟩, [], rfl, rfl, .nil⟩
    rw [Text.bytes_nil, List.append_nil]
    exact .unended rfl hbody
  | cons c cs ih =>
    obtain ⟨⟨g, hcut, hpos, hgap⟩, g', hcut', hpos', hgap'⟩ := ih (p.step c)
    constructor
    · rw [skipGap, if_pos rfl]
      by_cases hc : c = '\n'
      · rw [decide_eq_false (not_not.mpr hc)]
        refine ⟨c :: g', by rw [List.cons_append, ← hcut'], hpos', fun body hbody => ?_⟩
        have hfirst : bytes (c :: g') = lineFeed :: bytes g' := by rw [hc]; rfl
        rw [hfirst]
        exact .comment hbody hgap'
      · rw [decide_eq_true hc]
        refine ⟨c :: g, by rw [List.cons_append, ← hcut], hpos, fun body hbody => ?_⟩
        rw [Text.bytes_cons, ← List.append_assoc]
        refine hgap _ fun hmem => ?_
        rcases List.mem_append.mp hmem with hmem | hmem
        · exact hbody hmem
        · exact hc (Text.lineFeed_mem_encode.mp hmem)
    · rw [skipGap, if_neg Bool.false_ne_true]
      by_cases hblank : isGap c = true
      · rw [if_pos hblank]
        refine ⟨c :: g', by rw [List.cons_append, ← hcut'], hpos', ?_⟩
        have hone : ∃ b ∈ blanks, String.utf8EncodeChar c = [b] := by
          simp only [isGap, Bool.or_eq_true, decide_eq_true_eq] at hblank
          rcases hblank with ((rfl | rfl) | rfl) | rfl <;> decide
        obtain ⟨b, hb, hone⟩ := hone
        rw [Text.bytes_cons, hone]
        exact .blank hb hgap'
      · rw [if_neg hblank]
        by_cases hhash : c = '#'
        · rw [if_pos hhash]
          refine ⟨c :: g, by rw [List.cons_append, ← hcut], hpos, ?_⟩
          have hfirst : bytes (c :: g) = hash :: ([] ++ bytes g) := by rw [hhash]; rfl
          rw [hfirst]
          exact hgap [] List.not_mem_nil
        · rw [if_neg hhash]
          exact ⟨[], rfl, rfl, .nil⟩

/-! ### Lexemes -/

theorem eq_of_isGap {b : Char} (h : isGap b = true) : b = ' ' ∨ b = '\t' ∨ b = '\r' ∨ b = '\n' := by
  simpa [isGap, or_assoc] using h

/-- A text that is not empty and has no blank in it ends with none. -/
theorem exists_last_ne {cs : List Char} (hne : cs ≠ []) (h : ∀ x ∈ cs, isGap x = false) :
    ∃ ds d, cs = ds ++ [d] ∧ isGap d = false :=
  ⟨_, _, (List.dropLast_concat_getLast hne).symm, h _ (List.getLast_mem hne)⟩

theorem of_mem_takeWhile {f : Char → Bool} {cs : List Char} {x : Char} (h : x ∈ cs.takeWhile f) :
    f x = true :=
  List.all_eq_true.mp List.all_takeWhile x h

/-- No blank is in a class of characters that the four blanks are not in. -/
theorem not_of_isGap {f : Char → Bool} (hf : [' ', '\t', '\r', '\n'].any f = false) {b : Char}
    (hb : isGap b = true) : f b = false :=
  Bool.eq_false_iff.mpr (List.any_eq_false.mp hf b (by simpa using eq_of_isGap hb))

theorem isGap_of_class {f : Char → Bool} (hf : [' ', '\t', '\r', '\n'].any f = false) {x : Char}
    (hx : f x = true) : isGap x = false :=
  Bool.eq_false_iff.mpr fun hgap => Bool.false_ne_true ((not_of_isGap hf hgap).symm.trans hx)

theorem isGap_of_isDigit {x : Char} (h : x.isDigit = true) : isGap x = false :=
  isGap_of_class rfl h

theorem string_text {cs : List Char} {k : TokenKind} (h : (string cs).1.reading = .ok k) :
    ∃ v, k = .string v ∧ (string cs).1.text = ('"' :: v.toList) ++ ['"'] := by
  unfold string at h ⊢
  dsimp only at h ⊢
  split at h
  · rename_i q rest hrest
    have hq := List.head?_dropWhile_not (fun x => decide (x ≠ '"')) cs
    simp only [hrest, List.head?_cons, decide_eq_false_iff_not, Decidable.not_not] at hq
    cases h
    exact ⟨_, rfl, by simp [hq]⟩
  · cases h

theorem decimal_text {c : Char} (hc : c.isDigit = true) (cs : List Char) :
    ∀ x ∈ (decimal c cs).1.text, isGap x = false := by
  intro x hx
  unfold decimal at hx
  dsimp only at hx
  split at hx
  · rcases List.mem_append.mp hx with hx | hx
    · rcases List.mem_cons.mp hx with rfl | hx
      · exact isGap_of_isDigit hc
      · exact isGap_of_isDigit (of_mem_takeWhile hx)
    · rcases List.mem_cons.mp hx with rfl | hx
      · rfl
      · exact isGap_of_isDigit (of_mem_takeWhile hx)
  · rcases List.mem_cons.mp hx with rfl | hx
    · exact isGap_of_isDigit hc
    · exact isGap_of_isDigit (of_mem_takeWhile hx)

theorem radixNumber_text (r : Radix) {mark : Char} (hmark : isGap mark = false) (cs : List Char) :
    ∀ x ∈ (radixNumber r mark cs).1.text, isGap x = false := by
  intro x hx
  rcases List.mem_cons.mp hx with rfl | hx
  · rfl
  rcases List.mem_cons.mp hx with rfl | hx
  · exact hmark
  · exact isGap_of_class (by cases r <;> rfl) (of_mem_takeWhile hx)

theorem number_text {c : Char} (hc : c.isDigit = true) (cs : List Char) :
    ∀ x ∈ (number c cs).1.text, isGap x = false := by
  unfold number
  split
  · exact radixNumber_text .hexadecimal rfl _
  · exact radixNumber_text .binary rfl _
  · exact decimal_text hc cs

theorem number_reading (c : Char) (cs : List Char) (v : String) :
    (number c cs).1.reading ≠ .ok (.string v) := by
  have hdecimal : (decimal c cs).1.reading ≠ .ok (.string v) := by
    unfold decimal decimalReading
    dsimp only
    split
    · exact nofun
    · split <;> exact nofun
  have hradix : ∀ r mark rest, (radixNumber r mark rest).1.reading ≠ .ok (.string v) := by
    intro r mark rest
    unfold radixNumber
    dsimp only
    split
    · exact nofun
    · split
      · exact nofun
      · split <;> exact nofun
  unfold number
  split
  · exact hradix _ _ _
  · exact hradix _ _ _
  · exact hdecimal

theorem word_text {c : Char} (hc : isNameStart c = true) (cs : List Char) :
    ∀ x ∈ (word c cs).1.text, isGap x = false := by
  intro x hx
  rcases List.mem_cons.mp hx with rfl | hx
  · exact isGap_of_class rfl hc
  · exact isGap_of_class rfl (of_mem_takeWhile hx)

theorem word_reading (c : Char) (cs : List Char) (v : String) :
    (word c cs).1.reading ≠ .ok (.string v) := by
  unfold word
  dsimp only
  split <;> exact nofun

/-- No symbol starts with a blank, and none has one behind its first character. -/
theorem double?_of_isGap {b c : Char} (h : isGap b = true) : double? c b = none ∧ double? b c = none := by
  unfold double?
  constructor <;> split <;>
    first
      | rfl
      | exact absurd h (by decide)

theorem single?_of_isGap {b : Char} (h : isGap b = true) : single? b = none := by
  obtain rfl | rfl | rfl | rfl := eq_of_isGap h <;> rfl

/-- A symbol reads as nothing else, and a blank is in none. -/
theorem symbol_text {c : Char} {cs : List Char} {k : TokenKind}
    (h : (symbol c cs).1.reading = .ok k) :
    (∃ s, k = .symbol s) ∧ ∀ x ∈ (symbol c cs).1.text, isGap x = false := by
  have hsingle : ∀ {k}, (singleSymbol c).reading = .ok k →
      (∃ s, k = .symbol s) ∧ ∀ x ∈ (singleSymbol c).text, isGap x = false := by
    intro k hk
    unfold singleSymbol at hk ⊢
    dsimp only at hk ⊢
    split at hk
    · rename_i s hs
      cases hk
      refine ⟨⟨s, rfl⟩, fun x hx => Bool.eq_false_iff.mpr fun hgap => ?_⟩
      cases List.mem_singleton.mp hx
      cases hs.symm.trans (single?_of_isGap hgap)
    · cases hk
  unfold symbol at h ⊢
  split at h
  · rename_i d rest
    split at h
    · rename_i s hs
      cases h
      refine ⟨⟨s, rfl⟩, fun x hx => Bool.eq_false_iff.mpr fun hgap => ?_⟩
      dsimp only at hx
      rcases List.mem_cons.mp hx with rfl | hx
      · cases hs.symm.trans (double?_of_isGap hgap).2
      · cases List.mem_singleton.mp hx
        cases hs.symm.trans (double?_of_isGap hgap).1
    · exact hsingle h
  · exact hsingle h

/-- A token ends with no blank. -/
theorem next_text_last {c : Char} {cs : List Char} {k : TokenKind}
    (h : (next c cs).1.reading = .ok k) :
    ∃ ds d, (next c cs).1.text = ds ++ [d] ∧ isGap d = false := by
  have hne := next_text_ne_nil c cs
  unfold next at h hne ⊢
  split at h
  · rename_i hc
    rw [if_pos hc] at hne ⊢
    obtain ⟨v, -, htext⟩ := string_text h
    exact ⟨_, _, htext, rfl⟩
  · rename_i hc
    rw [if_neg hc] at hne ⊢
    split at h
    · rename_i hdigit
      rw [if_pos hdigit] at hne ⊢
      exact exists_last_ne hne (number_text hdigit cs)
    · rename_i hdigit
      rw [if_neg hdigit] at hne ⊢
      split at h
      · rename_i hname
        rw [if_pos hname] at hne ⊢
        exact exists_last_ne hne (word_text hname cs)
      · rename_i hname
        rw [if_neg hname] at hne ⊢
        exact exists_last_ne hne (symbol_text h).2

/-- A string is what is between the quotes. -/
theorem next_text_string {c : Char} {cs : List Char} {v : String}
    (h : (next c cs).1.reading = .ok (.string v)) :
    (next c cs).1.text = ('"' :: v.toList) ++ ['"'] := by
  unfold next at h ⊢
  split at h
  · rename_i hc
    rw [if_pos hc]
    obtain ⟨w, hw, htext⟩ := string_text h
    cases hw
    exact htext
  · split at h
    · exact absurd h (number_reading c cs v)
    · split at h
      · exact absurd h (word_reading c cs v)
      · obtain ⟨⟨s, hs⟩, -⟩ := symbol_text h
        cases hs

/-- A lexeme that reads as a token lies where it was found. -/
theorem token_lies {before rest : List Char} {c : Char} {t : Token}
    (h : Placed.token? ⟨Position.start.advance before, (next c rest).1⟩ = some t) :
    t.Lies (bytes (before ++ c :: rest))
      ((bytes before).length, (bytes (before ++ (next c rest).1.text)).length) := by
  unfold Placed.token? at h
  dsimp only at h
  split at h
  · rename_i k hk
    cases h
    obtain ⟨ds, d, htext, hgap⟩ := next_text_last hk
    have hd : d ≠ '\n' := by
      rintro rfl
      cases hgap
    have hpieces : bytes (before ++ c :: rest) =
        bytes before ++ (bytes (next c rest).1.text ++ bytes (next c rest).2) := by
      rw [← next_text_append c rest, Text.bytes_append, Text.bytes_append]
    have hpos := List.length_pos_iff.mpr (Text.bytes_ne_nil (next_text_ne_nil c rest))
    refine ⟨?_, ?_, ?_, ?_, ?_⟩
    · simpa using hpos
    · simp [hpieces]
    · rw [Text.bytes_ofList]
      simp [hpieces]
    · have hspan := Position.spanTo_advance before ds hd (bytes (next c rest).2)
      rw [← htext] at hspan
      rw [hpieces, ← List.append_assoc, ← Text.bytes_append]
      unfold Placed.span
      rw [Position.advance_advance]
      exact hspan
    · rintro s rfl
      rw [next_text_string hk]
      apply String.toList_inj.mp
      simp
  · cases h

/-! ### The whole text -/

/-- From byte number `k` on there is nothing but gaps around ranges. -/
def Covered (bs : List UInt8) : Nat → List (Nat × Nat) → Prop
  | k, [] => Gap True (bs.drop k)
  | k, r :: rest => Gap False ((bs.drop k).take (r.1 - k)) ∧ Covered bs r.2 rest

/-- Scanning `cs`, behind `before` and with `room` for faults, gives lexemes and ends at a position. -/
inductive Scanned : Nat → List Char → List Char → List Placed → Position → Prop where
  /-- No more faults are let in. -/
  | full {before cs : List Char} : Scanned 0 before cs [] (Position.start.advance before)
  | finished {room : Nat} {before g : List Char} (hgap : Gap True (bytes g)) :
      Scanned room before g [] (Position.start.advance (before ++ g))
  | lexeme {room : Nat} {before g rest : List Char} {c : Char} {ls : List Placed} {q : Position}
      (hgap : Gap False (bytes g))
      (h : Scanned (roomAfter room (next c rest).1) (before ++ g ++ (next c rest).1.text)
        (next c rest).2 ls q) :
      Scanned room before (g ++ c :: rest)
        (⟨Position.start.advance (before ++ g), (next c rest).1⟩ :: ls) q

theorem scan_scanned {room : Nat} {p : Position} {before : List Char} (cs : List Char)
    (hp : p = Position.start.advance before) :
    Scanned room before cs (scan room p cs).1 (scan room p cs).2 := by
  fun_induction scan room p cs generalizing before with
  | case1 p cs =>
    rw [hp]
    exact .full
  | case2 room p cs hroom q hskip =>
    obtain ⟨g, hcut, hpos, hgap⟩ := (skipGap_cut p cs).2
    rw [hskip] at hcut hpos hgap
    obtain rfl : q = p.advance g := hpos
    obtain rfl : cs = g := by simpa using hcut
    rw [hp, Position.advance_advance]
    exact .finished (by simpa using hgap)
  | case3 room p cs hroom q c rest hskip hlength l more =>
    rename_i ih
    obtain ⟨g, hcut, hpos, hgap⟩ := (skipGap_cut p cs).2
    rw [hskip] at hcut hpos hgap
    obtain rfl : q = p.advance g := hpos
    obtain rfl : cs = g ++ c :: rest := hcut
    rw [hp, Position.advance_advance]
    refine .lexeme (by simpa using hgap) (ih ?_)
    rw [hp, Position.advance_advance, Position.advance_advance, List.append_assoc]

namespace Scanned

variable {room : Nat} {before cs : List Char} {ls : List Placed} {q : Position}

/-- With room for another fault at its end, scanning has come to the end of the text. -/
theorem finish_eq (h : Scanned room before cs ls q) (hfew : (ls.filterMap (·.fault?)).length < room) :
    q = Position.start.advance (before ++ cs) := by
  induction h with
  | full => exact absurd hfew (Nat.not_lt_zero _)
  | finished hgap => rfl
  | @lexeme room before g rest c ls q hgap h ih =>
    have hpieces : before ++ g ++ (next c rest).1.text ++ (next c rest).2 =
        before ++ (g ++ c :: rest) := by
      rw [List.append_assoc _ _ (next c rest).2, next_text_append, List.append_assoc]
    rw [← hpieces]
    refine ih ?_
    rw [List.filterMap_cons] at hfew
    unfold roomAfter
    cases hr : (next c rest).1.reading with
    | ok k => simpa [Placed.fault?, hr] using hfew
    | error cause =>
      simp only [Placed.fault?, hr, List.length_cons] at hfew
      exact Nat.lt_sub_of_add_lt hfew

/-- The tokens lie one behind the other, and gaps lie around them. -/
theorem exists_ranges (h : Scanned room before cs ls q) :
    ∃ ranges : List (Nat × Nat),
      List.Forall₂ (Token.Lies (bytes (before ++ cs))) (ls.filterMap (·.token?)) ranges ∧
      ranges.Pairwise (fun r r' => r.2 ≤ r'.1) ∧ (∀ r ∈ ranges, (bytes before).length ≤ r.1) ∧
      (ls.filterMap (·.fault?) = [] → 0 < room →
        Covered (bytes (before ++ cs)) (bytes before).length ranges) := by
  induction h with
  | full => exact ⟨[], .nil, .nil, nofun, fun _ h => absurd h (Nat.lt_irrefl 0)⟩
  | finished hgap =>
    refine ⟨[], .nil, .nil, nofun, fun _ _ => ?_⟩
    rw [Covered, Text.bytes_append, List.drop_left]
    exact hgap
  | @lexeme room before g rest c ls q hgap h ih =>
    obtain ⟨ranges, hlies, hpairwise, hbehind, hcovered⟩ := ih
    have hpieces : before ++ g ++ (next c rest).1.text ++ (next c rest).2 =
        before ++ (g ++ c :: rest) := by
      rw [List.append_assoc _ _ (next c rest).2, next_text_append, List.append_assoc]
    rw [hpieces] at hlies hcovered
    have hlater : ∀ r ∈ ranges, (bytes (before ++ g)).length ≤ r.1 := by
      intro r hr
      refine Nat.le_trans ?_ (hbehind r hr)
      simp
    have hlater' : ∀ r ∈ ranges, (bytes before).length ≤ r.1 := by
      intro r hr
      refine Nat.le_trans ?_ (hlater r hr)
      simp
    rw [List.filterMap_cons, List.filterMap_cons]
    cases hr : (next c rest).1.reading with
    | error cause =>
      simp only [Placed.token?, Placed.fault?, hr]
      exact ⟨ranges, hlies, hpairwise, hlater', fun hnone => by cases hnone⟩
    | ok k =>
      have htoken : Placed.token? ⟨Position.start.advance (before ++ g), (next c rest).1⟩ =
          some ⟨k, String.ofList (next c rest).1.text,
            Placed.span ⟨Position.start.advance (before ++ g), (next c rest).1⟩⟩ := by
        simp [Placed.token?, hr]
      have hfirst := token_lies htoken
      rw [List.append_assoc] at hfirst
      simp only [Placed.token?, Placed.fault?, hr]
      refine ⟨_ :: ranges, .cons hfirst hlies, .cons hbehind hpairwise, ?_, fun hnone hroom => ?_⟩
      · intro r hmem
        rcases List.mem_cons.mp hmem with rfl | hmem
        · simp
        · exact hlater' r hmem
      · have hgapBytes : ((bytes (before ++ (g ++ c :: rest))).drop (bytes before).length).take
            ((bytes (before ++ g)).length - (bytes before).length) = bytes g := by
          simp
        refine ⟨?_, hcovered hnone ?_⟩
        · rw [hgapBytes]
          exact hgap
        · simpa [roomAfter, hr] using hroom

end Scanned

end Lexer

theorem Lexed.scanned (text : String) :
    Lexer.Scanned maxErrors [] text.toList (Lexer.scan maxErrors .start text.toList).1
      (Lexer.scan maxErrors .start text.toList).2 :=
  Lexer.scan_scanned text.toList rfl

/-- Lexing loses nothing. The tokens lie in ranges of bytes of the text that are not empty and follow one
another, each with the text of its range and with the span of its bytes; where no fault is found, there is
nothing around them but blanks and comments. The end of the input, which is one beside the tokens, is the
end of the text unless as many faults were found as are let in. -/
theorem Lexed.lossless (text : String) :
    let bs := text.toUTF8.data.toList
    let lexed := Lexed.ofText text
    ∃ ranges : List (Nat × Nat),
      List.Forall₂ (Token.Lies bs) lexed.tokens ranges ∧
      ranges.Pairwise (fun r r' => r.2 ≤ r'.1) ∧
      (lexed.faults = [] → Lexer.Covered bs 0 ranges) ∧
      (lexed.faults.length < maxErrors →
        lexed.finish = .point (Position.ofOffset bs bs.length).line
          (Position.ofOffset bs bs.length).col) := by
  intro bs lexed
  have hscanned : Lexer.Scanned maxErrors [] text.toList _ _ :=
    Lexer.scan_scanned (p := Position.start) text.toList rfl
  obtain ⟨ranges, hlies, hpairwise, -, hcovered⟩ := hscanned.exists_ranges
  rw [List.nil_append, Text.bytes_toList] at hlies hcovered
  refine ⟨ranges, hlies, hpairwise, fun hnone => hcovered hnone (by decide), fun hfew => ?_⟩
  have hend := hscanned.finish_eq hfew
  rw [List.nil_append, Position.advance_start, Text.bytes_toList] at hend
  have hwhole : Position.ofOffset bs bs.length = Position.behind bs := by
    rw [Position.ofOffset, List.take_length]
  rw [hwhole, ← hend]
  rfl

/-- A string over two lines with a character of two bytes, and a comment with another one. -/
def Lexed.twoLineText : String := "var s = \"\u00e9\n b\"; # \u00fc\n\tx"

theorem Lexed.lossless_twoLineText :
    let bs := twoLineText.toUTF8.data.toList
    let lexed := Lexed.ofText twoLineText
    lexed.faults = [] ∧ lexed.tokens.map (·.lexeme) = ["var", "s", "=", "\"\u00e9\n b\"", ";", "x"] ∧
      (∃ ranges, List.Forall₂ (Token.Lies bs) lexed.tokens ranges ∧ Lexer.Covered bs 0 ranges) ∧
      lexed.finish = .point 3 3 := by
  intro bs lexed
  have hfaults : lexed.faults = [] := by decide +kernel
  have hend : Position.ofOffset bs bs.length = ⟨3, 3⟩ := by decide +kernel
  obtain ⟨ranges, hlies, -, hcovered, hfinish⟩ := Lexed.lossless twoLineText
  refine ⟨hfaults, by decide +kernel, ⟨ranges, hlies, hcovered hfaults⟩, ?_⟩
  have hlast := hfinish (by rw [hfaults]; decide)
  rw [hend] at hlast
  exact hlast

end HostScript
