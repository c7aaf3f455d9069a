import HostScript.Proofs.Lexing.Lossless

/-!
# Lexemes with blanks between them

A lexeme that reads as a token is found again wherever a blank or the end of the text stands behind it
(`Lexeme.Stands`): no production takes a blank that is not inside quotes, and what made a production stop
in the first place, another character, is not needed for it to stop. So the lexemes of a text, with one
blank between any two of them, make up a text with the same tokens.
-/

namespace HostScript

namespace Lexer

/-- A text that no lexeme in front of it goes on into: it is empty or starts with a blank. -/
def Apart (rest : List Char) : Prop :=
  ∀ b, rest.head? = some b → isGap b = true

theorem apart_nil : Apart [] :=
  nofun

theorem apart_cons {b : Char} (hb : isGap b = true) (rest : List Char) : Apart (b :: rest) := by
  rintro _ ⟨⟩
  exact hb

/-- What is taken as long as no blank comes is taken again. -/
theorem span_apart {f : Char → Bool} (hf : [' ', '\t', '\r', '\n'].any f = false)
    {w rest : List Char} (hw : ∀ x ∈ w, f x = true) (hrest : Apart rest) :
    (w ++ rest).takeWhile f = w ∧ (w ++ rest).dropWhile f = rest := by
  have hstop : rest.takeWhile f = [] ∧ rest.dropWhile f = rest := by
    cases rest with
    | nil => exact ⟨rfl, rfl⟩
    | cons b rest =>
      have hb := not_of_isGap hf (hrest b rfl)
      exact ⟨List.takeWhile_cons_of_neg (by simp [hb]), List.dropWhile_cons_of_neg (by simp [hb])⟩
  rw [List.takeWhile_append_of_pos hw, List.dropWhile_append_of_pos hw, hstop.1, hstop.2,
    List.append_nil]
  exact ⟨rfl, rfl⟩

theorem fractionFollows_apart {rest : List Char} (h : Apart rest) : fractionFollows rest = false := by
  unfold fractionFollows
  split
  · exact absurd (h '.' rfl) (by decide)
  · rfl

/-! ### Each production again -/

section Productions

variable {c : Char} {cs : List Char} {k : TokenKind}

/-- A string ends with its own quote, whatever comes behind. -/
theorem string_again (h : (string cs).1.reading = .ok k) :
    ∃ w, (string cs).1.text = '"' :: w ∧ ∀ rest, string (w ++ rest) = ((string cs).1, rest) := by
  unfold string at h ⊢
  dsimp only at h ⊢
  split at h
  · rename_i q tail htail
    have hq := List.head?_dropWhile_not (fun x => decide (x ≠ '"')) cs
    simp only [htail, List.head?_cons, decide_eq_false_iff_not, Decidable.not_not] at hq
    subst hq
    refine ⟨cs.takeWhile (· ≠ '"') ++ ['"'], rfl, fun rest => ?_⟩
    have hbody : ∀ x ∈ cs.takeWhile (· ≠ '"'), decide (x ≠ '"') = true := fun x => of_mem_takeWhile
    rw [List.append_assoc, List.takeWhile_append_of_pos hbody, List.dropWhile_append_of_pos hbody]
    simp
  · cases h

theorem word_again (c : Char) (cs : List Char) :
    ∃ w, (word c cs).1.text = c :: w ∧
      ∀ rest, Apart rest → word c (w ++ rest) = ((word c cs).1, rest) := by
  refine ⟨cs.takeWhile isNameChar, rfl, fun rest hrest => ?_⟩
  obtain ⟨htake, hdrop⟩ := span_apart (f := isNameChar) rfl (fun _ => of_mem_takeWhile) hrest
  unfold word
  rw [htake, hdrop]

theorem decimal_whole {ds rest : List Char} (hds : ∀ x ∈ ds, x.isDigit = true) (hrest : Apart rest) :
    decimal c (ds ++ rest) = (⟨c :: ds, decimalReading (c :: ds)⟩, rest) := by
  obtain ⟨htake, hdrop⟩ := span_apart rfl hds hrest
  unfold decimal
  dsimp only
  rw [htake, hdrop, if_neg (by simp [fractionFollows_apart hrest])]

theorem decimal_fraction {ds ps rest : List Char} (hds : ∀ x ∈ ds, x.isDigit = true)
    (hps : ∀ x ∈ ps, x.isDigit = true) (hne : ps ≠ []) (hrest : Apart rest) :
    decimal c (ds ++ '.' :: (ps ++ rest)) =
      (⟨c :: ds ++ '.' :: ps, .ok (fractionReading (c :: ds) ps)⟩, rest) := by
  obtain ⟨htake, hdrop⟩ := span_apart rfl hps hrest
  have hwhole : ('.' :: (ps ++ rest)).takeWhile Char.isDigit = [] := rfl
  have hpoint : ('.' :: (ps ++ rest)).dropWhile Char.isDigit = '.' :: (ps ++ rest) := rfl
  have hfollows : fractionFollows ('.' :: (ps ++ rest)) = true := by
    obtain ⟨d, ps, rfl⟩ := List.exists_cons_of_ne_nil hne
    exact hps d List.mem_cons_self
  unfold decimal
  rw [List.takeWhile_append_of_pos hds, List.dropWhile_append_of_pos hds, hwhole, hpoint,
    if_pos hfollows, List.tail_cons, htake, hdrop, List.append_nil]

/-- A number in base ten is written with digits only, or with a fraction. -/
theorem decimal_cases (c : Char) (cs : List Char) :
    ∃ ds, (∀ x ∈ ds, x.isDigit = true) ∧
      ((decimal c cs).1 = ⟨c :: ds, decimalReading (c :: ds)⟩ ∨
        ∃ ps, (∀ x ∈ ps, x.isDigit = true) ∧ ps ≠ [] ∧
          (decimal c cs).1 = ⟨c :: ds ++ '.' :: ps, .ok (fractionReading (c :: ds) ps)⟩) := by
  refine ⟨cs.takeWhile Char.isDigit, fun _ => of_mem_takeWhile, ?_⟩
  unfold decimal
  dsimp only
  split
  · rename_i hfollows
    obtain ⟨d, tail, htail, hd⟩ := fractionFollows_eq hfollows
    rw [htail, List.tail_cons]
    refine .inr ⟨(d :: tail).takeWhile Char.isDigit, fun _ => of_mem_takeWhile, ?_, rfl⟩
    rw [List.takeWhile_cons_of_pos hd]
    exact List.cons_ne_nil _ _
  · exact .inl rfl

/-- A number of a named base that reads has digits, and no fraction behind them. -/
theorem radixNumber_again {r : Radix} {mark : Char}
    (h : (radixNumber r mark cs).1.reading = .ok k) :
    ∃ w, (radixNumber r mark cs).1.text = '0' :: mark :: w ∧ ∀ rest, Apart rest →
      radixNumber r mark (w ++ rest) = ((radixNumber r mark cs).1, rest) := by
  refine ⟨cs.takeWhile (isRadixDigit r), rfl, fun rest hrest => ?_⟩
  have hdigits : ∀ x ∈ cs.takeWhile (isRadixDigit r), isRadixDigit r x = true :=
    fun _ => of_mem_takeWhile
  obtain ⟨htake, hdrop⟩ := span_apart (by cases r <;> rfl) hdigits hrest
  have hnone := fractionFollows_apart hrest
  unfold radixNumber at h ⊢
  dsimp only at h ⊢
  rw [htake, hdrop, hnone]
  split at h
  · cases h
  · rename_i hdigits
    split at h
    · cases h
    · rename_i hfraction
      rw [if_neg hdigits, if_neg hdigits, if_neg hfraction, if_neg Bool.false_ne_true]

/-- Digits in front of anything but the mark of a base are read in base ten. -/
theorem number_digits {ds tail : List Char} (hds : ∀ x ∈ ds, x.isDigit = true)
    (htail : ∀ d, tail.head? = some d → d ≠ 'x' ∧ d ≠ 'b') :
    number c (ds ++ tail) = decimal c (ds ++ tail) := by
  have hhead : ∀ d, (ds ++ tail).head? = some d → d ≠ 'x' ∧ d ≠ 'b' := by
    cases ds with
    | nil => exact htail
    | cons d ds =>
      rintro _ ⟨⟩
      have hd := hds d List.mem_cons_self
      constructor <;> rintro rfl <;> cases hd
  unfold number
  split
  · rename_i heq
    exact absurd rfl (hhead 'x' (by rw [heq]; rfl)).1
  · rename_i heq
    exact absurd rfl (hhead 'b' (by rw [heq]; rfl)).2
  · rfl

theorem number_again (h : (number c cs).1.reading = .ok k) :
    ∃ w, (number c cs).1.text = c :: w ∧
      ∀ rest, Apart rest → number c (w ++ rest) = ((number c cs).1, rest) := by
  unfold number at h ⊢
  split at h
  · obtain ⟨w, htext, hagain⟩ := radixNumber_again h
    exact ⟨'x' :: w, htext, hagain⟩
  · obtain ⟨w, htext, hagain⟩ := radixNumber_again h
    exact ⟨'b' :: w, htext, hagain⟩
  · obtain ⟨ds, hds, hwhole | ⟨ps, hps, hne, hfraction⟩⟩ := decimal_cases c cs
    · rw [hwhole]
      refine ⟨ds, rfl, fun rest hrest => ?_⟩
      have hmark : ∀ d, rest.head? = some d → d ≠ 'x' ∧ d ≠ 'b' := by
        intro d hd
        have hgap := hrest d hd
        constructor <;> rintro rfl <;> cases hgap
      exact (number_digits hds hmark).trans (decimal_whole hds hrest)
    · rw [hfraction]
      refine ⟨ds ++ '.' :: ps, rfl, fun rest hrest => ?_⟩
      rw [List.append_assoc, List.cons_append]
      exact (number_digits hds (by rintro _ ⟨⟩; decide)).trans (decimal_fraction hds hps hne hrest)

theorem symbol_again (c : Char) (cs : List Char) :
    ∃ w, (symbol c cs).1.text = c :: w ∧
      ∀ rest, Apart rest → symbol c (w ++ rest) = ((symbol c cs).1, rest) := by
  have hsingle : ∀ rest, Apart rest → symbol c rest = (singleSymbol c, rest) := by
    intro rest hrest
    cases rest with
    | nil => rfl
    | cons b rest => rw [symbol, (double?_of_isGap (hrest b rfl)).1]
  unfold symbol
  split
  · rename_i d tail
    split
    · rename_i s hs
      refine ⟨[d], rfl, fun rest _ => ?_⟩
      rw [List.singleton_append]
      dsimp only
      rw [hs]
    · exact ⟨[], rfl, hsingle⟩
  · exact ⟨[], rfl, hsingle⟩

/-- What reads as a token starts with no blank and is no comment. -/
theorem start_of_reading (h : (next c cs).1.reading = .ok k) : isGap c = false ∧ c ≠ '#' := by
  have hnone : ∀ d ∈ [' ', '\t', '\r', '\n', '#'], (∀ ds, next d ds = symbol d ds) ∧
      single? d = none ∧ ∀ e, double? d e = none := by
    intro d hd
    simp only [List.mem_cons, List.not_mem_nil, or_false] at hd
    rcases hd with rfl | rfl | rfl | rfl | rfl <;>
      exact ⟨fun _ => rfl, rfl, fun e => by unfold double?; split <;> first | rfl | contradiction⟩
  have hfails : c ∉ [' ', '\t', '\r', '\n', '#'] := by
    intro hc
    obtain ⟨hnext, hsingle, hdouble⟩ := hnone c hc
    rw [hnext] at h
    unfold symbol singleSymbol at h
    rw [hsingle] at h
    cases cs with
    | nil => cases h
    | cons d tail =>
      dsimp only at h
      rw [hdouble] at h
      cases h
  simp only [List.mem_cons, List.not_mem_nil, or_false, not_or] at hfails
  obtain ⟨h₁, h₂, h₃, h₄, h₅⟩ := hfails
  exact ⟨by simp [isGap, h₁, h₂, h₃, h₄], h₅⟩

end Productions

/-! ### Lexemes on their own -/

/-- The lexeme is a token, and it is found again wherever something stands apart behind it. -/
structure Lexeme.Stands (l : Lexeme) : Prop where
  reads : ∃ k, l.reading = .ok k
  again : ∃ c w, l.text = c :: w ∧ isGap c = false ∧ c ≠ '#' ∧
    ∀ rest, Apart rest → next c (w ++ rest) = (l, rest)

theorem next_stands {c : Char} {cs : List Char} {k : TokenKind} (h : (next c cs).1.reading = .ok k) :
    (next c cs).1.Stands := by
  obtain ⟨hgap, hhash⟩ := start_of_reading h
  refine ⟨⟨k, h⟩, ?_⟩
  have hagain : ∃ w, (next c cs).1.text = c :: w ∧
      ∀ rest, Apart rest → next c (w ++ rest) = ((next c cs).1, rest) := by
    unfold next at h ⊢
    split at h
    · rename_i hc
      subst hc
      obtain ⟨w, htext, hagain⟩ := string_again h
      exact ⟨w, htext, fun rest _ => hagain rest⟩
    · rename_i hc
      simp only [if_neg hc]
      split at h
      · rename_i hdigit
        simp only [if_pos hdigit]
        exact number_again h
      · rename_i hdigit
        simp only [if_neg hdigit]
        split at h
        · rename_i hname
          simp only [if_pos hname]
          exact word_again c cs
        · rename_i hname
          simp only [if_neg hname]
          exact symbol_again c cs
  obtain ⟨w, htext, hagain⟩ := hagain
  exact ⟨c, w, htext, hgap, hhash, hagain⟩

/-- With room for a fault, a scan starts with a gap and goes on with what is behind it. -/
theorem scan_of_skipGap {room : Nat} (hroom : 0 < room) {p q : Position} {cs : List Char} :
    (skipGap false p cs = (q, []) → scan room p cs = ([], q)) ∧
    ∀ c rest, skipGap false p cs = (q, c :: rest) →
      let more := scan (roomAfter room (next c rest).1) (q.advance (next c rest).1.text) (next c rest).2
      scan room p cs = (⟨q, (next c rest).1⟩ :: more.1, more.2) := by
  constructor
  · intro h
    rw [scan, if_neg (Nat.ne_of_gt hroom)]
    split <;> rename_i heq <;> cases h.symm.trans heq
    rfl
  · intro c rest h more
    rw [scan, if_neg (Nat.ne_of_gt hroom)]
    split <;> rename_i heq <;> cases h.symm.trans heq
    rfl

theorem scan_blank {room : Nat} (hroom : 0 < room) {b : Char} (hb : isGap b = true) (p : Position)
    (cs : List Char) : scan room p (b :: cs) = scan room (p.step b) cs := by
  have hskip : skipGap false p (b :: cs) = skipGap false (p.step b) cs := by
    rw [skipGap, if_neg Bool.false_ne_true, if_pos hb]
  cases h : skipGap false (p.step b) cs with
  | mk q rest =>
    cases rest with
    | nil => rw [(scan_of_skipGap hroom).1 h, (scan_of_skipGap hroom).1 (hskip.trans h)]
    | cons c rest =>
      rw [(scan_of_skipGap hroom).2 c rest h, (scan_of_skipGap hroom).2 c rest (hskip.trans h)]

/-- A lexeme that stands is the first one of a text that it starts. -/
theorem Lexeme.Stands.scan {l : Lexeme} (h : l.Stands) {room : Nat} (hroom : 0 < room) (p : Position)
    {rest : List Char} (hrest : Apart rest) :
    (scan room p (l.text ++ rest)).1 = ⟨p, l⟩ :: (Lexer.scan room (p.advance l.text) rest).1 := by
  obtain ⟨k, hk⟩ := h.reads
  obtain ⟨c, w, htext, hgap, hhash, hagain⟩ := h.again
  have hskip : skipGap false p (l.text ++ rest) = (p, c :: (w ++ rest)) := by
    rw [htext, List.cons_append, skipGap, if_neg Bool.false_ne_true, if_neg (by simp [hgap]),
      if_neg hhash]
  have hsame : roomAfter room l = room := by simp [roomAfter, hk]
  rw [(scan_of_skipGap hroom).2 c _ hskip, hagain rest hrest, hsame]

/-- Lexemes with one blank between any two of them are found again, in order. -/
theorem lexemes_scan_joined {room : Nat} (hroom : 0 < room) {b : Char} (hb : isGap b = true)
    (ls : List Lexeme) (h : ∀ l ∈ ls, l.Stands) (p : Position) :
    (scan room p ([b].intercalate (ls.map (·.text)))).1.map (·.lexeme) = ls := by
  induction ls generalizing p with
  | nil =>
    have hnone : scan room p [] = ([], p) := (scan_of_skipGap hroom).1 rfl
    simp [hnone]
  | cons l ls ih =>
    have hl := h l List.mem_cons_self
    have hls := fun l' hl' => h l' (List.mem_cons_of_mem l hl')
    cases ls with
    | nil =>
      have hone := hl.scan hroom p apart_nil
      have hnone := ih hls (p.advance l.text)
      simp only [List.map_nil, List.intercalate_nil, List.map_eq_nil_iff] at hnone
      rw [List.append_nil] at hone
      simp [hone, hnone]
    | cons l' ls =>
      have hfirst := hl.scan hroom p (apart_cons hb ([b].intercalate ((l' :: ls).map (·.text))))
      have hjoined : [b].intercalate ((l :: l' :: ls).map (·.text)) =
          l.text ++ b :: [b].intercalate ((l' :: ls).map (·.text)) := by
        simp [List.intercalate]
      rw [hjoined, hfirst, scan_blank hroom hb, List.map_cons, ih hls]

/-- What a lexeme reads as, without its place. -/
def Lexeme.word? (l : Lexeme) : Option (TokenKind × String) :=
  match l.reading with
  | .ok k => some (k, String.ofList l.text)
  | .error _ => none

theorem Placed.map_token? (l : Placed) :
    l.token?.map (fun t => (t.kind, t.lexeme)) = l.lexeme.word? := by
  unfold Placed.token? Lexeme.word?
  cases l.lexeme.reading <;> rfl

/-- The texts of the words are those of the lexemes, where all of them are words. -/
theorem texts_of_stands {ls : List Lexeme} (h : ∀ l ∈ ls, l.Stands) :
    (ls.filterMap (·.word?)).map (·.2) = ls.map fun l => String.ofList l.text := by
  induction ls with
  | nil => rfl
  | cons l ls ih =>
    obtain ⟨hl, hls⟩ := List.forall_mem_cons.mp h
    obtain ⟨k, hk⟩ := hl.reads
    have hword : l.word? = some (k, String.ofList l.text) := by
      unfold Lexeme.word?
      rw [hk]
    rw [List.filterMap_cons_some hword, List.map_cons, List.map_cons, ih hls]

/-- Without a fault, all lexemes stand. -/
theorem Scanned.stands {room : Nat} {before cs : List Char} {ls : List Placed} {q : Position}
    (h : Scanned room before cs ls q) (hclean : ls.filterMap (·.fault?) = []) :
    ∀ l ∈ ls, l.lexeme.Stands := by
  induction h with
  | full => exact nofun
  | finished hgap => exact nofun
  | @lexeme room before g rest c ls q hgap h ih =>
    rw [List.filterMap_cons] at hclean
    cases hr : (next c rest).1.reading with
    | error cause => simp [Placed.fault?, hr] at hclean
    | ok k =>
      simp only [Placed.fault?, hr] at hclean
      exact List.forall_mem_cons.mpr ⟨next_stands hr, ih hclean⟩

end Lexer

namespace Lexed

open Lexer

/-- The words of a text: the kinds and the texts of its tokens, without their places. -/
def words (l : Lexed) : List (TokenKind × String) :=
  l.tokens.map fun t => (t.kind, t.lexeme)

theorem words_ofText (text : String) :
    (ofText text).words = ((scan maxErrors .start text.toList).1.map (·.lexeme)).filterMap (·.word?) := by
  have hword : ((·.word?) ∘ (·.lexeme) : Placed → Option (TokenKind × String)) =
      fun l => l.token?.map fun t => (t.kind, t.lexeme) :=
    funext fun l => l.map_token?.symm
  rw [List.filterMap_map, hword, ← List.map_filterMap]
  rfl

theorem faults_eq_nil_of_stands {text : String}
    (h : ∀ l ∈ (scan maxErrors .start text.toList).1.map (·.lexeme), l.Stands) :
    (ofText text).faults = [] := by
  refine List.filterMap_eq_nil_iff.mpr fun l hl => ?_
  obtain ⟨k, hk⟩ := (h l.lexeme (List.mem_map_of_mem hl)).reads
  simp [Placed.fault?, hk]

end Lexed

/-- The lexemes of a text without faults, with a space or a line feed between any two of them, make up a
text without faults that has the same tokens, up to their places. -/
theorem Lexed.words_respaced (text : String) {sep : String} (hsep : sep = " " ∨ sep = "\n")
    (hclean : (ofText text).faults = []) :
    let respaced := ofText (sep.intercalate ((ofText text).tokens.map (·.lexeme)))
    respaced.faults = [] ∧ respaced.words = (ofText text).words := by
  intro respaced
  obtain ⟨b, hb, hgap⟩ : ∃ b, sep.toList = [b] ∧ Lexer.isGap b = true := by
    rcases hsep with rfl | rfl
    · exact ⟨' ', rfl, rfl⟩
    · exact ⟨'\n', rfl, rfl⟩
  let ls := (Lexer.scan maxErrors .start text.toList).1.map (·.lexeme)
  have hstands : ∀ l ∈ ls, l.Stands := List.forall_mem_map.mpr ((scanned text).stands hclean)
  have htexts : (ofText text).tokens.map (·.lexeme) = ls.map fun l => String.ofList l.text := by
    rw [← Lexer.texts_of_stands hstands, ← words_ofText, words, List.map_map]
    rfl
  have hjoined : (sep.intercalate ((ofText text).tokens.map (·.lexeme))).toList =
      [b].intercalate (ls.map (·.text)) := by
    rw [String.toList_intercalate, hb, htexts, List.map_map]
    congr 1
    exact List.map_congr_left fun l _ => String.toList_ofList
  have hagain : (Lexer.scan maxErrors .start
      (sep.intercalate ((ofText text).tokens.map (·.lexeme))).toList).1.map (·.lexeme) = ls := by
    rw [hjoined]
    exact Lexer.lexemes_scan_joined (by decide) hgap ls hstands .start
  constructor
  · exact faults_eq_nil_of_stands (hagain ▸ hstands)
  · rw [words_ofText, words_ofText, hagain]

/-- Digits that stop at a digit of another base, a second point, a name behind a number, symbols that other
symbols start with, and a string with a comment and a line feed inside. -/
def Lexed.tightText : String := "0b12abc=1.5.6<<=x.y++\"#\n\"+0xFg!==12.z"

theorem Lexed.words_respaced_tightText :
    let tight := ofText tightText
    let spaced := "0b1 2 abc = 1.5 . 6 << = x . y ++ \"#\n\" + 0xF g != = 12 . z"
    tight.faults = [] ∧ " ".intercalate (tight.tokens.map (·.lexeme)) = spaced ∧
      (ofText spaced).faults = [] ∧ (ofText spaced).words = tight.words := by
  intro tight spaced
  have hclean : tight.faults = [] := by decide +kernel
  have hspaced : " ".intercalate (tight.tokens.map (·.lexeme)) = spaced := by decide +kernel
  have hsame := Lexed.words_respaced tightText (.inl rfl) hclean
  rw [hspaced] at hsame
  exact ⟨hclean, hspaced, hsame⟩

end HostScript
