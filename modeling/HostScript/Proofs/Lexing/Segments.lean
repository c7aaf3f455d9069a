import HostScript.Proofs.Lexing.Lossless

/-!
# Segments of a text

A text falls into segments at its line feeds. The index of a source says where they start, so a line that is
cut out of the text by the index is a segment without the carriage returns at its end, and the cut never
fails: it starts behind a line feed and ends before one, and both are characters of one byte.
-/

namespace HostScript

open Text (bytes lineFeed)

namespace Text

variable {before seg after : List Char}

/-- Put a character in front of a text that is already split into segments. -/
def consSegment (c : Char) : List (List Char) → List (List Char)
  | [] => if c = '\n' then [[], []] else [[c]]
  | s :: rest => if c = '\n' then [] :: s :: rest else (c :: s) :: rest

/-- The segments of a text that line feeds separate. There is always at least one. -/
def segments (cs : List Char) : List (List Char) :=
  cs.foldr consSegment [[]]

/-- There is one segment more than there are line feeds. -/
theorem length_segments (cs : List Char) : (segments cs).length = cs.count '\n' + 1 := by
  induction cs with
  | nil => rfl
  | cons c cs ih =>
    have hcons : segments (c :: cs) = consSegment c (segments cs) := rfl
    rw [hcons]
    cases hs : segments cs with
    | nil =>
      rw [hs] at ih
      cases ih
    | cons s rest =>
      rw [hs] at ih
      by_cases hc : c = '\n'
      · simpa [consSegment, hc] using ih
      · simpa [consSegment, hc] using ih

theorem segments_ne_nil (cs : List Char) : segments cs ≠ [] := by
  intro h
  have hlength := length_segments cs
  rw [h] at hlength
  cases hlength

theorem segments_append (cs ds : List Char) :
    segments (cs ++ '\n' :: ds) = segments cs ++ segments ds := by
  have hcons : ∀ c cs, segments (c :: cs) = consSegment c (segments cs) := fun _ _ => rfl
  induction cs with
  | nil =>
    obtain ⟨s, rest, hs⟩ := List.exists_cons_of_ne_nil (segments_ne_nil ds)
    rw [List.nil_append, hcons, hs]
    rfl
  | cons c cs ih =>
    obtain ⟨s, rest, hs⟩ := List.exists_cons_of_ne_nil (segments_ne_nil cs)
    rw [List.cons_append, hcons, hcons, ih, hs]
    by_cases hc : c = '\n' <;> simp [consSegment, hc]

theorem segments_of_unbroken {cs : List Char} (h : '\n' ∉ cs) : segments cs = [cs] := by
  induction cs with
  | nil => rfl
  | cons c cs ih =>
    have hcons : segments (c :: cs) = consSegment c (segments cs) := rfl
    obtain ⟨hc, hcs⟩ := not_or.mp (mt List.mem_cons.mpr h)
    rw [hcons, ih hcs]
    simp [consSegment, Ne.symm hc]

/-- A piece of a text without line feeds, from the start of the text or a line feed on, and up to another or
the end of the text. -/
structure IsSegment (before seg after : List Char) : Prop where
  begins : ∀ c, before.getLast? = some c → c = '\n'
  unbroken : '\n' ∉ seg
  ends : ∀ c, after.head? = some c → c = '\n'

/-- A segment comes behind as many others as there are line feeds before it. -/
theorem IsSegment.getElem?_segments (h : IsSegment before seg after) :
    (segments (before ++ (seg ++ after)))[before.count '\n']? = some seg := by
  have hfirst : ∃ rest, segments (seg ++ after) = seg :: rest := by
    cases after with
    | nil => exact ⟨[], by rw [List.append_nil, segments_of_unbroken h.unbroken]⟩
    | cons c after =>
      cases h.ends c rfl
      exact ⟨segments after, by rw [segments_append, segments_of_unbroken h.unbroken]; rfl⟩
  obtain ⟨rest, hrest⟩ := hfirst
  cases before using List.reverseRecOn with
  | nil =>
    rw [List.nil_append, hrest]
    rfl
  | append_singleton before c =>
    cases h.begins c (List.getLast?_concat ..)
    have hcount : (before ++ ['\n']).count '\n' = (segments before).length := by
      rw [length_segments, List.count_append]
      rfl
    rw [List.append_assoc, List.singleton_append, segments_append, hrest, hcount]
    simp

theorem exists_isSegment {cs : List Char} {i : Nat} (h : (segments cs)[i]? = some seg) :
    ∃ before after, cs = before ++ (seg ++ after) ∧ before.count '\n' = i ∧
      IsSegment before seg after := by
  induction cs generalizing i seg with
  | nil =>
    cases i with
    | zero =>
      cases h
      exact ⟨[], [], rfl, rfl, nofun, List.not_mem_nil, nofun⟩
    | succ i => cases h
  | cons c cs ih =>
    have hcons : segments (c :: cs) = consSegment c (segments cs) := rfl
    obtain ⟨s, rest, hs⟩ := List.exists_cons_of_ne_nil (segments_ne_nil cs)
    rw [hcons, hs] at h
    rw [hs] at ih
    by_cases hc : c = '\n'
    · subst hc
      cases i with
      | zero =>
        cases h
        refine ⟨[], '\n' :: cs, rfl, rfl, nofun, List.not_mem_nil, ?_⟩
        rintro _ ⟨⟩
        rfl
      | succ i =>
        obtain ⟨before, after, hcut, hcount, hseg⟩ := ih (i := i) h
        refine ⟨'\n' :: before, after, by rw [hcut]; rfl, by simp [hcount], fun d hd => ?_,
          hseg.unbroken, hseg.ends⟩
        rw [List.getLast?_cons] at hd
        cases hlast : before.getLast? with
        | none =>
          rw [hlast] at hd
          cases hd
          rfl
        | some e =>
          rw [hlast] at hd
          cases hd
          exact hseg.begins e hlast
    · rw [consSegment, if_neg hc] at h
      cases i with
      | zero =>
        cases h
        obtain ⟨before, after, hcut, hcount, hseg⟩ := ih (i := 0) rfl
        -- With no line feed in it, what comes before the segment is empty.
        have hbefore : before = [] := by
          by_contra hne
          have hlast := hseg.begins _ (List.getLast?_eq_some_getLast hne)
          refine List.count_eq_zero.mp hcount ?_
          rw [← hlast]
          exact List.getLast_mem hne
        subst hbefore
        refine ⟨[], after, by rw [hcut]; rfl, rfl, nofun, ?_, hseg.ends⟩
        exact fun hmem => (List.mem_cons.mp hmem).elim (fun h => hc h.symm) hseg.unbroken
      | succ i =>
        obtain ⟨before, after, hcut, hcount, hseg⟩ := ih (i := i + 1) h
        have hne : before ≠ [] := by
          rintro rfl
          cases hcount
        refine ⟨c :: before, after, by rw [hcut]; rfl, ?_, fun d hd => ?_, hseg.unbroken, hseg.ends⟩
        · rw [List.count_cons_of_ne hc, hcount]
        · rw [List.getLast?_cons_of_ne_nil hne] at hd
          exact hseg.begins d hd

/-- What is left without the carriage returns at the end of a text ends with none. -/
theorem dropTrailingReturns_spec (cs : List Char) :
    (∃ n, cs = dropTrailingReturns cs ++ List.replicate n '\r') ∧
      (dropTrailingReturns cs).getLast? ≠ some '\r' := by
  unfold dropTrailingReturns
  constructor
  · refine ⟨(cs.reverse.takeWhile (· = '\r')).length, ?_⟩
    have hreturns : cs.reverse.takeWhile (· = '\r') =
        List.replicate (cs.reverse.takeWhile (· = '\r')).length '\r' := by
      refine List.eq_replicate_of_mem fun c hc => ?_
      simpa using Lexer.of_mem_takeWhile hc
    rw [← List.reverse_replicate, ← hreturns, ← List.reverse_append, List.takeWhile_append_dropWhile,
      List.reverse_reverse]
  · intro h
    rw [List.getLast?_reverse] at h
    have hhead := List.head?_dropWhile_not (fun c => decide (c = '\r')) cs.reverse
    simp [h] at hhead

/-- Trimming stops at a character that is no carriage return. -/
theorem dropTrailingReturns_append (cs ds : List Char) {d : Char} (hd : d ≠ '\r') :
    ∃ tail, dropTrailingReturns (cs ++ [d] ++ ds) = cs ++ [d] ++ tail := by
  refine ⟨dropTrailingReturns ds, ?_⟩
  unfold dropTrailingReturns
  rw [List.reverse_append, List.dropWhile_append]
  split
  · rename_i hempty
    rw [List.isEmpty_iff.mp hempty]
    simp [hd]
  · simp

theorem lineFeed_mem_bytes {cs : List Char} : lineFeed ∈ bytes cs ↔ '\n' ∈ cs := by
  simp [bytes, lineFeed_mem_encode]

theorem count_bytes (cs : List Char) : (bytes cs).count lineFeed = cs.count '\n' := by
  induction cs with
  | nil => rfl
  | cons c cs ih =>
    rw [bytes_cons, List.count_append, ih]
    by_cases hc : c = '\n'
    · subst hc
      rw [List.count_cons_self, Nat.add_comm]
      rfl
    · rw [List.count_cons_of_ne hc, List.count_eq_zero.mpr (mt lineFeed_mem_encode.mp hc), Nat.zero_add]

theorem bytes_replicate_return (n : Nat) :
    bytes (List.replicate n '\r') = List.replicate n 0x0D := by
  induction n with
  | zero => rfl
  | succ n ih =>
    rw [List.replicate_succ, bytes_cons, ih]
    rfl

/-! ### The index of the lines -/

theorem newlines_append (k : Nat) (cs ds : List Char) :
    newlines k (cs ++ ds) = newlines k cs ++ newlines (k + (bytes cs).length) ds := by
  induction cs generalizing k with
  | nil => rfl
  | cons c cs ih =>
    have hsize : k + (bytes (c :: cs)).length = k + c.utf8Size + (bytes cs).length := by
      simp [Nat.add_assoc]
    rw [List.cons_append, newlines, newlines, ih, hsize]
    split <;> rfl

theorem newlines_of_unbroken {k : Nat} {cs : List Char} (h : '\n' ∉ cs) : newlines k cs = [] := by
  induction cs generalizing k with
  | nil => rfl
  | cons c cs ih =>
    obtain ⟨hc, hcs⟩ := not_or.mp (mt List.mem_cons.mpr h)
    rw [newlines, if_neg (Ne.symm hc)]
    exact ih hcs

theorem length_newlines (k : Nat) (cs : List Char) : (newlines k cs).length = cs.count '\n' := by
  induction cs generalizing k with
  | nil => rfl
  | cons c cs ih =>
    by_cases hc : c = '\n'
    · simp [newlines, hc, ih]
    · simp [newlines, hc, ih]

/-- What comes before a segment has the starts of the segments in it, and the last of them is its end. -/
theorem exists_starts (h : ∀ c, before.getLast? = some c → c = '\n') :
    ∃ starts, 0 :: (newlines 0 before).map (· + 1) = starts ++ [(bytes before).length] ∧
      starts.length = before.count '\n' := by
  cases before using List.reverseRecOn with
  | nil => exact ⟨[], rfl, rfl⟩
  | append_singleton before c =>
    cases h c (List.getLast?_concat ..)
    refine ⟨0 :: (newlines 0 before).map (· + 1), ?_, ?_⟩
    · have hlast : (bytes (before ++ ['\n'])).length = (bytes before).length + 1 := by
        rw [bytes_append, List.length_append]
        rfl
      rw [newlines_append, hlast]
      simp [newlines]
    · simp [length_newlines]

end Text

/-! ### Positions in a segment -/

namespace Position

variable {before mid : List Char}

theorem line_advance (p : Position) (cs : List Char) :
    (p.advance cs).line = p.line + cs.count '\n' := by
  induction cs generalizing p with
  | nil => rfl
  | cons c cs ih =>
    have hstep : p.advance (c :: cs) = (p.step c).advance cs := rfl
    rw [hstep, ih]
    by_cases hc : c = '\n'
    · simp [step, hc]
      omega
    · simp [step, hc]

/-- A segment starts in the first column. -/
theorem advance_of_begins (h : ∀ c, before.getLast? = some c → c = '\n') :
    start.advance before = ⟨before.count '\n' + 1, 1⟩ := by
  cases before using List.reverseRecOn with
  | nil => rfl
  | append_singleton before c =>
    cases h c (List.getLast?_concat ..)
    have hline := line_advance start before
    rw [advance_append_singleton, step, if_pos rfl, hline, List.count_append]
    simp [start, Nat.add_comm]

/-- Each byte of a segment takes up a column. -/
theorem advance_unbroken (h : ∀ c, before.getLast? = some c → c = '\n') (hmid : '\n' ∉ mid) :
    start.advance (before ++ mid) = ⟨before.count '\n' + 1, 1 + (bytes mid).length⟩ := by
  have hbytes : lineFeed ∉ bytes mid := mt Text.lineFeed_mem_bytes.mp hmid
  have hbefore := advance_of_begins h
  rw [advance_start] at hbefore
  rw [advance_start, Text.bytes_append, behind_append hbytes, hbefore]

/-- Every text is cut by its last line feed. -/
theorem exists_begins (cs : List Char) :
    ∃ before mid, cs = before ++ mid ∧ (∀ c, before.getLast? = some c → c = '\n') ∧ '\n' ∉ mid := by
  induction cs using List.reverseRecOn with
  | nil => exact ⟨[], [], rfl, nofun, List.not_mem_nil⟩
  | append_singleton cs c ih =>
    by_cases hc : c = '\n'
    · refine ⟨cs ++ [c], [], by rw [List.append_nil], fun d hd => ?_, List.not_mem_nil⟩
      rw [List.getLast?_concat] at hd
      cases hd
      exact hc
    · obtain ⟨before, mid, hcut, hbegins, hmid⟩ := ih
      refine ⟨before, mid ++ [c], by rw [hcut, List.append_assoc], hbegins, ?_⟩
      simp [hmid, Ne.symm hc]

end Position

/-! ### Lines of a source -/

namespace Source

variable {src : Source} {k : Nat} {l : String} {before seg after : List Char}

/-- The text in UTF-8. -/
def bytes (src : Source) : List UInt8 :=
  src.text.toUTF8.data.toList

theorem bytes_eq (src : Source) : src.bytes = Text.bytes src.text.toList :=
  (Text.bytes_toList src.text).symm

theorem lineCount_eq (src : Source) : src.lineCount = 1 + src.bytes.count lineFeed := by
  rw [lineCount, lineStarts, List.length_cons, List.length_map, Text.length_newlines, bytes_eq,
    Text.count_bytes, Nat.add_comm]

theorem lineCount_eq_length_segments (src : Source) :
    src.lineCount = (Text.segments src.text.toList).length := by
  rw [lineCount_eq, bytes_eq, Text.count_bytes, Text.length_segments, Nat.add_comm]

/-- The index gives the range of a segment. -/
theorem lineRange?_of_isSegment (hcut : src.text.toList = before ++ (seg ++ after))
    (h : Text.IsSegment before seg after) :
    src.lineRange? (before.count '\n' + 1) =
      some ((Text.bytes before).length, (Text.bytes (before ++ seg)).length) := by
  obtain ⟨starts, hstarts, hlength⟩ := Text.exists_starts h.begins
  have hnewlines : Text.newlines 0 src.text.toList =
      Text.newlines 0 before ++ Text.newlines (Text.bytes (before ++ seg)).length after := by
    rw [hcut, Text.newlines_append, Text.newlines_append, Text.newlines_of_unbroken h.unbroken]
    simp
  have hindex : src.lineStarts = starts ++ (Text.bytes before).length ::
      (Text.newlines (Text.bytes (before ++ seg)).length after).map (· + 1) := by
    rw [lineStarts, hnewlines, List.map_append, ← List.cons_append, hstarts, List.append_assoc]
    rfl
  have hfirst : src.lineStarts[before.count '\n']? = some (Text.bytes before).length := by
    rw [hindex, ← hlength]
    simp
  have hstop : src.lineStarts[before.count '\n' + 1]?.elim src.text.utf8ByteSize (· - 1) =
      (Text.bytes (before ++ seg)).length := by
    have hbehind : starts.length + 1 - starts.length = 1 := Nat.add_sub_cancel_left _ 1
    rw [hindex, ← hlength, List.getElem?_append_right (Nat.le_add_right _ 1), hbehind]
    cases after with
    | nil =>
      have hwhole : src.text.utf8ByteSize = (Text.bytes (before ++ seg)).length := by
        rw [← Text.length_bytes_toList, hcut, List.append_nil]
      exact hwhole
    | cons c after =>
      cases h.ends c rfl
      rfl
  rw [lineRange?, hfirst, Option.map_some, hstop]

/-- Cutting out a line never fails. It gives a segment of the text, without the carriage returns at its end. -/
theorem cutLine?_succ (src : Source) (i : Nat) :
    src.cutLine? (i + 1) = some ((Text.segments src.text.toList)[i]?.map fun seg =>
      .ofList (Text.dropTrailingReturns seg)) := by
  cases hseg : (Text.segments src.text.toList)[i]? with
  | none =>
    have hnone : src.lineRange? (i + 1) = none := by
      have hle := List.getElem?_eq_none_iff.mp hseg
      rw [← lineCount_eq_length_segments] at hle
      rw [lineRange?, List.getElem?_eq_none hle]
      rfl
    rw [cutLine?, hnone]
    rfl
  | some seg =>
    obtain ⟨before, after, hcut, rfl, hpiece⟩ := Text.exists_isSegment hseg
    rw [cutLine?, lineRange?_of_isSegment hcut hpiece]
    dsimp only
    rw [Text.slice?_of_cut hcut, Option.map_some, String.toList_ofList]
    rfl

theorem line?_succ (src : Source) (i : Nat) :
    src.line? (i + 1) = (Text.segments src.text.toList)[i]?.map fun seg =>
      .ofList (Text.dropTrailingReturns seg) := by
  rw [line?, cutLine?_succ]
  rfl

theorem cutLine?_eq (src : Source) (k : Nat) : src.cutLine? k = some (src.line? k) := by
  cases k with
  | zero => rfl
  | succ i => rw [line?_succ, cutLine?_succ]

theorem line?_eq_none_iff : src.line? k = none ↔ k = 0 ∨ src.lineCount < k := by
  cases k with
  | zero => exact ⟨fun _ => .inl rfl, fun _ => rfl⟩
  | succ i =>
    rw [line?_succ, Option.map_eq_none_iff, List.getElem?_eq_none_iff, lineCount_eq_length_segments]
    omega

/-- The bytes from `first` up to `stop` are line `k` of the source, with the line feeds around it left out, and
`l` is all of it but the carriage returns at its end. -/
structure IsLine (src : Source) (k : Nat) (l : String) (first stop : Nat) : Prop where
  begins : Position.ofOffset src.bytes first = ⟨k, 1⟩
  inside : first ≤ stop ∧ stop ≤ src.bytes.length
  /-- The line, and what is shown of it, start and end between characters. -/
  boundaries : ∀ i ∈ [first, first + l.utf8ByteSize, stop], String.Pos.Raw.IsValid src.text ⟨i⟩
  unbroken : lineFeed ∉ (src.bytes.drop first).take (stop - first)
  ends : ∀ b, src.bytes[stop]? = some b → b = lineFeed
  trimmed : ∃ n, (src.bytes.drop first).take (stop - first) =
    l.toUTF8.data.toList ++ List.replicate n 0x0D
  bare : l.toList.getLast? ≠ some '\r'

/-- A segment is a line, shown without the carriage returns at its end. -/
theorem isLine_of_isSegment (hcut : src.text.toList = before ++ (seg ++ after))
    (h : Text.IsSegment before seg after) :
    src.IsLine (before.count '\n' + 1) (.ofList (Text.dropTrailingReturns seg)) (Text.bytes before).length
      (Text.bytes (before ++ seg)).length := by
  obtain ⟨⟨n, htrimmed⟩, hbare⟩ := Text.dropTrailingReturns_spec seg
  generalize Text.dropTrailingReturns seg = shown at htrimmed hbare ⊢
  have hbytes : src.bytes = Text.bytes before ++ (Text.bytes seg ++ Text.bytes after) := by
    rw [bytes_eq, hcut, Text.bytes_append, Text.bytes_append]
  have hslice : (src.bytes.drop (Text.bytes before).length).take
      ((Text.bytes (before ++ seg)).length - (Text.bytes before).length) = Text.bytes seg := by
    simp [hbytes]
  refine ⟨?_, ?_, ?_, ?_, ?_, ?_, ?_⟩
  · rw [Position.ofOffset, hbytes, List.take_left, ← Position.advance_start,
      Position.advance_of_begins h.begins]
  · simp [hbytes]
  · rw [← Text.length_bytes_toList, String.toList_ofList, ← List.length_append, ← Text.bytes_append]
    have hshown : src.text.toList = (before ++ shown) ++ (List.replicate n '\r' ++ after) := by
      rw [hcut, htrimmed]
      simp
    have hline : src.text.toList = (before ++ seg) ++ after := by
      rw [hcut, List.append_assoc]
    simp only [List.forall_mem_cons, List.not_mem_nil, IsEmpty.forall_iff, implies_true, and_true]
    exact ⟨Text.isValid_of_append hcut, Text.isValid_of_append hshown, Text.isValid_of_append hline⟩
  · rw [hslice]
    exact mt Text.lineFeed_mem_bytes.mp h.unbroken
  · intro b hb
    rw [hbytes, ← List.append_assoc, ← Text.bytes_append] at hb
    rw [List.getElem?_append_right (Nat.le_refl _), Nat.sub_self] at hb
    cases after with
    | nil => cases hb
    | cons c after =>
      cases h.ends c rfl
      cases hb
      rfl
  · refine ⟨n, ?_⟩
    rw [hslice, Text.bytes_ofList, htrimmed, Text.bytes_append, Text.bytes_replicate_return]
  · rwa [String.toList_ofList]

/-- A line that is shown is what stands in the range that the index gives. -/
theorem exists_isLine (h : src.line? k = some l) :
    ∃ first stop, src.lineRange? k = some (first, stop) ∧ src.IsLine k l first stop := by
  obtain - | i := k
  · cases h
  rw [line?_succ] at h
  obtain ⟨seg, hseg, rfl⟩ := Option.map_eq_some_iff.mp h
  obtain ⟨before, after, hcut, rfl, hpiece⟩ := Text.exists_isSegment hseg
  exact ⟨_, _, lineRange?_of_isSegment hcut hpiece, isLine_of_isSegment hcut hpiece⟩

end Source

end HostScript
