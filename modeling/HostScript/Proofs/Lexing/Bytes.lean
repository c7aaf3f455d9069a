import HostScript.Text.Lines
import HostScript.Token.Lexer
import Mathlib.Data.List.Induction

/-!
# Texts as bytes

The bytes of a text in UTF-8, and the place of a byte as a reader would count it: one line for each line
feed before it, and one column for each byte since the last of them. Characters are counted by their sizes
while a text is scanned (`Position.advance`); that comes to the same, because a byte that is a line feed
is never part of a longer character.
-/

namespace HostScript

namespace Text

def lineFeed : UInt8 := 0x0A

def bytes (cs : List Char) : List UInt8 :=
  cs.flatMap String.utf8EncodeChar

@[simp] theorem bytes_nil : bytes [] = [] := rfl

@[simp] theorem bytes_cons (c : Char) (cs : List Char) :
    bytes (c :: cs) = String.utf8EncodeChar c ++ bytes cs := rfl

@[simp] theorem bytes_append (cs ds : List Char) : bytes (cs ++ ds) = bytes cs ++ bytes ds :=
  List.flatMap_append

theorem bytes_ofList (cs : List Char) : (String.ofList cs).toUTF8.data.toList = bytes cs := by
  simp [List.utf8Encode, bytes]

theorem bytes_toList (s : String) : bytes s.toList = s.toUTF8.data.toList := by
  rw [← bytes_ofList, String.ofList_toList]

theorem bytes_ne_nil {cs : List Char} (h : cs ≠ []) : bytes cs ≠ [] := by
  cases cs with
  | nil => exact absurd rfl h
  | cons c cs => simp [String.utf8EncodeChar_ne_nil]

theorem length_bytes_toList (s : String) : (bytes s.toList).length = s.utf8ByteSize := by
  rw [bytes_toList]
  rfl

/-- The bytes of the beginning of a text end between two characters. -/
theorem isValid_of_append {s : String} {cs ds : List Char} (h : s.toList = cs ++ ds) :
    String.Pos.Raw.IsValid s ⟨(bytes cs).length⟩ := by
  refine String.Pos.Raw.isValid_iff_exists_append.mpr ⟨.ofList cs, .ofList ds, ?_, ?_⟩
  · rw [← String.ofList_append, ← h, String.ofList_toList]
  · rw [← String.toList_ofList (l := cs), length_bytes_toList, String.toList_ofList]
    rfl

/-- The range of a piece of a text can be cut out, and gives the piece. -/
theorem slice?_of_cut {s : String} {before piece after : List Char}
    (h : s.toList = before ++ (piece ++ after)) :
    slice? s (bytes before).length (bytes (before ++ piece)).length = some (.ofList piece) := by
  have hle : (bytes before).length ≤ (bytes (before ++ piece)).length := by simp
  have hstop : s.toList = (before ++ piece) ++ after := by rw [h, List.append_assoc]
  have hbytes : s.toByteArray.data.toList = bytes before ++ (bytes piece ++ bytes after) := by
    rw [← bytes_append, ← bytes_append, ← h, bytes_toList]
    rfl
  rw [slice?, dif_pos ⟨hle, isValid_of_append h, isValid_of_append hstop⟩, Option.some_inj,
    ← String.toByteArray_inj]
  refine ByteArray.ext (Array.toList_inj.mp ?_)
  have hpiece : (String.ofList piece).toByteArray.data.toList = bytes piece := bytes_ofList piece
  rw [String.toByteArray_extract, ByteArray.data_extract, Array.toList_extract, List.extract_eq_take_drop,
    hbytes, hpiece]
  simp

/-- Only the line feed is encoded with its byte: those of a longer character are all beyond ASCII. -/
theorem lineFeed_mem_encode {c : Char} : lineFeed ∈ String.utf8EncodeChar c ↔ c = '\n' := by
  constructor
  · intro h
    have hval : c.val.toNat = 10 := by
      have hbyte : ∀ n < 256, lineFeed = UInt8.ofNat n → n = 10 := by
        intro n hn heq
        have hnat := congrArg UInt8.toNat heq
        simpa [lineFeed, Nat.mod_eq_of_lt hn] using hnat.symm
      unfold String.utf8EncodeChar at h
      dsimp only at h
      split at h
      · have := hbyte c.val.toNat (by omega) (List.mem_singleton.mp h)
        omega
      · exfalso
        split at h
        · simp only [List.mem_cons, List.not_mem_nil, or_false] at h
          rcases h with h | h <;> have := hbyte _ (by omega) h <;> omega
        · split at h
          · simp only [List.mem_cons, List.not_mem_nil, or_false] at h
            rcases h with h | h | h <;> have := hbyte _ (by omega) h <;> omega
          · simp only [List.mem_cons, List.not_mem_nil, or_false] at h
            rcases h with h | h | h | h <;> have := hbyte _ (by omega) h <;> omega
    exact Char.ext (UInt32.toNat_inj.mp hval)
  · rintro rfl
    decide

end Text

namespace Position

open Text (lineFeed bytes lineFeed_mem_encode)

/-- The position behind bytes at the start of a text. -/
def behind (bs : List UInt8) : Position :=
  ⟨1 + bs.count lineFeed, 1 + (bs.reverse.takeWhile (· ≠ lineFeed)).length⟩

/-- The position of the byte with a number, counted from 0. -/
def ofOffset (bs : List UInt8) (k : Nat) : Position :=
  behind (bs.take k)

theorem behind_append_lineFeed (bs : List UInt8) :
    behind (bs ++ [lineFeed]) = ⟨(behind bs).line + 1, 1⟩ := by
  simp [behind, Nat.add_assoc]

theorem behind_append {bs ds : List UInt8} (h : lineFeed ∉ ds) :
    behind (bs ++ ds) = ⟨(behind bs).line, (behind bs).col + ds.length⟩ := by
  have hcount : ds.count lineFeed = 0 := List.count_eq_zero.mpr h
  have hwhole : ∀ b ∈ ds.reverse, decide (b ≠ lineFeed) = true := by
    intro b hb
    refine decide_eq_true fun heq => h ?_
    rw [← heq]
    exact List.mem_reverse.mp hb
  simp only [behind, List.count_append, hcount, List.reverse_append,
    List.takeWhile_append_of_pos hwhole, List.length_append, List.length_reverse]
  simp only [mk.injEq]
  omega

theorem advance_append_singleton (p : Position) (cs : List Char) (c : Char) :
    p.advance (cs ++ [c]) = (p.advance cs).step c := by
  simp [advance]

/-- Counting characters by their sizes counts bytes. -/
theorem advance_start (cs : List Char) : start.advance cs = behind (bytes cs) := by
  induction cs using List.reverseRecOn with
  | nil => rfl
  | append_singleton cs c ih =>
    rw [advance_append_singleton, ih, step, Text.bytes_append]
    split
    · rename_i hc
      rw [hc]
      exact (behind_append_lineFeed _).symm
    · rename_i hc
      rw [behind_append (by simpa [lineFeed_mem_encode] using hc)]
      simp

theorem advance_advance (p : Position) (cs ds : List Char) :
    (p.advance cs).advance ds = p.advance (cs ++ ds) := by
  simp [advance]

/-- What ends with no line feed ends one byte before the position behind it. -/
theorem spanTo_advance (cs ds : List Char) {c : Char} (hc : c ≠ '\n') (rest : List UInt8) :
    let bs := bytes (cs ++ (ds ++ [c])) ++ rest
    let last := ofOffset bs ((bytes (cs ++ (ds ++ [c]))).length - 1)
    (start.advance cs).spanTo (start.advance (cs ++ (ds ++ [c]))) =
      ⟨(ofOffset bs (bytes cs).length).line, (ofOffset bs (bytes cs).length).col, last.line,
        last.col⟩ := by
  intro bs last
  have hfirst : ofOffset bs (bytes cs).length = start.advance cs := by
    rw [advance_start]
    simp [ofOffset, bs]
  -- The last byte is the last one of the last character, which has no line feed in it.
  obtain ⟨init, b, henc⟩ : ∃ init b, String.utf8EncodeChar c = init ++ [b] :=
    ⟨_, _, (List.dropLast_concat_getLast String.utf8EncodeChar_ne_nil).symm⟩
  have hfree : lineFeed ∉ init ++ [b] := by
    rw [← henc]
    simpa [lineFeed_mem_encode] using hc
  have hfree' : lineFeed ∉ init := fun h => hfree (List.mem_append_left _ h)
  have hbytes : bytes (cs ++ (ds ++ [c])) = bytes (cs ++ ds) ++ init ++ [b] := by
    simp [henc]
  have hlast : last = behind (bytes (cs ++ ds) ++ init) := by
    have hlength : (bytes (cs ++ ds) ++ init ++ [b]).length - 1 = (bytes (cs ++ ds) ++ init).length := by
      rw [List.length_append]
      exact Nat.add_sub_cancel _ 1
    simp only [last, ofOffset, bs, hbytes]
    rw [hlength, List.append_assoc _ [b], List.take_left]
  have hend : start.advance (cs ++ (ds ++ [c])) =
      ⟨(behind (bytes (cs ++ ds))).line, (behind (bytes (cs ++ ds))).col + (init.length + 1)⟩ := by
    rw [advance_start, hbytes, List.append_assoc, behind_append hfree]
    simp
  have hcol : 1 ≤ (behind (bytes (cs ++ ds))).col := Nat.le_add_right 1 _
  rw [hfirst, hlast, hend, behind_append hfree']
  simp only [spanTo, Span.mk.injEq, true_and]
  omega

end Position

end HostScript
