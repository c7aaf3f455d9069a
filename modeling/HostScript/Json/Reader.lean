import HostScript.Json

/-!
# Reading JSON

A reader for one JSON value. Every function takes the characters that are left and returns what it
read with the rest, or nothing where the text is no JSON.

The caller names the members of the outermost object that it wants. A value under another name is
passed over: it has to be well formed, but it may be nested at will, and its strings and numbers
need not denote anything. Whatever is kept has to be a value: its strings are texts, its numbers
are in range and its nesting is bounded.
-/

namespace HostScript.Json

/-- What a value is read for. -/
inductive Purpose where
  /-- It becomes part of the result; arrays and objects in it nest at most `room` deep. -/
  | kept (room : Nat)
  /-- It is left out of the result. -/
  | passedOver
deriving DecidableEq, Repr

namespace Purpose

def isKept : Purpose → Bool
  | kept _ => true
  | passedOver => false

/-- The purpose of what stands inside an array or object, if there is room for one. -/
def inner? : Purpose → Option Purpose
  | kept 0 => none
  | kept (room + 1) => some (kept room)
  | passedOver => some passedOver

end Purpose

/-- How deep the arrays and objects of a text may nest. -/
def maxNesting : Nat := 127

def isSpace (c : Char) : Bool :=
  c = ' ' || c = '\n' || c = '\t' || c = '\r'

def skipSpace (cs : List Char) : List Char :=
  cs.dropWhile isSpace

def isHexDigit (c : Char) : Bool :=
  c.isDigit || ('a' ≤ c && c ≤ 'f') || ('A' ≤ c && c ≤ 'F')

/-- The number that four hexadecimal digits denote. -/
def unit? : List Char → Option (Nat × List Char)
  | a :: b :: c :: d :: cs =>
    if [a, b, c, d].all isHexDigit then some (Decimal.value 16 [a, b, c, d], cs) else none
  | _ => none

/-- The character of a `\u` escape. Two halves of a surrogate pair are one character; a half that
stands alone is refused. -/
def unicode? (cs : List Char) : Option (Char × List Char) :=
  match unit? cs with
  | none => none
  | some (u, rest) =>
    if 0xD800 ≤ u ∧ u < 0xDC00 then
      match rest with
      | '\\' :: 'u' :: rest =>
        match unit? rest with
        | some (v, rest) =>
          if 0xDC00 ≤ v ∧ v < 0xE000 then
            some (Char.ofNat (0x10000 + (u - 0xD800) * 0x400 + (v - 0xDC00)), rest)
          else none
        | none => none
      | _ => none
    else if 0xDC00 ≤ u ∧ u < 0xE000 then none
    else some (Char.ofNat u, rest)

/-- The character of an escape, read from behind the backslash. In a text that is not `kept` four
hexadecimal digits are enough behind `\u`, and the replacement character stands for them. -/
def escape? (kept : Bool) : List Char → Option (Char × List Char)
  | '"' :: cs => some ('"', cs)
  | '\\' :: cs => some ('\\', cs)
  | '/' :: cs => some ('/', cs)
  | 'b' :: cs => some ('\x08', cs)
  | 'f' :: cs => some ('\x0c', cs)
  | 'n' :: cs => some ('\n', cs)
  | 'r' :: cs => some ('\r', cs)
  | 't' :: cs => some ('\t', cs)
  | 'u' :: cs => if kept then unicode? cs else (unit? cs).map fun (_, rest) => ('\ufffd', rest)
  | _ => none

theorem unit?_length {cs rest : List Char} {n : Nat} (h : unit? cs = some (n, rest)) :
    rest.length < cs.length := by
  unfold unit? at h
  split at h
  · split at h
    · simp only [Option.some.injEq, Prod.mk.injEq] at h
      simp only [← h.2, List.length_cons]; omega
    · exact absurd h (by simp)
  · exact absurd h (by simp)

theorem unicode?_length {cs rest : List Char} {c : Char} (h : unicode? cs = some (c, rest)) :
    rest.length < cs.length := by
  unfold unicode? at h
  split at h
  · exact absurd h (by simp)
  · rename_i u r hu
    have hr := unit?_length hu
    split at h
    · split at h
      · rename_i r'
        split at h
        · rename_i v r'' hv
          have := unit?_length hv
          split at h
          · simp only [Option.some.injEq, Prod.mk.injEq] at h
            simp only [List.length_cons] at hr
            rw [← h.2]; omega
          · exact absurd h (by simp)
        · exact absurd h (by simp)
      · exact absurd h (by simp)
    · split at h
      · exact absurd h (by simp)
      · simp only [Option.some.injEq, Prod.mk.injEq] at h
        rw [← h.2]; exact hr

/-- An escape takes up at least one character. -/
theorem escape?_length {kept : Bool} {cs rest : List Char} {c : Char}
    (h : escape? kept cs = some (c, rest)) : rest.length < cs.length := by
  unfold escape? at h
  split at h
  case h_9 =>
    split at h
    · exact Nat.lt_succ_of_lt (unicode?_length h)
    · obtain ⟨⟨n, r⟩, hu, hr⟩ := Option.map_eq_some_iff.1 h
      simp only [Prod.mk.injEq] at hr
      rw [← hr.2]
      exact Nat.lt_succ_of_lt (unit?_length hu)
  case h_10 => simp at h
  all_goals
    simp only [Option.some.injEq, Prod.mk.injEq] at h
    simp [← h.2]

/-- The characters of a string literal, read from behind the opening quote. -/
def stringBody (kept : Bool) (cs : List Char) : Option (List Char × List Char) :=
  match cs with
  | [] => none
  | c :: cs =>
    if c = '"' then some ([], cs)
    else if c = '\\' then
      match h : escape? kept cs with
      | none => none
      | some (e, rest) =>
        have := escape?_length h
        (stringBody kept rest).map fun (s, rest) => (e :: s, rest)
    else if c.toNat < 0x20 then none
    else (stringBody kept cs).map fun (s, rest) => (c :: s, rest)
termination_by cs.length
decreasing_by all_goals simp_wf <;> omega

mutual

/-- A value, read with at most `fuel` nested calls. If it is an object, its members are those that
are `wanted`. -/
def value? (wanted : String → Bool) (purpose : Purpose) :
    (fuel : Nat) → List Char → Option (Json × List Char)
  | 0, _ => none
  | fuel + 1, cs =>
    match cs with
    | 'n' :: 'u' :: 'l' :: 'l' :: rest => some (.null, rest)
    | 't' :: 'r' :: 'u' :: 'e' :: rest => some (.bool true, rest)
    | 'f' :: 'a' :: 'l' :: 's' :: 'e' :: rest => some (.bool false, rest)
    | '"' :: rest =>
      (stringBody purpose.isKept rest).map fun (s, rest) => (.string (String.ofList s), rest)
    | '[' :: rest =>
      match purpose.inner?, skipSpace rest with
      | none, _ => none
      | some _, ']' :: rest => some (.array [], rest)
      | some inner, rest => (items? inner fuel rest).map fun (vs, rest) => (.array vs, rest)
    | '\x7b' :: rest =>
      match purpose.inner?, skipSpace rest with
      | none, _ => none
      | some _, '\x7d' :: rest => some (.object [], rest)
      | some inner, rest =>
        (members? wanted inner fuel rest).map fun (ms, rest) => (.object ms, rest)
    | cs => number? purpose.isKept cs

/-- One or more items of an array and the bracket behind them. -/
def items? (purpose : Purpose) : (fuel : Nat) → List Char → Option (List Json × List Char)
  | 0, _ => none
  | fuel + 1, cs =>
    match value? (fun _ => true) purpose fuel cs with
    | none => none
    | some (v, rest) =>
      match skipSpace rest with
      | ',' :: rest => (items? purpose fuel (skipSpace rest)).map fun (vs, rest) => (v :: vs, rest)
      | ']' :: rest => some ([v], rest)
      | _ => none

/-- One or more members of an object and the brace behind them. The value of a member that is not
wanted is passed over. -/
def members? (wanted : String → Bool) (purpose : Purpose) :
    (fuel : Nat) → List Char → Option (List (String × Json) × List Char)
  | 0, _ => none
  | fuel + 1, cs =>
    match cs with
    | '"' :: rest =>
      match stringBody purpose.isKept rest with
      | none => none
      | some (k, rest) =>
        let key := String.ofList k
        match skipSpace rest with
        | ':' :: rest =>
          match value? (fun _ => true) (if wanted key then purpose else .passedOver) fuel
              (skipSpace rest) with
          | none => none
          | some (v, rest) =>
            let found := if wanted key then [(key, v)] else []
            match skipSpace rest with
            | ',' :: rest =>
              (members? wanted purpose fuel (skipSpace rest)).map fun (ms, rest) =>
                (found ++ ms, rest)
            | '\x7d' :: rest => some (found, rest)
            | _ => none
        | _ => none
    | _ => none

end

/-- The value that a whole text denotes; of an object, the members that are `wanted`. A call is
nested in another at most twice for each character, so the fuel is never used up. -/
def parse? (wanted : String → Bool) (text : String) : Option Json :=
  let cs := text.toList
  match value? wanted (.kept maxNesting) (2 * cs.length + 1) (skipSpace cs) with
  | some (v, rest) => if (skipSpace rest).isEmpty then some v else none
  | none => none

end HostScript.Json
