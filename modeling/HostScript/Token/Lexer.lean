import HostScript.Token
import HostScript.Diagnostic.Fault
import HostScript.Decimal.Reading

/-!
# Scanning a text

A text is cut into lexemes with gaps between them. A gap consists of blanks and of comments, which
run from `#` to the end of their line. Each lexeme is read as a token or has a fault. Scanning goes
on after a fault until `maxErrors` of them have been found.
-/

namespace HostScript

/-- A place in a text. Columns count bytes of the UTF-8 encoding. -/
structure Position where
  line : Nat
  col : Nat
deriving DecidableEq, Repr, Inhabited

namespace Position

def start : Position := ⟨1, 1⟩

/-- The position behind a character. -/
def step (p : Position) (c : Char) : Position :=
  if c = '\n' then ⟨p.line + 1, 1⟩ else ⟨p.line, p.col + c.utf8Size⟩

/-- The position behind a text. -/
def advance (p : Position) (cs : List Char) : Position :=
  cs.foldl step p

/-- The span from `p` to the last byte before `q`. -/
def spanTo (p q : Position) : Span :=
  ⟨p.line, p.col, q.line, max (q.col - 1) 1⟩

end Position

namespace Lexer

/-- A piece of the text and how it reads. -/
structure Lexeme where
  text : List Char
  reading : Except Cause TokenKind

def isGap (c : Char) : Bool :=
  c = ' ' || c = '\t' || c = '\r' || c = '\n'

/-- Pass over blanks and comments. -/
def skipGap (inComment : Bool) (p : Position) : List Char → Position × List Char
  | [] => (p, [])
  | c :: cs =>
    if inComment then skipGap (c ≠ '\n') (p.step c) cs
    else if isGap c then skipGap false (p.step c) cs
    else if c = '#' then skipGap true (p.step c) cs
    else (p, c :: cs)

def isNameStart (c : Char) : Bool :=
  c.isAlpha || c = '_'

def isNameChar (c : Char) : Bool :=
  c.isAlphanum || c = '_'

/-- Symbols of one character. -/
def single? (c : Char) : Option Symbol :=
  match c with
  | '(' => some .lparen
  | ')' => some .rparen
  | '\x7b' => some .lbrace
  | '\x7d' => some .rbrace
  | ',' => some .comma
  | '.' => some .dot
  | ';' => some .semicolon
  | '-' => some .minus
  | '*' => some .star
  | '/' => some .slash
  | '%' => some .percent
  | '&' => some .amp
  | '|' => some .pipe
  | '^' => some .caret
  | '~' => some .tilde
  | '+' => some .plus
  | '!' => some .bang
  | '=' => some .eq
  | '<' => some .less
  | '>' => some .greater
  | _ => none

/-- Symbols of two characters. -/
def double? (c d : Char) : Option Symbol :=
  match c, d with
  | '+', '+' => some .plusPlus
  | '!', '=' => some .bangEq
  | '=', '=' => some .eqEq
  | '<', '=' => some .lessEq
  | '<', '<' => some .lessLess
  | '>', '=' => some .greaterEq
  | '>', '>' => some .greaterGreater
  | _, _ => none

/-- A symbol of one character, or a character that no lexeme starts with. -/
def singleSymbol (c : Char) : Lexeme where
  text := [c]
  reading :=
    match single? c with
    | some s => .ok (.symbol s)
    | none => .error (.unexpectedCharacter (String.ofList [c]))

/-- A symbol; two characters are taken where they form one. -/
def symbol (c : Char) (cs : List Char) : Lexeme × List Char :=
  match cs with
  | d :: rest =>
    match double? c d with
    | some s => (⟨[c, d], .ok (.symbol s)⟩, rest)
    | none => (singleSymbol c, cs)
  | [] => (singleSymbol c, cs)

/-- A string literal, from behind its opening quote. It runs to the next quote, over line ends. -/
def string (cs : List Char) : Lexeme × List Char :=
  let body := cs.takeWhile (· ≠ '"')
  match cs.dropWhile (· ≠ '"') with
  | q :: rest => (⟨'"' :: body ++ [q], .ok (.string (String.ofList body))⟩, rest)
  | [] => (⟨'"' :: body, .error .unterminatedString⟩, [])

/-- A keyword or a name. -/
def word (c : Char) (cs : List Char) : Lexeme × List Char :=
  let text := c :: cs.takeWhile isNameChar
  let name := String.ofList text
  let kind :=
    match Keyword.ofText? name with
    | some k => .keyword k
    | none => .name name
  (⟨text, .ok kind⟩, cs.dropWhile isNameChar)

/-- Whether a point with a digit behind it comes next. -/
def fractionFollows : List Char → Bool
  | '.' :: d :: _ => d.isDigit
  | _ => false

def isRadixDigit (r : Radix) (c : Char) : Bool :=
  match r with
  | .binary => c = '0' || c = '1'
  | .hexadecimal => c.isDigit || ('a' ≤ c && c ≤ 'f') || ('A' ≤ c && c ≤ 'F')

/-- How an integer in base ten reads. -/
def decimalReading (ds : List Char) : Except Cause TokenKind :=
  let n := Decimal.value 10 ds
  if n < 0x80000000 then .ok (.int (Int32.ofNat n))
  else .error (.integerTooLarge (String.ofList ds))

/-- How a number with a fraction reads. -/
def fractionReading (whole places : List Char) : TokenKind :=
  let ds := whole ++ places
  .float (Decimal.Binary32.ofDecimal false (Decimal.value 10 ds) (-places.length))

/-- A number in base ten, whose first digit is `c`. -/
def decimal (c : Char) (cs : List Char) : Lexeme × List Char :=
  let whole := c :: cs.takeWhile Char.isDigit
  let rest := cs.dropWhile Char.isDigit
  if fractionFollows rest then
    let places := rest.tail.takeWhile Char.isDigit
    (⟨whole ++ '.' :: places, .ok (fractionReading whole places)⟩,
      rest.tail.dropWhile Char.isDigit)
  else (⟨whole, decimalReading whole⟩, rest)

/-- A number whose base is named by `mark` behind a zero. All 32 bits can be written; the number is
then taken as signed. -/
def radixNumber (r : Radix) (mark : Char) (cs : List Char) : Lexeme × List Char :=
  let ds := cs.takeWhile (isRadixDigit r)
  let rest := cs.dropWhile (isRadixDigit r)
  let text := '0' :: mark :: ds
  let n := Decimal.value r.base ds
  let reading :=
    if ds.isEmpty then .error (.missingDigits (String.ofList text) r)
    else if fractionFollows rest then .error .radixWithFraction
    else if n < 0x100000000 then .ok (.int (Int32.ofNat n))
    else .error (.integerTooLarge (String.ofList text))
  (⟨text, reading⟩, rest)

/-- A number whose first digit is `c`. -/
def number (c : Char) (cs : List Char) : Lexeme × List Char :=
  match c, cs with
  | '0', 'x' :: rest => radixNumber .hexadecimal 'x' rest
  | '0', 'b' :: rest => radixNumber .binary 'b' rest
  | c, cs => decimal c cs

/-- The lexeme that starts with `c`, and what follows it. -/
def next (c : Char) (cs : List Char) : Lexeme × List Char :=
  if c = '"' then string cs
  else if c.isDigit then number c cs
  else if isNameStart c then word c cs
  else symbol c cs

/-! ### A lexeme takes up part of the text -/

theorem symbol_text_append (c : Char) (cs : List Char) :
    (symbol c cs).1.text ++ (symbol c cs).2 = c :: cs := by
  unfold symbol
  split
  · split <;> simp [singleSymbol]
  · simp [singleSymbol]

theorem string_text_append (cs : List Char) :
    (string cs).1.text ++ (string cs).2 = '"' :: cs := by
  have happ : cs.takeWhile (· ≠ '"') ++ cs.dropWhile (· ≠ '"') = cs :=
    List.takeWhile_append_dropWhile
  unfold string
  split
  · rename_i q rest hrest
    rw [hrest] at happ
    simpa using happ
  · rename_i hrest
    rw [hrest, List.append_nil] at happ
    simpa using happ

theorem word_text_append (c : Char) (cs : List Char) :
    (word c cs).1.text ++ (word c cs).2 = c :: cs := by
  simp [word, List.takeWhile_append_dropWhile]

theorem fractionFollows_eq {cs : List Char} (h : fractionFollows cs = true) :
    ∃ d tail, cs = '.' :: d :: tail ∧ d.isDigit = true := by
  unfold fractionFollows at h
  split at h
  · rename_i d tail
    exact ⟨d, tail, rfl, h⟩
  · simp at h

theorem decimal_text_append (c : Char) (cs : List Char) :
    (decimal c cs).1.text ++ (decimal c cs).2 = c :: cs := by
  have happ : cs.takeWhile Char.isDigit ++ cs.dropWhile Char.isDigit = cs :=
    List.takeWhile_append_dropWhile
  unfold decimal
  dsimp only
  split
  · rename_i hf
    obtain ⟨d, tail, hrest, -⟩ := fractionFollows_eq hf
    have htail :
        (d :: tail).takeWhile Char.isDigit ++ (d :: tail).dropWhile Char.isDigit = d :: tail :=
      List.takeWhile_append_dropWhile
    rw [hrest] at happ ⊢
    simp only [List.tail_cons, List.cons_append, List.append_assoc, htail, happ]
  · simp [happ]

theorem radixNumber_text_append (r : Radix) (mark : Char) (cs : List Char) :
    (radixNumber r mark cs).1.text ++ (radixNumber r mark cs).2 = '0' :: mark :: cs := by
  simp [radixNumber, List.takeWhile_append_dropWhile]

theorem number_text_append (c : Char) (cs : List Char) :
    (number c cs).1.text ++ (number c cs).2 = c :: cs := by
  unfold number
  split
  · exact radixNumber_text_append ..
  · exact radixNumber_text_append ..
  · exact decimal_text_append ..

/-- A lexeme and what follows it make up the text. -/
theorem next_text_append (c : Char) (cs : List Char) :
    (next c cs).1.text ++ (next c cs).2 = c :: cs := by
  unfold next
  split
  · rename_i hc
    rw [hc]
    exact string_text_append cs
  · split
    · exact number_text_append ..
    · split
      · exact word_text_append ..
      · exact symbol_text_append ..

theorem next_text_ne_nil (c : Char) (cs : List Char) : (next c cs).1.text ≠ [] := by
  unfold next
  split
  · unfold string; split <;> simp
  · split
    · unfold number
      split <;> simp only [radixNumber, decimal]
      · simp
      · simp
      · split <;> simp
    · split
      · simp [word]
      · unfold symbol
        split
        · split <;> simp [singleSymbol]
        · simp [singleSymbol]

theorem next_length (c : Char) (cs : List Char) : (next c cs).2.length < (c :: cs).length := by
  have h := congrArg List.length (next_text_append c cs)
  have hne := List.length_pos_iff.mpr (next_text_ne_nil c cs)
  rw [List.length_append] at h
  omega

theorem skipGap_length (b : Bool) (p : Position) (cs : List Char) :
    (skipGap b p cs).2.length ≤ cs.length := by
  induction cs generalizing b p with
  | nil => simp [skipGap]
  | cons c cs ih =>
    unfold skipGap
    split
    · exact Nat.le_succ_of_le (ih ..)
    · split
      · exact Nat.le_succ_of_le (ih ..)
      · split
        · exact Nat.le_succ_of_le (ih ..)
        · exact Nat.le_refl _

/-! ### The whole text -/

/-- A lexeme and where it starts. -/
structure Placed where
  start : Position
  lexeme : Lexeme

namespace Placed

def span (l : Placed) : Span :=
  l.start.spanTo (l.start.advance l.lexeme.text)

/-- The token, where the lexeme reads as one. -/
def token? (l : Placed) : Option Token :=
  match l.lexeme.reading with
  | .ok k => some ⟨k, String.ofList l.lexeme.text, l.span⟩
  | .error _ => none

/-- The fault, where the lexeme has one. -/
def fault? (l : Placed) : Option Fault :=
  match l.lexeme.reading with
  | .ok _ => none
  | .error c => some ⟨c, l.span, .unnamed⟩

end Placed

/-- How many more faults are let in after a lexeme. -/
def roomAfter (room : Nat) (l : Lexeme) : Nat :=
  match l.reading with
  | .ok _ => room
  | .error _ => room - 1

/-- Scanning a lexeme behind a gap leaves less to scan. -/
theorem next_length_of_skipGap {p q : Position} {c : Char} {cs rest : List Char}
    (h : skipGap false p cs = (q, c :: rest)) : (next c rest).2.length < cs.length := by
  have h₁ := next_length c rest
  have h₂ := skipGap_length false p cs
  rw [h] at h₂
  exact Nat.lt_of_lt_of_le h₁ h₂

/-- The lexemes of a text that starts at `p`, and where scanning ended. It ends with the text, or
once `room` faults have been found. -/
def scan (room : Nat) (p : Position) (cs : List Char) : List Placed × Position :=
  if room = 0 then ([], p)
  else
    match h : skipGap false p cs with
    | (q, []) => ([], q)
    | (q, c :: rest) =>
      have := next_length_of_skipGap h
      let l := (next c rest).1
      let more := scan (roomAfter room l) (q.advance l.text) (next c rest).2
      (⟨q, l⟩ :: more.1, more.2)
termination_by cs.length

end Lexer

/-- The tokens of a text. -/
structure Lexed where
  tokens : List Token
  /-- The span of the end of the input. -/
  finish : Span
  faults : List Fault

/-- Cut a text into tokens. -/
def Lexed.ofText (text : String) : Lexed :=
  let (ls, finish) := Lexer.scan maxErrors .start text.toList
  ⟨ls.filterMap (·.token?), .point finish.line finish.col, ls.filterMap (·.fault?)⟩

end HostScript
