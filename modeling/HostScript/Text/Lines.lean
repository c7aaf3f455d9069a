/-!
# Lines of a source text

A `Source` is a named text. An index says where its lines start: at the first byte, and behind each newline.
A line is cut out of the text from where it starts up to the newline in front of the next one, and is shown
without the carriage returns that end it. Lines are numbered from 1.
-/

namespace HostScript

namespace Text

/-- The offsets of the newlines of a text, in bytes, if the text itself has offset `k`. -/
def newlines (k : Nat) : List Char → List Nat
  | [] => []
  | c :: cs => if c = '\n' then k :: newlines (k + c.utf8Size) cs else newlines (k + c.utf8Size) cs

/-- What stands in a range of bytes, unless the range goes beyond the text, is reversed, or has an end inside
of a character. -/
def slice? (s : String) (first stop : Nat) : Option String :=
  if h : first ≤ stop ∧ String.Pos.Raw.IsValid s ⟨first⟩ ∧ String.Pos.Raw.IsValid s ⟨stop⟩ then
    some (String.extract ⟨⟨first⟩, h.2.1⟩ ⟨⟨stop⟩, h.2.2⟩)
  else none

/-- A text without the carriage returns at its end. -/
def dropTrailingReturns (cs : List Char) : List Char :=
  (cs.reverse.dropWhile (· = '\r')).reverse

end Text

/-- A script's text together with the name it is reported under. -/
structure Source where
  name : String
  text : String
deriving DecidableEq, Repr, Inhabited

namespace Source

/-- The offsets of the lines, in bytes. -/
def lineStarts (s : Source) : List Nat :=
  0 :: (Text.newlines 0 s.text.toList).map (· + 1)

def lineCount (s : Source) : Nat :=
  s.lineStarts.length

/-- The range of bytes of line `k`, if there is such a line. The newline that ends the line is not in it. -/
def lineRange? (s : Source) (k : Nat) : Option (Nat × Nat) :=
  match k with
  | 0 => none
  | i + 1 => s.lineStarts[i]?.map fun first =>
    (first, s.lineStarts[i + 1]?.elim s.text.utf8ByteSize (· - 1))

/-- Cut line `k` out of the text, if there is such a line. This fails if the range of the line cannot be cut
out. -/
def cutLine? (s : Source) (k : Nat) : Option (Option String) :=
  match s.lineRange? k with
  | none => some none
  | some (first, stop) => (Text.slice? s.text first stop).map fun l =>
    some (String.ofList (Text.dropTrailingReturns l.toList))

/-- The line with number `k`, if there is one. -/
def line? (s : Source) (k : Nat) : Option String :=
  (s.cutLine? k).join

end Source

end HostScript
