/-!
# The console

Where scripts print, where they read and where diagnostics go. What was printed and reported is
kept, oldest line first; what was not read yet waits in order. A console can be limited: it then
holds only so many printed lines, cannot be read, or loses diagnostics.
-/

namespace HostScript

/-- A failure of the console. -/
inductive IoFault where
  | closed
  | unreadable
  | undecodable
deriving DecidableEq, Repr

def IoFault.message : IoFault → String
  | .closed => "closed"
  | .unreadable => "unreadable"
  | .undecodable => "stream did not contain valid UTF-8"

/-- A waiting line: its text with its line end, or bytes that are not a text. -/
inductive InputLine where
  | text (s : String)
  | undecodable
deriving DecidableEq, Repr

namespace InputLine

/-- The lines of a byte sequence, each with the line feed that ends it. -/
def cut : List UInt8 → List (List UInt8)
  | [] => []
  | b :: rest =>
    if b = 0x0A then [b] :: cut rest
    else
      match cut rest with
      | [] => [[b]]
      | line :: lines => (b :: line) :: lines

def ofBytes (bs : List UInt8) : InputLine :=
  match String.fromUTF8? ⟨bs.toArray⟩ with
  | some s => .text s
  | none => .undecodable

/-- A line without the line feed at its end and the carriage return before that. -/
def strip (cs : List Char) : List Char :=
  match cs.reverse with
  | '\n' :: '\r' :: rest => rest.reverse
  | '\n' :: rest => rest.reverse
  | _ => cs

end InputLine

structure Console where
  lines : Array String
  errors : Array String
  input : List InputLine
  writeLimit : Option Nat
  readable : Bool
  reporting : Bool
deriving DecidableEq

namespace Console

def ofInput (input : List InputLine) : Console :=
  ⟨#[], #[], input, none, true, true⟩

/-- Whether another printed line fits. -/
def hasRoom (c : Console) : Bool :=
  match c.writeLimit with
  | none => true
  | some n => c.lines.size < n

/-- Print a line. -/
def print (c : Console) (line : String) : Except IoFault Console :=
  if c.hasRoom then .ok { c with lines := c.lines.push line } else .error .closed

/-- Read a line without its line end, or nothing when no line waits. -/
def read (c : Console) : Except IoFault (Option String × Console) :=
  if c.readable then
    match c.input with
    | [] => .ok (none, c)
    | .text s :: rest =>
      .ok (some (String.ofList (InputLine.strip s.toList)), { c with input := rest })
    | .undecodable :: _ => .error .undecodable
  else .error .unreadable

/-- Report a line, or lose it. -/
def report (c : Console) (line : String) : Console :=
  if c.reporting then { c with errors := c.errors.push line } else c

/-- Forget what was printed and reported. -/
def clear (c : Console) : Console :=
  { c with lines := #[], errors := #[] }

/-- What was printed, as one text in which every line ends. -/
def text (c : Console) : String :=
  c.lines.foldl (fun t l => t ++ l ++ "\n") ""

end Console

end HostScript
