import HostScript.Syntax.Statements
import HostScript.Token.Lexer

/-!
# Programs from texts

`Parsed.ofTokens` parses a token list and `Parsed.ofText` a text. What parses without a fault is
kept, whatever stands around it.
-/

namespace HostScript

/-- A program, with the faults found on the way to it. -/
structure Parsed where
  program : Program
  /-- The first number that no expression node of the program has. -/
  nextId : Nat
  faults : List Fault

namespace Parsed

/-- Enough fuel for `n` tokens. From one token to the next at most sixteen calls are nested in each
other, and a few more stand around the first. -/
def fuelFor (n : Nat) : Nat :=
  16 * (n + 2)

/-- The program in a token list, with expression nodes numbered from `firstId`. -/
def ofTokens (tokens : List Token) (finish : Span) (firstId : Nat) : Parsed :=
  let s := Cursor.ofTokens tokens finish firstId
  let r := (Parser.topLevel (fuelFor tokens.length)).run s
  ⟨⟨r.1.getD [], s.here.merge r.2.prev⟩, r.2.nextId, r.2.faults⟩

/-- The program in a text. Faults of its lexemes come before those of its syntax. -/
def ofText (text : String) (firstId : Nat) : Parsed :=
  let l := Lexed.ofText text
  let p := ofTokens l.tokens l.finish firstId
  { p with faults := l.faults ++ p.faults }

end Parsed

end HostScript
