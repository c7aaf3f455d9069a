import HostScript.Span

/-!
# Diagnostics

A `Diagnostic` is one finding about a script's text: what is wrong, where, and in which line. A
`Diagnostics` buffer collects them. It stores only the first `maxErrors` errors but counts them all.
-/

namespace HostScript

inductive Severity where
  | error
  | warning
deriving DecidableEq, Repr, Inhabited

/-- Which part of the front end a diagnostic comes from. -/
inductive Category where
  | lexical
  | syntactic
  | resolution
deriving DecidableEq, Repr, Inhabited

def Severity.name : Severity → String
  | .error => "error"
  | .warning => "warning"

def Category.name : Category → String
  | .lexical => "lexical"
  | .syntactic => "syntax"
  | .resolution => "resolution"

/-- The category of a diagnostic code, by its range. -/
def Category.ofCode (code : Nat) : Category :=
  if 100 ≤ code ∧ code ≤ 199 then .lexical
  else if 200 ≤ code ∧ code ≤ 299 then .syntactic
  else .resolution

structure Diagnostic where
  file : String
  code : Nat
  severity : Severity
  category : Category
  message : String
  span : Span
  /-- The source line that the diagnostic refers to. -/
  sourceLine : String
  /-- Where on the line it sits, such as ` at 'x'` or ` at end`; may be empty. -/
  context : String
deriving DecidableEq, Repr, Inhabited

namespace Diagnostic

/-- A code as it is shown, such as `E300`. -/
def codeText (code : Nat) : String :=
  s!"E{code}"

/-- The context of a diagnostic at a piece of source text. -/
def atLexeme (lexeme : String) : String :=
  s!" at '{lexeme}'"

/-- The context of a diagnostic at the end of the input. -/
def atEnd : String := " at end"

/-- One line for a reader: `[line N] Error at 'x': message`. -/
def reportText (line : Nat) (context message : String) : String :=
  s!"[line {line}] Error{context}: {message}"

def report (d : Diagnostic) : String :=
  reportText d.span.line d.context d.message

/-- The position, code, category and message. -/
def display (d : Diagnostic) : String :=
  s!"{d.span.text}: {codeText d.code} [{d.category.name}] {d.message}"

end Diagnostic

/-- How many errors a buffer stores; later ones are only counted. -/
def maxErrors : Nat := 20

/-- Diagnostics in the order in which they were found. -/
structure Diagnostics where
  errors : List Diagnostic
  warnings : List Diagnostic
  totalErrors : Nat
  totalWarnings : Nat
deriving DecidableEq, Repr, Inhabited

namespace Diagnostics

def empty : Diagnostics := ⟨[], [], 0, 0⟩

def hasErrors (b : Diagnostics) : Bool :=
  0 < b.totalErrors

/-- Count an error, and store it while there is room. -/
def pushError (b : Diagnostics) (d : Diagnostic) : Diagnostics :=
  { b with
    errors := if b.errors.length < maxErrors then b.errors ++ [d] else b.errors
    totalErrors := b.totalErrors + 1 }

def pushWarning (b : Diagnostics) (d : Diagnostic) : Diagnostics :=
  { b with
    warnings := b.warnings ++ [d]
    totalWarnings := b.totalWarnings + 1 }

/-- How many errors a buffer counted without storing them. A buffer that was read from a text may have
counted fewer than it stores, and then this is negative. -/
def dropped (b : Diagnostics) : Int :=
  b.totalErrors - b.errors.length

/-- Everything in `b` added behind what is in `a`. Errors that `b` counted without storing them are
counted here too. -/
def extend (a b : Diagnostics) : Diagnostics :=
  let pushed := b.errors.foldl pushError a
  b.warnings.foldl pushWarning
    { pushed with totalErrors := (pushed.totalErrors + b.dropped).toNat }

/-- Whether a stored error has the code. -/
def hasCode (b : Diagnostics) (code : Nat) : Bool :=
  b.errors.any (·.code == code)

end Diagnostics

end HostScript
