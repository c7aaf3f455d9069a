import HostScript.Diagnostic
import HostScript.Text.Lines

/-!
# Faults of a script

A `Fault` is a cause with the place it was found at. Scanning, parsing and resolution report faults;
`Fault.diagnose` words a fault and adds the source line, and `Diagnostics.ofFaults` collects them.
-/

namespace HostScript

/-- The two kinds of named bodies with parameters. -/
inductive CallableKind where
  | function
  | method
deriving DecidableEq, Repr

def CallableKind.name : CallableKind → String
  | .function => "function"
  | .method => "method"

/-- What the grammar requires at a place where another token stands. -/
inductive Expectation where
  | variableName
  | semicolonAfterVariable
  | callableName (kind : CallableKind)
  | parenAfterCallableName (kind : CallableKind)
  | parameterName
  | parenAfterParameters
  | braceBeforeBody (kind : CallableKind)
  | className
  | superclassName
  | braceBeforeClass
  | braceAfterClass
  | braceBeforeBlock
  | braceAfterBlock
  | semicolonAfterValue
  | semicolonAfterReturn
  | parenAfterIf
  | parenAfterIfCondition
  | parenAfterWhile
  | parenAfterCondition
  | parenAfterFor
  | semicolonAfterLoopCondition
  | parenAfterForClauses
  | semicolonAfterExpression
  | propertyName
  | parenAfterArguments
  | dotAfterSuper
  | superclassMethodName
  | parenAfterExpression
deriving DecidableEq, Repr

def Expectation.text : Expectation → String
  | .variableName => "variable name"
  | .semicolonAfterVariable => "';' after variable declaration"
  | .callableName k => s!"{k.name} name"
  | .parenAfterCallableName k => s!"'(' after {k.name} name"
  | .parameterName => "parameter name"
  | .parenAfterParameters => "')' after parameters"
  | .braceBeforeBody k => "'\x7b' before " ++ k.name ++ " body"
  | .className => "class name"
  | .superclassName => "superclass name"
  | .braceBeforeClass => "'\x7b' before class body"
  | .braceAfterClass => "'\x7d' after class body"
  | .braceBeforeBlock => "'\x7b' before block"
  | .braceAfterBlock => "'\x7d' after block"
  | .semicolonAfterValue => "';' after value"
  | .semicolonAfterReturn => "';' after return value"
  | .parenAfterIf => "'(' after 'if'"
  | .parenAfterIfCondition => "')' after if condition"
  | .parenAfterWhile => "'(' after 'while'"
  | .parenAfterCondition => "')' after condition"
  | .parenAfterFor => "'(' after 'for'"
  | .semicolonAfterLoopCondition => "';' after loop condition"
  | .parenAfterForClauses => "')' after for clauses"
  | .semicolonAfterExpression => "';' after expression"
  | .propertyName => "property name after '.'"
  | .parenAfterArguments => "')' after arguments"
  | .dotAfterSuper => "'.' after 'super'"
  | .superclassMethodName => "superclass method name"
  | .parenAfterExpression => "')' after expression"

/-- The bases that integer literals can name. -/
inductive Radix where
  | binary
  | hexadecimal
deriving DecidableEq, Repr

def Radix.base : Radix → Nat
  | .binary => 2
  | .hexadecimal => 16

def Radix.name : Radix → String
  | .binary => "binary"
  | .hexadecimal => "hexadecimal"

/-- How many parameters a function and how many arguments a call may have. -/
def maxArguments : Nat := 255

/-- How deep statements and expressions may be nested. -/
def maxNesting : Nat := 64

/-- What is wrong with a script. -/
inductive Cause where
  | unexpectedCharacter (text : String)
  | unterminatedString
  | integerTooLarge (lexeme : String)
  | missingDigits (lexeme : String) (radix : Radix)
  | radixWithFraction
  | expected (what : Expectation)
  | expectedExpression
  | invalidAssignmentTarget
  | tooManyArguments
  | tooManyParameters
  | nestingTooDeep
  | duplicateDeclaration
  | selfReferentialInitializer
  | returnOutsideFunction
  | returnValueInInitializer
  | thisOutsideClass
  | superOutsideClass
  | superWithoutSuperclass
  | selfInheritance
deriving DecidableEq, Repr

namespace Cause

def code : Cause → Nat
  | .unexpectedCharacter _ => 100
  | .unterminatedString => 101
  | .integerTooLarge _ => 102
  | .missingDigits .. => 102
  | .radixWithFraction => 102
  | .expected _ => 200
  | .expectedExpression => 201
  | .invalidAssignmentTarget => 202
  | .tooManyArguments => 203
  | .tooManyParameters => 204
  | .nestingTooDeep => 205
  | .duplicateDeclaration => 300
  | .selfReferentialInitializer => 301
  | .returnOutsideFunction => 302
  | .returnValueInInitializer => 303
  | .thisOutsideClass => 304
  | .superOutsideClass => 305
  | .superWithoutSuperclass => 306
  | .selfInheritance => 307

def message : Cause → String
  | .unexpectedCharacter t => s!"Unexpected character '{t}'."
  | .unterminatedString => "Unterminated string."
  | .integerTooLarge l => s!"Integer literal '{l}' does not fit in 32 bits."
  | .missingDigits l r => s!"'{l}' must be followed by a valid {r.name} digit."
  | .radixWithFraction => "Numeric bases cannot be given as a floating point."
  | .expected e => s!"Expect {e.text}."
  | .expectedExpression => "Expect expression."
  | .invalidAssignmentTarget => "Invalid assignment target."
  | .tooManyArguments => s!"Can't have more than {maxArguments} arguments."
  | .tooManyParameters => s!"Can't have more than {maxArguments} parameters."
  | .nestingTooDeep => s!"Nesting is limited to {maxNesting} levels."
  | .duplicateDeclaration => "Already a variable with this name in this scope."
  | .selfReferentialInitializer => "Can't read local variable in its own initializer."
  | .returnOutsideFunction => "Can't return from top-level code."
  | .returnValueInInitializer => "Can't return a value from an initializer."
  | .thisOutsideClass => "Can't use 'this' outside of a class."
  | .superOutsideClass => "Can't use 'super' outside of a class."
  | .superWithoutSuperclass => "Can't use 'super' in a class with no superclass."
  | .selfInheritance => "A class can't inherit from itself."

end Cause

/-- What stands at the place of a fault, where it is named. -/
inductive Near where
  | unnamed
  | lexeme (text : String)
  | endOfInput
deriving DecidableEq, Repr

def Near.context : Near → String
  | .unnamed => ""
  | .lexeme t => Diagnostic.atLexeme t
  | .endOfInput => Diagnostic.atEnd

/-- A cause and the place it was found at. -/
structure Fault where
  cause : Cause
  span : Span
  near : Near
deriving DecidableEq, Repr

/-- The diagnostic for a fault found in `src`. -/
def Fault.diagnose (src : Source) (f : Fault) : Diagnostic where
  file := src.name
  code := f.cause.code
  severity := .error
  category := .ofCode f.cause.code
  message := f.cause.message
  span := f.span
  sourceLine := (src.line? f.span.startLine).getD ""
  context := f.near.context

/-- A buffer with the diagnostics for all faults found in `src`. -/
def Diagnostics.ofFaults (src : Source) (fs : List Fault) : Diagnostics where
  errors := (fs.take maxErrors).map (·.diagnose src)
  warnings := []
  totalErrors := fs.length
  totalWarnings := 0

end HostScript
