import HostScript.Machine.Evaluation
import HostScript.Diagnostic.Fault
import HostScript.Syntax.Parsed
import Std.Data.TreeMap

/-!
# Sessions

A session runs scripts one after another on one machine. Names, objects and the places of resolved
names stay from run to run, and every expression of every run has a number of its own, so that
functions of earlier runs keep their meaning. A script with a compile error is not run at all.

Whatever runs a script takes fuel and gives nothing when the fuel was not enough, or when the run
crashed.
-/

namespace HostScript

/-- A script that was read, and how its names resolve. -/
structure Compiled where
  program : Program
  locals : List (Nat × Nat)
  nextId : Nat
  diagnostics : Diagnostics

/-- Parse, and resolve if nothing was wrong. -/
def Compiled.ofSource (src : Source) (firstId : Nat) : Compiled :=
  let p := Parsed.ofText src.text firstId
  let r := if p.faults.isEmpty then Resolution.ofProgram p.program else .empty
  { program := p.program
    locals := r.locals
    nextId := p.nextId
    diagnostics := .ofFaults src (p.faults ++ r.faults) }

/-- What is wrong with a script, without running it. -/
def check (src : Source) : Diagnostics :=
  (Compiled.ofSource src 0).diagnostics

/-- Why the text of a script could not be had. -/
inductive ScriptFault where
  | missing
  | undecodable
deriving DecidableEq, Repr

def ScriptFault.message : ScriptFault → String
  | .missing => "No such file or directory (os error 2)"
  | .undecodable => "stream did not contain valid UTF-8"

/-- Why a run stopped early. -/
inductive RunError where
  | compile (d : Diagnostics)
  | runtime (e : RuntimeError)
  | script (f : ScriptFault)

namespace RunError

def message : RunError → String
  | compile d =>
    "compilation failed with " ++ String.ofList (Decimal.digits d.totalErrors) ++ " error(s)"
  | runtime e => e.message
  | script f => "cannot read script: " ++ f.message

/-- The exit status of a program that ends with the error. -/
def exitCode : RunError → Nat
  | compile _ => 65
  | runtime _ => 70
  | script _ => 74

end RunError

/-- What every script can use: conversions, `input`, names for the two empty values, vectors. -/
def Machine.prelude : Run Unit := do
  Machine.defineNative "int" 1 .int
  Machine.defineNative "float" 1 .float
  Machine.defineNative "string" 1 .string
  Machine.defineNative "str" 1 .string
  Machine.defineNative "bool" 1 .bool
  Machine.defineNative "input" 0 .input
  Machine.define .globals "Null" .null
  Machine.define .globals "Undefined" .undefined
  let _ ← Machine.register (.vector 2)
  let _ ← Machine.register (.vector 3)
  let _ ← Machine.register (.vector 4)

structure Session where
  machine : Machine
  /-- How far out each resolved name of each run is bound. -/
  locals : Std.TreeMap Nat Nat
  maxDepth : Nat
  nextId : Nat
  hadError : Bool
  hadRuntimeError : Bool

namespace Session

/-- How deep calls of script functions may go, unless it is said otherwise. -/
def defaultMaxDepth : Nat := 1024

/-- A session on a machine that knows no name. -/
def bare (maxDepth : Nat) (console : Console) : Session :=
  ⟨.ofConsole console, ∅, maxDepth, 0, false, false⟩

def context (s : Session) : Context :=
  ⟨fun id => s.locals[id]?, s.maxDepth⟩

/-- Carry out a computation on the session's machine. -/
def perform {α : Type} (s : Session) (x : Run α) : Option (Except RuntimeError α × Session) :=
  match x s.machine with
  | .done a m => some (.ok a, { s with machine := m })
  | .fail e m => some (.error e, { s with machine := m })
  | .crash | .outOfFuel => none

/-- A session with the prelude. -/
def new (maxDepth : Nat) (console : Console) : Session :=
  let s := bare maxDepth console
  match s.perform Machine.prelude with
  | some (_, s') => s'
  | none => s

/-- Add the places of resolved names. -/
def learn (s : Session) (locals : List (Nat × Nat)) : Session :=
  { s with locals := locals.foldl (fun t p => t.insert p.1 p.2) s.locals }

/-- Run a program until a statement fails. After a failure the machine is outside every scope and
call. -/
def interpret (s : Session) (fuel : Nat) (p : Program) (locals : List (Nat × Nat)) :
    Option (Except RuntimeError Unit × Session) :=
  let s := s.learn locals
  match Evaluation.program s.context fuel p.stmts s.machine with
  | .done _ m => some (.ok (), { s with machine := m })
  | .fail e m => some (.error e, { s with machine := { m with env := .globals, depth := 0 } })
  | .crash | .outOfFuel => none

/-- Run statements each on its own, going on after failures. -/
def executeEach (s : Session) (fuel : Nat) :
    List Stmt → Option (List (Except RuntimeError Completion) × Session)
  | [] => some ([], s)
  | t :: rest => do
    let (r, s) ← s.perform (Evaluation.exec s.context fuel t)
    let (rs, s) ← s.executeEach fuel rest
    return (r :: rs, s)

/-- Call a value. -/
def call (s : Session) (fuel : Nat) (callee : Value) (args : List Value) :
    Option (Except RuntimeError Value × Session) :=
  s.perform (Evaluation.callFromHost s.context fuel callee args)

/-- Put a line on the console's list of diagnostics. -/
def emit (s : Session) (line : String) : Session :=
  { s with machine := { s.machine with console := s.machine.console.report line } }

/-- Report a compile error. -/
def report (s : Session) (line : Nat) (context message : String) : Session :=
  { s.emit (Diagnostic.reportText line context message) with hadError := true }

def reportError (s : Session) (d : Diagnostic) : Session :=
  s.report d.span.line d.context d.message

/-- Report a runtime error. -/
def reportRuntimeError (s : Session) (e : RuntimeError) : Session :=
  { s.emit ("Runtime error: " ++ e.message) with hadRuntimeError := true }

def resetErrors (s : Session) : Session :=
  { s with hadError := false, hadRuntimeError := false }

/-- Run a script. -/
def run (s : Session) (fuel : Nat) (src : Source) : Option (Except RunError Unit × Session) :=
  let compiled := Compiled.ofSource src s.nextId
  let s := { s with nextId := compiled.nextId }
  if compiled.diagnostics.hasErrors then
    some (.error (.compile compiled.diagnostics), compiled.diagnostics.errors.foldl reportError s)
  else
    match s.interpret fuel compiled.program compiled.locals with
    | some (.ok _, s) => some (.ok (), s)
    | some (.error e, s) => some (.error (.runtime e), s.reportRuntimeError e)
    | none => none

/-- Run the script in a file with the given contents, or in a file that is not there. -/
def runFile (s : Session) (fuel : Nat) (path : String) (contents : Option ByteArray) :
    Option (Except RunError Unit × Session) :=
  match contents with
  | none => some (.error (.script .missing), s)
  | some bytes =>
    match String.fromUTF8? bytes with
    | none => some (.error (.script .undecodable), s)
    | some text => s.run fuel ⟨path, text⟩

/-- The value of a global name. -/
def global? (s : Session) (x : String) : Option Value :=
  s.machine.store.get? .globals x

end Session

/-- What came of a script that ran in a session of its own. -/
structure RunReport where
  success : Bool
  output : List String
  errors : Diagnostics
  runtimeError : Option String

/-- Run a script in a session of its own, with nothing to read. -/
def RunReport.ofSource (fuel : Nat) (src : Source) : Option RunReport := do
  let (result, s) ← (Session.new Session.defaultMaxDepth (.ofInput [])).run fuel src
  let errors := match result with
    | .error (.compile d) => d
    | _ => .empty
  let runtimeError := match result with
    | .error (.runtime e) => some e.message
    | .error (.script f) => some (RunError.script f).message
    | _ => none
  return {
    success := !errors.hasErrors && runtimeError.isNone
    output := s.machine.console.lines.toList
    errors := errors
    runtimeError := runtimeError }

end HostScript
