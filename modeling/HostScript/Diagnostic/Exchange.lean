import HostScript.Diagnostic
import HostScript.Json.Printer
import HostScript.Json.Reader

/-!
# Diagnostics as JSON

The JSON form of a diagnostics buffer and its reader. In a diagnostic the four numbers of the span
stand beside the other fields, and an empty context is left out. Reading takes the fields in any
order and leaves out unknown ones, but refuses a field that is missing, repeated, of another type
or too large.
-/

namespace HostScript

namespace Diagnostic

def toJson (d : Diagnostic) : Json :=
  .object <|
    [("file", .string d.file),
     ("code", .natural d.code),
     ("severity", .string d.severity.name),
     ("category", .string d.category.name),
     ("message", .string d.message),
     ("line", .natural d.span.startLine),
     ("column", .natural d.span.startCol),
     ("end_line", .natural d.span.endLine),
     ("end_column", .natural d.span.endCol),
     ("source_line", .string d.sourceLine)] ++
    if d.context.isEmpty then [] else [("context", .string d.context)]

end Diagnostic

namespace Diagnostics

def toJson (b : Diagnostics) : Json :=
  .object
    [("errors", .array (b.errors.map Diagnostic.toJson)),
     ("warnings", .array (b.warnings.map Diagnostic.toJson)),
     ("total_errors", .natural b.totalErrors),
     ("total_warnings", .natural b.totalWarnings)]

/-- The buffer as JSON text over several lines. -/
def toText (b : Diagnostics) : String :=
  b.toJson.pretty

end Diagnostics

namespace Json

/-- The members with a given name. -/
def named (name : String) (members : List (String × Json)) : List Json :=
  (members.filter (·.1 == name)).map (·.2)

/-- The one member with a given name. -/
def field? (name : String) (members : List (String × Json)) : Option Json :=
  match named name members with
  | [v] => some v
  | _ => none

def string? : Json → Option String
  | .string s => some s
  | _ => none

/-- A natural number below `bound`. -/
def natural? (bound : Nat) : Json → Option Nat
  | .natural n => if n < bound then some n else none
  | _ => none

/-- One of a few names: its text, or an object that maps it to null. -/
def name? : Json → Option String
  | .string s => some s
  | .object [(s, .null)] => some s
  | _ => none

end Json

def Severity.ofName? (s : String) : Option Severity :=
  if s = "error" then some .error
  else if s = "warning" then some .warning
  else none

def Category.ofName? (s : String) : Option Category :=
  if s = "lexical" then some .lexical
  else if s = "syntax" then some .syntactic
  else if s = "resolution" then some .resolution
  else none

namespace Diagnostic

open Json in
def ofMembers? (ms : List (String × Json)) : Option Diagnostic := do
  let file ← (← field? "file" ms).string?
  let code ← (← field? "code" ms).natural? 0x10000
  let severity ← Severity.ofName? (← (← field? "severity" ms).name?)
  let category ← Category.ofName? (← (← field? "category" ms).name?)
  let message ← (← field? "message" ms).string?
  let startLine ← (← field? "line" ms).natural? 0x100000000
  let startCol ← (← field? "column" ms).natural? 0x100000000
  let endLine ← (← field? "end_line" ms).natural? 0x100000000
  let endCol ← (← field? "end_column" ms).natural? 0x100000000
  let sourceLine ← (← field? "source_line" ms).string?
  let context ←
    match named "context" ms with
    | [] => some ""
    | [v] => v.string?
    | _ => none
  return ⟨file, code, severity, category, message, ⟨startLine, startCol, endLine, endCol⟩,
    sourceLine, context⟩

def ofJson? : Json → Option Diagnostic
  | .object ms => ofMembers? ms
  | _ => none

/-- A list of diagnostics. -/
def listOfJson? : Json → Option (List Diagnostic)
  | .array vs => vs.mapM ofJson?
  | _ => none

end Diagnostic

namespace Diagnostics

/-- A buffer from the values of its four fields. -/
def ofFields? (errors warnings totalErrors totalWarnings : Json) : Option Diagnostics := do
  let errors ← Diagnostic.listOfJson? errors
  let warnings ← Diagnostic.listOfJson? warnings
  let totalErrors ← totalErrors.natural? 0x10000000000000000
  let totalWarnings ← totalWarnings.natural? 0x10000000000000000
  return ⟨errors, warnings, totalErrors, totalWarnings⟩

/-- A buffer from an object with its four fields, or from an array of their values in order. -/
def ofJson? : Json → Option Diagnostics
  | .object ms => do
    ofFields? (← Json.field? "errors" ms) (← Json.field? "warnings" ms)
      (← Json.field? "total_errors" ms) (← Json.field? "total_warnings" ms)
  | .array [e, w, te, tw] => ofFields? e w te tw
  | _ => none

def fieldNames : List String :=
  ["errors", "warnings", "total_errors", "total_warnings"]

/-- The buffer that a JSON text denotes. Fields of the buffer that are not its own are passed over;
unknown fields of a diagnostic are read like the others. -/
def ofText? (text : String) : Option Diagnostics :=
  (Json.parse? fieldNames.contains text).bind ofJson?

end Diagnostics

end HostScript
