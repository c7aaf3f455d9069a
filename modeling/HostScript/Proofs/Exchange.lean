import HostScript.Diagnostic.Exchange
import HostScript.Proofs.Json

/-!
# Diagnostics across a text

A buffer that is written and read again is the same buffer, whatever its texts hold, if its numbers are
within their bounds: 16 bits for a code, 32 for a place and 64 for a total.
-/

namespace HostScript

/-- The numbers of a diagnostic are within their bounds. -/
structure Diagnostic.InRange (d : Diagnostic) : Prop where
  code : d.code < 0x10000
  startLine : d.span.startLine < 0x100000000
  startCol : d.span.startCol < 0x100000000
  endLine : d.span.endLine < 0x100000000
  endCol : d.span.endCol < 0x100000000

/-- The numbers of a buffer, and of all its diagnostics, are within their bounds. -/
structure Diagnostics.InRange (b : Diagnostics) : Prop where
  errors : ∀ d ∈ b.errors, d.InRange
  warnings : ∀ d ∈ b.warnings, d.InRange
  totalErrors : b.totalErrors < 0x10000000000000000
  totalWarnings : b.totalWarnings < 0x10000000000000000

/-- The members that a diagnostic is written with. The four numbers of its span stand beside the others,
and the context is there only if it is not empty. -/
structure Diagnostic.WrittenWith (d : Diagnostic) (ms : List (String × Json)) : Prop where
  names : ms.map (·.1) =
    ["file", "code", "severity", "category", "message", "line", "column", "end_line", "end_column",
      "source_line"] ++ if d.context = "" then [] else ["context"]
  line : ("line", .natural d.span.startLine) ∈ ms
  column : ("column", .natural d.span.startCol) ∈ ms
  endLine : ("end_line", .natural d.span.endLine) ∈ ms
  endColumn : ("end_column", .natural d.span.endCol) ∈ ms
  context : d.context ≠ "" → ("context", .string d.context) ∈ ms

theorem Severity.ofName?_name (s : Severity) : ofName? s.name = some s := by
  cases s <;> decide

theorem Category.ofName?_name (c : Category) : ofName? c.name = some c := by
  cases c <;> decide

namespace Diagnostic

variable {d : Diagnostic}

theorem ofJson?_toJson (h : d.InRange) : ofJson? d.toJson = some d := by
  obtain ⟨file, code, severity, category, message, span, sourceLine, context⟩ := d
  obtain ⟨hcode, hstartLine, hstartCol, hendLine, hendCol⟩ := h
  unfold toJson ofJson? ofMembers?
  by_cases hcontext : context = ""
  · subst hcontext
    simp [Json.field?, Json.named, Json.string?, Json.natural?, Json.name?, Severity.ofName?_name,
      Category.ofName?_name, *]
  · simp [Json.field?, Json.named, Json.string?, Json.natural?, Json.name?, Severity.ofName?_name,
      Category.ofName?_name, *]

theorem listOfJson?_toJson {ds : List Diagnostic} (h : ∀ d ∈ ds, d.InRange) :
    listOfJson? (.array (ds.map toJson)) = some ds := by
  have hmap : (ds.map toJson).mapM ofJson? = some ds := by
    induction ds with
    | nil => rfl
    | cons d ds ih =>
      obtain ⟨hd, hds⟩ := List.forall_mem_cons.mp h
      simp [ofJson?_toJson hd, ih hds]
  exact hmap

theorem fits_toJson (h : d.InRange) (room : Nat) : d.toJson.Fits (room + 1) := by
  obtain ⟨hcode, hstartLine, hstartCol, hendLine, hendCol⟩ := h
  refine .object fun m hm => ?_
  simp only [List.mem_append, List.mem_cons, List.not_mem_nil, or_false] at hm
  rcases hm with (rfl | rfl | rfl | rfl | rfl | rfl | rfl | rfl | rfl | rfl) | hm
  · exact .string
  · exact .natural (by omega)
  · exact .string
  · exact .string
  · exact .string
  · exact .natural (by omega)
  · exact .natural (by omega)
  · exact .natural (by omega)
  · exact .natural (by omega)
  · exact .string
  · split at hm
    · cases hm
    · rw [List.mem_singleton.mp hm]
      exact .string

theorem exists_writtenWith (d : Diagnostic) : ∃ ms, d.toJson = .object ms ∧ d.WrittenWith ms := by
  refine ⟨_, rfl, ?_, by simp, by simp, by simp, by simp, ?_⟩
  · by_cases hcontext : d.context = "" <;> simp [hcontext]
  · intro hcontext
    simp [hcontext]

end Diagnostic

namespace Diagnostics

variable {b : Diagnostics}

theorem ofJson?_toJson (h : b.InRange) : ofJson? b.toJson = some b := by
  have herrors := Diagnostic.listOfJson?_toJson h.errors
  have hwarnings := Diagnostic.listOfJson?_toJson h.warnings
  simp [toJson, ofJson?, ofFields?, Json.field?, Json.named, Json.natural?, herrors, hwarnings,
    h.totalErrors, h.totalWarnings]

theorem fits_toJson (h : b.InRange) : b.toJson.Fits Json.maxNesting := by
  have hlist : ∀ ds : List Diagnostic, (∀ d ∈ ds, d.InRange) →
      Json.Fits (Json.maxNesting - 1) (.array (ds.map Diagnostic.toJson)) := by
    intro ds hds
    refine .array fun v hv => ?_
    obtain ⟨d, hd, rfl⟩ := List.mem_map.mp hv
    exact Diagnostic.fits_toJson (hds d hd) _
  refine .object fun m hm => ?_
  simp only [List.mem_cons, List.not_mem_nil, or_false] at hm
  rcases hm with rfl | rfl | rfl | rfl
  · exact hlist _ h.errors
  · exact hlist _ h.warnings
  · exact .natural h.totalErrors
  · exact .natural h.totalWarnings

theorem wanted_toJson : ∀ ms, b.toJson = .object ms → ∀ m ∈ ms, fieldNames.contains m.1 = true := by
  rintro ms ⟨⟩ m hm
  simp only [List.mem_cons, List.not_mem_nil, or_false] at hm
  rcases hm with rfl | rfl | rfl | rfl <;> simp [fieldNames]

/-- A buffer that is written and read again is the same. In the text each diagnostic is an object, with its
span spread out and without an empty context. -/
theorem ofText?_toText (h : b.InRange) :
    ofText? b.toText = some b ∧
      ∃ members : Diagnostic → List (String × Json),
        (∀ d : Diagnostic, d.WrittenWith (members d)) ∧
        Json.parse? (fun _ => true) b.toText = some (.object
          [("errors", .array (b.errors.map fun d => .object (members d))),
           ("warnings", .array (b.warnings.map fun d => .object (members d))),
           ("total_errors", .natural b.totalErrors),
           ("total_warnings", .natural b.totalWarnings)]) := by
  constructor
  · rw [ofText?, toText, Json.parse?_pretty (fits_toJson h) wanted_toJson]
    exact ofJson?_toJson h
  · obtain ⟨members, hmembers⟩ := Classical.skolem.mp Diagnostic.exists_writtenWith
    have hobject : (fun d => Json.object (members d)) = Diagnostic.toJson :=
      funext fun d => (hmembers d).1.symm
    refine ⟨members, fun d => (hmembers d).2, ?_⟩
    rw [hobject, toText, Json.parse?_pretty (fits_toJson h) fun _ _ _ _ => rfl]
    rfl

/-- Numbers at their bounds, and texts with quotes, line ends, control characters and an emoji. -/
def strange : Diagnostics where
  errors := [⟨"a\"b\\c", 0xFFFF, .error, .syntactic, "\x00\x1f\x7f 😀",
    ⟨0xFFFFFFFF, 0, 0xFFFFFFFF, 0xFFFFFFFF⟩, "\tx\r\n\x08\x0c", ""⟩]
  warnings := [⟨"", 0, .warning, .resolution, "", ⟨0, 0, 0, 0⟩, "", " at '\\u0041'"⟩]
  totalErrors := 0xFFFFFFFFFFFFFFFF
  totalWarnings := 0

theorem ofText?_toText_strange : strange.InRange ∧ ofText? strange.toText = some strange := by
  have hrange : strange.InRange := by
    refine ⟨fun d hd => ?_, fun d hd => ?_, by decide, by decide⟩
    · rw [List.mem_singleton.mp hd]
      constructor <;> decide
    · rw [List.mem_singleton.mp hd]
      constructor <;> decide
  exact ⟨hrange, (ofText?_toText hrange).1⟩

end Diagnostics

end HostScript
