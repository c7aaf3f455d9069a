/-!
# Source spans

A `Span` is a range of source positions. Lines and columns are counted from 1, and columns count
the bytes of the UTF-8 encoding, so a character outside ASCII takes up several columns.
-/

namespace HostScript

/-- A range of source positions, both ends included. -/
structure Span where
  startLine : Nat
  startCol : Nat
  endLine : Nat
  endCol : Nat
deriving DecidableEq, Repr, Inhabited

namespace Span

/-- The span of a single position. -/
def point (line col : Nat) : Span :=
  ⟨line, col, line, col⟩

/-- The line that diagnostics are reported against. -/
def line (s : Span) : Nat :=
  s.startLine

/-- Position `(l₁, c₁)` does not come after `(l₂, c₂)` in reading order. -/
def NotAfter (l₁ c₁ l₂ c₂ : Nat) : Prop :=
  l₁ < l₂ ∨ (l₁ = l₂ ∧ c₁ ≤ c₂)

instance (l₁ c₁ l₂ c₂ : Nat) : Decidable (NotAfter l₁ c₁ l₂ c₂) :=
  inferInstanceAs (Decidable (_ ∨ _))

/-- The smallest span that covers both: it starts at the earlier start and ends at the later end. -/
def merge (a b : Span) : Span :=
  let start :=
    if NotAfter a.startLine a.startCol b.startLine b.startCol then (a.startLine, a.startCol)
    else (b.startLine, b.startCol)
  let stop :=
    if NotAfter a.endLine a.endCol b.endLine b.endCol then (b.endLine, b.endCol)
    else (a.endLine, a.endCol)
  ⟨start.1, start.2, stop.1, stop.2⟩

/-- The start of a span as `line:column`. -/
def text (s : Span) : String :=
  s!"{s.startLine}:{s.startCol}"

end Span

end HostScript
