import Cypher.Diagnostic.Basic
import Cypher.Text.Place

/-!
# Reports

To show a diagnostic, its labels have to be drawn into the source text. A report is a diagnostic
made ready for that: every label is brought into the text and given by an offset and a length, so
that drawing needs no further care, and notes become advice of their own.
-/

namespace Cypher

/-! ### Sources -/

/-- **A source text** to be shown. -/
structure Source where
  /-- The text. -/
  content : String
  /-- The name under which it is known. -/
  name : Option String

namespace Source

/-- The length of the text in bytes. -/
def size (source : Source) : Nat := Text.size source.content.toList

/-- Line and column of a byte offset. -/
def lineColumn (source : Source) (offset : Nat) : Nat × Nat :=
  (LineIndex.ofChars source.content.toList).lineColumn source.content.toList offset

/-- Whether a span is ordered and lies in the text. -/
def accepts (source : Source) (span : Span) : Bool := span.isWithin source.size

/-- The span brought into the text. -/
def clamp (source : Source) (span : Span) : Span := span.clamp source.size

end Source

/-! ### Reports on a source -/

/-- A label ready to be drawn. -/
structure DrawnLabel where
  /-- The first byte. -/
  offset : Nat
  /-- The number of bytes. -/
  length : Nat
  /-- The remark. -/
  message : String
  /-- Whether the label marks the place itself. -/
  primary : Bool
deriving DecidableEq, Repr

/-- **A diagnostic ready to be shown.** -/
structure Report where
  /-- What is wrong. -/
  message : String
  /-- How bad it is. -/
  severity : Severity
  /-- What kind of problem it is. -/
  code : Option Code
  /-- What to do about it. -/
  help : Option String
  /-- Where it is wrong. -/
  labels : List DrawnLabel
  /-- What else to know. -/
  advice : List String
deriving DecidableEq, Repr

/-- A label brought into a source. -/
def Label.draw (source : Source) (l : Label) : DrawnLabel :=
  let span := source.clamp l.span
  ⟨span.start, span.length, l.message, l.role = .primary⟩

/-- **The report of a diagnostic** on a source. -/
def Diagnostic.report (source : Source) (d : Diagnostic) : Report :=
  ⟨d.message, d.severity, d.code, d.help, d.labels.map (Label.draw source), d.notes⟩

/-- The reports of some diagnostics on a source, in the same order. -/
def Source.reports (source : Source) (ds : List Diagnostic) : List Report :=
  ds.map (Diagnostic.report source)

end Cypher
