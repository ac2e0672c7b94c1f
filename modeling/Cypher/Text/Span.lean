/-!
# Spans and located values

Every token, every node of a tree and every label of a diagnostic says which stretch of the source
text it is about. A stretch is a `Cypher.Span`: two byte offsets in the UTF-8 form of the text. A
value read from the text together with its span is `Cypher.Located`, and a name read from the text
is an `Cypher.Ident`.
-/

namespace Cypher

/-- **A stretch of the source text**, from the byte offset `start` up to, and not including,
`stop`. Nothing forces `start ≤ stop`: a span supplied from outside may be reversed. -/
structure Span where
  /-- Offset of the first byte. -/
  start : Nat
  /-- Offset just past the last byte. -/
  stop : Nat
deriving DecidableEq, Repr, Inhabited

namespace Span

/-- The empty span at an offset. -/
def empty (offset : Nat) : Span := ⟨offset, offset⟩

/-- The smallest span that covers both. -/
def merge (a b : Span) : Span := ⟨min a.start b.start, max a.stop b.stop⟩

/-- Whether the span `inner` lies within the span `outer`. -/
def contains (outer inner : Span) : Bool :=
  decide (outer.start ≤ inner.start) && decide (inner.stop ≤ outer.stop)

/-- Whether a span is ordered and ends within a text of `size` bytes. -/
def isWithin (span : Span) (size : Nat) : Bool :=
  decide (span.start ≤ size) && decide (span.stop ≤ size) && decide (span.start ≤ span.stop)

/-- The span with both ends brought into a text of `size` bytes, and the end not before the start.
-/
def clamp (span : Span) (size : Nat) : Span :=
  ⟨min span.start size, max (min span.stop size) (min span.start size)⟩

/-- The number of bytes a span covers. -/
def length (span : Span) : Nat := span.stop - span.start

end Span

/-- **A value with the span it was read from.** -/
structure Located (α : Type) where
  /-- What was read. -/
  value : α
  /-- Where it was read. -/
  span : Span
deriving DecidableEq, Repr

/-- Changes the value and leaves the span alone. -/
def Located.map {α β : Type} (f : α → β) (x : Located α) : Located β := ⟨f x.value, x.span⟩

/-- A name with its span: a variable, an alias, a label, a property key. -/
abbrev Ident := Located String

end Cypher
