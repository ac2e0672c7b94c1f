import Cypher.Text.Span
import Cypher.Text.Measure

/-!
# Lines and columns

A position in a text is shown to a reader as a line and a column, both counted from one, where a
column counts characters and not bytes. There are two ways to arrive at it.

* Reading the text from its start, `Cypher.Place.step` keeps the position up to date character by
  character: a newline starts the next line, any other character moves one column on.
* Given only a byte offset, `Cypher.LineIndex.lineColumn` looks it up in the table of the offsets
  at which lines start.

The look-up also answers for a text that the table was not made from. Then the start of the line
may fall inside a character, and the column counts bytes instead. Its numbers have thirty-two bits,
which is enough for texts of less than `2 ^ 32 - 1` bytes.
-/

namespace Cypher

/-! ### Reading along -/

/-- **A position in a text**: its byte offset with its line and column. -/
structure Place where
  /-- Bytes before the position. -/
  offset : Nat
  /-- Line, counted from one. -/
  line : Nat
  /-- Column in characters, counted from one. -/
  column : Nat
deriving DecidableEq, Repr

namespace Place

/-- The start of a text. -/
def origin : Place := ⟨0, 1, 1⟩

/-- The position after one more character. -/
def step (p : Place) (c : Char) : Place :=
  if c = '\n' then ⟨p.offset + c.utf8Size, p.line + 1, 1⟩
  else ⟨p.offset + c.utf8Size, p.line, p.column + 1⟩

/-- The position after a run of characters. -/
def past (p : Place) (cs : List Char) : Place := cs.foldl step p

@[simp] theorem past_nil (p : Place) : p.past [] = p := rfl

@[simp] theorem past_cons (p : Place) (c : Char) (cs : List Char) :
    p.past (c :: cs) = (p.step c).past cs := rfl

theorem past_append (p : Place) (a b : List Char) : p.past (a ++ b) = (p.past a).past b :=
  List.foldl_append

end Place

/-! ### Looking up -/

/-- **The table of line starts** of a text: the byte offsets at which its lines begin, in
increasing order. The empty table belongs to no text. -/
structure LineIndex where
  /-- Offsets of the line starts. -/
  starts : List Nat
deriving DecidableEq, Repr

namespace LineIndex

/-- The offsets just after the newlines of a text that starts at `offset`. -/
def newlineEnds : Nat → List Char → List Nat
  | _, [] => []
  | offset, c :: cs =>
    if c = '\n' then (offset + 1) :: newlineEnds (offset + 1) cs
    else newlineEnds (offset + c.utf8Size) cs

/-- The table of a text: its first line starts at zero, and each newline starts another. -/
def ofChars (cs : List Char) : LineIndex := ⟨0 :: newlineEnds 0 cs⟩

/-- The table without any line. -/
def blank : LineIndex := ⟨[]⟩

/-- The number of lines in the table. -/
def lineCount (index : LineIndex) : Nat := index.starts.length

/-- The place in the table, counted from zero, of the last line that starts at or before an
offset. -/
def lineAt (index : LineIndex) (offset : Nat) : Nat :=
  (index.starts.filter (· ≤ offset)).length - 1

/-- The number of characters between the start of the line of an offset and the offset, or of bytes
where the line or the offset does not begin between two characters of this text. -/
def columnAt (index : LineIndex) (cs : List Char) (offset : Nat) : Nat :=
  let start := index.starts[index.lineAt offset]?.getD 0
  ((Text.slice? cs start offset).map List.length).getD (offset - start)

/-- **The number of what comes behind some others**, counted from one in thirty-two bits. A number
that is too great for that is cut off, and behind the greatest one the numbers start over at zero.
-/
def ordinal (n : Nat) : UInt32 := n.toUInt32 + 1

/-- **Line and column of a byte offset** in a text. An offset past the end stands for the end. -/
def lineColumn (index : LineIndex) (cs : List Char) (offset : Nat) : Nat × Nat :=
  let offset := min offset (Text.size cs)
  ((ordinal (index.lineAt offset)).toNat, (ordinal (index.columnAt cs offset)).toNat)

end LineIndex

end Cypher
