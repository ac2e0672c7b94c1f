import Cypher.Text.Identifier
import Cypher.Token.Basic
import Cypher.Token.Numeral
import Cypher.Token.Quoted

/-!
# Cutting a text into pieces

A text is a sequence of pieces: blanks and comments, which carry no meaning, and the pieces that
become tokens. Which piece stands at the front of a text is decided by its first characters, and it
goes on for as long as its shape allows. `Cypher.Piece.split` cuts a whole text up; putting the
pieces together again gives the text back, since each piece is what was taken from the front.
-/

namespace Cypher

/-- **What a piece of the text is.** -/
inductive Shape
  /-- Blanks, or a comment to the end of the line. -/
  | blank
  /-- A comment between markers, and whether the second marker is there. -/
  | comment (closed : Bool)
  /-- A reserved word or an unquoted name. -/
  | word
  /-- A quoted name, and whether its closing quote is there. -/
  | quotedName (name : List Char) (closed : Bool)
  /-- A string literal by its fragments, and whether its closing quote is there. -/
  | string (quote : Char) (fragments : List Fragment) (closed : Bool)
  /-- A number. -/
  | number (form : Numeral.Form)
  /-- A parameter. -/
  | parameter
  /-- An operator or a punctuation mark. -/
  | sign (s : Sign)
  /-- A character that starts nothing. -/
  | unknown
deriving DecidableEq, Repr

/-- **A piece of the text**: what it is, and the characters it consists of. -/
structure Piece where
  /-- What the piece is. -/
  shape : Shape
  /-- The characters of the piece. -/
  written : List Char
deriving DecidableEq, Repr

namespace Piece

/-- Whether a character separates tokens. -/
def isGap (c : Char) : Bool := c = ' ' || c = '\t' || c = '\r' || c = '\n' || c = '\x0c'

/-- The length of a comment after its opening marker, and whether the closing marker is there. -/
def commentLength : List Char → Nat × Bool
  | [] => (0, false)
  | '*' :: '/' :: _ => (2, true)
  | _ :: rest => let (count, closed) := commentLength rest; (count + 1, closed)

/-- The shape of a parameter after its dollar sign, and its length: a name, or digits. -/
def parameter (rest : List Char) : Shape × Nat :=
  match rest with
  | c :: cs =>
    if Text.isNameStart c then (.parameter, (cs.takeWhile Text.isNamePart).length + 1)
    else if Number.isDecimal c then (.parameter, (cs.takeWhile Number.isDecimal).length + 1)
    else (.unknown, 0)
  | [] => (.unknown, 0)

/-- The sign that starts with a character, and how many further characters it takes. -/
def sign (c : Char) (rest : List Char) : Shape × Nat :=
  match rest.head?.bind (Sign.ofPair? c) with
  | some s => (.sign s, 1)
  | none =>
    match Sign.ofChar? c with
    | some s => (.sign s, 0)
    | none => (.unknown, 0)

/-- **The shape of the piece at the front of a text** `c :: rest`, and how many characters of `rest`
belong to it. -/
def front (c : Char) (rest : List Char) : Shape × Nat :=
  if isGap c then (.blank, (rest.takeWhile isGap).length)
  else if c = '/' ∧ rest.head? = some '/' then (.blank, (rest.takeWhile (· ≠ '\n')).length)
  else if c = '/' ∧ rest.head? = some '*' then
    let (count, closed) := commentLength (rest.drop 1)
    (.comment closed, count + 1)
  else if Text.isNameStart c then (.word, (rest.takeWhile Text.isNamePart).length)
  else if c = QuotedName.quote then
    let (name, count, closed) := QuotedName.read rest
    (.quotedName name closed, count)
  else if c = '\x27' ∨ c = '\x22' then
    let (fragments, closed) := Fragment.read c rest
    let count := (Fragment.writtenAll fragments).length + (if closed then 1 else 0)
    (.string c fragments closed, count)
  else if Numeral.starts (c :: rest) then
    let (form, length) := Numeral.read (c :: rest)
    (.number form, length - 1)
  else if c = '$' then parameter rest
  else sign c rest

/-- **The pieces of a text**, from its front to its end. -/
def split : List Char → List Piece
  | [] => []
  | c :: rest =>
    let (shape, count) := front c rest
    ⟨shape, c :: rest.take count⟩ :: split (rest.drop count)
termination_by cs => cs.length

/-- Nothing of the text is lost in cutting it up, and nothing is added. -/
theorem flatMap_written_split (cs : List Char) : (split cs).flatMap written = cs := by
  fun_induction split cs with
  | case1 => rfl
  | case2 c rest shape count _ ih => simp [ih]

/-- No piece is empty. -/
theorem written_ne_nil_of_mem_split {cs : List Char} {p : Piece} (h : p ∈ split cs) :
    p.written ≠ [] := by
  fun_induction split cs with
  | case1 => simp at h
  | case2 c rest shape count _ ih =>
    rcases List.mem_cons.1 h with rfl | h
    · simp
    · exact ih h

end Piece

end Cypher
