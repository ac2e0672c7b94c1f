import Cypher.Text.CharSet

/-!
# Blank characters and trimming

Names given from outside, such as the name of a dialect, are taken without the blank characters
around them. Blank are the characters of the Unicode property `White_Space`.
-/

namespace Cypher.Text

/-- The characters of `White_Space`. -/
def blanks : CharSet :=
  ⟨[9, 5, 18, 1, 100, 1, 26, 1, 5599, 1, 2431, 11, 29, 2, 5, 1, 47, 1, 4000, 1]⟩

/-- Whether a character is blank. -/
def isBlank (c : Char) : Bool := blanks.contains c

/-- The characters without the blanks at either end. -/
def trim (cs : List Char) : List Char :=
  ((cs.dropWhile isBlank).reverse.dropWhile isBlank).reverse

end Cypher.Text
