import Cypher.Number.Digits
import Cypher.Text.Measure

/-!
# Strings and quoted names

The body of a string literal is a sequence of fragments: plain characters, escapes that stand for a
character, and backslash forms that mean nothing and are kept as they are. The value of the literal
is put together from the values of its fragments, and the fragments that mean nothing are the ones
to complain about. Reading stops at the first quote that is not part of an escape.

A quoted name knows a single rule: a quote inside it is written twice.
-/

namespace Cypher

/-! ### Strings -/

/-- **A piece of the body of a string literal.** -/
inductive Fragment
  /-- A character that stands for itself. -/
  | plain (c : Char)
  /-- A backslash, a letter and perhaps digits that stand for the character `meaning`. -/
  | escape (letter : Char) (digits : List Char) (meaning : Char)
  /-- A backslash form that means nothing. -/
  | unknown (letter : Char)
  /-- A backslash that ends the text. -/
  | backslash
deriving DecidableEq, Repr

namespace Fragment

/-- The characters a fragment is written with. -/
def written : Fragment → List Char
  | plain c => [c]
  | escape letter digits _ => '\\' :: letter :: digits
  | unknown letter => ['\\', letter]
  | backslash => ['\\']

/-- The characters a fragment contributes to the value. -/
def value : Fragment → List Char
  | plain c => [c]
  | escape _ _ meaning => [meaning]
  | unknown letter => ['\\', letter]
  | backslash => ['\\']

/-- The meaning of a backslash before a letter that takes no digits. -/
def simpleMeaning? : Char → Option Char
  | 't' => some '\t'
  | 'b' => some '\x08'
  | 'n' => some '\n'
  | 'r' => some '\r'
  | 'f' => some '\x0c'
  | '\x27' => some '\x27'
  | '\x22' => some '\x22'
  | '\\' => some '\\'
  | _ => none

/-- The number of digits that a letter after a backslash takes. -/
def digitCount? : Char → Option Nat
  | 'u' => some 4
  | 'U' => some 8
  | _ => none

/-- The character with a given code point, if there is one. -/
def scalar? (n : Nat) : Option Char := if n.isValidChar then some (Char.ofNat n) else none

/-- The fragment that a backslash and a letter open before the text `rest`. -/
def ofLetter (letter : Char) (rest : List Char) : Fragment :=
  match simpleMeaning? letter with
  | some c => escape letter [] c
  | none =>
    match digitCount? letter with
    | none => unknown letter
    | some count =>
      let digits := rest.take count
      if digits.length = count ∧ digits.all Number.isHexadecimal then
        match scalar? (Number.ofDigits 16 digits) with
        | some c => escape letter digits c
        | none => unknown letter
      else unknown letter

/-- The number of digits a fragment takes. -/
def extra : Fragment → Nat
  | escape _ digits _ => digits.length
  | _ => 0

/-- **The fragments of a string body** up to its closing quote, and whether there is one. -/
def read (quote : Char) : List Char → List Fragment × Bool
  | [] => ([], false)
  | c :: rest =>
    if c = quote then ([], true)
    else if c = '\\' then
      match rest with
      | [] => ([backslash], false)
      | letter :: after =>
        let fragment := ofLetter letter after
        let (fragments, closed) := read quote (after.drop fragment.extra)
        (fragment :: fragments, closed)
    else
      let (fragments, closed) := read quote rest
      (plain c :: fragments, closed)
termination_by cs => cs.length

/-- The value that fragments spell together. -/
def values (fragments : List Fragment) : List Char := fragments.flatMap value

/-- The characters that fragments are written with. -/
def writtenAll (fragments : List Fragment) : List Char := fragments.flatMap written

/-- The forms that mean nothing, each with the byte offset at which it starts, for fragments that
start at `offset`. -/
def unknowns : Nat → List Fragment → List (Nat × List Char)
  | _, [] => []
  | offset, fragment :: fragments =>
    let rest := unknowns (offset + Text.size fragment.written) fragments
    match fragment with
    | unknown letter => (offset, ['\\', letter]) :: rest
    | _ => rest

end Fragment

/-! ### Quoted names -/

namespace QuotedName

/-- The quote of a name. -/
def quote : Char := '\x60'

/-- **The name up to its closing quote**, the number of characters taken including that quote, and
whether there is one. -/
def read : List Char → List Char × Nat × Bool
  | [] => ([], 0, false)
  | [c] => if c = quote then ([], 1, true) else ([c], 1, false)
  | c :: d :: rest =>
    if c = quote then
      if d = quote then
        let (name, count, closed) := read rest
        (quote :: name, count + 2, closed)
      else ([], 1, true)
    else
      let (name, count, closed) := read (d :: rest)
      (c :: name, count + 1, closed)

end QuotedName

end Cypher
