import Cypher.Number.Digits

/-!
# Numbers in a text

A number starts with a digit, or with a point before a digit. It goes on for as long as its form
allows: behind the markers `0x` and `0o` for as long as there are digits of the base, elsewhere
through digits, a point with digits after it, and an exponent. An exponent that lacks its digits
still belongs to the number and makes it malformed. A marker or a point without a digit after it
does not belong to the number at all.
-/

namespace Cypher.Numeral

/-- The form of a number. -/
inductive Form
  /-- Digits alone. -/
  | integer
  /-- Digits with a fraction or an exponent. -/
  | float
  /-- A number whose exponent has no digits. -/
  | malformed
deriving DecidableEq, Repr

/-- The number of characters of a fraction: a point and the digits after it, or nothing. -/
def fractionLength : List Char → Nat
  | '.' :: rest =>
    let digits := (rest.takeWhile Number.isDecimal).length
    if digits = 0 then 0 else digits + 1
  | _ => 0

/-- The number of characters of a sign. -/
def signLength : List Char → Nat
  | '+' :: _ => 1
  | '-' :: _ => 1
  | _ => 0

/-- The number of characters of an exponent, and whether it has digits; `none` if there is no
exponent. -/
def exponentLength? : List Char → Option (Nat × Bool)
  | marker :: rest =>
    if marker = 'e' ∨ marker = 'E' then
      let sign := signLength rest
      let digits := ((rest.drop sign).takeWhile Number.isDecimal).length
      some (1 + sign + digits, digits != 0)
    else none
  | [] => none

/-- Form and length of a decimal number at the front of a text. -/
def decimal (cs : List Char) : Form × Nat :=
  let whole := (cs.takeWhile Number.isDecimal).length
  let fraction := fractionLength (cs.drop whole)
  match exponentLength? (cs.drop (whole + fraction)) with
  | some (length, true) => (.float, whole + fraction + length)
  | some (length, false) => (.malformed, whole + fraction + length)
  | none => (if fraction = 0 then .integer else .float, whole + fraction)

/-- The digits of the base that a marker after a leading zero announces. -/
def markedDigit? : Char → Option (Char → Bool)
  | 'x' => some Number.isHexadecimal
  | 'X' => some Number.isHexadecimal
  | 'o' => some Number.isOctal
  | _ => none

/-- **Form and length of the number at the front of a text** that starts like a number. -/
def read (cs : List Char) : Form × Nat :=
  match cs with
  | '0' :: marker :: rest =>
    match markedDigit? marker with
    | some isDigit =>
      let digits := (rest.takeWhile isDigit).length
      if digits = 0 then decimal cs else (.integer, digits + 2)
    | none => decimal cs
  | _ => decimal cs

/-- Whether a text starts like a number. -/
def starts : List Char → Bool
  | '.' :: c :: _ => Number.isDecimal c
  | c :: _ => Number.isDecimal c
  | [] => false

end Cypher.Numeral
