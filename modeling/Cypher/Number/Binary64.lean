import Cypher.Number.Digits

/-!
# Decimal fractions in binary

A float literal denotes the binary64 number nearest to the decimal fraction that is written, and
the one with the even last bit where two are equally near. The rounding is exact: the fraction is a
ratio of two natural numbers, and the significand is the rounded quotient of a ratio.

The bit pattern is kept rather than a machine float, so that equality is equality of patterns and
arithmetic on it is arithmetic of natural numbers.
-/

namespace Cypher.Number

/-- **A binary64 number**, by its bit pattern. -/
structure Binary64 where
  /-- Sign, exponent and significand as one word. -/
  bits : UInt64
deriving DecidableEq, Repr

namespace Binary64

/-- The number of bits of the significand that are stored. -/
def storedBits : Nat := 52

/-- The exponent of the last place of the smallest positive number. -/
def leastExponent : Int := -1074

/-- The pattern of positive infinity; the patterns of the finite positive numbers lie below. -/
def infinityPattern : Nat := 0x7ff0000000000000

/-- The pattern of the sign alone. -/
def signBit : Nat := 0x8000000000000000

/-- Positive infinity. -/
def infinity : Binary64 := ⟨0x7ff0000000000000⟩

/-- The value of a literal that denotes no number. -/
def notANumber : Binary64 := ⟨0x7ff8000000000000⟩

/-- Zero. -/
def zero : Binary64 := ⟨0⟩

/-- Whether the pattern stands for no number. -/
def isNotANumber (x : Binary64) : Bool :=
  decide (infinityPattern < x.bits.toNat % signBit)

/-- The quotient of two numbers, rounded to the nearest integer, a tie to the even one. -/
def nearest (n d : Nat) : Nat :=
  let q := n / d
  let r := n % d
  if d < 2 * r ∨ (d = 2 * r ∧ q % 2 = 1) then q + 1 else q

/-- A ratio times a power of two, as a ratio. -/
def scaled (n d : Nat) (e : Int) : Nat × Nat :=
  if 0 ≤ e then (n <<< e.toNat, d) else (n, d <<< (-e).toNat)

/-- The exponent of the greatest power of two that is not above a positive ratio. -/
def binaryExponent (n d : Nat) : Int :=
  let guess : Int := (n.log2 : Int) - (d.log2 : Int)
  let (a, b) := scaled n d (-guess)
  if b ≤ a then guess else guess - 1

/-- **The binary64 number nearest to a ratio** of two positive numbers. The exponent counts the
last place of the significand; adding the significand to the exponent field lets a rounding carry
into it, and a number below the normal range has no leading bit to subtract. -/
def ofRatio (n d : Nat) : Binary64 :=
  let exponent := max (binaryExponent n d - storedBits) leastExponent
  let (a, b) := scaled n d (-exponent)
  let pattern := ((exponent - leastExponent).toNat <<< storedBits) + nearest a b
  if infinityPattern ≤ pattern then infinity else ⟨pattern.toUInt64⟩

/-- Decimal exponents above this one take every positive integer out of range. -/
def greatDecimalExponent : Int := 310

/-- Numbers below this power of ten are nearer to zero than to any positive binary64 number. -/
def leastDecimalExponent : Int := -330

/-- **The binary64 number nearest to a decimal fraction**: the digits as an integer, times the
power of ten. Exponents far out of range are settled without computing the power. -/
def ofDecimal (digits : List Char) (exponent : Int) : Binary64 :=
  let n := ofDigits 10 digits
  if n = 0 then zero
  else if greatDecimalExponent < exponent then infinity
  else if (digits.length : Int) + exponent < leastDecimalExponent then zero
  else if 0 ≤ exponent then ofRatio (n * Nat.pow 10 exponent.toNat) 1
  else ofRatio n (Nat.pow 10 (-exponent).toNat)

/-- The exponent part of a float literal: nothing, or a marker, a sign and digits. -/
def exponent? : List Char → Option Int
  | [] => some 0
  | marker :: rest =>
    if marker = 'e' ∨ marker = 'E' then
      match rest with
      | '-' :: digits => (numeral? 10 digits).map fun n => -(n : Int)
      | '+' :: digits => (numeral? 10 digits).map fun n => (n : Int)
      | digits => (numeral? 10 digits).map fun n => (n : Int)
    else none

/-- The number with the other sign. -/
def negated (x : Binary64) : Binary64 := ⟨x.bits ^^^ 0x8000000000000000⟩

/-- The value of a word that stands for a number, in either case. -/
def ofWord? (cs : List Char) : Option Binary64 :=
  let word := cs.map Char.toLower
  if word = "inf".toList ∨ word = "infinity".toList then some infinity
  else if word = "nan".toList then some notANumber
  else none

/-- The value of digits, a fraction after a point, and an exponent. There have to be digits before
the point or behind it. -/
def ofNumeral? (cs : List Char) : Option Binary64 :=
  let whole := cs.takeWhile isDecimal
  let rest := cs.dropWhile isDecimal
  let (fraction, tail) := match rest with
    | '.' :: r => (r.takeWhile isDecimal, r.dropWhile isDecimal)
    | _ => ([], rest)
  if whole = [] ∧ fraction = [] then none
  else (exponent? tail).map fun e => ofDecimal (whole ++ fraction) (e - fraction.length)

/-- The value of a literal without a sign. -/
def ofMagnitude? (cs : List Char) : Option Binary64 := (ofWord? cs).or (ofNumeral? cs)

/-- **The value of a float literal.** A literal whose exponent has no digits denotes no number. In a
text, a literal has neither a sign nor words in it, but a token that was made in another way may
have. -/
def ofLiteral (cs : List Char) : Binary64 :=
  let value := match cs with
    | '-' :: rest => (ofMagnitude? rest).map negated
    | '+' :: rest => ofMagnitude? rest
    | _ => ofMagnitude? cs
  value.getD notANumber

end Binary64

end Cypher.Number
