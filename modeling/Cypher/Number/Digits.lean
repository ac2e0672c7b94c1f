/-!
# Numerals and the numbers they denote

A numeral in base `b` is a non-empty list of digits below `b`, and it denotes the number that its
positions add up to. Integer literals are numerals in base ten, or in base sixteen or eight behind
a marker, and a numeral counts only if its number fits in sixty-four bits.
-/

namespace Cypher.Number

/-- The value of a digit, decimal or hexadecimal in either case. -/
def digit? (c : Char) : Option Nat :=
  if '0' ≤ c ∧ c ≤ '9' then some (c.toNat - '0'.toNat)
  else if 'a' ≤ c ∧ c ≤ 'f' then some (c.toNat - 'a'.toNat + 10)
  else if 'A' ≤ c ∧ c ≤ 'F' then some (c.toNat - 'A'.toNat + 10)
  else none

/-- Whether a character is a digit of a base. -/
def isDigitOf (base : Nat) (c : Char) : Bool := (digit? c).any (· < base)

/-- Whether a character is a decimal digit. -/
def isDecimal (c : Char) : Bool := isDigitOf 10 c

/-- Whether a character is a hexadecimal digit. -/
def isHexadecimal (c : Char) : Bool := isDigitOf 16 c

/-- Whether a character is an octal digit. -/
def isOctal (c : Char) : Bool := isDigitOf 8 c

/-- The number denoted by a list of digits, most significant first; a character that is no digit
counts as zero. -/
def ofDigits (base : Nat) (cs : List Char) : Nat :=
  cs.foldl (fun n c => n * base + (digit? c).getD 0) 0

/-- The number denoted by a numeral, or `none` for a list that is empty or holds another
character. -/
def numeral? (base : Nat) (cs : List Char) : Option Nat :=
  if cs ≠ [] ∧ cs.all (isDigitOf base) then some (ofDigits base cs) else none

/-- The number denoted by a numeral that may have a plus sign before it. -/
def signedNumeral? (base : Nat) : List Char → Option Nat
  | '+' :: rest => numeral? base rest
  | cs => numeral? base cs

/-- The numbers that fit in sixty-four bits lie below this one. -/
def unsignedLimit : Nat := 0x10000000000000000

/-- **The number denoted by an integer literal**: hexadecimal behind `0x` or `0X`, octal behind
`0o`, decimal otherwise. There is none if it needs more than sixty-four bits. No literal of a text
has a plus sign before its digits, but a token that was made in another way may have one. -/
def unsigned? (cs : List Char) : Option Nat :=
  let number := match cs with
    | '0' :: 'x' :: rest => signedNumeral? 16 rest
    | '0' :: 'X' :: rest => signedNumeral? 16 rest
    | '0' :: 'o' :: rest => signedNumeral? 8 rest
    | _ => signedNumeral? 10 cs
  number.filter (· < unsignedLimit)

end Cypher.Number
