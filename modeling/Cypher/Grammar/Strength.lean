import Cypher.Token.Basic
import Cypher.Tree.Expression

/-!
# Operators and how strongly they bind

Every operator has a strength, and the stronger operator takes its operands first. From
the loosest to the tightest: `OR`, `XOR`, `AND`, `NOT`, comparisons, the tests on strings, lists and
missing values, sums, products, powers, signs, and what is written behind an operand. Operators
between operands are read from left to right: the operand to the right of one has to bind more
tightly than the operator itself.
-/

namespace Cypher

/-- **How strongly an operator between operands binds.** -/
def BinaryOperator.strength : BinaryOperator → Nat
  | or => 1
  | xor => 3
  | and => 5
  | eq | notEq | lt | gt | ltEq | gtEq => 9
  | regexMatch | startsWith | endsWith | contains | member => 11
  | add | subtract => 13
  | multiply | divide | modulo => 15
  | power => 17

/-- The strength that the right operand of an operator must have. -/
def BinaryOperator.rightStrength (operator : BinaryOperator) : Nat := operator.strength + 1

/-- **How strongly an operator before its operand binds.** -/
def UnaryOperator.strength : UnaryOperator → Nat
  | not => 7
  | negate => 19
  | plus => 19

namespace Grammar

/-- How strongly the test for a missing value binds. -/
def testStrength : Nat := 11

/-- How strongly what is written behind an operand binds. -/
def suffixStrength : Nat := 21

/-- The operator before an operand that a token stands for. -/
def unaryOperator? : TokenKind → Option UnaryOperator
  | .keyword .NOT => some .not
  | .sign .minus => some .negate
  | .sign .plus => some .plus
  | _ => none

/-- The operator between operands that a token stands for, together with the kind of the token
after it, and how many tokens it takes. -/
def binaryOperator? (kind next : TokenKind) : Option (BinaryOperator × Nat) :=
  match kind with
  | .keyword .OR => some (.or, 1)
  | .keyword .XOR => some (.xor, 1)
  | .keyword .AND => some (.and, 1)
  | .sign .eq => some (.eq, 1)
  | .sign .notEq => some (.notEq, 1)
  | .sign .lt => some (.lt, 1)
  | .sign .gt => some (.gt, 1)
  | .sign .ltEq => some (.ltEq, 1)
  | .sign .gtEq => some (.gtEq, 1)
  | .sign .regexMatch => some (.regexMatch, 1)
  | .keyword .IN => some (.member, 1)
  | .keyword .CONTAINS => some (.contains, 1)
  | .keyword .STARTS => if next = .keyword .WITH then some (.startsWith, 2) else none
  | .keyword .ENDS => if next = .keyword .WITH then some (.endsWith, 2) else none
  | .sign .plus => some (.add, 1)
  | .sign .minus => some (.subtract, 1)
  | .sign .star => some (.multiply, 1)
  | .sign .slash => some (.divide, 1)
  | .sign .percent => some (.modulo, 1)
  | .sign .caret => some (.power, 1)
  | _ => none

/-- Whether a token goes on with the operand before it. -/
def opensSuffix : TokenKind → Bool
  | .sign .dot | .sign .leftBracket | .sign .colon => true
  | _ => false

end Grammar

end Cypher
