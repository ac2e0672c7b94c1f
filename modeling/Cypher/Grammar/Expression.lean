import Cypher.Grammar.Pattern
import Cypher.Grammar.Strength

/-!
# Reading expressions

An expression is an operand and what follows it for as long as that binds strongly enough: suffixes,
tests for a missing value, and operators with a right operand. Each right operand is an expression
of its own that has to bind more tightly than the operator.

Comparisons form chains: `a < b < c` says that `a < b` and `b < c`. The chain keeps the right
operand of its last comparison, since a further comparison takes it for its left operand; anything
but a comparison ends the chain.
-/

namespace Cypher.Grammar

open Rule hiding pure bind

/-! ### Joining operands -/

/-- An operator with its operands, from the start of the one to the end of the other. -/
def join (operator : BinaryOperator) (left right : Expression) : Expression :=
  .binary operator left right ⟨left.span.start, right.span.stop⟩

/-- **An expression that may go on.** -/
structure Chain where
  /-- What has been read. -/
  tree : Expression
  /-- The right operand of the comparison that was read last, if nothing else came after it. -/
  last : Option Expression

/-- The chain after an operator and its right operand. -/
def Chain.extend (chain : Chain) (operator : BinaryOperator) (right : Expression) : Chain :=
  if operator.isComparison then
    match chain.last with
    | some left => ⟨join .and chain.tree (join operator left right), some right⟩
    | none => ⟨join operator chain.tree right, some right⟩
  else ⟨join operator chain.tree right, none⟩

/-! ### Lists of expressions -/

/-- Expressions separated by commas, up to a closing sign; none if that comes at once. -/
def expressionList (close : Sign) : Rule (List Expression) := listUntil close expression

/-- What is computed from the elements of a list, if anything may be. -/
def elementProjection (projects : Bool) : Rule (Option Expression) :=
  if projects then optionally (takeSign .pipe) expression else pure none

/-- What is done with the elements of a list, from the name of the element to the closing sign. -/
def comprehension (start : Nat) (close : Sign) (projects : Bool) :
    Rule (Comprehension Expression) := do
  let binder ← variableName
  let _ ← expectWord .IN
  let list ← expression
  let predicate ← optionally (takeWord .WHERE) expression
  let projection ← elementProjection projects
  let _ ← expectSign close
  return ⟨binder, list, predicate, projection, ← look (.spanFrom start)⟩

/-- **A list**, or a list made from another. -/
def listLiteral : Rule Expression := do
  let opening ← expectSign .leftBracket
  if ← atVariableBefore (.keyword .IN) then
    return .comprehension (← comprehension opening.start .rightBracket true)
  else
    let items ← expressionList .rightBracket
    let _ ← expectSign .rightBracket
    return .list items (← look (.spanFrom opening.start))

/-! ### Case distinctions -/

/-- A case behind the word that introduces it. -/
def caseAlternative : Rule (CaseAlternative Expression) := do
  let condition ← expression
  let _ ← expectWord .THEN
  return ⟨condition, ← expression⟩

/-- **A case distinction.** -/
def caseDistinction : Rule Expression := do
  let opening ← advance
  let operand ← skipIf (atWord .WHEN) expression
  let alternatives ← many (optionally (takeWord .WHEN) caseAlternative) []
  if alternatives.isEmpty then fail (.expected "WHEN")
  else
    let otherwise ← optionally (takeWord .ELSE) expression
    let _ ← expectWord .END
    return .case operand alternatives otherwise (← look (.spanFrom opening.start))

/-! ### Calls -/

/-- Whether two names agree up to the case of ASCII letters. -/
def sameName (a b : String) : Bool := a.toList.map Char.toLower == b.toList.map Char.toLower

/-- Whether a lone star comes next between parentheses. -/
def atLoneStar : Rule Bool := do
  if ← atSign .star then return (← look .next) = .sign .rightParen else return false

/-- The arguments of a function and the closing parenthesis. -/
def callArguments (name : String) (start : Nat) : Rule Expression := do
  let distinct ← takeWord .DISTINCT
  let arguments ← expressionList .rightParen
  let _ ← expectSign .rightParen
  return .call name distinct arguments (← look (.spanFrom start))

/-- **The call of a function**, among them the count of all rows. -/
def plainCall (name : Ident) : Rule Expression := do
  if sameName name.value "count" then
    if ← atLoneStar then
      move
      move
      return .countStar (← look (.spanFrom name.span.start))
    else callArguments name.value name.span.start
  else callArguments name.value name.span.start

/-- **The call of a function or a test of the elements of a list**, which is written the same
way. -/
def functionCall : Rule Expression := do
  let name ← qualifiedName "a function name"
  let _ ← expectSign .leftParen
  match Quantifier.ofName? name.value with
  | some quantifier =>
    if ← atVariableBefore (.keyword .IN) then
      return .quantified quantifier (← comprehension name.span.start .rightParen false)
    else plainCall name
  | none => plainCall name

/-! ### Existence tests -/

/-- What to call subqueries in existence tests. -/
def existsFeature : String := "EXISTS subqueries"

/-- **An existence test**: of the rows of a subquery, or in the form of a function. -/
def existence : Rule Expression := do
  match ← look .next with
  | .sign .leftParen => functionCall
  | .sign .leftBrace =>
    requireSubqueries existsFeature
    let opening ← advance
    move
    let body ← nested .existsBody
    let _ ← expectSign .rightBrace
    return .existsQuery body (← look (.spanFrom opening.start))
  | _ =>
    move
    fail (.expected "`\x7b` or `(` after EXISTS")

/-! ### Operands -/

/-- The greatest integer that a literal may stand for. -/
def greatestInteger : Nat := 0x7fffffffffffffff

/-- The integer that a literal stands for, if it fits in a signed word. -/
def integerValue? (text : String) : Option Nat :=
  (Number.unsigned? text.toList).filter (· ≤ greatestInteger)

/-- A value that is written out by the token at the cursor. -/
def literalHere (value : Literal) : Rule Expression := do
  return .literal value (← advance)

/-- A variable that is named by the token at the cursor. -/
def variableHere (name : String) : Rule Expression := do
  return .reference name (← advance)

/-- An expression between parentheses, which leave no trace in the tree. -/
def group : Rule Expression := do
  move
  let inner ← expression
  let _ ← expectSign .rightParen
  return inner

/-- A function or a variable, whichever an unquoted name stands for. -/
def named (name : String) : Rule Expression := do
  if ← look .opensCall then functionCall
  else if sameName name "exists" then
    if (← look .next) = .sign .leftBrace then fail (.unsupported existsFeature)
    else variableHere name
  else variableHere name

/-- **An operand** without operators. -/
def operand : Rule Expression := do
  match (← here).kind with
  | .integer text =>
    match integerValue? text with
    | some n => literalHere (.integer n)
    | none => fail .integerOutOfRange
  | .float text => literalHere (.float (Number.Binary64.ofLiteral text.toList))
  | .string value => literalHere (.string value)
  | .keyword .TRUE => literalHere (.boolean true)
  | .keyword .FALSE => literalHere (.boolean false)
  | .keyword .NULL => literalHere .null
  | .parameter name => return .parameter name (← advance)
  | .sign .leftParen =>
    if ← look .opensPattern then return .pattern (← patternPart) else group
  | .sign .leftBracket => listLiteral
  | .sign .leftBrace => mapLiteral
  | .keyword .CASE => caseDistinction
  | .keyword .EXISTS => existence
  | .keyword .ALL =>
    if ← look .opensCall then functionCall else fail (.expected "an expression")
  | .identifier name => named name
  | .quotedIdentifier name => variableHere name
  | _ => fail (.expected "an expression")

/-! ### Operators before an operand -/

/-- The number that only the negation of a literal may reach. -/
def leastMagnitude : Nat := 0x8000000000000000

/-- Whether a token is the literal that only fits together with the minus sign before it. -/
def isLeastMagnitude : TokenKind → Bool
  | .integer text => Number.unsigned? text.toList = some leastMagnitude
  | _ => false

/-- **An operand with the operators before it.** -/
def leading : Rule Expression := do
  let token ← here
  match unaryOperator? token.kind with
  | none => operand
  | some operator =>
    move
    if operator = .negate && isLeastMagnitude (← here).kind then
      let digits ← advance
      return .literal (.integer (-leastMagnitude)) ⟨token.span.start, digits.stop⟩
    else
      let inner ← nested (.expression operator.strength)
      return .unary operator inner ⟨token.span.start, inner.span.stop⟩

/-! ### What follows an operand -/

/-- An index or a stretch of indices behind an operand. -/
def bracketed (base : Expression) : Rule Expression := do
  let _ ← expectSign .leftBracket
  let lower ← skipIf (atSign .dotDot) expression
  if ← takeSign .dotDot then
    let upper ← skipIf (atSign .rightBracket) expression
    let _ ← expectSign .rightBracket
    return .slice base lower upper (← look (.spanFrom base.span.start))
  else
    let _ ← expectSign .rightBracket
    match lower with
    | some index => return .index base index (← look (.spanFrom base.span.start))
    | none => fail (.expected "an index")

/-- **A suffix of an operand**: a key, labels, or an index. -/
def suffix (base : Expression) : Rule Expression := do
  match (← here).kind with
  | .sign .dot =>
    move
    let key ← symbolicName "a property name"
    return .property base key ⟨base.span.start, key.span.stop⟩
  | .sign .colon =>
    let labels ← labels
    return .hasLabels base labels (← look (.spanFrom base.span.start))
  | _ => bracketed base

/-- The test whether an operand is missing, or whether it is not. -/
def nullTest (base : Expression) : Rule Expression := do
  move
  let negated ← takeWord .NOT
  let _ ← expectWord .NULL
  return .isNull base negated ⟨base.span.start, (← look .previousSpan).stop⟩

/-- Moves past the tokens of an operator. -/
def moveOver : Nat → Rule Unit
  | 0 => pure ()
  | n + 1 => do
    move
    moveOver n

/-- An operator with its right operand behind a chain, if there is one that binds strongly
enough. -/
def operation (strength : Nat) (chain : Chain) : Rule (Option Chain) := do
  match binaryOperator? (← here).kind (← look .next) with
  | none => return none
  | some (operator, width) =>
    if operator.strength < strength then return none
    else
      moveOver width
      let right ← nested (.expression operator.rightStrength)
      return some (chain.extend operator right)

/-- **What goes on with a chain**, if anything does that binds strongly enough. -/
def continuation (strength : Nat) (chain : Chain) : Rule (Option Chain) := do
  let kind := (← here).kind
  if opensSuffix kind then
    if suffixStrength < strength then return none else return some ⟨← suffix chain.tree, none⟩
  else if kind = .keyword .IS then
    if testStrength < strength then return none else return some ⟨← nullTest chain.tree, none⟩
  else operation strength chain

/-- **An expression whose operators bind at least with a given strength.** -/
def expressionOf (strength : Nat) : Rule Expression := do
  let first ← leading
  return (← loop (continuation strength) ⟨first, none⟩).tree

/-- An operand with its suffixes only. -/
def suffixed : Rule Expression := nested (.expression suffixStrength)

end Cypher.Grammar
