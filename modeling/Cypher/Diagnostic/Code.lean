/-!
# Diagnostic codes

Every problem the library reports carries a stable code, `CYP` and three digits. The number also
says at which stage the problem was found: below 100 while splitting the text into tokens, below
300 while matching the grammar, and above that while checking a finished tree.
-/

namespace Cypher

/-- **What a diagnostic is about.** -/
inductive Code
  /-- A character that starts no token. -/
  | unrecognizedCharacter
  /-- A string literal without its closing quote. -/
  | unterminatedString
  /-- A backslash form that means nothing. -/
  | invalidEscape
  /-- A number whose exponent has no digits. -/
  | malformedNumber
  /-- A block comment without its end. -/
  | unterminatedComment
  /-- A quoted name without its closing quote. -/
  | unterminatedQuotedIdentifier
  /-- A token that cannot stand where it stands. -/
  | unexpectedToken
  /-- A token that is missing. -/
  | expectedToken
  /-- A text that ends inside a construct. -/
  | unexpectedEndOfInput
  /-- An integer that needs too many bits. -/
  | integerOutOfRange
  /-- A construct that the dialect does not have. -/
  | unsupportedInDialect
  /-- A query or branch without any clause. -/
  | invalidClauseComposition
  /-- Nesting beyond the limit. -/
  | nestingTooDeep
  /-- A clause where the order of clauses does not allow it. -/
  | clauseOrder
  /-- Two items of one projection that bind the same name. -/
  | aliasConflict
  /-- Branches of a union with different columns. -/
  | unionColumnMismatch
  /-- Both forms of union in one query. -/
  | mixedUnion
  /-- A form that the dialect accepts but advises against. -/
  | deprecated
deriving DecidableEq, Repr

/-- The stage at which a problem is found. -/
inductive Family
  /-- Splitting the text into tokens. -/
  | lexical
  /-- Matching the grammar. -/
  | grammatical
  /-- Checking the finished tree. -/
  | semantic
deriving DecidableEq, Repr

namespace Code

/-- All codes, by number. -/
def all : List Code :=
  [unrecognizedCharacter, unterminatedString, invalidEscape, malformedNumber, unterminatedComment,
   unterminatedQuotedIdentifier, unexpectedToken, expectedToken, unexpectedEndOfInput,
   integerOutOfRange, unsupportedInDialect, invalidClauseComposition, nestingTooDeep, clauseOrder,
   aliasConflict, unionColumnMismatch, mixedUnion, deprecated]

/-- The number of a code. -/
def number : Code → Nat
  | unrecognizedCharacter => 1
  | unterminatedString => 2
  | invalidEscape => 3
  | malformedNumber => 4
  | unterminatedComment => 5
  | unterminatedQuotedIdentifier => 6
  | unexpectedToken => 100
  | expectedToken => 101
  | unexpectedEndOfInput => 102
  | integerOutOfRange => 103
  | unsupportedInDialect => 200
  | invalidClauseComposition => 201
  | nestingTooDeep => 202
  | clauseOrder => 300
  | aliasConflict => 301
  | unionColumnMismatch => 302
  | mixedUnion => 303
  | deprecated => 310

/-- The text of a code: three digits behind `CYP`. -/
def text (code : Code) : String :=
  let digits := Nat.toDigits 10 code.number
  "CYP" ++ String.ofList (List.replicate (3 - digits.length) '0' ++ digits)

/-- The stage that reports a code, read off its number. -/
def family (code : Code) : Family :=
  if code.number < 100 then .lexical else if code.number < 300 then .grammatical else .semantic

/-- The code with a given text. -/
def ofText? (s : String) : Option Code := all.find? fun code => code.text == s

end Code

/-- The word for a stage. -/
def Family.text : Family → String
  | .lexical => "lexical"
  | .grammatical => "syntax"
  | .semantic => "semantic"

end Cypher
