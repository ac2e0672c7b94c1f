import Cypher.Diagnostic.Basic
import Cypher.Dialect.Basic
import Cypher.Token.Basic

/-!
# What can go wrong in the grammar

The rules of the grammar name the cause of a failure; the wording, the code and the place follow
from the cause and from the token at which it arose. An expectation that fails at the end of the
text is reported as an end that came too soon.
-/

namespace Cypher

/-- **The cause of a failure of the grammar.** -/
inductive Problem
  /-- Something else was needed here. -/
  | expected (what : String)
  /-- Nothing that begins like this can stand here. -/
  | unexpected (message : String)
  /-- The dialect lacks the construct. -/
  | unsupported (feature : String)
  /-- An integer literal does not fit in a signed word. -/
  | integerOutOfRange
  /-- The bound of a path length does not fit in a word. -/
  | boundOutOfRange
  /-- Something other than a property was to be changed. -/
  | notAProperty (span : Span)
  /-- A query or branch has no clauses. -/
  | missingClause (context : String)
  /-- The nesting goes beyond the limit. -/
  | tooDeep
deriving DecidableEq, Repr

namespace Problem

/-- The failed expectation of something at a token. -/
def expectedAt (what : String) (token : Token) : Diagnostic :=
  if token.kind = .endOfInput then
    ((Diagnostic.error ("unexpected end of input, expected " ++ what)).primary token.span
      ("expected " ++ what)).coded .unexpectedEndOfInput
  else
    ((Diagnostic.error ("expected " ++ what ++ ", found " ++ token.kind.describe)).primary
      token.span ("expected " ++ what)).coded .expectedToken

/-- A message about a token that cannot stand where it stands. -/
def unexpectedAt (message : String) (token : Token) : Diagnostic :=
  ((Diagnostic.error message).primary token.span "here").coded
    (if token.kind = .endOfInput then .unexpectedEndOfInput else .unexpectedToken)

/-- **The diagnostic for a cause** that arose at a token, under a dialect and a nesting limit. -/
def diagnostic (dialect : Dialect) (limit : Nat) (token : Token) : Problem → Diagnostic
  | expected what => expectedAt what token
  | unexpected message => unexpectedAt message token
  | unsupported feature =>
    (((Diagnostic.error (feature ++ " are not supported by the " ++ dialect.name ++ " dialect")
      ).primary token.span "unsupported here").helped
      "select the neo4j5 dialect to use subqueries").coded .unsupportedInDialect
  | integerOutOfRange =>
    ((Diagnostic.error ("integer literal `" ++ token.lexeme ++
      "` does not fit in a signed 64-bit integer")).primary token.span "out of range").coded
      .integerOutOfRange
  | boundOutOfRange =>
    ((Diagnostic.error ("range bound `" ++ token.lexeme ++ "` does not fit in 64 bits")).primary
      token.span "out of range").coded .integerOutOfRange
  | notAProperty span =>
    ((Diagnostic.error "expected a property such as `n.name`").primary span
      "not a property").coded .expectedToken
  | missingClause context =>
    ((Diagnostic.error ("expected a clause " ++ context ++ ", found " ++ token.kind.describe)
      ).primary token.span "expected a clause here").coded .invalidClauseComposition
  | tooDeep =>
    (((Diagnostic.error ("nesting exceeds the maximum depth of " ++ toString limit)).primary
      token.span "nested too deeply").helped
      "split the query or raise `max_nesting_depth`").coded .nestingTooDeep

end Problem

end Cypher
