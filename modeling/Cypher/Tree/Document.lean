import Cypher.Tree.Expression

/-!
# Documents

A document is a text made of statements. A statement is a query, or the stretch of a text in which
not even the start of a query could be made out.
-/

namespace Cypher

/-- **A statement.** -/
inductive Statement
  /-- A query. -/
  | query (query : Query)
  /-- The stand-in for a statement that could not be read. -/
  | error (span : Span)

namespace Statement

/-- The stretch of a statement. -/
def span : Statement → Span
  | query q => q.span
  | error span => span

/-- The query of a statement, if it is one. -/
def query? : Statement → Option Query
  | query q => some q
  | error _ => none

end Statement

/-- **A document.** -/
structure Document where
  /-- The statements, in order. -/
  statements : List Statement
  /-- The stretch from the start of the text to its end. -/
  span : Span

/-- The queries among the statements of a document. -/
def Document.queries (document : Document) : List Query :=
  document.statements.filterMap Statement.query?

end Cypher
