import Cypher.Check.Basic

/-!
# Advising against old forms

A dialect that tests for a missing value by `IS NULL` advises against testing for a property by the
function `exists`.
-/

namespace Cypher.Deprecation

/-- The stretch of an expression that tests for a property by the function, if it is one. -/
def oldTest? : Expression → Option Span
  | .call name _ [.property ..] span =>
    if name.toList.map Char.toLower == "exists".toList then some span else none
  | _ => none

/-- The advice on such a test. -/
def advice (span : Span) : Diagnostic :=
  (((Diagnostic.warning "`exists()` on a property is deprecated").primary span
    "deprecated function").helped "use `IS NOT NULL` instead").coded .deprecated

/-- **The advice on the expressions of a document.** -/
def reports (document : Document) : List Diagnostic :=
  (document.nodes.filterMap Node.expression?).filterMap fun e => (oldTest? e).map advice

end Cypher.Deprecation
