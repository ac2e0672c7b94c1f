import Cypher.Grammar.Rule

/-!
# Names, labels and maps

The smallest rules of the grammar. A variable is a name; where nothing else could stand, such as
behind a dot or a colon, a reserved word will do as a name too. Properties are a map of names to
expressions, or a parameter that stands for such a map.
-/

namespace Cypher.Grammar

open Rule hiding pure bind

/-- Moves on to the next token. -/
def move : Rule Unit := do
  let _ ← advance

/-- An expression, one level of nesting deeper. -/
def expression : Rule Expression := nested (.expression 0)

/-- The name of a variable. -/
def variableName : Rule Ident := do
  match (← here).kind with
  | .identifier name | .quotedIdentifier name => return ⟨name, ← advance⟩
  | _ => fail (.expected "a variable name")

/-- A name where a reserved word may stand for one, spelled as it is written. -/
def symbolicName (what : String) : Rule Ident := do
  let token ← here
  match token.kind with
  | .identifier name | .quotedIdentifier name => return ⟨name, ← advance⟩
  | .keyword _ => return ⟨token.lexeme, ← advance⟩
  | _ => fail (.expected what)

/-- Whether a dot and a further part of a name come next. -/
def atNamePart : Rule Bool := do
  if ← atSign .dot then return (← look .next).isNamePart else return false

/-- A further part of a name behind a dot. -/
def namePart (what : String) : Rule String := do
  move
  return (← symbolicName what).value

/-- **A name with its namespaces**, joined by dots. -/
def qualifiedName (what : String) : Rule Ident := do
  let first ← symbolicName what
  let parts ← many (optionally atNamePart (namePart what)) [first.value]
  return ⟨String.intercalate "." parts, ← look (.spanFrom first.span.start)⟩

/-- **One or more labels**, each behind a colon. -/
def labels : Rule (List Ident) := do
  let labels ← many (optionally (takeSign .colon) (symbolicName "a label name")) []
  if labels.isEmpty then fail (.expected "`:`") else return labels

/-- A key with its value. -/
def mapEntry : Rule (MapEntry Expression) := do
  let key ← symbolicName "a map key"
  let _ ← expectSign .colon
  return ⟨key, ← expression⟩

/-- **A map**: entries between braces, separated by commas. -/
def mapLiteral : Rule Expression := do
  let opening ← expectSign .leftBrace
  let entries ← listUntil .rightBrace mapEntry
  let _ ← expectSign .rightBrace
  return .map entries (← look (.spanFrom opening.start))

/-- The properties of a node or relationship: a map, a parameter, or nothing. -/
def properties : Rule (Option Expression) := do
  match (← here).kind with
  | .sign .leftBrace => return some (← mapLiteral)
  | .parameter name => return some (.parameter name (← advance))
  | _ => return none

end Cypher.Grammar
