import Cypher.Grammar.Name

/-!
# Reading patterns

A path is a node and then steps: a relationship and the node it leads to. A relationship is written
as an arrow, its details in brackets in the middle. An arrow with heads at both ends, or at neither,
points nowhere in particular.
-/

namespace Cypher.Grammar

open Rule hiding pure bind

/-- The bound of a path length, if there is one. -/
def lengthBound : Rule (Option Nat) := do
  match (← here).kind with
  | .integer text =>
    match Number.unsigned? text.toList with
    | some n =>
      move
      return some n
    | none => fail .boundOutOfRange
  | _ => return none

/-- The length of a path behind its star: one number, or two bounds of which either may be
missing. -/
def pathLength : Rule PathLength := do
  let least ← lengthBound
  if ← takeSign .dotDot then return ⟨least, ← lengthBound⟩ else return ⟨least, least⟩

/-- The name of a type. -/
def relationshipType : Rule Ident := symbolicName "a relationship type"

/-- A further type behind a bar, which a colon may follow. -/
def furtherType : Rule Ident := do
  let _ ← takeSign .colon
  relationshipType

/-- The types of a relationship, if any. -/
def relationshipTypes : Rule (List Ident) := do
  if ← takeSign .colon then
    let first ← relationshipType
    many (optionally (takeSign .pipe) furtherType) [first]
  else return []

/-- What stands in the brackets of a relationship. -/
structure Detail where
  /-- The name it binds. -/
  binder : Option Ident
  /-- Its types. -/
  types : List Ident
  /-- Its length. -/
  length : Option PathLength
  /-- Its properties. -/
  properties : Option Expression

/-- The detail of a relationship that has none. -/
def Detail.absent : Detail := ⟨none, [], none, none⟩

/-- The detail of a relationship behind its opening bracket. -/
def detail : Rule Detail := do
  let binder ← optionally atVariable variableName
  let types ← relationshipTypes
  let length ← optionally (takeSign .star) pathLength
  let properties ← properties
  let _ ← expectSign .rightBracket
  return ⟨binder, types, length, properties⟩

/-- The direction of an arrow with a head at its left or right end. -/
def directionOf : Bool → Bool → Direction
  | true, false => .left
  | false, true => .right
  | _, _ => .undirected

/-- The detail of a relationship, if there are brackets for it. -/
def detailIfAny : Rule Detail := do
  if ← takeSign .leftBracket then detail else return Detail.absent

/-- **A relationship.** -/
def relationship : Rule (RelationshipPattern Expression) := do
  let start ← startHere
  let left ← takeSign .lt
  let _ ← expectSign .minus
  let detail ← detailIfAny
  let _ ← expectSign .minus
  let right ← takeSign .gt
  return ⟨directionOf left right, detail.binder, detail.types, detail.length, detail.properties,
    ← look (.spanFrom start)⟩

/-- The labels of a node, if any. -/
def nodeLabels : Rule (List Ident) := do
  if ← atSign .colon then labels else return []

/-- **A node.** -/
def pathNode : Rule (NodePattern Expression) := do
  let opening ← expectSign .leftParen
  let binder ← optionally atVariable variableName
  let labels ← nodeLabels
  let properties ← properties
  let _ ← expectSign .rightParen
  return ⟨binder, labels, properties, ← look (.spanFrom opening.start)⟩

/-- Whether a relationship comes next. -/
def atRelationship : Rule Bool := do
  match (← here).kind with
  | .sign .minus => return true
  | .sign .lt => return (← look .next) = .sign .minus
  | _ => return false

/-- A relationship and the node it leads to. -/
def step : Rule (PatternStep Expression) := do
  return ⟨← relationship, ← pathNode⟩

/-- The name of a path, with the sign behind it. -/
def pathName : Rule Ident := do
  let name ← variableName
  move
  return name

/-- **A path**, perhaps with a name. -/
def patternPart : Rule (PatternPart Expression) := do
  let start ← startHere
  let binder ← optionally (atVariableBefore (.sign .eq)) pathName
  let node ← pathNode
  let chain ← many (optionally atRelationship step) []
  return ⟨binder, node, chain, ← look (.spanFrom start)⟩

/-- **A pattern**: paths separated by commas. -/
def pattern : Rule (Pattern Expression) := do
  let start ← startHere
  let parts ← separated patternPart
  return ⟨parts, ← look (.spanFrom start)⟩

end Cypher.Grammar
