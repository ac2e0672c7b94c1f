import Cypher.Text.Span

/-!
# Graph patterns

A pattern describes paths through a graph: nodes joined by relationships, each of which may be given
a name, labels or types, and properties. What a property is compared with is a value of some type
`ε`, which the expressions of the language will take the place of; patterns do not look inside.
-/

namespace Cypher

/-- The way a relationship points. -/
inductive Direction
  | left
  | right
  | undirected
deriving DecidableEq, Repr

/-- How many relationships in a row a step may take; a bound that is missing does not bind. -/
structure PathLength where
  /-- The least number. -/
  min : Option Nat
  /-- The greatest number. -/
  max : Option Nat
deriving DecidableEq, Repr

/-- **A node of a pattern**: `(name:Label:Label properties)`, each part optional. -/
structure NodePattern (ε : Type) where
  /-- The name it binds. -/
  binder : Option Ident
  /-- The labels it must carry. -/
  labels : List Ident
  /-- The properties it must have. -/
  properties : Option ε
  /-- The stretch from parenthesis to parenthesis. -/
  span : Span
deriving Repr

/-- **A relationship of a pattern**: `-[name:TYPE|TYPE*length properties]->`, each part optional. -/
structure RelationshipPattern (ε : Type) where
  /-- The way it points. -/
  direction : Direction
  /-- The name it binds. -/
  binder : Option Ident
  /-- The types it may have; any if none is given. -/
  types : List Ident
  /-- How many relationships in a row it stands for; one if not given. -/
  length : Option PathLength
  /-- The properties it must have. -/
  properties : Option ε
  /-- The stretch from the first sign of the arrow to the last. -/
  span : Span
deriving Repr

/-- A relationship and the node it leads to. -/
structure PatternStep (ε : Type) where
  /-- The relationship. -/
  relationship : RelationshipPattern ε
  /-- The node. -/
  node : NodePattern ε
deriving Repr

/-- **A path of a pattern**: a node and the steps that lead on from it. -/
structure PatternPart (ε : Type) where
  /-- The name bound to the whole path. -/
  binder : Option Ident
  /-- The first node. -/
  start : NodePattern ε
  /-- The steps. -/
  chain : List (PatternStep ε)
  /-- The stretch of the path, with its name. -/
  span : Span
deriving Repr

/-- **A pattern**: paths that all have to be there. -/
structure Pattern (ε : Type) where
  /-- The paths. -/
  parts : List (PatternPart ε)
  /-- The stretch of all paths together. -/
  span : Span
deriving Repr

/-- The names a step binds, in the order in which they are written. -/
def PatternStep.binders {ε : Type} (step : PatternStep ε) : List Ident :=
  step.relationship.binder.toList ++ step.node.binder.toList

/-- **The names a path binds**, in the order in which they are written. -/
def PatternPart.binders {ε : Type} (part : PatternPart ε) : List Ident :=
  part.binder.toList ++ part.start.binder.toList ++ part.chain.flatMap PatternStep.binders

end Cypher
