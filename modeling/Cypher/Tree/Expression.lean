import Cypher.Number.Binary64
import Cypher.Tree.Clause

/-!
# Expressions

An expression computes a value. Two kinds of expression contain other parts of the language: a test
whether a subquery has rows, and a test whether a path exists. Putting expressions for the values of
patterns, clauses and queries closes the circle, and gives the types `Cypher.Clause` and
`Cypher.Query` of the trees that the library builds.
-/

namespace Cypher

/-- An operator before its operand. -/
inductive UnaryOperator
  | not | negate | plus
deriving DecidableEq, Repr

/-- An operator between its operands. -/
inductive BinaryOperator
  | or | xor | and
  | eq | notEq | lt | gt | ltEq | gtEq
  | regexMatch | startsWith | endsWith | contains | member
  | add | subtract | multiply | divide | modulo | power
deriving DecidableEq, Repr

/-- Whether an operator compares its operands. -/
def BinaryOperator.isComparison : BinaryOperator → Bool
  | eq | notEq | lt | gt | ltEq | gtEq => true
  | _ => false

/-- How many elements of a list must satisfy a predicate. -/
inductive Quantifier
  | all | any | none | single
deriving DecidableEq, Repr

/-- The quantifier with a name, in any case of its letters. -/
def Quantifier.ofName? (name : String) : Option Quantifier :=
  let lower := name.toList.map Char.toLower
  if lower = "all".toList then some .all
  else if lower = "any".toList then some .any
  else if lower = "none".toList then some .none
  else if lower = "single".toList then some .single
  else Option.none

/-- A value written out. -/
inductive Literal
  | integer (value : Int)
  | float (value : Number.Binary64)
  | string (value : String)
  | boolean (value : Bool)
  | null
deriving DecidableEq, Repr

/-- An entry of a map. -/
structure MapEntry (ε : Type) where
  /-- The key. -/
  key : Ident
  /-- The value. -/
  value : ε
deriving Repr

/-- A case of a case distinction. -/
structure CaseAlternative (ε : Type) where
  /-- What must hold, or what the operand must equal. -/
  condition : ε
  /-- The value if so. -/
  result : ε
deriving Repr

/-- **What is done with each element of a list**: the elements that satisfy a predicate are kept,
and something is computed from each. -/
structure Comprehension (ε : Type) where
  /-- The name of the element. -/
  binder : Ident
  /-- The list. -/
  list : ε
  /-- The predicate. -/
  predicate : Option ε
  /-- What is computed. -/
  projection : Option ε
  /-- The stretch of the expression. -/
  span : Span
deriving Repr

/-- **An expression.** -/
inductive Expression
  /-- A value written out. -/
  | literal (value : Literal) (span : Span)
  /-- A parameter. -/
  | parameter (name : String) (span : Span)
  /-- A variable. -/
  | reference (name : String) (span : Span)
  /-- The property of a value under a key. -/
  | property (base : Expression) (key : Ident) (span : Span)
  /-- The element of a value at an index. -/
  | index (base index : Expression) (span : Span)
  /-- The elements of a list between two bounds. -/
  | slice (base : Expression) (lower upper : Option Expression) (span : Span)
  /-- Whether a node carries labels. -/
  | hasLabels (base : Expression) (labels : List Ident) (span : Span)
  /-- A list of values. -/
  | list (items : List Expression) (span : Span)
  /-- A map of values. -/
  | map (entries : List (MapEntry Expression)) (span : Span)
  /-- The call of a function. -/
  | call (name : String) (distinct : Bool) (arguments : List Expression) (span : Span)
  /-- The number of rows. -/
  | countStar (span : Span)
  /-- An operator before its operand. -/
  | unary (operator : UnaryOperator) (operand : Expression) (span : Span)
  /-- An operator between its operands. -/
  | binary (operator : BinaryOperator) (left right : Expression) (span : Span)
  /-- Whether a value is missing, or with `negated` whether it is there. -/
  | isNull (operand : Expression) (negated : Bool) (span : Span)
  /-- A case distinction. -/
  | case (operand : Option Expression) (alternatives : List (CaseAlternative Expression))
      (otherwise : Option Expression) (span : Span)
  /-- A list made from another. -/
  | comprehension (body : Comprehension Expression)
  /-- Whether elements of a list satisfy a predicate. -/
  | quantified (quantifier : Quantifier) (body : Comprehension Expression)
  /-- Whether a subquery has rows. -/
  | existsQuery (body : QueryOf (ClauseOf Expression)) (span : Span)
  /-- Whether a path exists. -/
  | pattern (part : PatternPart Expression)

/-- A clause over expressions. -/
abbrev Clause := ClauseOf Expression

/-- A query over expressions. -/
abbrev Query := QueryOf Clause

namespace Expression

/-- The stretch of an expression. -/
def span : Expression → Span
  | literal _ span | parameter _ span | reference _ span | property _ _ span | index _ _ span
  | slice _ _ _ span | hasLabels _ _ span | list _ span | map _ span | call _ _ _ span
  | countStar span | unary _ _ span | binary _ _ _ span | isNull _ _ span | case _ _ _ span
  | existsQuery _ span => span
  | comprehension body | quantified _ body => body.span
  | pattern part => part.span

/-- The name of a variable, for an expression that is nothing else. -/
def asVariable? : Expression → Option Ident
  | reference name span => some ⟨name, span⟩
  | _ => none

/-- Whether an expression is a property of some value. -/
def isProperty : Expression → Bool
  | property .. => true
  | _ => false

end Expression

/-- **The name a column binds**: the name given to it, or that of the variable it consists of. -/
def ProjectionItem.binding? (item : ProjectionItem Expression) : Option Ident :=
  item.rename.or item.expression.asVariable?

/-- The names the columns of a projection bind, in order. -/
def Projection.bindings (projection : Projection Expression) : List Ident :=
  projection.items.filterMap ProjectionItem.binding?

/-- The stretch of something to remove. -/
def RemoveItem.span : RemoveItem Expression → Span
  | property target => target.span
  | labels _ _ span => span

end Cypher
