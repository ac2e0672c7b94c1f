import Cypher.Tree.ClauseKind
import Cypher.Tree.Pattern

/-!
# Clauses and queries

A query is a sequence of clauses, or several such sequences joined by unions. As with patterns, the
values that clauses work with are of some type `ε`. The one clause that contains a query of its own
is the call of a subquery, so that clauses and queries are defined together: a query is a shape
filled with clauses, and a clause may hold that shape.
-/

namespace Cypher

/-! ### Projections -/

/-- **A column of a projection.** -/
structure ProjectionItem (ε : Type) where
  /-- The value of the column. -/
  expression : ε
  /-- The name given to it. -/
  rename : Option Ident
  /-- The stretch of value and name. -/
  span : Span
deriving Repr

/-- **A value to sort by.** -/
structure SortItem (ε : Type) where
  /-- The value. -/
  expression : ε
  /-- Whether the greatest comes first. -/
  descending : Bool
  /-- The stretch of value and direction. -/
  span : Span
deriving Repr

/-- **What a query goes on with**, or hands out at its end. -/
structure Projection (ε : Type) where
  /-- Whether equal rows are merged. -/
  distinct : Bool
  /-- Whether all names in sight are kept. -/
  star : Bool
  /-- The columns. -/
  items : List (ProjectionItem ε)
  /-- What the rows are sorted by. -/
  orderBy : List (SortItem ε)
  /-- How many rows to leave out. -/
  skip : Option ε
  /-- How many rows to keep. -/
  limit : Option ε
deriving Repr

/-! ### Updates -/

/-- **An assignment.** -/
inductive SetItem (ε : Type)
  /-- Sets a property. -/
  | property (target value : ε) (span : Span)
  /-- Replaces all properties. -/
  | replace (binder : Ident) (value : ε) (span : Span)
  /-- Adds properties. -/
  | merge (binder : Ident) (value : ε) (span : Span)
  /-- Adds labels. -/
  | labels (binder : Ident) (labels : List Ident) (span : Span)
deriving Repr

/-- The stretch of an assignment. -/
def SetItem.span {ε : Type} : SetItem ε → Span
  | property _ _ span | replace _ _ span | merge _ _ span | labels _ _ span => span

/-- **Something to remove.** -/
inductive RemoveItem (ε : Type)
  /-- A property. -/
  | property (target : ε)
  /-- Labels. -/
  | labels (binder : Ident) (labels : List Ident) (span : Span)
deriving Repr

/-- When an action of a merge is taken. -/
inductive MergeEvent
  /-- The pattern had to be created. -/
  | onCreate
  /-- The pattern was there. -/
  | onMatch
deriving DecidableEq, Repr

/-- **Assignments that depend on the outcome of a merge.** -/
structure MergeAction (ε : Type) where
  /-- When they are carried out. -/
  event : MergeEvent
  /-- The assignments. -/
  items : List (SetItem ε)
  /-- The stretch of the action. -/
  span : Span
deriving Repr

/-! ### Calls -/

/-- A column that a procedure call hands on, perhaps under another name. -/
structure YieldItem where
  /-- The name the procedure gives it. -/
  field : Ident
  /-- The name it is to have. -/
  rename : Option Ident
deriving DecidableEq, Repr

/-- The name under which a column is handed on. -/
def YieldItem.binding (item : YieldItem) : Ident := item.rename.getD item.field

/-- **The call of a procedure.** -/
structure ProcedureCall (ε : Type) where
  /-- The name, with its namespaces. -/
  name : Ident
  /-- The arguments, if there is a list of them. -/
  arguments : Option (List ε)
  /-- The columns handed on. -/
  yieldItems : List YieldItem
  /-- Whether all columns are handed on. -/
  yieldAll : Bool
deriving Repr

/-- Whether a procedure call hands on columns. -/
def ProcedureCall.yields {ε : Type} (call : ProcedureCall ε) : Bool :=
  call.yieldAll || !call.yieldItems.isEmpty

/-! ### Queries of clauses -/

/-- A sequence of clauses behind a union. -/
structure UnionBranch (κ : Type) where
  /-- Whether equal rows are kept apart. -/
  all : Bool
  /-- The clauses. -/
  clauses : List κ
  /-- The stretch from the word that introduces the branch to its end. -/
  span : Span
deriving Repr

/-- **A query** made of clauses of some type. -/
structure QueryOf (κ : Type) where
  /-- The clauses before the first union. -/
  clauses : List κ
  /-- The branches behind unions. -/
  unions : List (UnionBranch κ)
  /-- The stretch of the query. -/
  span : Span
deriving Repr

/-- The clause sequences of a query, in order. -/
def QueryOf.branches {κ : Type} (query : QueryOf κ) : List (List κ) :=
  query.clauses :: query.unions.map UnionBranch.clauses

/-- **A clause** that works with values of some type. -/
inductive ClauseOf (ε : Type)
  /-- `MATCH`, perhaps optional. -/
  | matchPattern (optional : Bool) (pattern : Pattern ε) (span : Span)
  /-- `WHERE`. -/
  | whereHolds (predicate : ε) (span : Span)
  /-- `WITH`. -/
  | withColumns (projection : Projection ε) (span : Span)
  /-- `RETURN`. -/
  | returnColumns (projection : Projection ε) (span : Span)
  /-- `UNWIND`. -/
  | unwindList (list : ε) (binder : Ident) (span : Span)
  /-- `CREATE`. -/
  | createPattern (pattern : Pattern ε) (span : Span)
  /-- `MERGE`. -/
  | mergePart (part : PatternPart ε) (actions : List (MergeAction ε)) (span : Span)
  /-- `DELETE`, perhaps with the relationships of the nodes. -/
  | deleteValues (detach : Bool) (values : List ε) (span : Span)
  /-- `SET`. -/
  | setItems (items : List (SetItem ε)) (span : Span)
  /-- `REMOVE`. -/
  | removeItems (items : List (RemoveItem ε)) (span : Span)
  /-- `CALL` of a procedure. -/
  | callProcedure (call : ProcedureCall ε) (span : Span)
  /-- `CALL` of a subquery. -/
  | callQuery (body : QueryOf (ClauseOf ε)) (span : Span)
  /-- The stand-in for a clause that could not be read. -/
  | error (span : Span)

namespace ClauseOf

variable {ε : Type}

/-- The kind of a clause. -/
def kind : ClauseOf ε → ClauseKind
  | matchPattern .. => .MATCH
  | whereHolds .. => .WHERE
  | withColumns .. => .WITH
  | returnColumns .. => .RETURN
  | unwindList .. => .UNWIND
  | createPattern .. => .CREATE
  | mergePart .. => .MERGE
  | deleteValues .. => .DELETE
  | setItems .. => .SET
  | removeItems .. => .REMOVE
  | callProcedure .. => .CALL
  | callQuery .. => .CALL
  | error _ => .error

/-- The stretch of a clause. -/
def span : ClauseOf ε → Span
  | matchPattern _ _ span | whereHolds _ span | withColumns _ span | returnColumns _ span
  | unwindList _ _ span | createPattern _ span | mergePart _ _ span | deleteValues _ _ span
  | setItems _ span | removeItems _ span | callProcedure _ span | callQuery _ span
  | error span => span

/-- Whether a clause is the stand-in for one that could not be read. -/
def isError : ClauseOf ε → Bool
  | error _ => true
  | _ => false

/-- Whether a clause is a procedure call that hands on columns. -/
def yields : ClauseOf ε → Bool
  | callProcedure call _ => call.yields
  | _ => false

end ClauseOf

end Cypher
