import Cypher.Grammar.Expression

/-!
# Reading clauses

The word at the cursor decides which clause is read. Each rule moves past its word before anything
else, so that a clause that fails has moved on. The actions of a merge begin with words that begin
clauses elsewhere; they are read as part of the merge.
-/

namespace Cypher.Grammar

open Rule hiding pure bind

/-! ### Reading data -/

/-- `[OPTIONAL] MATCH pattern`. -/
def matchClause : Rule Clause := do
  let start ← startHere
  let optional ← takeWord .OPTIONAL
  let _ ← expectWord .MATCH
  let pattern ← pattern
  return .matchPattern optional pattern (← look (.spanFrom start))

/-- `WHERE predicate`. -/
def whereClause : Rule Clause := do
  let word ← advance
  let predicate ← expression
  return .whereHolds predicate (← look (.spanFrom word.start))

/-- `UNWIND list AS name`. -/
def unwindClause : Rule Clause := do
  let word ← advance
  let list ← expression
  let _ ← expectWord .AS
  let binder ← variableName
  return .unwindList list binder (← look (.spanFrom word.start))

/-- A new name behind the word that introduces it, if that comes next. -/
def newName : Rule (Option Ident) := optionally (takeWord .AS) variableName

/-- A column that a procedure hands on. -/
def yieldItem : Rule YieldItem := do
  let field ← symbolicName "a procedure output name"
  return ⟨field, ← newName⟩

/-- The arguments of a procedure behind the opening parenthesis. -/
def procedureArguments : Rule (List Expression) := do
  let arguments ← expressionList .rightParen
  let _ ← expectSign .rightParen
  return arguments

/-- **The call of a procedure**: its name, its arguments, and the columns it hands on. -/
def procedureCall : Rule (ProcedureCall Expression) := do
  let name ← qualifiedName "a procedure name"
  let arguments ← optionally (takeSign .leftParen) procedureArguments
  if ← takeWord .YIELD then
    if ← takeSign .star then return ⟨name, arguments, [], true⟩
    else return ⟨name, arguments, ← separated yieldItem, false⟩
  else return ⟨name, arguments, [], false⟩

/-- `CALL` of a subquery or of a procedure. -/
def callClause : Rule Clause := do
  let word ← advance
  if ← atSign .leftBrace then
    requireSubqueries "CALL subqueries"
    move
    let body ← nested .subquery
    let _ ← expectSign .rightBrace
    return .callQuery body (← look (.spanFrom word.start))
  else
    let call ← procedureCall
    return .callProcedure call (← look (.spanFrom word.start))

/-! ### Projections -/

/-- A column of a projection. -/
def projectionItem : Rule (ProjectionItem Expression) := do
  let start ← startHere
  let value ← expression
  let rename ← newName
  return ⟨value, rename, ← look (.spanFrom start)⟩

/-- The direction of sorting: whether the greatest comes first. -/
def sortDirection : Rule Bool := do
  match (← here).kind with
  | .keyword .DESC | .keyword .DESCENDING =>
    move
    return true
  | .keyword .ASC | .keyword .ASCENDING =>
    move
    return false
  | _ => return false

/-- A value to sort by. -/
def sortItem : Rule (SortItem Expression) := do
  let start ← startHere
  let value ← expression
  let descending ← sortDirection
  return ⟨value, descending, ← look (.spanFrom start)⟩

/-- The columns of a projection: a star, columns, or a star and then columns. -/
def columns : Rule (Bool × List (ProjectionItem Expression)) := do
  if ← takeSign .star then
    if ← takeSign .comma then return (true, ← separated projectionItem) else return (true, [])
  else return (false, ← separated projectionItem)

/-- What a projection sorts by. -/
def sorting : Rule (List (SortItem Expression)) := do
  if ← takeWord .ORDER then
    let _ ← expectWord .BY
    separated sortItem
  else return []

/-- **A projection.** -/
def projection : Rule (Projection Expression) := do
  let distinct ← takeWord .DISTINCT
  let (star, items) ← columns
  let orderBy ← sorting
  let skip ← optionally (takeWord .SKIP) expression
  let limit ← optionally (takeWord .LIMIT) expression
  return ⟨distinct, star, items, orderBy, skip, limit⟩

/-- `WITH projection`. -/
def withClause : Rule Clause := do
  let word ← advance
  let projection ← projection
  return .withColumns projection (← look (.spanFrom word.start))

/-- `RETURN projection`. -/
def returnClause : Rule Clause := do
  let word ← advance
  let projection ← projection
  return .returnColumns projection (← look (.spanFrom word.start))

/-! ### Changing data -/

/-- A property as the target of a change. -/
def propertyTarget : Rule Expression := do
  let start ← startHere
  let target ← suffixed
  if target.isProperty then return target
  else fail (.notAProperty ⟨start, target.span.stop⟩)

/-- A variable and the sign behind it. -/
def assigned : Rule Ident := do
  let name ← variableName
  move
  return name

/-- `property = value`. -/
def propertyAssignment (start : Nat) : Rule (SetItem Expression) := do
  let target ← propertyTarget
  let _ ← expectSign .eq
  let value ← expression
  return .property target value (← look (.spanFrom start))

/-- **An assignment**; a variable is told apart from a property by the sign behind it. -/
def setItem : Rule (SetItem Expression) := do
  let token ← here
  let start := token.span.start
  if token.kind.isVariable then
    match ← look .next with
    | .sign .eq =>
      let name ← assigned
      let value ← expression
      return .replace name value (← look (.spanFrom start))
    | .sign .plusEq =>
      let name ← assigned
      let value ← expression
      return .merge name value (← look (.spanFrom start))
    | .sign .colon =>
      let name ← variableName
      let labels ← labels
      return .labels name labels (← look (.spanFrom start))
    | _ => propertyAssignment start
  else propertyAssignment start

/-- Something to remove: labels or a property. -/
def removeItem : Rule (RemoveItem Expression) := do
  let start ← startHere
  if ← atVariableBefore (.sign .colon) then
    let name ← variableName
    let labels ← labels
    return .labels name labels (← look (.spanFrom start))
  else return .property (← propertyTarget)

/-- `CREATE pattern`. -/
def createClause : Rule Clause := do
  let word ← advance
  let pattern ← pattern
  return .createPattern pattern (← look (.spanFrom word.start))

/-- The event an action of a merge waits for. -/
def mergeEvent : Rule MergeEvent := do
  if ← takeWord .CREATE then return .onCreate
  else if ← takeWord .MATCH then return .onMatch
  else fail (.expected "CREATE or MATCH after ON")

/-- **An action of a merge**, from the word `ON`. -/
def mergeAction : Rule (MergeAction Expression) := do
  let word ← advance
  let event ← mergeEvent
  let _ ← expectWord .SET
  let items ← separated setItem
  return ⟨event, items, ← look (.spanFrom word.start)⟩

/-- `MERGE path` with its actions. -/
def mergeClause : Rule Clause := do
  let word ← advance
  let part ← patternPart
  let actions ← many (optionally (atWord .ON) mergeAction) []
  return .mergePart part actions (← look (.spanFrom word.start))

/-- `[DETACH] DELETE values`. -/
def deleteClause : Rule Clause := do
  let start ← startHere
  let detach ← takeWord .DETACH
  let _ ← expectWord .DELETE
  let values ← separated expression
  return .deleteValues detach values (← look (.spanFrom start))

/-- `SET assignments`. -/
def setClause : Rule Clause := do
  let word ← advance
  let items ← separated setItem
  return .setItems items (← look (.spanFrom word.start))

/-- `REMOVE items`. -/
def removeClause : Rule Clause := do
  let word ← advance
  let items ← separated removeItem
  return .removeItems items (← look (.spanFrom word.start))

/-! ### All clauses -/

/-- The failure to find a clause. -/
def noClause (kind : TokenKind) : Rule Clause :=
  fail (.unexpected ("unexpected " ++ kind.describe ++
    ", expected a clause such as MATCH or RETURN"))

/-- **A clause.** -/
def clause : Rule Clause := do
  let kind := (← here).kind
  match kind with
  | .keyword word =>
    match word with
    | .MATCH | .OPTIONAL => matchClause
    | .WHERE => whereClause
    | .WITH => withClause
    | .RETURN => returnClause
    | .UNWIND => unwindClause
    | .CREATE => createClause
    | .MERGE => mergeClause
    | .DELETE | .DETACH => deleteClause
    | .SET => setClause
    | .REMOVE => removeClause
    | .CALL => callClause
    | _ => noClause kind
  | _ => noClause kind

end Cypher.Grammar
