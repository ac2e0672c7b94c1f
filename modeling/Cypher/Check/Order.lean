import Cypher.Check.Basic
import Cypher.Dialect.Basic

/-!
# Checking the order of clauses

Each branch of a query goes through the states of the dialect's ordering table, in a scope of its
own. A clause that is not legal in the state so far is reported and leaves the state as it was;
stand-ins for clauses that could not be read are passed over. Behind each clause, the subqueries in
it are checked.

A branch of a statement also has to end well: not with a reported clause that was reported already,
but in one of the states that the table allows at the end. A procedure call that stands alone, at
most with a filter on the columns it hands on, is complete in any dialect.
-/

namespace Cypher.Order

open Check

/-! ### Reports -/

/-- How a message speaks of what came before. -/
def describe : OrderState → String
  | .start => "the start of a query"
  | .reading => "UNWIND"
  | .matched => "MATCH"
  | .called => "CALL"
  | .yielded => "YIELD"
  | .projected => "WITH"
  | .filtered => "WHERE"
  | .updating => "an updating clause"
  | .returned => "RETURN"

/-- What is wrong with a kind of clause in a state. -/
def misplacedMessage (state : OrderState) (kind : ClauseKind) : String :=
  if state = .start then kind.text ++ " cannot start a query"
  else kind.text ++ " cannot follow " ++ describe state

/-- What to do about a kind of clause in a state. -/
def misplacedHelp? (state : OrderState) (kind : ClauseKind) : Option String :=
  match state, kind with
  | .returned, kind =>
    if kind.isUpdating then
      some "move the update before RETURN, or add a WITH in place of RETURN"
    else some "RETURN must be the last clause of a query"
  | .updating, .MATCH | .updating, .UNWIND | .updating, .CALL =>
    some "add a WITH between updating and reading clauses"
  | .called, .WHERE => some "only a procedure call with YIELD may be filtered by WHERE"
  | _, .WHERE => some "WHERE must directly follow MATCH, WITH or CALL ... YIELD"
  | _, _ => none

/-- The report on a clause in a state in which it is not legal. -/
def misplaced (clause : Clause) (state : OrderState) : Diagnostic :=
  let report := ((Diagnostic.error (misplacedMessage state clause.kind)).primary clause.span
    "misplaced clause").coded .clauseOrder
  match misplacedHelp? state clause.kind with
  | some help => report.helped help
  | none => report

/-- The report on a branch that may not end with its last clause. -/
def unfinished (last : Clause) : Diagnostic :=
  (((Diagnostic.error ("query cannot conclude with " ++ last.kind.text)).primary last.span
    "last clause of the query").helped "end the query with RETURN or an updating clause").coded
    .clauseOrder

/-! ### Checks -/

/-- The clauses of a branch without stand-ins. -/
def readable (clauses : List Clause) : List Clause := clauses.filter fun c => !c.isError

/-- Whether a branch is a procedure call standing alone, or one with a filter on its columns. -/
def isLoneCall (clauses : List Clause) : Bool :=
  match readable clauses with
  | [.callProcedure _ _] => true
  | [.callProcedure call _, .whereHolds _ _] => call.yields
  | _ => false

/-- **Checks one clause** in the scope of its branch. What is handed on is whether the last clause
was reported. -/
def checkClause (table : OrderingTable) (reported : Bool) (clause : Clause) : Check Bool := do
  modify (·.record clause.kind)
  if clause.isError then return reported
  else
    let state := (← scopes).ordering
    match table.after state clause.kind clause.yields with
    | some next =>
      modify (·.setOrdering next)
      return false
    | none =>
      report (misplaced clause state)
      return true

/-- Checks that a branch may end in the state it has led to. -/
def checkEnd (table : OrderingTable) (clauses : List Clause) : Check Unit := do
  match (readable clauses).getLast? with
  | none => return ()
  | some last =>
    if table.isTerminal (← scopes).ordering then return () else report (unfinished last)

/-- Checks the end of a branch, if it has to meet any demands. -/
def checkBranchEnd (table : OrderingTable) (kind : ScopeKind) (lone reported : Bool)
    (clauses : List Clause) : Check Unit :=
  if kind = .statement && !reported && !(lone && isLoneCall clauses) then checkEnd table clauses
  else return ()

/-- **Checks the branches of a query** and the subqueries in them. -/
def checkQuery (table : OrderingTable) (kind : ScopeKind) (query : Query) : Check Unit :=
  each (fun branch => inScope kind do
    let reported ← eachFrom (fun reported clause => do
      let reported ← checkClause table reported clause.val
      each (fun body => checkQuery table .subquery body.val) clause.val.subqueries.attach
      return reported) false branch.val.attach
    checkBranchEnd table kind query.unions.isEmpty reported branch.val) query.branches.attach
termination_by sizeOf query
decreasing_by exact QueryOf.sizeOf_subquery_lt branch.property clause.property body.property

/-- **Checks the order of the clauses of a document.** -/
def check (table : OrderingTable) (document : Document) : Check Unit :=
  each (checkQuery table .statement) document.queries

end Cypher.Order
