import Cypher.Check.Basic

/-!
# Checking unions

The branches of a union are either all told to drop equal rows or all told to keep them, and they
hand out the same columns. The columns of a branch are known if its last clause is a final
projection without a star; a column without a name goes with any other. Each branch is compared with
the first.
-/

namespace Cypher.Union

/-- The columns of a branch by their names, if they are known. -/
def columns? (clauses : List Clause) : Option (List (Option String)) :=
  match clauses.getLast? with
  | some (.returnColumns projection _) =>
    if projection.star then none
    else some (projection.items.map fun item => item.binding?.map Located.value)
  | _ => none

/-- Whether a column may stand where another stands. -/
def agree : Option String → Option String → Bool
  | some a, some b => a == b
  | _, _ => true

/-- Whether two branches hand out the same columns. -/
def sameColumns (a b : List (Option String)) : Bool :=
  a.length == b.length && (a.zip b).all fun pair => agree pair.1 pair.2

/-- The columns of a branch in a message. -/
def describe (columns : List (Option String)) : String :=
  "(" ++ String.intercalate ", " (columns.map fun name => name.getD "_") ++ ")"

/-- The report on a branch of the other form than the first union. -/
def mixed (branch first : UnionBranch Clause) : Diagnostic :=
  (((Diagnostic.error "UNION and UNION ALL cannot be mixed in one query").primary branch.span
    "differs from the first UNION").secondary first.span "first UNION").coded .mixedUnion

/-- The report on a branch with other columns than the first. -/
def mismatch (branch : UnionBranch Clause) (expected found : List (Option String)) : Diagnostic :=
  (((Diagnostic.error "all sub queries in a UNION must return the same column names").primary
    branch.span "columns differ from the first branch").noted
    ("first branch returns " ++ describe expected ++ ", this branch returns " ++ describe found)
    ).coded .unionColumnMismatch

/-- The report on the first branch of the other form, if there is one. -/
def formReports (unions : List (UnionBranch Clause)) : List Diagnostic :=
  match unions with
  | [] => []
  | first :: _ =>
    ((unions.find? fun branch => branch.all ≠ first.all).map fun branch => mixed branch first
      ).toList

/-- The report on a branch, given the columns expected, if its own are known and differ. -/
def columnReports (expected : List (Option String)) (branch : UnionBranch Clause) :
    List Diagnostic :=
  match columns? branch.clauses with
  | none => []
  | some found => if sameColumns expected found then [] else [mismatch branch expected found]

/-- **The reports on the unions of one query.** -/
def queryReports (query : Query) : List Diagnostic :=
  formReports query.unions ++
    match columns? query.clauses with
    | none => []
    | some expected => query.unions.flatMap (columnReports expected)

/-- **The reports on all unions of a document**, those of subqueries among them. -/
def reports (document : Document) : List Diagnostic :=
  (document.nodes.filterMap Node.query?).flatMap queryReports

end Cypher.Union
