/-!
# Kinds of clauses

The kind of a clause is all that the rules on the order of clauses look at.
-/

namespace Cypher

/-- **The kind of a clause.** -/
inductive ClauseKind
  | MATCH | WHERE | WITH | RETURN | UNWIND | CREATE | MERGE | DELETE | SET | REMOVE | CALL
  /-- The stand-in for a clause that could not be read. -/
  | error
deriving DecidableEq, Repr

namespace ClauseKind

/-- Whether clauses of the kind change the data. -/
def isUpdating : ClauseKind → Bool
  | CREATE | MERGE | DELETE | SET | REMOVE => true
  | _ => false

/-- The name of a kind in messages. -/
def text : ClauseKind → String
  | MATCH => "MATCH"
  | WHERE => "WHERE"
  | WITH => "WITH"
  | RETURN => "RETURN"
  | UNWIND => "UNWIND"
  | CREATE => "CREATE"
  | MERGE => "MERGE"
  | DELETE => "DELETE"
  | SET => "SET"
  | REMOVE => "REMOVE"
  | CALL => "CALL"
  | error => "<error>"

end ClauseKind

end Cypher
