import Cypher.Dialect.Ordering
import Cypher.Text.Blank
import Cypher.Token.Keyword

/-!
# Dialects

The query language comes in two dialects. What sets them apart is data: the words they reserve,
whether they have subqueries, in which order clauses may come, and which checks a tree undergoes.
Everything that depends on the dialect reads its `Cypher.Rules` and nothing else.
-/

namespace Cypher

/-- **A dialect of the query language.** -/
inductive Dialect
  /-- The common base of all systems. -/
  | openCypher
  /-- The dialect that adds subqueries. -/
  | neo4j5
deriving DecidableEq, Repr

instance : Inhabited Dialect := ⟨.openCypher⟩

/-- A name that no dialect goes by. -/
structure UnknownDialect where
  /-- The name as given. -/
  name : String
deriving DecidableEq, Repr

/-- What to tell someone who gave such a name. -/
def UnknownDialect.message (e : UnknownDialect) : String :=
  "unknown Cypher dialect `" ++ e.name ++ "` (expected `opencypher` or `neo4j5`)"

namespace Dialect

/-- The proper name of a dialect. -/
def name : Dialect → String
  | openCypher => "opencypher"
  | neo4j5 => "neo4j5"

/-- The dialect with a proper name. -/
def ofName? (s : String) : Option Dialect := [openCypher, neo4j5].find? fun d => d.name == s

/-- The names a dialect goes by, in lower case. -/
def aliases : Dialect → List String
  | openCypher => ["opencypher", "open_cypher", "cypher"]
  | neo4j5 => ["neo4j5", "neo4j-5", "neo4j"]

/-- **The dialect that goes by a name**, whatever blanks surround the name and whatever the case of
its ASCII letters. -/
def ofText (s : String) : Except UnknownDialect Dialect :=
  let name := String.ofList ((Text.trim s.toList).map Char.toLower)
  match [openCypher, neo4j5].find? fun d => d.aliases.contains name with
  | some d => .ok d
  | none => .error ⟨s⟩

end Dialect

/-- **What a dialect lays down.** -/
structure Rules where
  /-- The dialect itself. -/
  dialect : Dialect
  /-- The words that are no names. -/
  keywords : List Keyword
  /-- Whether there are subqueries. -/
  subqueries : Bool
  /-- The legal orders of clauses. -/
  ordering : OrderingTable
  /-- Whether the order of clauses is checked. -/
  checksOrder : Bool
  /-- Whether the names bound by projections are checked. -/
  checksAliases : Bool
  /-- Whether the function form of the existence test is advised against. -/
  deprecatesExists : Bool
deriving DecidableEq, Repr

/-- Whether a word is reserved. -/
def Rules.reserves (rules : Rules) (word : Keyword) : Bool := rules.keywords.contains word

/-- **The rules of a dialect.** -/
def Dialect.rules : Dialect → Rules
  | .openCypher =>
    { dialect := .openCypher
      keywords := Keyword.base
      subqueries := false
      ordering := ⟨OrderingTable.steps OrderState.readable, [.returned, .updating]⟩
      checksOrder := true
      checksAliases := true
      deprecatesExists := false }
  | .neo4j5 =>
    { dialect := .neo4j5
      keywords := Keyword.all
      subqueries := true
      ordering :=
        ⟨OrderingTable.steps OrderState.unfinished, [.returned, .updating, .called, .yielded]⟩
      checksOrder := true
      checksAliases := true
      deprecatesExists := true }

end Cypher
