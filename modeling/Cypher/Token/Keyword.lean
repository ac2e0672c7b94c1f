/-!
# Reserved words

The reserved words of the query language, each under its own upper-case spelling. A word of a query
is matched against them without regard to the case of ASCII letters. Which of them a text may not
use as names depends on the dialect.
-/

namespace Cypher

/-- **A reserved word.** -/
inductive Keyword
  | MATCH | OPTIONAL | WHERE | WITH | RETURN | UNWIND | CREATE | MERGE | DELETE | DETACH | SET
  | REMOVE | CALL | YIELD | UNION | ALL | AS | ON | DISTINCT | ORDER | BY | ASC | ASCENDING | DESC
  | DESCENDING | SKIP | LIMIT | AND | OR | XOR | NOT | IN | IS | STARTS | ENDS | CONTAINS | NULL
  | TRUE | FALSE | CASE | WHEN | THEN | ELSE | END | EXISTS
deriving DecidableEq, Repr

namespace Keyword

/-- The words that every dialect reserves. -/
def base : List Keyword :=
  [MATCH, OPTIONAL, WHERE, WITH, RETURN, UNWIND, CREATE, MERGE, DELETE, DETACH, SET, REMOVE, CALL,
   YIELD, UNION, ALL, AS, ON, DISTINCT, ORDER, BY, ASC, ASCENDING, DESC, DESCENDING, SKIP, LIMIT,
   AND, OR, XOR, NOT, IN, IS, STARTS, ENDS, CONTAINS, NULL, TRUE, FALSE, CASE, WHEN, THEN, ELSE,
   END]

/-- All reserved words. -/
def all : List Keyword := base ++ [EXISTS]

/-- The upper-case spelling of a word. -/
def spelling : Keyword → String
  | MATCH => "MATCH" | OPTIONAL => "OPTIONAL" | WHERE => "WHERE" | WITH => "WITH"
  | RETURN => "RETURN" | UNWIND => "UNWIND" | CREATE => "CREATE" | MERGE => "MERGE"
  | DELETE => "DELETE" | DETACH => "DETACH" | SET => "SET" | REMOVE => "REMOVE" | CALL => "CALL"
  | YIELD => "YIELD" | UNION => "UNION" | ALL => "ALL" | AS => "AS" | ON => "ON"
  | DISTINCT => "DISTINCT" | ORDER => "ORDER" | BY => "BY" | ASC => "ASC"
  | ASCENDING => "ASCENDING" | DESC => "DESC" | DESCENDING => "DESCENDING" | SKIP => "SKIP"
  | LIMIT => "LIMIT" | AND => "AND" | OR => "OR" | XOR => "XOR" | NOT => "NOT" | IN => "IN"
  | IS => "IS" | STARTS => "STARTS" | ENDS => "ENDS" | CONTAINS => "CONTAINS" | NULL => "NULL"
  | TRUE => "TRUE" | FALSE => "FALSE" | CASE => "CASE" | WHEN => "WHEN" | THEN => "THEN"
  | ELSE => "ELSE" | END => "END" | EXISTS => "EXISTS"

/-- **The reserved word that a word spells**, in any case. -/
def ofWord? (word : List Char) : Option Keyword :=
  let upper := word.map Char.toUpper
  all.find? fun k => k.spelling.toList == upper

end Keyword

end Cypher
