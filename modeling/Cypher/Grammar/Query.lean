import Cypher.Grammar.Clause

/-!
# Reading queries and documents

A branch of a query is a sequence of clauses in a scope of its own. When mistakes are forgiven, a
clause that cannot be read is replaced by a stand-in, which covers the tokens skipped until reading
can be taken up again. A query without clauses is a mistake that needs no skipping.

With documents, the grammar is complete: `Cypher.Grammar.body` says what the rules that nest stand
for, and `Cypher.Grammar.read` runs the grammar over a list of tokens.
-/

namespace Cypher.Grammar

open Rule hiding pure bind

/-! ### Sequences of clauses -/

/-- Whether the clauses of a branch end here. -/
def atClausesEnd : Rule Bool := do
  return (← here).kind.endsClauses (← look .nested)

/-- Skips the token at the cursor if nothing has been read since a position, unless the token ends
the branch. -/
def moveIfStuck (position : Nat) : Rule Unit := do
  if (← look .position) = position then
    if ← atClausesEnd then return () else move
  else return ()

/-- **The stand-in for a clause that failed**, given where the clause began. If the clause did not
get past its first token, that token is skipped. -/
def failedClause (start position : Nat) : Rule Clause := do
  moveIfStuck position
  resume
  return .error (← look (.spanFrom start))

/-- A clause or its stand-in, noted in the scope. -/
def clauseOrError : Rule Clause := do
  let start ← startHere
  let position ← look .position
  let clause ← mend clause (failedClause start position)
  record clause.kind
  return clause

/-- The next clause of a branch, if there is one. -/
def nextClause : Rule (Option Clause) := do
  if ← atClausesEnd then return none else return some (← clauseOrError)

/-- **The clauses of a branch**, in a scope of their own. -/
def branch (kind : ScopeKind) : Rule (List Clause) := inScope kind (many nextClause [])

/-- Complains about a branch without clauses. -/
def requireClauses (context : String) (clauses : List Clause) : Rule Unit :=
  if clauses.isEmpty then complain (.missingClause context) else pure ()

/-- The clauses of a branch, of which there should be some. -/
def branchIn (kind : ScopeKind) (context : String) : Rule (List Clause) := do
  let clauses ← branch kind
  requireClauses context clauses
  return clauses

/-- A branch behind a union. -/
def unionBranch (kind : ScopeKind) : Rule (UnionBranch Clause) := do
  let word ← advance
  let all ← takeWord .ALL
  let clauses ← branchIn kind "after UNION"
  return ⟨all, clauses, ← look (.spanFrom word.start)⟩

/-- **A query.** -/
def query (kind : ScopeKind) : Rule Query := do
  let start ← startHere
  let clauses ← branchIn kind "at the start of a query"
  let unions ← many (optionally (atWord .UNION) (unionBranch kind)) []
  return ⟨clauses, unions, ← look (.spanFrom start)⟩

/-! ### Bodies of existence tests -/

/-- Notes clauses in the innermost scope. -/
def recordAll : List Clause → Rule Unit
  | [] => pure ()
  | clause :: clauses => do
    record clause.kind
    recordAll clauses

/-- The short form of a subquery: a pattern, perhaps with a filter. -/
def patternBody : Rule Query := do
  let start ← startHere
  let pattern ← pattern
  let filter ← optionally (atWord .WHERE) whereClause
  let clauses := ClauseOf.matchPattern false pattern pattern.span :: filter.toList
  recordAll clauses
  return ⟨clauses, [], ← look (.spanFrom start)⟩

/-- **The body of an existence test**: a query, or its short form. -/
def existsBody : Rule Query := do
  if (← here).kind.startsClause then query .subquery else inScope .subquery patternBody

/-! ### Documents -/

/-- Moves past semicolons. -/
def moveOverSemicolons : Rule Unit :=
  loop (fun _ => optionally (takeSign .semicolon) (pure ())) ()

/-- **A statement.** It has no query if it does not begin like one and nothing in it could be
read. -/
def statement : Rule Statement := do
  let recognized := (← here).kind.startsClause
  let query ← query .statement
  if !recognized && query.clauses.all ClauseOf.isError && query.unions.isEmpty then
    return .error query.span
  else return .query query

/-- The next statement of a document, if there is one. -/
def nextStatement : Rule (Option Statement) := do
  moveOverSemicolons
  if ← isAt .endOfInput then return none else return some (← statement)

/-- **A document.** -/
def document : Rule Document := do
  let statements ← many nextStatement []
  return ⟨statements, ⟨0, (← here).span.stop⟩⟩

/-! ### The complete grammar -/

/-- What the rules that nest stand for. -/
def body : {α : Type} → Nested α → Rule α
  | _, .expression strength => expressionOf strength
  | _, .subquery => query .subquery
  | _, .existsBody => existsBody

/-- Runs a rule outside of all nesting. -/
def start (setting : Setting) {α : Type} (rule : Rule α) : Action α :=
  rule.run setting (runNested setting body setting.limit)

/-- **The result of reading a document**: the document, unless a mistake was not forgiven; the
problems met; and the scopes left. -/
structure Reading where
  /-- The document. -/
  document : Option Document
  /-- The problems, in order. -/
  problems : List Diagnostic
  /-- The scopes at the end. -/
  scopes : Scopes

/-- The result that the outcome of a run amounts to. -/
def Reading.ofOutcome : Outcome Document → Reading
  | .done document s => ⟨some document, s.problems, s.scopes⟩
  | .failed d s => ⟨none, s.problems ++ [d], s.scopes⟩

/-- **Reads a document from a list of tokens.** -/
def read (setting : Setting) (tokens : List Token) : Reading :=
  .ofOutcome (start setting document (.start tokens))

end Cypher.Grammar
