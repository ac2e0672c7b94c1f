import Cypher.Check.Basic

/-!
# Checking the names that projections bind

Within one projection, no two columns may bind the same name. Nothing is wrong with binding a name
again later: a projection replaces the names in sight by its own, together with those before it if
it keeps them all. The other clauses add to the names in sight: a pattern those of its nodes, paths
and relationships, a call those of the columns it hands on.
-/

namespace Cypher.Alias

open Check

/-- The report on a column that binds a name which another column has bound at `first`. -/
def duplicate (binding : Ident) (first : Span) : Diagnostic :=
  ((((Diagnostic.error ("`" ++ binding.value ++
    "` is bound more than once in this projection")).primary binding.span
    "duplicate alias").secondary first "first bound here").helped
    "give each projected column a distinct name").coded .aliasConflict

/-- The reports on columns that bind a name for the second time or once more, given the bindings
that came first. -/
def duplicatesAfter (seen : List Ident) : List Ident → List Diagnostic
  | [] => []
  | x :: xs =>
    match seen.find? fun y => y.value = x.value with
    | some first => duplicate x first.span :: duplicatesAfter seen xs
    | none => duplicatesAfter (seen ++ [x]) xs

/-- **The reports on the columns of a projection.** -/
def duplicates (projection : Projection Expression) : List Diagnostic :=
  duplicatesAfter [] projection.bindings

/-- The names that the columns of a projection bind. -/
def boundBy (projection : Projection Expression) : List String :=
  projection.bindings.map Located.value

/-- The names in sight after a projection. -/
def visibleAfter (projection : Projection Expression) (visible : NameSet) : NameSet :=
  (if projection.star then visible else .empty).insertAll (boundBy projection)

/-- The names that a subquery hands to the query around it: those of the projection that ends its
first branch. -/
def returned (body : Query) : List String :=
  match body.clauses.getLast? with
  | some (.returnColumns projection _) => boundBy projection
  | _ => []

/-- The names that the paths of a pattern bind. -/
def boundByParts (parts : List (PatternPart Expression)) : List String :=
  (parts.flatMap PatternPart.binders).map Located.value

/-- The names that a clause other than a projection adds to those in sight. -/
def added : Clause → List String
  | .matchPattern _ pattern _ => boundByParts pattern.parts
  | .createPattern pattern _ => boundByParts pattern.parts
  | .mergePart part _ _ => boundByParts [part]
  | .unwindList _ binder _ => [binder.value]
  | .callProcedure call _ => call.yieldItems.map fun item => item.binding.value
  | .callQuery body _ => returned body
  | _ => []

/-- Checks a projection and lets it replace the names in sight. -/
def project (projection : Projection Expression) : Check Unit := do
  let visible := (← scopes).visible
  reportAll (duplicates projection)
  modify (·.replaceVisible (visibleAfter projection visible))

/-- **Carries the names in sight over a clause**, and checks it if it is a projection. -/
def bindClause (clause : Clause) : Check Unit :=
  match clause with
  | .withColumns projection _ => project projection
  | .returnColumns projection _ => project projection
  | clause => modify (·.bindAll (added clause))

/-- **Checks the branches of a query**, and in front of each clause the subqueries in it. -/
def checkQuery (kind : ScopeKind) (query : Query) : Check Unit :=
  each (fun branch => inScope kind (each (fun clause => do
    each (fun body => checkQuery .subquery body.val) clause.val.subqueries.attach
    bindClause clause.val) branch.val.attach)) query.branches.attach
termination_by sizeOf query
decreasing_by exact QueryOf.sizeOf_subquery_lt branch.property clause.property body.property

/-- **Checks the names that the projections of a document bind.** -/
def check (document : Document) : Check Unit := each (checkQuery .statement) document.queries

end Cypher.Alias
