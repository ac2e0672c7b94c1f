import Cypher.Check.Alias
import Cypher.Check.Deprecation
import Cypher.Check.Order
import Cypher.Check.Union

/-!
# Validation

A tree that matches the grammar may still mean nothing. Up to four checks look for that, one after
the other, each over the whole document: the order of clauses, the names that projections bind,
unions, and old forms. A dialect switches on the checks that make sense for it.
-/

namespace Cypher

/-- **Which checks a document undergoes.** -/
structure Checks where
  /-- Whether the order of clauses is checked. -/
  clauseOrder : Bool
  /-- Whether the names bound by projections are checked. -/
  aliases : Bool
  /-- Whether unions are checked. -/
  unions : Bool
  /-- Whether old forms are advised against. -/
  deprecations : Bool
deriving DecidableEq, Repr

namespace Checks

/-- All checks. -/
def all : Checks := ⟨true, true, true, true⟩

/-- The checks of a dialect. -/
def ofRules (rules : Rules) : Checks :=
  ⟨rules.checksOrder, rules.checksAliases, true, rules.deprecatesExists⟩

end Checks

/-- **A way to validate documents.** -/
structure Validator where
  /-- The rules of the dialect. -/
  rules : Rules
  /-- The checks that are made. -/
  checks : Checks

namespace Validator

/-- The validator of a dialect. -/
def ofDialect (dialect : Dialect) : Validator := ⟨dialect.rules, .ofRules dialect.rules⟩

/-- The validator with other checks. -/
def withChecks (v : Validator) (checks : Checks) : Validator := { v with checks := checks }

/-- The validator with the check of the order of clauses on or off. -/
def withClauseOrder (v : Validator) (enabled : Bool) : Validator :=
  { v with checks := { v.checks with clauseOrder := enabled } }

/-- The validator with the check of the names bound by projections on or off. -/
def withAliases (v : Validator) (enabled : Bool) : Validator :=
  { v with checks := { v.checks with aliases := enabled } }

/-- A check that is made only if it is switched on. -/
def onlyIf (enabled : Bool) (check : Check Unit) : Check Unit := if enabled then check else pure ()

/-- **All checks of a document** that are switched on. -/
def check (v : Validator) (document : Document) : Check Unit := do
  onlyIf v.checks.clauseOrder (Order.check v.rules.ordering document)
  onlyIf v.checks.aliases (Alias.check document)
  onlyIf v.checks.unions (Check.reportAll (Union.reports document))
  onlyIf v.checks.deprecations (Check.reportAll (Deprecation.reports document))

/-- **Validates a document** in some scopes, adding to a log what is found. -/
def validate (v : Validator) (document : Document) (scopes : Scopes) (log : Log) :
    Scopes × Log :=
  let (_, scopes, reports) := (v.check document).run scopes
  (scopes, log.extend reports)

end Validator

end Cypher
