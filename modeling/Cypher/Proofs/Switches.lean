import Cypher.Proofs.Sealed

/-!
# Checks switched on and off

A validator makes up to four checks, and two of them share one stack of scopes. Since these are
sealed, each of the four reports the same, whichever others are made and whatever the scopes are;
and each reports codes of its own (`Cypher.Checks.covers`). So everything about a validator can be
read off one complete run in no scope (`Cypher.Validator.validate_eq`): it leaves the scopes as it
found them, and adds to the log those diagnostics of the complete run that the checks switched on
are there for.
-/

namespace Cypher

/-- **The diagnostics that some checks are there for**, by their codes. -/
def Checks.covers (checks : Checks) (d : Diagnostic) : Bool :=
  match d.code with
  | some .clauseOrder => checks.clauseOrder
  | some .aliasConflict => checks.aliases
  | some .mixedUnion | some .unionColumnMismatch => checks.unions
  | some .deprecated => checks.deprecations
  | _ => false

namespace Validator

open Check

/-- What a check reports if it is switched on. -/
abbrev ifOn (enabled : Bool) (ds : List Diagnostic) : List Diagnostic := if enabled then ds else []

/-- A check that leaves the scopes alone does so whether or not it is switched on. -/
theorem run_onlyIf {check : Check Unit} {scopes : Scopes} {ds : List Diagnostic} (enabled : Bool)
    (h : check.run scopes = ((), scopes, ds)) :
    (onlyIf enabled check).run scopes = ((), scopes, ifOn enabled ds) := by
  cases enabled with
  | true => exact h
  | false => rfl

/-- What the four checks report on a document, each if it is switched on. -/
def reportsOf (rules : Rules) (checks : Checks) (document : Document) : List Diagnostic :=
  ifOn checks.clauseOrder (document.queries.flatMap fun query =>
    (Order.checkQuery rules.ordering .statement query).reports) ++
  (ifOn checks.aliases (document.queries.flatMap fun query =>
    (Alias.checkQuery .statement query).reports) ++
  (ifOn checks.unions (Union.reports document) ++
  ifOn checks.deprecations (Deprecation.reports document)))

/-- **A validator leaves the scopes alone**, and what it reports does not depend on them. -/
theorem run_check (v : Validator) (document : Document) (scopes : Scopes) :
    (v.check document).run scopes = ((), scopes, reportsOf v.rules v.checks document) := by
  have horder := run_onlyIf v.checks.clauseOrder (run_order v.rules.ordering document scopes)
  have haliases := run_onlyIf v.checks.aliases (run_aliases document scopes)
  have hunions : (onlyIf v.checks.unions (reportAll (Union.reports document))).run scopes =
      ((), scopes, ifOn v.checks.unions (Union.reports document)) := run_onlyIf _ rfl
  have hadvice :
      (onlyIf v.checks.deprecations (reportAll (Deprecation.reports document))).run scopes =
        ((), scopes, ifOn v.checks.deprecations (Deprecation.reports document)) := run_onlyIf _ rfl
  simp only [check, run_bind, horder, haliases, hunions, hadvice, reportsOf]

theorem validate_eq_extend (v : Validator) (document : Document) (scopes : Scopes) (log : Log) :
    v.validate document scopes log =
      (scopes, log.extend (reportsOf v.rules v.checks document)) := by
  rw [validate, run_check]

/-- The diagnostics that one switch decides on are all kept or all left out. -/
theorem filter_covers {checks : Checks} {enabled : Bool} {ds : List Diagnostic}
    (h : ∀ d ∈ ds, checks.covers d = enabled) :
    (ifOn true ds).filter checks.covers = ifOn enabled ds := by
  cases enabled with
  | true => exact List.filter_eq_self.2 h
  | false => exact List.filter_eq_nil_iff.2 fun d hd => Bool.not_eq_true _ ▸ h d hd

variable {checks : Checks} {document : Document} {d : Diagnostic}

theorem covers_of_mem_order {table : OrderingTable}
    (h : d ∈ document.queries.flatMap fun query =>
      (Order.checkQuery table .statement query).reports) :
    checks.covers d = checks.clauseOrder := by
  rw [Checks.covers, code_of_mem_order h]

theorem covers_of_mem_aliases
    (h : d ∈ document.queries.flatMap fun query =>
      (Alias.checkQuery .statement query).reports) :
    checks.covers d = checks.aliases := by
  rw [Checks.covers, code_of_mem_aliases h]

theorem covers_of_mem_unions (h : d ∈ Union.reports document) :
    checks.covers d = checks.unions := by
  obtain ⟨code, hmem, hcode⟩ := (Union.isError_of_mem_reports h).1
  rw [Checks.covers, hcode]
  rcases List.mem_cons.1 hmem with rfl | hmem
  · rfl
  · rw [List.mem_singleton.1 hmem]

theorem covers_of_mem_deprecations (h : d ∈ Deprecation.reports document) :
    checks.covers d = checks.deprecations := by
  rw [Checks.covers, Deprecation.code_of_mem_reports h]

/-- **The reports of some checks** are those of all checks that they are there for. -/
theorem reportsOf_eq_filter (rules : Rules) (checks : Checks) (document : Document) :
    reportsOf rules checks document =
      (reportsOf rules .all document).filter checks.covers := by
  simp only [reportsOf, Checks.all, List.filter_append]
  rw [filter_covers fun _ => covers_of_mem_order, filter_covers fun _ => covers_of_mem_aliases,
    filter_covers fun _ => covers_of_mem_unions, filter_covers fun _ => covers_of_mem_deprecations]

/-- **The checks of a validator are independent of one another, of the scopes and of the log.**
Whichever checks are switched on, a validator leaves the scopes as they are and keeps what the log
has; it adds those diagnostics that the checks switched on are there for, in the order in which all
checks together report them outside all scopes. -/
theorem validate_eq (v : Validator) (document : Document) (scopes : Scopes) (log : Log) :
    v.validate document scopes log =
      (scopes, ⟨log.entries ++
        ((v.withChecks .all).validate document .outside .empty).2.entries.filter
          v.checks.covers⟩) := by
  have hall : ((v.withChecks .all).validate document .outside .empty).2.entries =
      reportsOf v.rules .all document := by
    rw [validate_eq_extend, Log.entries_extend]
    exact List.nil_append _
  rw [hall, ← reportsOf_eq_filter, validate_eq_extend, Log.extend]

end Validator

end Cypher
