import Cypher.Proofs.Sealed
import Mathlib.Data.List.Basic
import Mathlib.Data.List.DropRight

/-!
# The order of clauses, told by the history of a branch

The check of the order of clauses goes through the states of a table. What it reports by the table
of openCypher can be told without any state, from the clauses in front of a clause and from which of
them were reported.

## The rules

Stand-ins for clauses that could not be read do not count. A clause *stands* if it was not reported.
A clause is misplaced (`Cypher.Order.Misplaced`)

* behind a final projection that stands, whatever it is;
* if it is a filter and the clause directly in front of it does not stand, or is none that a filter
  may follow;
* if it reads and there is an update that stands behind the last `WITH` that stands, or anywhere in
  front if no `WITH` stands.

The end of a branch of a statement is reported if its last clause stands and is neither a final
projection nor an update (`Cypher.Order.endReports`), unless the query is nothing but a procedure
call (`Cypher.Order.StandsAlone`). Nothing is demanded of the end of a subquery.

## Why the table agrees

A clause that is not legal leaves the state as it was, so the state tells what the last clause that
stands has led to, and the history tells more: a filter looks at the last clause, standing or not,
and a reading clause looks back past anything to the last `WITH`. The invariant
(`Cypher.Order.Agrees`) closes the gap. In a state in which a filter may follow every clause is
legal, so that no reported clause can come between; and behind an update nothing that stands leads
away from its state but `WITH` and the final projection.
-/

namespace Cypher.Order

/-! ### The rules -/

/-- **A clause of a branch and what became of it.** -/
structure Verdict where
  /-- The clause. -/
  clause : Clause
  /-- Whether it was reported. -/
  reported : Bool

/-- A clause stands if it was not reported. -/
abbrev Verdict.Stands (v : Verdict) : Prop := v.reported = false

/-- The clauses that a filter may directly follow. -/
abbrev OpensFilter (clause : Clause) : Prop :=
  clause.kind = .MATCH ∨ clause.kind = .WITH ∨ (clause.kind = .CALL ∧ clause.yields = true)

/-- The part of a history behind the last `WITH` that stands. -/
def sinceWith (history : List Verdict) : List Verdict :=
  history.rtakeWhile fun v => !decide (v.Stands ∧ v.clause.kind = .WITH)

/-- **A clause that is misplaced** behind a history. -/
def Misplaced (history : List Verdict) (clause : Clause) : Prop :=
  (∃ v ∈ history, v.Stands ∧ v.clause.kind = .RETURN) ∨
  (clause.kind = .WHERE ∧ ¬ ∃ v ∈ history.getLast?, v.Stands ∧ OpensFilter v.clause) ∨
  (clause.kind ∈ [.MATCH, .UNWIND, .CALL] ∧
    ∃ v ∈ sinceWith history, v.Stands ∧ v.clause.kind.isUpdating = true)

instance (history : List Verdict) (clause : Clause) : Decidable (Misplaced history clause) :=
  inferInstanceAs (Decidable (_ ∨ _ ∨ _))

/-- **A query that is nothing but the call of a procedure**, perhaps with a filter on the columns
that it hands on. -/
inductive StandsAlone (query : Query) : Prop
  | call {call : ProcedureCall Expression} {span : Span} (only : query.unions = [])
    (clauses : readable query.clauses = [.callProcedure call span])
  | filtered {call : ProcedureCall Expression} {span behind : Span} {predicate : Expression}
    (only : query.unions = []) (yields : call.yields = true)
    (clauses : readable query.clauses = [.callProcedure call span, .whereHolds predicate behind])

theorem standsAlone_iff (query : Query) :
    StandsAlone query ↔ (query.unions.isEmpty && isLoneCall query.clauses) = true := by
  rw [Bool.and_eq_true, List.isEmpty_iff]
  constructor
  · rintro (⟨only, clauses⟩ | ⟨only, yields, clauses⟩)
    · exact ⟨only, by rw [isLoneCall, clauses]⟩
    · exact ⟨only, by rw [isLoneCall, clauses]; exact yields⟩
  · rintro ⟨only, hlone⟩
    unfold isLoneCall at hlone
    split at hlone
    · next clauses => exact .call only clauses
    · next clauses => exact .filtered only hlone clauses
    · cases hlone

instance (query : Query) : Decidable (StandsAlone query) :=
  decidable_of_iff _ (standsAlone_iff query).symm

/-- What a clause of a kind leads to where it is legal; a call also has to be asked whether it hands
on columns. -/
def landing (kind : ClauseKind) (yields : Bool) : OrderState :=
  match kind with
  | .MATCH => .matched
  | .WHERE => .filtered
  | .WITH => .projected
  | .RETURN => .returned
  | .UNWIND => .reading
  | .CREATE | .MERGE | .DELETE | .SET | .REMOVE => .updating
  | .CALL => if yields then .yielded else .called
  | .error => .start

/-- What the last clause that stands has led to. -/
def standing (history : List Verdict) : OrderState :=
  ((history.reverse.find? fun v => !v.reported).map fun v =>
    landing v.clause.kind v.clause.yields).getD .start

/-- A history with one more clause. -/
def extend (history : List Verdict) (clause : Clause) : List Verdict :=
  if clause.isError then history else history ++ [⟨clause, decide (Misplaced history clause)⟩]

/-- **The history of the clauses of a branch.** -/
def verdicts (clauses : List Clause) : List Verdict := clauses.foldl extend []

/-- The report on a clause behind a history, if it is misplaced. -/
def misplacedReports (history : List Verdict) (clause : Clause) : List Diagnostic :=
  if ¬ clause.isError ∧ Misplaced history clause then [misplaced clause (standing history)] else []

/-- The reports on clauses behind a history, each together with the reports on what is inside it. -/
def reportsBehind : List Verdict → List (Clause × List Diagnostic) → List Diagnostic
  | _, [] => []
  | history, (clause, inside) :: rest =>
    misplacedReports history clause ++ inside ++ reportsBehind (extend history clause) rest

/-- **The report on the end of a branch of a query**, if it may not end there. -/
def endReports (kind : ScopeKind) (query : Query) (branch : List Clause) :
    List Diagnostic :=
  match (verdicts branch).getLast? with
  | none => []
  | some v =>
    if kind = .statement ∧ v.Stands ∧ v.clause.kind ≠ .RETURN ∧ ¬ v.clause.kind.isUpdating ∧
        ¬ StandsAlone query then
      [unfinished v.clause]
    else []

/-- **The reports on a query, told by history**: for each branch those on its clauses, each followed
by those on the subqueries in it, and at last the one on its end. -/
def reportsByHistory (kind : ScopeKind) (query : Query) : List Diagnostic :=
  query.branches.attach.flatMap fun branch =>
    reportsBehind [] (branch.val.attach.map fun clause =>
      (clause.val, clause.val.subqueries.attach.flatMap fun body =>
        reportsByHistory .subquery body.val)) ++
    endReports kind query branch.val
termination_by sizeOf query
decreasing_by exact QueryOf.sizeOf_subquery_lt branch.property clause.property body.property

/-! ### The table of openCypher -/

/-- The order of clauses in openCypher. -/
abbrev openCypher : OrderingTable := Dialect.openCypher.rules.ordering

/-- Whether a kind of clause is legal in a state. -/
def Legal (state : OrderState) : ClauseKind → Prop
  | .WHERE => state ∈ OrderState.filterable
  | .MATCH | .UNWIND | .CALL => state ≠ .returned ∧ state ≠ .updating
  | .error => False
  | _ => state ≠ .returned

instance (state : OrderState) : (kind : ClauseKind) → Decidable (Legal state kind)
  | .WHERE => inferInstanceAs (Decidable (_ ∈ _))
  | .MATCH | .UNWIND | .CALL => inferInstanceAs (Decidable (_ ∧ _))
  | .WITH | .RETURN | .CREATE | .MERGE | .DELETE | .SET | .REMOVE =>
    inferInstanceAs (Decidable (_ ≠ _))
  | .error => inferInstanceAs (Decidable False)

/-- The table of openCypher, in closed form. -/
theorem after_openCypher (state : OrderState) (kind : ClauseKind) (yields : Bool) :
    openCypher.after state kind yields =
      if Legal state kind then some (landing kind yields) else none := by
  cases kind <;> cases state <;> cases yields <;> rfl

theorem isTerminal_landing (kind : ClauseKind) (yields : Bool) :
    openCypher.isTerminal (landing kind yields) = true ↔
      kind = .RETURN ∨ kind.isUpdating = true := by
  cases kind <;> cases yields <;> decide

theorem landing_eq_returned_iff (kind : ClauseKind) (yields : Bool) :
    landing kind yields = .returned ↔ kind = .RETURN := by
  cases kind <;> cases yields <;> decide

theorem landing_eq_updating_iff (kind : ClauseKind) (yields : Bool) :
    landing kind yields = .updating ↔ kind.isUpdating = true := by
  cases kind <;> cases yields <;> decide

theorem landing_mem_filterable_iff (kind : ClauseKind) (yields : Bool) :
    landing kind yields ∈ OrderState.filterable ↔
      kind = .MATCH ∨ kind = .WITH ∨ (kind = .CALL ∧ yields = true) := by
  cases kind <;> cases yields <;> decide

theorem kind_ne_error {clause : Clause} (h : clause.isError = false) : clause.kind ≠ .error := by
  cases clause <;> simp_all [ClauseOf.isError, ClauseOf.kind]

theorem not_legal_returned {kind : ClauseKind} : ¬ Legal .returned kind := by
  cases kind <;> decide

/-- Behind a clause that a filter may follow, everything is legal. -/
theorem legal_of_mem_filterable {state : OrderState} {kind : ClauseKind}
    (h : state ∈ OrderState.filterable) (hk : kind ≠ .error) : Legal state kind := by
  cases state <;> cases kind <;> simp_all [Legal, OrderState.filterable]

/-- Behind an update, what is legal leads to the same state again, unless it is `WITH` or the final
projection. -/
theorem landing_of_legal_updating {kind : ClauseKind} (yields : Bool) (h : Legal .updating kind)
    (hw : kind ≠ .WITH) (hr : kind ≠ .RETURN) : landing kind yields = .updating := by
  cases kind <;> simp_all [Legal, OrderState.filterable, landing]

/-! ### Histories with one more clause -/

section Concat

variable (history : List Verdict) (v : Verdict)

theorem exists_mem_concat {P : Verdict → Prop} :
    (∃ w ∈ history ++ [v], P w) ↔ (∃ w ∈ history, P w) ∨ P v := by
  simp only [List.mem_append, List.mem_singleton, or_and_right, exists_or, exists_eq_left]

theorem exists_last_concat {P : Verdict → Prop} : (∃ w ∈ (history ++ [v]).getLast?, P w) ↔ P v := by
  simp

theorem sinceWith_concat_of_with (hs : v.Stands) (hw : v.clause.kind = .WITH) :
    sinceWith (history ++ [v]) = [] :=
  List.rtakeWhile_concat_neg _ _ _ (by simp [hs, hw])

theorem sinceWith_concat (h : ¬ (v.Stands ∧ v.clause.kind = .WITH)) :
    sinceWith (history ++ [v]) = sinceWith history ++ [v] :=
  List.rtakeWhile_concat_pos _ _ _ (by simp only [h, decide_false, Bool.not_false])

theorem standing_concat_of_stands (hs : v.Stands) :
    standing (history ++ [v]) = landing v.clause.kind v.clause.yields := by
  simp [standing, hs]

theorem standing_concat_of_reported (hr : v.reported = true) :
    standing (history ++ [v]) = standing history := by
  simp [standing, hr]

end Concat

/-! ### The invariant -/

/-- **The table agrees with a history** of the same clauses. -/
structure Agrees (history : List Verdict) (reached : Reached) : Prop where
  /-- The last clause was reported or not. -/
  reported : reached.reported = true ↔ ∃ v ∈ history.getLast?, v.reported = true
  /-- The state is what the last clause that stands has led to. -/
  state : reached.state = standing history
  /-- It is the last one behind a final projection that stands. -/
  returned : reached.state = .returned ↔ ∃ v ∈ history, v.Stands ∧ v.clause.kind = .RETURN
  /-- A filter may follow if it may follow the last clause, and that clause stands. -/
  filterable : reached.state ∈ OrderState.filterable ↔
    ∃ v ∈ history.getLast?, v.Stands ∧ OpensFilter v.clause
  /-- It is that of an update if there is one that stands behind the last `WITH` that stands. -/
  updating (h : reached.state ≠ .returned) : reached.state = .updating ↔
    ∃ v ∈ sinceWith history, v.Stands ∧ v.clause.kind.isUpdating = true

theorem agrees_start : Agrees [] .start where
  reported := by simp [Reached.start]
  state := rfl
  returned := by simp [Reached.start]
  filterable := by simp [Reached.start, OrderState.filterable]
  updating _ := by simp [Reached.start, sinceWith]

namespace Agrees

variable {history : List Verdict} {reached : Reached} {clause : Clause}

/-- **What the history calls misplaced is what the table does not allow.** -/
theorem misplaced_iff (h : Agrees history reached) (he : clause.isError = false) :
    Misplaced history clause ↔ ¬ Legal reached.state clause.kind := by
  have hne := kind_ne_error he
  unfold Misplaced
  rw [← h.returned, ← h.filterable]
  by_cases hr : reached.state = .returned
  · rw [hr]
    exact iff_of_true (Or.inl rfl) not_legal_returned
  · rw [← h.updating hr]
    cases hk : clause.kind <;> simp_all [Legal]

/-- A clause that is misplaced leaves the state as it was. -/
theorem extend_reported (h : Agrees history reached) (he : clause.isError = false)
    (hl : ¬ Legal reached.state clause.kind) :
    Agrees (history ++ [⟨clause, true⟩]) ⟨true, reached.state⟩ := by
  have hs : ¬ Verdict.Stands ⟨clause, true⟩ := by simp [Verdict.Stands]
  refine ⟨by simp, ?_, ?_, ?_, fun hr => ?_⟩
  · rw [standing_concat_of_reported _ _ rfl, h.state]
  · rw [h.returned, exists_mem_concat]
    simp [hs]
  · -- everything is legal where a filter is, so this is no such state
    have hf : reached.state ∉ OrderState.filterable := fun hf =>
      hl (legal_of_mem_filterable hf (kind_ne_error he))
    rw [exists_last_concat]
    exact iff_of_false hf fun h => hs h.1
  · rw [sinceWith_concat _ _ fun h => hs h.1, exists_mem_concat, h.updating hr]
    simp [hs]

/-- A clause that is legal leads to its own state. -/
theorem extend_standing (h : Agrees history reached) (hl : Legal reached.state clause.kind) :
    Agrees (history ++ [⟨clause, false⟩]) ⟨false, landing clause.kind clause.yields⟩ := by
  have hnr : reached.state ≠ .returned := by
    rintro hr
    rw [hr] at hl
    exact not_legal_returned hl
  refine ⟨by simp, ?_, ?_, ?_, fun hr => ?_⟩
  · rw [standing_concat_of_stands _ _ rfl]
  · rw [landing_eq_returned_iff, exists_mem_concat, ← h.returned]
    simp [hnr]
  · rw [landing_mem_filterable_iff, exists_last_concat]
    simp
  · rw [landing_eq_updating_iff]
    by_cases hw : clause.kind = .WITH
    · rw [sinceWith_concat_of_with _ _ rfl hw, hw]
      simp [ClauseKind.isUpdating]
    · rw [sinceWith_concat _ _ (by simp [hw]), exists_mem_concat, ← h.updating hnr]
      constructor
      · exact fun hu => Or.inr ⟨rfl, hu⟩
      · rintro (hu | ⟨-, hu⟩)
        · -- an update is still the last thing that counts
          rw [hu] at hl
          have hret : clause.kind ≠ .RETURN := fun hk => hr (by simp [landing, hk])
          exact (landing_eq_updating_iff _ _).1
            (landing_of_legal_updating clause.yields hl hw hret)
        · exact hu

/-- **The step**: table and history agree behind one more clause. -/
theorem extend (h : Agrees history reached) (clause : Clause) :
    Agrees (extend history clause) (reached.onward openCypher clause) := by
  unfold Order.extend Reached.onward
  cases he : clause.isError with
  | true => exact h
  | false =>
    rw [after_openCypher]
    by_cases hl : Legal reached.state clause.kind
    · have hm : ¬ Misplaced history clause := fun hm => (h.misplaced_iff he).1 hm hl
      simpa [hl, hm] using h.extend_standing hl
    · have hm : Misplaced history clause := (h.misplaced_iff he).2 hl
      simpa [hl, hm] using h.extend_reported he hl

theorem foldl (h : Agrees history reached) (clauses : List Clause) :
    Agrees (clauses.foldl Order.extend history)
      (clauses.foldl (Reached.onward openCypher) reached) := by
  induction clauses generalizing history reached with
  | nil => exact h
  | cons clause clauses ih => exact ih (h.extend clause)

/-- The table and the history make the same report on a clause. -/
theorem reportsOn_eq (h : Agrees history reached) (clause : Clause) :
    reportsOn openCypher reached.state clause = misplacedReports history clause := by
  unfold reportsOn misplacedReports
  cases he : clause.isError with
  | true => rfl
  | false =>
    rw [after_openCypher, ← h.state]
    by_cases hl : Legal reached.state clause.kind <;> simp [hl, h.misplaced_iff he]

/-- **The run**: table and history make the same reports along a branch. -/
theorem reportsAlong_eq (h : Agrees history reached) (pairs : List (Clause × List Diagnostic)) :
    reportsAlong openCypher reached pairs = reportsBehind history pairs := by
  induction pairs generalizing history reached with
  | nil => rfl
  | cons pair pairs ih =>
    obtain ⟨clause, inside⟩ := pair
    rw [reportsAlong, reportsBehind, h.reportsOn_eq, ih (h.extend clause)]

end Agrees

/-! ### The end of a branch -/

theorem clause_of_getLast?_extend {history : List Verdict} {clauses : List Clause}
    (h : (readable clauses).getLast? = history.getLast?.map Verdict.clause) (clause : Clause) :
    (readable (clauses ++ [clause])).getLast? =
      (extend history clause).getLast?.map Verdict.clause := by
  unfold extend
  cases he : clause.isError with
  | true => simpa [readable, he] using h
  | false => simp [readable, he]

/-- The last clause of a history is the last one of the branch that is no stand-in. -/
theorem clause_of_getLast?_verdicts (clauses : List Clause) :
    (verdicts clauses).getLast?.map Verdict.clause = (readable clauses).getLast? := by
  induction clauses using List.reverseRecOn with
  | nil => rfl
  | append_singleton clauses clause ih =>
    rw [clause_of_getLast?_extend ih.symm, verdicts, List.foldl_append]
    rfl

theorem exists_concat_of_getLast? {history : List Verdict} {v : Verdict}
    (h : history.getLast? = some v) : ∃ before, history = before ++ [v] :=
  ⟨history.dropLast, (List.dropLast_append_getLast? v h).symm⟩

/-- In a query without unions, the only branch is a procedure call standing alone if the query
is. -/
theorem lone_iff {query : Query} {branch : List Clause} (h : branch ∈ query.branches) :
    (query.unions.isEmpty && isLoneCall branch) = true ↔ StandsAlone query := by
  rw [standsAlone_iff, Bool.and_eq_true, Bool.and_eq_true]
  refine and_congr_right fun hu => ?_
  have hb : branch = query.clauses := by
    rw [QueryOf.branches, List.isEmpty_iff.1 hu] at h
    simpa using h
  rw [hb]

namespace Agrees

variable {history : List Verdict} {reached : Reached} {v : Verdict}

theorem reported_eq (h : Agrees history reached) (hlast : history.getLast? = some v) :
    reached.reported = v.reported :=
  Bool.eq_iff_iff.2 (by simpa [hlast] using h.reported)

theorem isTerminal_iff (h : Agrees history reached) (hlast : history.getLast? = some v)
    (hs : v.Stands) :
    openCypher.isTerminal reached.state = true ↔
      v.clause.kind = .RETURN ∨ v.clause.kind.isUpdating = true := by
  obtain ⟨before, rfl⟩ := exists_concat_of_getLast? hlast
  rw [h.state, standing_concat_of_stands _ _ hs, isTerminal_landing]

end Agrees

/-- **The table and the history make the same report on the end of a branch.** -/
theorem reportsAtEnd_eq (kind : ScopeKind) {query : Query} {branch : List Clause}
    (h : branch ∈ query.branches) :
    reportsAtEnd openCypher kind query.unions.isEmpty
      (branch.foldl (Reached.onward openCypher) .start) branch = endReports kind query branch := by
  have hagrees : Agrees (verdicts branch) _ := agrees_start.foldl branch
  unfold reportsAtEnd endReports
  rw [← clause_of_getLast?_verdicts]
  cases hlast : (verdicts branch).getLast? with
  | none => simp
  | some v =>
    have hdemands : (kind = .statement && !v.reported &&
        !(query.unions.isEmpty && isLoneCall branch)) = true ↔
          kind = .statement ∧ v.Stands ∧ ¬ StandsAlone query := by
      rw [← lone_iff h, Bool.and_eq_true, Bool.and_eq_true, Bool.not_eq_true', Bool.not_eq_true',
        decide_eq_true_iff, Bool.not_eq_true, and_assoc]
    rw [hagrees.reported_eq hlast]
    dsimp only [Option.map_some]
    by_cases hall : kind = .statement ∧ v.Stands ∧ ¬ StandsAlone query
    · obtain ⟨hk, hs, ha⟩ := hall
      rw [if_pos (hdemands.2 ⟨hk, hs, ha⟩)]
      have hterminal := hagrees.isTerminal_iff hlast hs
      by_cases ht : v.clause.kind = .RETURN ∨ v.clause.kind.isUpdating = true
      · rw [if_pos (hterminal.2 ht)]
        exact (if_neg fun hc => ht.elim hc.2.2.1 hc.2.2.2.1).symm
      · obtain ⟨hr, hu⟩ := not_or.1 ht
        rw [if_neg fun hc => ht (hterminal.1 hc)]
        exact (if_pos ⟨hk, hs, hr, hu, ha⟩).symm
    · rw [if_neg fun hc => hall (hdemands.1 hc),
        if_neg fun hc => hall ⟨hc.1, hc.2.1, hc.2.2.2.2⟩]

/-! ### Queries and documents -/

theorem flatMap_attach_val {α β : Type} (f : α → List β) (xs : List α) :
    (xs.attach.flatMap fun x => f x.val) = xs.flatMap f := by
  rw [← List.flatMap_map, List.attach_map_subtype_val]

/-- One level of the reports on a query. -/
theorem reportsByHistory_eq (kind : ScopeKind) (query : Query) :
    reportsByHistory kind query = query.branches.flatMap fun branch =>
      reportsBehind [] (branch.map fun clause =>
        (clause, clause.subqueries.flatMap (reportsByHistory .subquery))) ++
      endReports kind query branch := by
  rw [reportsByHistory, ← flatMap_attach_val _ query.branches]
  simp only [flatMap_attach_val, List.map_attach_eq_pmap, List.pmap_eq_map]

/-- **What the check of a query reports by the table of openCypher is told by its history.** -/
theorem reports_openCypher (kind : ScopeKind) (query : Query) :
    (checkQuery openCypher kind query).reports = reportsByHistory kind query := by
  fun_induction reportsByHistory kind query with
  | case1 kind query ih =>
    rw [← reportsByHistory, reports_checkQuery_eq, reportsByHistory_eq]
    refine List.flatMap_congr fun branch hbranch => ?_
    have hinside : withInside openCypher branch = branch.map fun clause =>
        (clause, clause.subqueries.flatMap (reportsByHistory .subquery)) := by
      refine List.map_congr_left fun clause hclause => ?_
      rw [List.flatMap_congr fun body hbody =>
        ih ⟨branch, hbranch⟩ ⟨clause, hclause⟩ ⟨body, hbody⟩]
    rw [reportsOnBranch, hinside, agrees_start.reportsAlong_eq, reportsAtEnd_eq kind hbranch]

end Cypher.Order

namespace Cypher

/-- **The order of clauses in openCypher, told by history.** Whatever the document, the diagnostics
on the order of clauses are those that the rules on the histories of the branches lay down, in their
order, and nothing else. -/
theorem clauseOrder_openCypher_by_history (document : Document) (scopes : Scopes) :
    Validator.withCode .clauseOrder
        (((Validator.ofDialect .openCypher).check document).run scopes).2.2 =
      document.queries.flatMap (Order.reportsByHistory .statement) := by
  rw [Validator.withCode_clauseOrder]
  exact List.flatMap_congr fun query _ => Order.reports_openCypher .statement query

end Cypher
