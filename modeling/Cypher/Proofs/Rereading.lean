import Cypher.Proofs.History
import Cypher.Proofs.Layout.Source
import Cypher.Proofs.Seclusion

/-!
# Reading behind an update

What a query has changed it may read only behind a new projection. A branch is gone through state by
state, and the state tells only where the last clause that stands has led to; whether an update
comes before it, with nothing in between that makes the data readable again, is a question about the
whole branch so far.

## The rule

Behind a *fence* that stands (`Cypher.Dialect.fences`) the update no longer counts: behind `WITH`,
and in Neo4j 5 also behind `CALL`, which may follow an update there and leads to a state of its own.
A pattern or a list to read is reported

* behind a final projection that stands, and
* if an update that stands lies behind the last fence that stands

and in no other place (`Cypher.Order.reading_reported_iff`). What has become of the clauses so far
is read off the reports themselves (`Cypher.Order.outcomes`), so that the rule is about nothing but
the clauses and the reports on them.

In Neo4j 5 a call therefore makes an update forgotten, whatever it is a call of: behind it patterns
are read again without `WITH` (`Cypher.Order.reading_not_reported_behind_call`).
-/

namespace Cypher

/-- **The clauses behind which an update no longer counts.** -/
def Dialect.fences : Dialect → List ClauseKind
  | .openCypher => [.WITH]
  | .neo4j5 => [.WITH, .CALL]

namespace Order

/-! ### What became of the clauses of a branch -/

/-- **What became of the clauses of a branch** that has come so far: of each that is no stand-in,
whether there is a report on it. -/
def outcomesFrom (table : OrderingTable) : Reached → List Clause → List Verdict
  | _, [] => []
  | reached, clause :: rest =>
    (if clause.isError then [] else [⟨clause, !(reportsOn table reached.state clause).isEmpty⟩]) ++
      outcomesFrom table (reached.onward table clause) rest

/-- How far some clauses lead. -/
def behind (table : OrderingTable) (clauses : List Clause) : Reached :=
  clauses.foldl (Reached.onward table) .start

/-- **What became of the clauses of a branch**, from its start. -/
def outcomes (table : OrderingTable) (clauses : List Clause) : List Verdict :=
  outcomesFrom table .start clauses

/-- The part of a history behind the last fence that stands. -/
def sinceFence (dialect : Dialect) (history : List Verdict) : List Verdict :=
  history.rtakeWhile fun v => !decide (v.Stands ∧ v.clause.kind ∈ dialect.fences)

/-- **A place where nothing may be read**: behind a final projection that stands, or with an update
that stands behind the last fence that stands. -/
def Unreadable (dialect : Dialect) (history : List Verdict) : Prop :=
  (∃ v ∈ history, v.Stands ∧ v.clause.kind = .RETURN) ∨
  ∃ v ∈ sinceFence dialect history, v.Stands ∧ v.clause.kind.isUpdating = true

instance (dialect : Dialect) (history : List Verdict) : Decidable (Unreadable dialect history) :=
  inferInstanceAs (Decidable (_ ∨ _))

variable {table : OrderingTable} {dialect : Dialect}

theorem outcomesFrom_concat (reached : Reached) (clauses : List Clause) (clause : Clause) :
    outcomesFrom table reached (clauses ++ [clause]) =
      outcomesFrom table reached clauses ++
        outcomesFrom table (clauses.foldl (Reached.onward table) reached) [clause] := by
  induction clauses generalizing reached with
  | nil => rfl
  | cons first clauses ih =>
    rw [List.cons_append, outcomesFrom, ih, ← List.append_assoc]
    rfl

theorem behind_concat (clauses : List Clause) (clause : Clause) :
    behind table (clauses ++ [clause]) = (behind table clauses).onward table clause := by
  rw [behind, List.foldl_append]
  rfl

/-! ### The tables -/

/-- Whether a dialect lets a kind of clause follow in a state: a call is a matter of the dialect. -/
def Allowed (dialect : Dialect) (state : OrderState) (kind : ClauseKind) : Prop :=
  Legal state kind ∨ (kind = .CALL ∧ .CALL ∈ dialect.fences ∧ state ≠ .returned)

instance (dialect : Dialect) (state : OrderState) (kind : ClauseKind) :
    Decidable (Allowed dialect state kind) :=
  inferInstanceAs (Decidable (_ ∨ _))

/-- The table of a dialect, in closed form. -/
theorem after_eq (dialect : Dialect) (state : OrderState) (kind : ClauseKind) (yields : Bool) :
    dialect.rules.ordering.after state kind yields =
      if Allowed dialect state kind then some (landing kind yields) else none := by
  cases dialect <;> cases kind <;> cases state <;> cases yields <;> rfl

theorem not_allowed_returned {kind : ClauseKind} : ¬ Allowed dialect .returned kind := by
  rintro (h | ⟨-, -, h⟩)
  · exact not_legal_returned h
  · exact h rfl

theorem allowed_reading_iff {kind : ClauseKind} (hk : kind = .MATCH ∨ kind = .UNWIND)
    {state : OrderState} :
    Allowed dialect state kind ↔ state ≠ .returned ∧ state ≠ .updating := by
  rcases hk with rfl | rfl <;> simp [Allowed, Legal]

/-- Behind an update, what is allowed leads to the same state again, unless it is a fence or the
final projection. -/
theorem landing_of_allowed_updating {kind : ClauseKind} (yields : Bool)
    (h : Allowed dialect .updating kind) (hf : kind ∉ dialect.fences) (hr : kind ≠ .RETURN) :
    landing kind yields = .updating := by
  rcases h with h | ⟨rfl, h, -⟩
  · refine landing_of_legal_updating yields h ?_ hr
    rintro rfl
    cases dialect <;> exact hf (by decide)
  · exact absurd h hf

theorem isUpdating_of_mem_fences {kind : ClauseKind} (h : kind ∈ dialect.fences) :
    kind.isUpdating = false := by
  cases dialect <;> cases kind <;> simp_all [Dialect.fences, ClauseKind.isUpdating]

/-! ### The invariant -/

/-- **The table tells whether something may be read** behind a history. -/
structure Recalls (dialect : Dialect) (history : List Verdict) (state : OrderState) : Prop where
  /-- The state is the last one behind a final projection that stands. -/
  returned : state = .returned ↔ ∃ v ∈ history, v.Stands ∧ v.clause.kind = .RETURN
  /-- It is that of an update if there is one that stands behind the last fence that stands. -/
  updating (h : state ≠ .returned) : state = .updating ↔
    ∃ v ∈ sinceFence dialect history, v.Stands ∧ v.clause.kind.isUpdating = true

theorem sinceFence_concat_of_fence {history : List Verdict} {v : Verdict} (hs : v.Stands)
    (hf : v.clause.kind ∈ dialect.fences) : sinceFence dialect (history ++ [v]) = [] :=
  List.rtakeWhile_concat_neg _ _ _ (by simp [hs, hf])

theorem sinceFence_concat {history : List Verdict} {v : Verdict}
    (h : ¬ (v.Stands ∧ v.clause.kind ∈ dialect.fences)) :
    sinceFence dialect (history ++ [v]) = sinceFence dialect history ++ [v] :=
  List.rtakeWhile_concat_pos _ _ _ (by simp only [h, decide_false, Bool.not_false])

theorem recalls_start : Recalls dialect [] .start where
  returned := by simp
  updating _ := by simp [sinceFence]

namespace Recalls

variable {history : List Verdict} {state : OrderState} {clause : Clause}

/-- A clause that is not allowed leaves the state as it was. -/
theorem extend_reported (h : Recalls dialect history state) :
    Recalls dialect (history ++ [⟨clause, true⟩]) state := by
  have hs : ¬ Verdict.Stands ⟨clause, true⟩ := by simp [Verdict.Stands]
  refine ⟨?_, fun hr => ?_⟩
  · rw [h.returned, exists_mem_concat]
    simp [hs]
  · rw [sinceFence_concat fun h => hs h.1, exists_mem_concat, h.updating hr]
    simp [hs]

/-- A clause that is allowed leads to its own state. -/
theorem extend_standing (h : Recalls dialect history state)
    (hl : Allowed dialect state clause.kind) :
    Recalls dialect (history ++ [⟨clause, false⟩]) (landing clause.kind clause.yields) := by
  have hnr : state ≠ .returned := by
    rintro rfl
    exact not_allowed_returned hl
  refine ⟨?_, fun hr => ?_⟩
  · rw [landing_eq_returned_iff, exists_mem_concat, ← h.returned]
    simp [hnr]
  · rw [landing_eq_updating_iff]
    by_cases hf : clause.kind ∈ dialect.fences
    · rw [sinceFence_concat_of_fence rfl hf, isUpdating_of_mem_fences hf]
      simp
    · rw [sinceFence_concat (by simp [hf]), exists_mem_concat, ← h.updating hnr]
      constructor
      · exact fun hu => Or.inr ⟨rfl, hu⟩
      · rintro (rfl | ⟨-, hu⟩)
        · -- the update is still the last thing that counts
          have hret : clause.kind ≠ .RETURN := fun hk => hr (by simp [landing, hk])
          exact (landing_eq_updating_iff _ _).1
            (landing_of_allowed_updating clause.yields hl hf hret)
        · exact hu

/-- Something may be read in a state exactly if the history allows it. -/
theorem unreadable_iff (h : Recalls dialect history state) :
    Unreadable dialect history ↔ state = .returned ∨ state = .updating := by
  unfold Unreadable
  rw [← h.returned]
  by_cases hr : state = .returned
  · simp [hr]
  · rw [← h.updating hr]

end Recalls

/-- There is a report on a clause in a state exactly if it is not allowed there. -/
theorem reportsOn_eq_ite (state : OrderState) {clause : Clause} (he : clause.isError = false) :
    reportsOn dialect.rules.ordering state clause =
      if Allowed dialect state clause.kind then [] else [misplaced clause state] := by
  rw [reportsOn, he, after_eq]
  by_cases hl : Allowed dialect state clause.kind <;> simp [hl]

/-- **The step**: one more clause. -/
theorem Recalls.onward {history : List Verdict} {reached : Reached}
    (h : Recalls dialect history reached.state) (clause : Clause) :
    Recalls dialect (history ++ outcomesFrom dialect.rules.ordering reached [clause])
      (reached.onward dialect.rules.ordering clause).state := by
  unfold outcomesFrom outcomesFrom Reached.onward
  cases he : clause.isError with
  | true => simpa using h
  | false =>
    rw [reportsOn_eq_ite _ he, after_eq]
    by_cases hl : Allowed dialect reached.state clause.kind
    · simpa [hl] using h.extend_standing hl
    · simpa [hl] using h.extend_reported

/-- **The run**: table and history agree behind any clauses. -/
theorem recalls_outcomes (dialect : Dialect) (clauses : List Clause) :
    Recalls dialect (outcomes dialect.rules.ordering clauses)
      (behind dialect.rules.ordering clauses).state := by
  induction clauses using List.reverseRecOn with
  | nil => exact recalls_start
  | append_singleton clauses clause ih =>
    rw [behind_concat, outcomes, outcomesFrom_concat]
    exact ih.onward clause

/-! ### Reading clauses -/

/-- What is reported on a branch behind the report on one of its clauses. -/
def reportsPast (table : OrderingTable) (kind : ScopeKind) (lone : Bool) (before : List Clause)
    (clause : Clause) (after : List Clause) : List Diagnostic :=
  (clause.subqueries.flatMap fun body => (checkQuery table .subquery body).reports) ++
    (reportsAlong table ((behind table before).onward table clause) (withInside table after) ++
      reportsAtEnd table kind lone (behind table (before ++ clause :: after))
        (before ++ clause :: after))

/-- A reading clause is reported exactly where nothing may be read. -/
theorem reportsOn_reading (dialect : Dialect) (before : List Clause) {clause : Clause}
    (hk : clause.kind = .MATCH ∨ clause.kind = .UNWIND) :
    reportsOn dialect.rules.ordering (behind dialect.rules.ordering before).state clause =
      if Unreadable dialect (outcomes dialect.rules.ordering before) then
        [misplaced clause (behind dialect.rules.ordering before).state]
      else [] := by
  have he : clause.isError = false := by
    cases clause <;> first | rfl | simp [ClauseOf.kind] at hk
  have hallowed : Allowed dialect (behind dialect.rules.ordering before).state clause.kind ↔
      ¬ Unreadable dialect (outcomes dialect.rules.ordering before) := by
    rw [allowed_reading_iff hk, (recalls_outcomes dialect before).unreadable_iff, not_or]
  rw [reportsOn_eq_ite _ he]
  by_cases hu : Unreadable dialect (outcomes dialect.rules.ordering before)
  · rw [if_pos hu, if_neg fun h => hallowed.1 h hu]
  · rw [if_neg hu, if_pos (hallowed.2 hu)]

/-- **Reading behind an update.** In a sequence of clauses, a pattern or a list to read is reported
exactly if it is behind a final projection that stands, or if an update that stands lies behind the
last fence that stands. -/
theorem reading_reported_iff (dialect : Dialect) (kind : ScopeKind) (lone : Bool)
    (before : List Clause) (clause : Clause) (after : List Clause)
    (hk : clause.kind = .MATCH ∨ clause.kind = .UNWIND) :
    reportsOnBranch dialect.rules.ordering kind lone (before ++ clause :: after) =
      reportsAlong dialect.rules.ordering .start (withInside dialect.rules.ordering before) ++
      ((if Unreadable dialect (outcomes dialect.rules.ordering before) then
          [misplaced clause (behind dialect.rules.ordering before).state] else []) ++
        reportsPast dialect.rules.ordering kind lone before clause after) := by
  rw [← reportsOn_reading dialect before hk, reportsOnBranch_eq]
  simp only [reportsPast, behind, List.append_assoc]

/-- A pattern right behind an update is a case in point. -/
theorem reading_reported_iff_create :
    (ClauseOf.matchPattern false ⟨[], ⟨11, 20⟩⟩ ⟨11, 20⟩ : Clause).kind = .MATCH ∧
      reportsOnBranch Dialect.neo4j5.rules.ordering .subquery false
          [.createPattern ⟨[], ⟨0, 10⟩⟩ ⟨0, 10⟩, .matchPattern false ⟨[], ⟨11, 20⟩⟩ ⟨11, 20⟩] =
        [misplaced (.matchPattern false ⟨[], ⟨11, 20⟩⟩ ⟨11, 20⟩) .updating] := by
  refine ⟨rfl, ?_⟩
  have h := reading_reported_iff .neo4j5 .subquery false [.createPattern ⟨[], ⟨0, 10⟩⟩ ⟨0, 10⟩]
    (.matchPattern false ⟨[], ⟨11, 20⟩⟩ ⟨11, 20⟩) [] (Or.inl rfl)
  rw [if_pos (by decide)] at h
  exact h.trans (by decide +kernel)

/-- **The clause at some place reads behind an update**: an update that stands lies behind the last
`WITH` that stands in front of it. -/
def ReadsUpdated (table : OrderingTable) (clauses : List Clause) (i : Nat) : Prop :=
  ∃ clause ∈ clauses[i]?, (clause.kind = .MATCH ∨ clause.kind = .UNWIND) ∧
    ∃ v ∈ sinceWith (outcomes table (clauses.take i)), v.Stands ∧ v.clause.kind.isUpdating = true

instance (table : OrderingTable) (clauses : List Clause) (i : Nat) :
    Decidable (ReadsUpdated table clauses i) :=
  inferInstanceAs (Decidable (∃ clause ∈ clauses[i]?, _))

/-- Behind the call of a procedure, a pattern is read without `WITH` in spite of an update. -/
theorem reading_not_reported_behind_call :
    (parse "CREATE (n) CALL db.labels() YIELD label MATCH (m) RETURN m"
        (Options.standard.withDialect .neo4j5)).diagnostics = [] ∧
      ∃ document,
        (parse "CREATE (n) CALL db.labels() YIELD label MATCH (m) RETURN m"
          (Options.standard.withDialect .neo4j5)).document = some document ∧
        ∃ query ∈ document.queries,
          ReadsUpdated Dialect.neo4j5.rules.ordering query.clauses 2 := by
  refine ⟨by decide +kernel, ?_⟩
  obtain ⟨document, hparse, query, hmem, hq⟩ := exists_query_of_any
    "CREATE (n) CALL db.labels() YIELD label MATCH (m) RETURN m"
    (Options.standard.withDialect .neo4j5)
    (fun query => decide (ReadsUpdated Dialect.neo4j5.rules.ordering query.clauses 2))
    (by decide +kernel)
  exact ⟨document, hparse, query, hmem, of_decide_eq_true hq⟩

end Order

end Cypher
