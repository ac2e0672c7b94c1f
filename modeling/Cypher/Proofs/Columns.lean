import Cypher.Proofs.Layout.Source
import Cypher.Proofs.Sealed
import Mathlib.Data.List.Basic

/-!
# Unions whose branches hand out different columns

The branches of a union are to hand out the same columns. Two branches *disagree*
(`Cypher.Union.Disagree`) if the columns of both are known and either their numbers differ, or some
position has a name in both and the names differ.

The check compares the first branch with each of the others and reports those that disagree with it
(`Cypher.unionColumnMismatch_by_disagreement`). So a report always means that two branches disagree,
and none is missing as long as the first branch has a name for each of its columns: what agrees with
names throughout has the same names. Where the columns of the first branch are not known, or one of
them has no name, anything goes with it, and two other branches may disagree unnoticed
(`Cypher.disagree_unnoticed`).
-/

namespace Cypher.Union

/-! ### Branches that disagree -/

/-- **The columns of a branch are known** if its last clause is a final projection without a
star. -/
inductive Known : List Clause → List (Option String) → Prop
  | projected (before : List Clause) (projection : Projection Expression) (span : Span)
    (star : projection.star = false) :
    Known (before ++ [.returnColumns projection span])
      (projection.items.map fun item => item.binding?.map Located.value)

/-- **Two lists of columns conflict** if there are more in one than in the other, or if a position
has different names in them. -/
inductive Conflict (a b : List (Option String)) : Prop
  | count (differ : a.length ≠ b.length)
  | name {i : Nat} {x y : String} (left : a[i]? = some (some x)) (right : b[i]? = some (some y))
    (differ : x ≠ y)

/-- **Two branches disagree** if their columns are known and conflict. -/
def Disagree (first second : List Clause) : Prop :=
  ∃ a b, Known first a ∧ Known second b ∧ Conflict a b

/-- **The branches of a query agree**, each with each. -/
def Agree (query : Query) : Prop :=
  query.branches.Pairwise fun first second => ¬ Disagree first second

/-! ### The check decides -/

theorem columns?_of_getLast? {clauses : List Clause} {last : Clause}
    (h : clauses.getLast? = some last) {columns : List (Option String)}
    (hc : columns? clauses = some columns) :
    ∃ projection span, last = .returnColumns projection span ∧ projection.star = false ∧
      columns = projection.items.map fun item => item.binding?.map Located.value := by
  rw [columns?, h] at hc
  cases last with
  | returnColumns projection span =>
    dsimp only at hc
    cases hs : projection.star with
    | true => simp [hs] at hc
    | false => exact ⟨projection, span, rfl, hs, by simpa [hs] using hc.symm⟩
  | _ => cases hc

theorem known_iff {clauses : List Clause} {columns : List (Option String)} :
    Known clauses columns ↔ columns? clauses = some columns := by
  constructor
  · rintro ⟨before, projection, span, star⟩
    simp [columns?, star]
  · intro hc
    cases hlast : clauses.getLast? with
    | none => rw [columns?, hlast] at hc; cases hc
    | some last =>
      obtain ⟨projection, span, rfl, star, rfl⟩ := columns?_of_getLast? hlast hc
      rw [← List.dropLast_append_getLast? _ hlast]
      exact .projected _ projection span star

theorem agree_iff {a b : Option String} :
    agree a b = true ↔ ∀ x y, a = some x → b = some y → x = y := by
  cases a <;> cases b <;> simp [Union.agree]

theorem sameColumns_iff {a b : List (Option String)} : sameColumns a b = true ↔ ¬ Conflict a b := by
  rw [sameColumns, Bool.and_eq_true, beq_iff_eq, List.all_eq_true]
  constructor
  · rintro ⟨hlength, hnames⟩ (differ | @⟨i, x, y, left, right, differ⟩)
    · exact differ hlength
    · have hpair : (a.zip b)[i]? = some (some x, some y) :=
        List.getElem?_zip_eq_some.2 ⟨left, right⟩
      exact differ (agree_iff.1 (hnames _ (List.mem_of_getElem? hpair)) x y rfl rfl)
  · intro h
    refine ⟨by_contra fun differ => h (.count differ), fun pair hmem => ?_⟩
    obtain ⟨i, hi⟩ := List.mem_iff_getElem?.1 hmem
    obtain ⟨left, right⟩ := List.getElem?_zip_eq_some.1 hi
    exact agree_iff.2 fun x y hx hy => by_contra fun differ =>
      h (.name (hx ▸ left) (hy ▸ right) differ)

/-- The test for a disagreement that the check makes. -/
theorem disagree_iff {first second : List Clause} :
    Disagree first second ↔
      ∃ a ∈ columns? first, ∃ b ∈ columns? second, sameColumns a b = false := by
  simp only [Disagree, known_iff, Option.mem_def, ← Bool.not_eq_true, sameColumns_iff, not_not]
  constructor
  · rintro ⟨a, b, ha, hb, h⟩
    exact ⟨a, ha, b, hb, h⟩
  · rintro ⟨a, ha, b, hb, h⟩
    exact ⟨a, b, ha, hb, h⟩

instance (first second : List Clause) : Decidable (Disagree first second) :=
  decidable_of_iff _ disagree_iff.symm

instance (query : Query) : Decidable (Agree query) :=
  inferInstanceAs (Decidable (List.Pairwise ..))

/-! ### The reports -/

theorem withCode_formReports (unions : List (UnionBranch Clause)) :
    Validator.withCode .unionColumnMismatch (formReports unions) = [] := by
  unfold formReports
  cases unions with
  | nil => rfl
  | cons first rest =>
    dsimp only
    cases (first :: rest).find? fun branch => branch.all ≠ first.all <;> rfl

theorem span_mismatch (branch : UnionBranch Clause) (expected found : List (Option String)) :
    (mismatch branch expected found).span = branch.span := rfl

theorem withCode_columnReports (expected : List (Option String)) (branch : UnionBranch Clause) :
    Validator.withCode .unionColumnMismatch (columnReports expected branch) =
      columnReports expected branch := by
  refine Validator.withCode_eq_self fun d hd => ?_
  unfold columnReports at hd
  split at hd
  · cases hd
  · split at hd
    · cases hd
    · rw [List.mem_singleton.1 hd]
      rfl

/-- A branch is reported if it disagrees with the first. -/
theorem spans_columnReports {clauses : List Clause} {expected : List (Option String)}
    (h : columns? clauses = some expected) (branch : UnionBranch Clause) :
    (columnReports expected branch).map Diagnostic.span =
      if Disagree clauses branch.clauses then [branch.span] else [] := by
  unfold columnReports
  cases hb : columns? branch.clauses with
  | none => simp [disagree_iff, hb]
  | some found =>
    cases hs : sameColumns expected found <;> simp [disagree_iff, h, hb, hs, span_mismatch]

/-- The branches of a query that disagree with the first. -/
def disagreeing (query : Query) : List (UnionBranch Clause) :=
  query.unions.filter fun branch => Disagree query.clauses branch.clauses

/-- **The reports on the columns of one query**: one for each branch that disagrees with the
first. -/
theorem spans_queryReports (query : Query) :
    (Validator.withCode .unionColumnMismatch (queryReports query)).map Diagnostic.span =
      (disagreeing query).map UnionBranch.span := by
  rw [queryReports, Validator.withCode_append, withCode_formReports, List.nil_append]
  unfold disagreeing
  cases h : columns? query.clauses with
  | none => simp [disagree_iff, h, Validator.withCode]
  | some expected =>
    dsimp only
    induction query.unions with
    | nil => rfl
    | cons branch unions ih =>
      rw [List.flatMap_cons, Validator.withCode_append, List.map_append, ih,
        withCode_columnReports, spans_columnReports h, List.filter_cons]
      by_cases hd : Disagree query.clauses branch.clauses <;> simp [hd]

/-- What the validator of a dialect reports on the columns of unions. -/
theorem withCode_unionColumnMismatch (dialect : Dialect) (document : Document) (scopes : Scopes) :
    Validator.withCode .unionColumnMismatch
        (((Validator.ofDialect dialect).check document).run scopes).2.2 =
      (document.nodes.filterMap Node.query?).flatMap fun query =>
        Validator.withCode .unionColumnMismatch (queryReports query) := by
  have horder : Validator.withCode .unionColumnMismatch (document.queries.flatMap fun query =>
      (Order.checkQuery dialect.rules.ordering .statement query).reports) = [] :=
    Validator.withCode_eq_nil
      (fun _ hd => ⟨_, List.mem_singleton_self _, Validator.code_of_mem_order hd⟩) (by decide)
  have haliases : Validator.withCode .unionColumnMismatch (document.queries.flatMap fun query =>
      (Alias.checkQuery .statement query).reports) = [] :=
    Validator.withCode_eq_nil
      (fun _ hd => ⟨_, List.mem_singleton_self _, Validator.code_of_mem_aliases hd⟩) (by decide)
  rw [Validator.run_ofDialect]
  simp only [Validator.withCode_append]
  rw [horder, haliases, Validator.withCode_deprecations _ _ (by decide), List.nil_append,
    List.nil_append, List.append_nil, reports, Validator.withCode, List.filter_flatMap]
  rfl

/-! ### Reports and disagreement -/

/-- **Agreeing with names throughout is agreeing with each other.** -/
theorem Conflict.of_named {expected a b : List (Option String)} (hnamed : none ∉ expected)
    (h : Conflict a b) : Conflict expected a ∨ Conflict expected b := by
  by_contra hnot
  obtain ⟨ha, hb⟩ := not_or.1 hnot
  have hcount {c : List (Option String)} (hc : ¬ Conflict expected c) :
      expected.length = c.length := by_contra fun differ => hc (.count differ)
  rcases h with differ | @⟨i, x, y, left, right, differ⟩
  · exact differ ((hcount ha).symm.trans (hcount hb))
  · obtain ⟨hi, -⟩ := List.getElem?_eq_some_iff.1 left
    rw [← hcount ha] at hi
    obtain ⟨z, hz⟩ : ∃ z, expected[i]? = some (some z) := by
      cases hz : expected[i] with
      | none => exact absurd (hz ▸ List.getElem_mem hi) hnamed
      | some z => exact ⟨z, by rw [List.getElem?_eq_getElem hi, hz]⟩
    have hxz : z = x := by_contra fun differ => ha (.name hz left differ)
    have hyz : z = y := by_contra fun differ => hb (.name hz right differ)
    exact differ (hxz.symm.trans hyz)

/-- The columns of a query are reported on. -/
def Reported (query : Query) : Prop :=
  ∃ d ∈ queryReports query, d.code = some .unionColumnMismatch

instance (query : Query) : Decidable (Reported query) :=
  inferInstanceAs (Decidable (∃ d ∈ queryReports query, d.code = some .unionColumnMismatch))

theorem reported_iff {query : Query} :
    Reported query ↔ ∃ branch ∈ query.unions, Disagree query.clauses branch.clauses := by
  calc
    Reported query ↔ Validator.withCode .unionColumnMismatch (queryReports query) ≠ [] := by
      simp [Reported, Validator.withCode]
    _ ↔ disagreeing query ≠ [] := by
      rw [Ne, ← List.map_eq_nil_iff (f := Diagnostic.span), spans_queryReports, List.map_eq_nil_iff]
    _ ↔ _ := by simp [disagreeing]

/-- A report is made only if two branches disagree. -/
theorem not_agree_of_reported {query : Query} (h : Reported query) : ¬ Agree query := by
  obtain ⟨branch, hbranch, hd⟩ := reported_iff.1 h
  exact fun hagree => List.rel_of_pairwise_cons hagree (List.mem_map_of_mem hbranch) hd

/-- Each column of the first branch is known by a name. -/
def FirstNamed (query : Query) : Prop := ∃ columns, Known query.clauses columns ∧ none ∉ columns

instance (query : Query) : Decidable (FirstNamed query) :=
  decidable_of_iff (∃ columns ∈ columns? query.clauses, none ∉ columns) <| by
    simp only [FirstNamed, known_iff, Option.mem_def]

/-- **If the first branch names all its columns**, a report is made whenever two branches
disagree. -/
theorem FirstNamed.reported {query : Query} (hfirst : FirstNamed query) (h : ¬ Agree query) :
    Reported query := by
  obtain ⟨columns, hknown, hnamed⟩ := hfirst
  by_contra hreport
  have hquiet : ∀ clauses ∈ query.unions.map UnionBranch.clauses,
      ¬ Disagree query.clauses clauses := by
    intro clauses hmem hd
    obtain ⟨branch, hbranch, rfl⟩ := List.mem_map.1 hmem
    exact hreport (reported_iff.2 ⟨branch, hbranch, hd⟩)
  refine h (List.pairwise_cons.2 ⟨hquiet, List.pairwise_of_forall_mem_list ?_⟩)
  rintro first hfirst second hsecond ⟨a, b, ha, hb, hc⟩
  rcases hc.of_named hnamed with hc | hc
  · exact hquiet first hfirst ⟨columns, a, hknown, ha, hc⟩
  · exact hquiet second hsecond ⟨columns, b, hknown, hb, hc⟩

end Cypher.Union

namespace Cypher

/-- **The columns of unions.** Whatever the document, the diagnostics on columns are, query by
query, one for each branch that disagrees with the first. For a query one is made only if two of its
branches disagree, and if its first branch names all its columns, one is made exactly then. -/
theorem unionColumnMismatch_by_disagreement (dialect : Dialect) (document : Document)
    (scopes : Scopes) :
    (Validator.withCode .unionColumnMismatch
        (((Validator.ofDialect dialect).check document).run scopes).2.2).map Diagnostic.span =
      (document.nodes.filterMap Node.query?).flatMap
        (fun query => (Union.disagreeing query).map UnionBranch.span) ∧
    ∀ query, (Union.Reported query → ¬ Union.Agree query) ∧
      (Union.FirstNamed query → (Union.Reported query ↔ ¬ Union.Agree query)) := by
  refine ⟨?_, fun query => ⟨Union.not_agree_of_reported, fun hfirst =>
    ⟨Union.not_agree_of_reported, hfirst.reported⟩⟩⟩
  rw [Union.withCode_unionColumnMismatch, List.map_flatMap]
  simp only [Union.spans_queryReports]

/-- Behind a first branch that names its column, a disagreement with it is noticed. -/
theorem unionColumnMismatch_by_disagreement_named :
    ∃ document,
      (parse "RETURN 1 AS a UNION RETURN 2 UNION RETURN 3 AS b" .standard).document =
        some document ∧
      ∃ query ∈ document.queries,
        Union.FirstNamed query ∧ ¬ Union.Agree query ∧ Union.Reported query := by
  obtain ⟨document, hparse, query, hmem, hq⟩ := exists_query_of_any
    "RETURN 1 AS a UNION RETURN 2 UNION RETURN 3 AS b" .standard
    (fun query => decide (Union.FirstNamed query ∧ ¬ Union.Agree query))
    (by decide +kernel)
  obtain ⟨hfirst, hagree⟩ := of_decide_eq_true hq
  exact ⟨document, hparse, query, hmem, hfirst, hagree,
    (((unionColumnMismatch_by_disagreement .openCypher document ⟨[]⟩).2 query).2 hfirst).2 hagree⟩

/-- Behind a first branch with a star, two branches may disagree unnoticed. -/
theorem disagree_unnoticed :
    ∃ document,
      (parse "MATCH (n) RETURN * UNION RETURN 1 AS a UNION RETURN 2 AS b" .standard).document =
        some document ∧
      ∃ query ∈ document.queries, ¬ Union.Agree query ∧ ¬ Union.Reported query := by
  obtain ⟨document, hparse, query, hmem, hq⟩ := exists_query_of_any
    "MATCH (n) RETURN * UNION RETURN 1 AS a UNION RETURN 2 AS b" .standard
    (fun query => decide (¬ Union.Agree query ∧ ¬ Union.Reported query))
    (by decide +kernel)
  exact ⟨document, hparse, query, hmem, of_decide_eq_true hq⟩

end Cypher
