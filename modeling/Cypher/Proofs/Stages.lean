import Cypher.Check.Validator
import Cypher.Proofs.Run
import Cypher.Token.Lexer

/-!
# The stages of diagnostics

The code of a diagnostic tells the stage that found it. The lexer reports lexical codes only
(`Cypher.Piece.isErrorOf_of_mem_allProblems`), a run of the grammar grammatical codes only
(`Cypher.Grammar.isErrorOf_of_mem_problems`), and a validator semantic codes only
(`Cypher.Validator.reports_check`). All of these are errors but for the advice against old forms
(`Cypher.Validator.reports_errors`).
-/

namespace Cypher

/-- **An error that a stage reports.** -/
def Diagnostic.IsErrorOf (family : Family) (d : Diagnostic) : Prop :=
  d.family? = some family ∧ d.isError = true

/-- **An error with one of some codes.** -/
def Diagnostic.IsErrorAmong (codes : List Code) (d : Diagnostic) : Prop :=
  (∃ code ∈ codes, d.code = some code) ∧ d.isError = true

theorem Diagnostic.IsErrorAmong.isErrorOf {codes : List Code} {family : Family} {d : Diagnostic}
    (h : d.IsErrorAmong codes) (hf : ∀ code ∈ codes, code.family = family) :
    d.IsErrorOf family := by
  obtain ⟨⟨code, hmem, hcode⟩, herror⟩ := h
  refine ⟨?_, herror⟩
  rw [Diagnostic.family?, hcode, Option.map_some, hf code hmem]

/-- Errors are none if there is no error among them. -/
theorem Diagnostic.eq_nil_of_errors {family : Family} {ds : List Diagnostic}
    (hd : ∀ d ∈ ds, d.IsErrorOf family) (h : ds.any isError = false) : ds = [] := by
  refine List.eq_nil_iff_forall_not_mem.2 fun d hmem => ?_
  exact List.any_eq_false.1 h d hmem (hd d hmem).2

/-! ### The lexer -/

namespace Piece

theorem isErrorOf_of_mem_problems {p : Place} {x : Piece} {d : Diagnostic}
    (h : d ∈ x.problems p) : d.IsErrorOf .lexical := by
  unfold problems stringProblems at h
  split at h
  · rw [List.mem_singleton.1 h]
    exact ⟨rfl, rfl⟩
  · rw [List.mem_singleton.1 h]
    exact ⟨rfl, rfl⟩
  · rcases List.mem_append.1 h with h | h
    · obtain ⟨u, -, rfl⟩ := List.mem_map.1 h
      exact ⟨rfl, rfl⟩
    · split at h
      · cases h
      · rw [List.mem_singleton.1 h]
        exact ⟨rfl, rfl⟩
  · rw [List.mem_singleton.1 h]
    exact ⟨rfl, rfl⟩
  · rw [List.mem_singleton.1 h]
    exact ⟨rfl, rfl⟩
  · cases h

/-- **The problems of a text are lexical errors.** -/
theorem isErrorOf_of_mem_allProblems {p : Place} {xs : List Piece} {d : Diagnostic}
    (h : d ∈ allProblems p xs) : d.IsErrorOf .lexical := by
  induction xs generalizing p with
  | nil => cases h
  | cons x xs ih =>
    rcases List.mem_append.1 h with h | h
    · exact isErrorOf_of_mem_problems h
    · exact ih h

end Piece

/-! ### The grammar -/

/-- Every cause of a failure of the grammar is a grammatical error. -/
theorem Problem.isErrorOf_diagnostic (dialect : Dialect) (limit : Nat) (token : Token)
    (problem : Problem) :
    (problem.diagnostic dialect limit token).IsErrorOf .grammatical := by
  cases problem with
  | expected what =>
    simp only [diagnostic, expectedAt]
    split <;> exact ⟨rfl, rfl⟩
  | unexpected message =>
    refine ⟨?_, rfl⟩
    simp only [diagnostic, unexpectedAt, Diagnostic.family?, Diagnostic.code_coded]
    split <;> rfl
  | _ => exact ⟨rfl, rfl⟩

/-- What a run of the grammar adds to the problems are grammatical errors. -/
theorem upkeep_errors (setting : Setting) :
    Upkeep setting (Diagnostic.IsErrorOf .grammatical)
      fun s t => ∀ d ∈ t.problems, d ∈ s.problems ∨ d.IsErrorOf .grammatical where
  refl _ _ hd := Or.inl hd
  trans hst htu d hd := (htu d hd).elim (hst d) Or.inr
  diagnostic s problem := problem.isErrorOf_diagnostic ..
  note s d hd e he := by
    rcases List.mem_append.1 he with he | he
    · exact Or.inl he
    · rw [List.mem_singleton.1 he]
      exact Or.inr hd
  advance _ _ hd := Or.inl hd
  resume _ _ hd := Or.inl hd
  record _ _ _ hd := Or.inl hd
  inScope _ h := h
  deeper h := h

/-- **The problems of the grammar are grammatical errors.** -/
theorem Grammar.isErrorOf_of_mem_problems {setting : Setting} {tokens : List Token}
    {d : Diagnostic} (h : d ∈ (Grammar.read setting tokens).problems) :
    d.IsErrorOf .grammatical := by
  have hr := Grammar.upkeep_start (upkeep_errors setting) Grammar.document (.start tokens)
  unfold Grammar.read at h
  cases ho : Grammar.start setting Grammar.document (.start tokens) with
  | done document t =>
    rw [ho] at h hr
    exact (hr d h).resolve_left (by simp [State.start])
  | failed e t =>
    rw [ho] at h hr
    rcases List.mem_append.1 h with h | h
    · exact (hr.2 d h).resolve_left (by simp [State.start])
    · rw [List.mem_singleton.1 h]
      exact hr.1

theorem Grammar.family_of_mem_problems {setting : Setting} {tokens : List Token} {d : Diagnostic}
    (h : d ∈ (Grammar.read setting tokens).problems) : d.family? = some .grammatical :=
  (Grammar.isErrorOf_of_mem_problems h).1

/-! ### Checks -/

/-- A check that only makes reports with a property. -/
def Check.Reports (holds : Diagnostic → Prop) {α : Type} (check : Check α) : Prop :=
  ∀ scopes, ∀ d ∈ (check.run scopes).2.2, holds d

namespace Check

variable {holds : Diagnostic → Prop} {α β : Type}

theorem Reports.mono {other : Diagnostic → Prop} {check : Check α} (h : Reports holds check)
    (ho : ∀ d, holds d → other d) : Reports other check :=
  fun scopes d hd => ho d (h scopes d hd)

theorem reports_pure (a : α) : Reports holds (pure a : Check α) := by
  intro scopes d hd
  cases hd

theorem Reports.bind {check : Check α} {next : α → Check β} (h : Reports holds check)
    (hn : ∀ a, Reports holds (next a)) : Reports holds (check >>= next) := by
  intro scopes d hd
  rcases List.mem_append.1 hd with hd | hd
  · exact h scopes d hd
  · exact hn _ _ d hd

theorem reports_report {d : Diagnostic} (h : holds d) : Reports holds (report d) := by
  intro scopes e he
  rw [List.mem_singleton.1 he]
  exact h

theorem reports_reportAll {ds : List Diagnostic} (h : ∀ d ∈ ds, holds d) :
    Reports holds (reportAll ds) :=
  fun _ => h

theorem reports_modify (f : Scopes → Scopes) : Reports holds (modify f) := by
  intro scopes d hd
  cases hd

theorem reports_scopes : Reports holds scopes := by
  intro scopes d hd
  cases hd

theorem Reports.inScope {check : Check α} (h : Reports holds check) (kind : ScopeKind) :
    Reports holds (inScope kind check) :=
  fun scopes => h (scopes.push kind)

theorem reports_each {check : α → Check Unit} {xs : List α}
    (h : ∀ x ∈ xs, Reports holds (check x)) : Reports holds (each check xs) := by
  induction xs with
  | nil => exact reports_pure ()
  | cons x xs ih =>
    exact (h x (List.mem_cons_self ..)).bind fun _ =>
      ih fun y hy => h y (List.mem_cons_of_mem x hy)

theorem reports_eachFrom {check : β → α → Check β} {xs : List α}
    (h : ∀ b, ∀ x ∈ xs, Reports holds (check b x)) (b : β) :
    Reports holds (eachFrom check b xs) := by
  induction xs generalizing b with
  | nil => exact reports_pure b
  | cons x xs ih =>
    exact (h b x (List.mem_cons_self ..)).bind fun b =>
      ih (fun b y hy => h b y (List.mem_cons_of_mem x hy)) b

end Check

/-- What a check of a finished tree may report. -/
abbrev Diagnostic.IsSemantic (d : Diagnostic) : Prop := d.family? = some .semantic

namespace Order

theorem isError_misplaced (clause : Clause) (state : OrderState) :
    (misplaced clause state).IsErrorAmong [.clauseOrder] := by
  simp only [misplaced]
  split <;> exact ⟨⟨_, List.mem_singleton_self _, rfl⟩, rfl⟩

theorem isError_unfinished (last : Clause) : (unfinished last).IsErrorAmong [.clauseOrder] :=
  ⟨⟨_, List.mem_singleton_self _, rfl⟩, rfl⟩

theorem reports_checkClause (table : OrderingTable) (reported : Bool) (clause : Clause) :
    (checkClause table reported clause).Reports (Diagnostic.IsErrorAmong [.clauseOrder]) := by
  refine (Check.reports_modify _).bind fun _ => ?_
  split
  · exact Check.reports_pure _
  · refine Check.reports_scopes.bind fun scopes => ?_
    dsimp only
    split
    · exact (Check.reports_modify _).bind fun _ => Check.reports_pure _
    · exact (Check.reports_report (isError_misplaced ..)).bind fun _ => Check.reports_pure _

theorem reports_checkBranchEnd (table : OrderingTable) (kind : ScopeKind) (lone reported : Bool)
    (clauses : List Clause) :
    (checkBranchEnd table kind lone reported clauses).Reports
      (Diagnostic.IsErrorAmong [.clauseOrder]) := by
  unfold checkBranchEnd checkEnd
  split
  · split
    · exact Check.reports_pure _
    · refine Check.reports_scopes.bind fun scopes => ?_
      split
      · exact Check.reports_pure _
      · exact Check.reports_report (isError_unfinished _)
  · exact Check.reports_pure _

theorem reports_checkQuery (table : OrderingTable) (kind : ScopeKind) (query : Query) :
    (checkQuery table kind query).Reports (Diagnostic.IsErrorAmong [.clauseOrder]) := by
  fun_induction checkQuery table kind query with
  | case1 kind query ih =>
    refine Check.reports_each fun branch _ => Check.Reports.inScope ?_ kind
    refine (Check.reports_eachFrom (fun reported clause _ => ?_) false).bind fun reported =>
      reports_checkBranchEnd _ _ _ _ _
    refine (reports_checkClause _ _ _).bind fun reported => ?_
    exact (Check.reports_each fun body _ => ih branch clause body).bind fun _ =>
      Check.reports_pure _

end Order

namespace Alias

theorem isError_of_mem_duplicatesAfter {seen xs : List Ident} {d : Diagnostic}
    (h : d ∈ duplicatesAfter seen xs) : d.IsErrorAmong [.aliasConflict] := by
  induction xs generalizing seen with
  | nil => cases h
  | cons x xs ih =>
    rw [duplicatesAfter] at h
    split at h
    · rcases List.mem_cons.1 h with rfl | h
      · exact ⟨⟨_, List.mem_singleton_self _, rfl⟩, rfl⟩
      · exact ih h
    · exact ih h

theorem reports_project (projection : Projection Expression) :
    (project projection).Reports (Diagnostic.IsErrorAmong [.aliasConflict]) :=
  Check.reports_scopes.bind fun _ =>
    (Check.reports_reportAll fun _ => isError_of_mem_duplicatesAfter).bind fun _ =>
      Check.reports_modify _

theorem reports_bindClause (clause : Clause) :
    (bindClause clause).Reports (Diagnostic.IsErrorAmong [.aliasConflict]) := by
  unfold bindClause
  split
  · exact reports_project _
  · exact reports_project _
  · exact Check.reports_modify _

theorem reports_checkQuery (kind : ScopeKind) (query : Query) :
    (checkQuery kind query).Reports (Diagnostic.IsErrorAmong [.aliasConflict]) := by
  fun_induction checkQuery kind query with
  | case1 kind query ih =>
    refine Check.reports_each fun branch _ => Check.Reports.inScope ?_ kind
    refine Check.reports_each fun clause _ => ?_
    exact (Check.reports_each fun body _ => ih branch clause body).bind fun _ =>
      reports_bindClause _

end Alias

namespace Union

theorem isError_of_mem_queryReports {query : Query} {d : Diagnostic}
    (h : d ∈ queryReports query) : d.IsErrorAmong [.mixedUnion, .unionColumnMismatch] := by
  unfold queryReports formReports at h
  rcases List.mem_append.1 h with h | h
  · split at h
    · cases h
    · obtain ⟨branch, -, rfl⟩ := Option.map_eq_some_iff.1 (Option.mem_toList.1 h)
      exact ⟨⟨.mixedUnion, by simp, rfl⟩, rfl⟩
  · split at h
    · cases h
    · obtain ⟨branch, -, h⟩ := List.mem_flatMap.1 h
      unfold columnReports at h
      split at h
      · cases h
      · split at h
        · cases h
        · rw [List.mem_singleton.1 h]
          exact ⟨⟨.unionColumnMismatch, by simp, rfl⟩, rfl⟩

theorem isError_of_mem_reports {document : Document} {d : Diagnostic}
    (h : d ∈ reports document) : d.IsErrorAmong [.mixedUnion, .unionColumnMismatch] := by
  obtain ⟨query, -, h⟩ := List.mem_flatMap.1 h
  exact isError_of_mem_queryReports h

end Union

theorem Deprecation.code_of_mem_reports {document : Document} {d : Diagnostic}
    (h : d ∈ reports document) : d.code = some .deprecated := by
  obtain ⟨e, -, h⟩ := List.mem_filterMap.1 h
  obtain ⟨span, -, rfl⟩ := Option.map_eq_some_iff.1 h
  rfl

namespace Validator

theorem reports_onlyIf {enabled : Bool} {check : Check Unit} {holds : Diagnostic → Prop}
    (h : check.Reports holds) : (onlyIf enabled check).Reports holds := by
  unfold onlyIf
  split
  · exact h
  · exact Check.reports_pure _

theorem reports_order (table : OrderingTable) (document : Document) :
    (Order.check table document).Reports (Diagnostic.IsErrorAmong [.clauseOrder]) :=
  Check.reports_each fun _ _ => Order.reports_checkQuery _ _ _

theorem reports_aliases (document : Document) :
    (Alias.check document).Reports (Diagnostic.IsErrorAmong [.aliasConflict]) :=
  Check.reports_each fun _ _ => Alias.reports_checkQuery _ _

theorem reports_unions (document : Document) :
    (Check.reportAll (Union.reports document)).Reports
      (Diagnostic.IsErrorAmong [.mixedUnion, .unionColumnMismatch]) :=
  Check.reports_reportAll fun _ => Union.isError_of_mem_reports

/-- **They are errors** where old forms are not advised against. -/
theorem reports_errors {v : Validator} (h : v.checks.deprecations = false) (document : Document) :
    (v.check document).Reports (Diagnostic.IsErrorOf .semantic) := by
  refine (reports_onlyIf ((reports_order _ _).mono fun _ hd => hd.isErrorOf (by decide))).bind
    fun _ => ?_
  refine (reports_onlyIf ((reports_aliases _).mono fun _ hd => hd.isErrorOf (by decide))).bind
    fun _ => ?_
  refine (reports_onlyIf ((reports_unions _).mono fun _ hd => hd.isErrorOf (by decide))).bind
    fun _ => ?_
  rw [h]
  exact Check.reports_pure ()

/-- **The problems that a validator finds are semantic.** -/
theorem reports_check (v : Validator) (document : Document) :
    (v.check document).Reports Diagnostic.IsSemantic := by
  refine (reports_onlyIf ((reports_order _ _).mono fun _ hd =>
    (hd.isErrorOf (by decide)).1)).bind fun _ => ?_
  refine (reports_onlyIf ((reports_aliases _).mono fun _ hd =>
    (hd.isErrorOf (by decide)).1)).bind fun _ => ?_
  refine (reports_onlyIf ((reports_unions _).mono fun _ hd =>
    (hd.isErrorOf (by decide)).1)).bind fun _ => ?_
  refine reports_onlyIf (Check.reports_reportAll fun d hd => ?_)
  show d.family? = some .semantic
  rw [Diagnostic.family?, Deprecation.code_of_mem_reports hd]
  rfl

end Validator

end Cypher
