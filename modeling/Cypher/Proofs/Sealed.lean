import Cypher.Proofs.Extension.Checks

/-!
# Checks that keep to their own scopes

One stack of scopes is handed through all checks of a document, and subqueries turn up anywhere
inside the clauses of a query. Nothing leaks all the same, because a check of a query only ever
works in scopes that it has entered itself.

* A check is *sealed* (`Cypher.Check.Sealed`) if it gives back the scopes as it found them and its
  reports do not depend on them. What it reports is then a value, `Cypher.Check.reports`.
* A check *steps* (`Cypher.Check.Steps`) if it works in the innermost scope, and what it does there
  depends on one view of that scope only. In a scope of its own such a check is sealed
  (`Cypher.Check.Steps.sealed`).

The checks of a query come out sealed, with their reports in closed form: those on the order of
clauses in `Cypher.Order.reports_checkQuery_eq`, those on the names that projections bind in
`Cypher.Alias.reports_checkQuery_eq`. Both equations go one level deep, to the checks of the bodies
of subqueries, whose reports stand behind or in front of those on the clause that they lie in.
-/

namespace Cypher

namespace Check

variable {α β σ : Type}

/-! ### Sealed checks -/

/-- **What a check reports** outside all scopes. -/
def reports (check : Check Unit) : List Diagnostic := (check.run .outside).2.2

/-- **A sealed check**: it leaves all scopes alone, and reports the same in all of them. -/
def Sealed (check : Check Unit) : Prop :=
  ∀ scopes, check.run scopes = ((), scopes, check.reports)

theorem sealed_of_run {check : Check Unit} {ds : List Diagnostic}
    (h : ∀ scopes, check.run scopes = ((), scopes, ds)) : check.Sealed ∧ check.reports = ds := by
  have hr : check.reports = ds := by rw [reports, h]
  exact ⟨fun scopes => by rw [hr, h], hr⟩

theorem run_each {check : α → Check Unit} {xs : List α} (h : ∀ x ∈ xs, (check x).Sealed)
    (scopes : Scopes) :
    (each check xs).run scopes = ((), scopes, xs.flatMap fun x => (check x).reports) := by
  induction xs with
  | nil => rfl
  | cons x xs ih =>
    rw [each, run_bind, h x List.mem_cons_self scopes]
    dsimp only
    rw [ih fun y hy => h y (List.mem_cons_of_mem x hy), List.flatMap_cons]

/-- Checks over a list may forget that the members are members. -/
theorem each_attach (check : α → Check Unit) (xs : List α) :
    each (fun x => check x.val) xs.attach = each check xs := by
  have h (ys : List { x // x ∈ xs }) :
      each (fun x => check x.val) ys = each check (ys.map Subtype.val) := by
    induction ys with
    | nil => rfl
    | cons y ys ih => rw [each, ih, List.map_cons, each]
  rw [h, List.attach_map_subtype_val]

theorem eachFrom_attach (check : β → α → Check β) (b : β) (xs : List α) :
    eachFrom (fun b x => check b x.val) b xs.attach = eachFrom check b xs := by
  have h (ys : List { x // x ∈ xs }) (b : β) :
      eachFrom (fun b x => check b x.val) b ys = eachFrom check b (ys.map Subtype.val) := by
    induction ys generalizing b with
    | nil => rfl
    | cons y ys ih => simp only [eachFrom, List.map_cons, ih]
  rw [h, List.attach_map_subtype_val]

/-! ### Checks in the innermost scope -/

/-- **A check that steps** from one view of the innermost scope to another, and finds out a value
and makes reports on the way: the scopes around that scope play no part. -/
def Steps (view : Scope → σ) (check : Check α) (s : σ) (a : α) (s' : σ)
    (ds : List Diagnostic) : Prop :=
  ∀ scope outer, view scope = s →
    ∃ scope', view scope' = s' ∧ check.run ⟨scope :: outer⟩ = (a, ⟨scope' :: outer⟩, ds)

variable {view : Scope → σ} {s t u : σ}

theorem Steps.pure (a : α) : Steps view (pure a) s a s [] :=
  fun scope _ hs => ⟨scope, hs, rfl⟩

theorem Steps.bind {check : Check α} {next : α → Check β} {a : α} {b : β}
    {first second : List Diagnostic} (h : Steps view check s a t first)
    (hn : Steps view (next a) t b u second) :
    Steps view (check >>= next) s b u (first ++ second) := by
  intro scope outer hs
  obtain ⟨scope', ht, hrun⟩ := h scope outer hs
  obtain ⟨scope'', hu, hrun'⟩ := hn scope' outer ht
  refine ⟨scope'', hu, ?_⟩
  rw [run_bind, hrun]
  dsimp only
  rw [hrun']

/-- A step without reports in front of another. -/
theorem Steps.before {check : Check α} {next : α → Check β} {a : α} {b : β}
    {ds : List Diagnostic} (h : Steps view check s a t []) (hn : Steps view (next a) t b u ds) :
    Steps view (check >>= next) s b u ds := h.bind hn

theorem Steps.modify {f : Scope → Scope} (h : ∀ scope, view scope = s → view (f scope) = t) :
    Steps view (modify (·.modify f)) s () t [] :=
  fun scope _ hs => ⟨f scope, h scope hs, rfl⟩

theorem Steps.look {next : Scopes → Check β} {b : β} {ds : List Diagnostic}
    (h : ∀ scope outer, view scope = s → Steps view (next ⟨scope :: outer⟩) s b t ds) :
    Steps view (scopes >>= next) s b t ds :=
  fun scope outer hs => h scope outer hs scope outer hs

theorem Steps.reportAll (ds : List Diagnostic) : Steps view (reportAll ds) s () s ds :=
  fun scope _ hs => ⟨scope, hs, rfl⟩

theorem Sealed.steps {check : Check Unit} (h : check.Sealed) :
    Steps view check s () s check.reports :=
  fun scope _ hs => ⟨scope, hs, h _⟩

theorem Steps.each {check : α → Check Unit} {ds : α → List Diagnostic} {xs : List α}
    (h : ∀ x ∈ xs, Steps view (check x) s () s (ds x)) :
    Steps view (each check xs) s () s (xs.flatMap ds) := by
  induction xs with
  | nil => exact .pure ()
  | cons x xs ih =>
    exact (h x List.mem_cons_self).bind (ih fun y hy => h y (List.mem_cons_of_mem x hy))

/-- **A check that steps is sealed** in a scope of its own. -/
theorem Steps.sealed {check : Check Unit} {kind : ScopeKind} {ds : List Diagnostic}
    (h : Steps view check (view (.fresh kind)) () t ds) :
    (inScope kind check).Sealed ∧ (inScope kind check).reports = ds := by
  refine sealed_of_run fun scopes => ?_
  obtain ⟨scope, -, hrun⟩ := h (.fresh kind) scopes.frames rfl
  rw [run_inScope, Scopes.push, hrun]
  rfl

end Check

/-! ### The order of clauses -/

namespace Order

open Check

/-- **How far a branch has come**: whether its last clause was reported, and the state that the
clauses have led to. -/
structure Reached where
  /-- Whether the last clause was reported. -/
  reported : Bool
  /-- The state. -/
  state : OrderState
deriving DecidableEq, Repr

/-- Where a branch starts. -/
def Reached.start : Reached := ⟨false, .start⟩

/-- How far a branch has come behind one more clause. -/
def Reached.onward (table : OrderingTable) (reached : Reached) (clause : Clause) : Reached :=
  if clause.isError then reached
  else
    match table.after reached.state clause.kind clause.yields with
    | some next => ⟨false, next⟩
    | none => ⟨true, reached.state⟩

/-- The report on a clause in a state, if it is not legal there. -/
def reportsOn (table : OrderingTable) (state : OrderState) (clause : Clause) : List Diagnostic :=
  if clause.isError then []
  else
    match table.after state clause.kind clause.yields with
    | some _ => []
    | none => [misplaced clause state]

/-- The reports on the clauses of a branch, each together with the reports on what is inside it. -/
def reportsAlong (table : OrderingTable) : Reached → List (Clause × List Diagnostic) →
    List Diagnostic
  | _, [] => []
  | reached, (clause, inside) :: rest =>
    reportsOn table reached.state clause ++ inside ++
      reportsAlong table (reached.onward table clause) rest

/-- The report on the end of a branch that has come so far, if it may not end there. -/
def reportsAtEnd (table : OrderingTable) (kind : ScopeKind) (lone : Bool) (reached : Reached)
    (clauses : List Clause) : List Diagnostic :=
  if kind = .statement && !reached.reported && !(lone && isLoneCall clauses) then
    match (readable clauses).getLast? with
    | none => []
    | some last => if table.isTerminal reached.state then [] else [unfinished last]
  else []

/-- The clauses of a branch together with the reports on the subqueries in them. -/
def withInside (table : OrderingTable) (clauses : List Clause) :
    List (Clause × List Diagnostic) :=
  clauses.map fun clause =>
    (clause, clause.subqueries.flatMap fun body => (checkQuery table .subquery body).reports)

/-- The reports on a branch of a query and on all that is in it. -/
def reportsOnBranch (table : OrderingTable) (kind : ScopeKind) (lone : Bool)
    (clauses : List Clause) : List Diagnostic :=
  reportsAlong table .start (withInside table clauses) ++
    reportsAtEnd table kind lone (clauses.foldl (Reached.onward table) .start) clauses

theorem steps_record (kind : ClauseKind) (state : OrderState) :
    Steps Scope.ordering (modify (·.record kind)) state () state [] :=
  .modify fun _ hs => hs

theorem steps_setOrdering (state next : OrderState) :
    Steps Scope.ordering (modify (·.setOrdering next)) state () next [] :=
  .modify fun _ _ => rfl

theorem steps_checkClause (table : OrderingTable) (reached : Reached) (clause : Clause) :
    Steps Scope.ordering (checkClause table reached.reported clause) reached.state
      (reached.onward table clause).reported (reached.onward table clause).state
      (reportsOn table reached.state clause) := by
  unfold checkClause Reached.onward reportsOn
  refine (steps_record clause.kind reached.state).before ?_
  split
  · exact .pure _
  · refine Steps.look fun scope outer hs => ?_
    have ho : (Scopes.mk (scope :: outer)).ordering = reached.state := hs
    rw [ho]
    dsimp only
    cases table.after reached.state clause.kind clause.yields with
    | some next => exact (steps_setOrdering reached.state next).before (.pure _)
    | none => exact (Steps.reportAll [_]).bind (.pure _)

theorem steps_checkBranchEnd (table : OrderingTable) (kind : ScopeKind) (lone : Bool)
    (reached : Reached) (clauses : List Clause) :
    Steps Scope.ordering (checkBranchEnd table kind lone reached.reported clauses) reached.state
      () reached.state (reportsAtEnd table kind lone reached clauses) := by
  unfold checkBranchEnd reportsAtEnd
  split
  · unfold checkEnd
    cases (readable clauses).getLast? with
    | none => exact .pure ()
    | some last =>
      refine Steps.look fun scope outer hs => ?_
      have ho : (Scopes.mk (scope :: outer)).ordering = reached.state := hs
      rw [ho]
      dsimp only
      cases table.isTerminal reached.state with
      | true => exact .pure ()
      | false => exact .reportAll [_]
  · exact .pure ()

/-- Checks one clause, and then the subqueries in it. -/
def checkAll (table : OrderingTable) (reported : Bool) (clause : Clause) : Check Bool := do
  let reported ← checkClause table reported clause
  each (checkQuery table .subquery) clause.subqueries
  return reported

/-- **One level of the check of a query**: each branch in a scope of its own, clause after clause,
with the subqueries of each. -/
theorem checkQuery_eq (table : OrderingTable) (kind : ScopeKind) (query : Query) :
    checkQuery table kind query =
      each (fun branch => inScope kind do
        let reported ← eachFrom (checkAll table) false branch
        checkBranchEnd table kind query.unions.isEmpty reported branch) query.branches := by
  have hclause (reported : Bool) (clause : Clause) :
      (do
        let reported ← checkClause table reported clause
        each (fun body => checkQuery table .subquery body.val) clause.subqueries.attach
        return reported) = checkAll table reported clause := by
    rw [each_attach]
    rfl
  have hbranch (branch : List Clause) := eachFrom_attach (checkAll table) false branch
  rw [checkQuery, ← each_attach _ query.branches]
  simp only [hclause, hbranch]

/-- What is reported on a clause and the subqueries in it, if the checks of these are sealed. -/
theorem steps_checkAll {table : OrderingTable} {clause : Clause}
    (hsealed : ∀ body ∈ clause.subqueries, (checkQuery table .subquery body).Sealed)
    (reached : Reached) :
    Steps Scope.ordering (checkAll table reached.reported clause) reached.state
      (reached.onward table clause).reported (reached.onward table clause).state
      (reportsOn table reached.state clause ++
        clause.subqueries.flatMap fun body => (checkQuery table .subquery body).reports) := by
  refine (steps_checkClause table reached clause).bind ?_
  have hinside : Steps Scope.ordering (each (checkQuery table .subquery) clause.subqueries)
      (reached.onward table clause).state () (reached.onward table clause).state
      (clause.subqueries.flatMap fun body => (checkQuery table .subquery body).reports) :=
    .each fun body hbody => (hsealed body hbody).steps
  rw [← List.append_nil (List.flatMap ..)]
  exact hinside.bind (.pure _)

/-- What is reported along a branch. -/
theorem steps_clauses {table : OrderingTable} {clauses : List Clause}
    (hsealed : ∀ clause ∈ clauses, ∀ body ∈ clause.subqueries,
      (checkQuery table .subquery body).Sealed) (reached : Reached) :
    Steps Scope.ordering (eachFrom (checkAll table) reached.reported clauses) reached.state
      (clauses.foldl (Reached.onward table) reached).reported
      (clauses.foldl (Reached.onward table) reached).state
      (reportsAlong table reached (withInside table clauses)) := by
  induction clauses generalizing reached with
  | nil => exact .pure _
  | cons clause clauses ih =>
    exact (steps_checkAll (hsealed clause List.mem_cons_self) reached).bind
      (ih (fun c hc => hsealed c (List.mem_cons_of_mem clause hc)) _)

theorem sealed_branch {table : OrderingTable} {clauses : List Clause}
    (hsealed : ∀ clause ∈ clauses, ∀ body ∈ clause.subqueries,
      (checkQuery table .subquery body).Sealed) (kind : ScopeKind) (lone : Bool) :
    let check := inScope kind do
      let reported ← eachFrom (checkAll table) false clauses
      checkBranchEnd table kind lone reported clauses
    check.Sealed ∧ check.reports = reportsOnBranch table kind lone clauses :=
  ((steps_clauses hsealed .start).bind
    (steps_checkBranchEnd table kind lone (clauses.foldl (Reached.onward table) .start)
      clauses)).sealed

/-- **The check of the order of clauses in a query is sealed.** -/
theorem sealed_checkQuery (table : OrderingTable) (kind : ScopeKind) (query : Query) :
    (checkQuery table kind query).Sealed := by
  fun_induction checkQuery table kind query with
  | case1 kind query ih =>
    rw [← checkQuery, checkQuery_eq]
    refine (sealed_of_run (run_each fun branch hbranch => ?_)).1
    exact (sealed_branch (fun clause hclause body hbody =>
      ih ⟨branch, hbranch⟩ ⟨clause, hclause⟩ ⟨body, hbody⟩) kind _).1

/-- **What is reported on the order of clauses in a query**, branch by branch. -/
theorem reports_checkQuery_eq (table : OrderingTable) (kind : ScopeKind) (query : Query) :
    (checkQuery table kind query).reports =
      query.branches.flatMap (reportsOnBranch table kind query.unions.isEmpty) := by
  have hbranch (branch : List Clause) :=
    sealed_branch
      (fun clause (_ : clause ∈ branch) body _ => sealed_checkQuery table .subquery body) kind
      query.unions.isEmpty
  rw [checkQuery_eq, (sealed_of_run (run_each fun branch _ => (hbranch branch).1)).2]
  simp only [(hbranch _).2]

end Order

/-! ### The names that projections bind -/

namespace Alias

open Check

/-- The reports on a clause itself. -/
def reportsOn : Clause → List Diagnostic
  | .withColumns projection _ => duplicates projection
  | .returnColumns projection _ => duplicates projection
  | _ => []

/-- Checks the subqueries in a clause, and then the clause. -/
def checkAll (clause : Clause) : Check Unit := do
  each (checkQuery .subquery) clause.subqueries
  bindClause clause

theorem steps_bindAll (names : List String) :
    Steps (fun _ => ()) (modify (·.bindAll names)) () () () [] := by
  rintro scope outer -
  have h : ∃ scope', (Scopes.mk (scope :: outer)).bindAll names = ⟨scope' :: outer⟩ := by
    induction names generalizing scope with
    | nil => exact ⟨scope, rfl⟩
    | cons name names ih => exact ih _
  obtain ⟨scope', h⟩ := h
  exact ⟨scope', rfl, by rw [← h]; rfl⟩

theorem steps_replaceVisible (names : NameSet) :
    Steps (fun _ => ()) (modify (·.replaceVisible names)) () () () [] :=
  .modify fun _ _ => rfl

theorem steps_project (projection : Projection Expression) :
    Steps (fun _ => ()) (project projection) () () () (duplicates projection) := by
  refine Steps.look fun scope outer _ => ?_
  have h (names : NameSet) : Steps (fun _ => ())
      (reportAll (duplicates projection) >>= fun _ => modify (·.replaceVisible names)) () () ()
      (duplicates projection ++ []) :=
    (Steps.reportAll _).bind (steps_replaceVisible names)
  simp only [List.append_nil] at h
  exact h _

theorem steps_bindClause (clause : Clause) :
    Steps (fun _ => ()) (bindClause clause) () () () (reportsOn clause) := by
  cases clause with
  | withColumns projection => exact steps_project projection
  | returnColumns projection => exact steps_project projection
  | _ => exact steps_bindAll _

/-- **One level of the check of a query**: each branch in a scope of its own, clause after clause,
with the subqueries of each. -/
theorem checkQuery_eq (kind : ScopeKind) (query : Query) :
    checkQuery kind query =
      each (fun branch => inScope kind (each checkAll branch)) query.branches := by
  have hclause (clause : Clause) :
      (do
        each (fun body => checkQuery .subquery body.val) clause.subqueries.attach
        bindClause clause) = checkAll clause := by
    rw [each_attach]
    rfl
  have hbranch (branch : List Clause) := each_attach checkAll branch
  rw [checkQuery, ← each_attach _ query.branches]
  simp only [hclause, hbranch]

/-- The reports on a branch of a query and on all that is in it. -/
def reportsOnBranch (clauses : List Clause) : List Diagnostic :=
  clauses.flatMap fun clause =>
    (clause.subqueries.flatMap fun body => (checkQuery .subquery body).reports) ++
      reportsOn clause

theorem sealed_branch {clauses : List Clause}
    (hsealed : ∀ clause ∈ clauses, ∀ body ∈ clause.subqueries,
      (checkQuery .subquery body).Sealed) (kind : ScopeKind) :
    (inScope kind (each checkAll clauses)).Sealed ∧
      (inScope kind (each checkAll clauses)).reports = reportsOnBranch clauses := by
  have hsteps : Steps (fun _ => ()) (each checkAll clauses) () () () (reportsOnBranch clauses) := by
    refine .each fun clause hclause => ?_
    exact (Steps.each fun body hbody => (hsealed clause hclause body hbody).steps).bind
      (steps_bindClause clause)
  exact hsteps.sealed

/-- **The check of the names that projections bind is sealed.** -/
theorem sealed_checkQuery (kind : ScopeKind) (query : Query) : (checkQuery kind query).Sealed := by
  fun_induction checkQuery kind query with
  | case1 kind query ih =>
    rw [← checkQuery, checkQuery_eq]
    refine (sealed_of_run (run_each fun branch hbranch => ?_)).1
    exact (sealed_branch (fun clause hclause body hbody =>
      ih ⟨branch, hbranch⟩ ⟨clause, hclause⟩ ⟨body, hbody⟩) kind).1

/-- **What is reported on the names that the projections of a query bind**, branch by branch. -/
theorem reports_checkQuery_eq (kind : ScopeKind) (query : Query) :
    (checkQuery kind query).reports = query.branches.flatMap reportsOnBranch := by
  have hbranch (branch : List Clause) :=
    sealed_branch (fun clause (_ : clause ∈ branch) body _ => sealed_checkQuery .subquery body) kind
  rw [checkQuery_eq, (sealed_of_run (run_each fun branch _ => (hbranch branch).1)).2]
  simp only [(hbranch _).2]

end Alias

/-! ### The reports of a validator -/

namespace Validator

open Check

theorem run_order (table : OrderingTable) (document : Document) (scopes : Scopes) :
    (Order.check table document).run scopes =
      ((), scopes,
        document.queries.flatMap fun query => (Order.checkQuery table .statement query).reports) :=
  run_each (fun query _ => Order.sealed_checkQuery table .statement query) scopes

theorem run_aliases (document : Document) (scopes : Scopes) :
    (Alias.check document).run scopes =
      ((), scopes,
        document.queries.flatMap fun query => (Alias.checkQuery .statement query).reports) :=
  run_each (fun query _ => Alias.sealed_checkQuery .statement query) scopes

/-- **The validator of a dialect** leaves the scopes alone and reports, one after the other, on the
order of clauses, on the names that projections bind, on unions, and on old forms. -/
theorem run_ofDialect (dialect : Dialect) (document : Document) (scopes : Scopes) :
    ((ofDialect dialect).check document).run scopes =
      ((), scopes,
        (document.queries.flatMap fun query =>
          (Order.checkQuery dialect.rules.ordering .statement query).reports) ++
        ((document.queries.flatMap fun query => (Alias.checkQuery .statement query).reports) ++
        (Union.reports document ++
          if dialect.rules.deprecatesExists then Deprecation.reports document else []))) := by
  have horder := run_order dialect.rules.ordering document scopes
  have haliases := run_aliases document scopes
  cases dialect <;>
    simp only [check, ofDialect, Checks.ofRules, Dialect.rules, onlyIf, if_true, run_bind]
      at horder haliases ⊢ <;>
    rw [horder] <;> dsimp only <;> rw [haliases] <;> rfl

variable {code : Code}

/-- The diagnostics with a code. -/
def withCode (code : Code) (ds : List Diagnostic) : List Diagnostic :=
  ds.filter fun d => d.code = some code

theorem withCode_append (first second : List Diagnostic) :
    withCode code (first ++ second) = withCode code first ++ withCode code second :=
  List.filter_append ..

theorem withCode_eq_self {ds : List Diagnostic} (h : ∀ d ∈ ds, d.code = some code) :
    withCode code ds = ds :=
  List.filter_eq_self.2 fun d hd => decide_eq_true (h d hd)

theorem withCode_eq_nil {ds : List Diagnostic} {codes : List Code}
    (h : ∀ d ∈ ds, ∃ other ∈ codes, d.code = some other) (hc : code ∉ codes) :
    withCode code ds = [] := by
  refine List.filter_eq_nil_iff.2 fun d hd => ?_
  obtain ⟨other, hmem, hcode⟩ := h d hd
  rw [hcode, decide_eq_true_iff]
  rintro ⟨⟩
  exact hc hmem

theorem code_of_mem_order {table : OrderingTable} {document : Document} {d : Diagnostic}
    (h : d ∈ document.queries.flatMap fun query =>
      (Order.checkQuery table .statement query).reports) :
    d.code = some .clauseOrder := by
  obtain ⟨query, -, hd⟩ := List.mem_flatMap.1 h
  simpa using (Order.reports_checkQuery table .statement query .outside d hd).1

theorem code_of_mem_aliases {document : Document} {d : Diagnostic}
    (h : d ∈ document.queries.flatMap fun query =>
      (Alias.checkQuery .statement query).reports) :
    d.code = some .aliasConflict := by
  obtain ⟨query, -, hd⟩ := List.mem_flatMap.1 h
  simpa using (Alias.reports_checkQuery .statement query .outside d hd).1

theorem withCode_unions (document : Document) (hc : code ∉ [.mixedUnion, .unionColumnMismatch]) :
    withCode code (Union.reports document) = [] :=
  withCode_eq_nil (fun _ hd => (Union.isError_of_mem_reports hd).1) hc

theorem withCode_deprecations (enabled : Bool) (document : Document) (hc : code ∉ [.deprecated]) :
    withCode code (if enabled then Deprecation.reports document else []) = [] := by
  refine withCode_eq_nil (fun d hd => ?_) hc
  split at hd
  · exact ⟨_, List.mem_singleton_self _, Deprecation.code_of_mem_reports hd⟩
  · cases hd

/-- **What the validator of a dialect reports on the order of clauses.** -/
theorem withCode_clauseOrder (dialect : Dialect) (document : Document) (scopes : Scopes) :
    withCode .clauseOrder (((ofDialect dialect).check document).run scopes).2.2 =
      document.queries.flatMap fun query =>
        (Order.checkQuery dialect.rules.ordering .statement query).reports := by
  have haliases : withCode .clauseOrder
      (document.queries.flatMap fun query => (Alias.checkQuery .statement query).reports) = [] :=
    withCode_eq_nil (fun _ hd => ⟨_, List.mem_singleton_self _, code_of_mem_aliases hd⟩) (by decide)
  rw [run_ofDialect]
  simp only [withCode_append]
  rw [withCode_eq_self fun _ => code_of_mem_order, haliases, withCode_unions _ (by decide),
    withCode_deprecations _ _ (by decide), List.append_nil, List.append_nil, List.append_nil]

/-- **What the validator of a dialect reports on the names that projections bind.** -/
theorem withCode_aliasConflict (dialect : Dialect) (document : Document) (scopes : Scopes) :
    withCode .aliasConflict (((ofDialect dialect).check document).run scopes).2.2 =
      document.queries.flatMap fun query => (Alias.checkQuery .statement query).reports := by
  have horder : withCode .aliasConflict (document.queries.flatMap fun query =>
      (Order.checkQuery dialect.rules.ordering .statement query).reports) = [] :=
    withCode_eq_nil (fun _ hd => ⟨_, List.mem_singleton_self _, code_of_mem_order hd⟩) (by decide)
  rw [run_ofDialect]
  simp only [withCode_append]
  rw [horder, withCode_eq_self fun _ => code_of_mem_aliases, withCode_unions _ (by decide),
    withCode_deprecations _ _ (by decide), List.nil_append, List.append_nil, List.append_nil]

end Validator

end Cypher
