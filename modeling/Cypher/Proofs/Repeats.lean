import Cypher.Proofs.Columns
import Cypher.Proofs.Copies
import Cypher.Proofs.Modes
import Cypher.Proofs.Seclusion

/-!
# Reports that are repeated

Each check goes through the tree in its own way, but none of them reports more than the marks of the
nodes, code by code: a clause is reported where it is misplaced or at the end of its branch and not
in both places, a column once for the name that it binds, a union once for its form and once for its
columns, and an old test once (`Cypher.Validator.subperm_withCode`).

So a report is repeated only where a mark turns up twice, which is in an operand that two
comparisons in a row share (`Cypher.shared_of_reported_twice`). There it is repeated indeed: between
two comparisons, the body of `exists { RETURN 1 MATCH (n) }` is in the tree twice, and so is the
report on the `MATCH` in it (`Cypher.not_pairwise_reports`).
-/

namespace Cypher

open Node (allMarks preorder)

/-! ### Marks inside a node -/

namespace Node

/-- The subqueries in some trees have marks of their own. -/
theorem sublist_subqueries (nodes : List Node) :
    ((subqueries nodes).flatMap fun body => allMarks [.query body]).Sublist (allMarks nodes) := by
  fun_induction subqueries nodes with
  | case1 => exact List.nil_sublist _
  | case2 rest body ih =>
    have hbody : allMarks [.subquery body] = allMarks [.query body] := allMarks_singleton _
    rw [List.flatMap_cons, ← hbody, allMarks_cons (.subquery body) rest]
    exact (List.Sublist.refl _).append ih
  | case3 rest n hn ih =>
    rw [allMarks_cons, allMarks_singleton, List.append_assoc, ← allMarks_append]
    exact ih.trans (List.sublist_append_right ..)

theorem allMarks_flatMap {α : Type} (f : α → List Node) (xs : List α) :
    allMarks (xs.flatMap f) = xs.flatMap fun x => allMarks (f x) := by
  induction xs with
  | nil => exact allMarks_nil
  | cons x xs ih => rw [List.flatMap_cons, allMarks_append, ih, List.flatMap_cons]

/-- The marks of a query: those of its unions, and those of its branches. -/
theorem allMarks_query (q : Query) :
    allMarks [.query q] = q.unions.map (·.span) ++
      q.branches.flatMap fun branch => allMarks (branch.map .clause) := by
  rw [allMarks_singleton, ← allMarks_flatMap, List.flatMap_def, ← List.map_flatten]
  rfl

/-- The queries of a document are in it. -/
theorem sublist_queries (document : Document) :
    (document.queries.flatMap fun query => allMarks [.query query]).Sublist
      (allMarks [.document document]) := by
  rw [allMarks_singleton]
  change List.Sublist _ (allMarks (document.statements.map .statement))
  rw [Document.queries]
  induction document.statements with
  | nil => exact List.nil_sublist _
  | cons x xs ih =>
    rw [List.map_cons, allMarks_cons, allMarks_singleton]
    cases x with
    | query q => exact (List.Sublist.refl (allMarks [.query q])).append ih
    | error span => exact ih.trans (List.sublist_append_right ..)

/-- What each node gives, all of them give together. -/
theorem sublist_preorder {f : Node → List Span} (h : ∀ n, (f n).Sublist n.marks)
    (nodes : List Node) : ((preorder nodes).flatMap f).Sublist (allMarks nodes) := by
  unfold allMarks
  induction preorder nodes with
  | nil => exact .refl _
  | cons n rest ih => exact (h n).append ih

end Node

/-- The same number of times or less in each part. -/
theorem subperm_flatMap {α β : Type} {f g : α → List β} {xs : List α}
    (h : ∀ x ∈ xs, (f x).Subperm (g x)) : (xs.flatMap f).Subperm (xs.flatMap g) := by
  induction xs with
  | nil => exact .refl _
  | cons x xs ih =>
    exact (h x List.mem_cons_self).append (ih fun y hy => h y (List.mem_cons_of_mem x hy))

/-! ### The order of clauses -/

namespace Order

variable {table : OrderingTable}

/-- The last clause of a branch, if it has not been reported. -/
def spared (table : OrderingTable) (clauses : List Clause) : List Clause :=
  if (clauses.foldl (Reached.onward table) .start).reported then []
  else (readable clauses).getLast?.toList

/-- Only such a clause is reported at the end. -/
theorem sublist_reportsAtEnd (kind : ScopeKind) (lone : Bool) (clauses : List Clause) :
    ((reportsAtEnd table kind lone (clauses.foldl (Reached.onward table) .start) clauses).map
      Diagnostic.span).Sublist ((spared table clauses).map (·.span)) := by
  unfold reportsAtEnd spared
  cases (clauses.foldl (Reached.onward table) .start).reported with
  | true => simp
  | false =>
    split
    · cases (readable clauses).getLast? with
      | none => exact .refl _
      | some last =>
        dsimp only
        split
        · exact List.nil_sublist _
        · exact .refl _
    · exact List.nil_sublist _

/-- A clause at the end of a branch is either reported there or spared. -/
theorem reported_or_spared (table : OrderingTable) (clauses : List Clause) {clause : Clause}
    (hc : clause.isError = false) :
    (reportsOn table (clauses.foldl (Reached.onward table) .start).state clause).map
      Diagnostic.span ++ (spared table (clauses ++ [clause])).map (·.span) = [clause.span] := by
  have hlast : (readable (clauses ++ [clause])).getLast? = some clause := by
    simp [readable, List.filter_append, hc]
  unfold spared reportsOn
  rw [List.foldl_append, List.foldl_cons, List.foldl_nil, Reached.onward, hlast, hc]
  cases table.after _ clause.kind clause.yields with
  | some next => rfl
  | none =>
    unfold misplaced
    dsimp only
    cases misplacedHelp? _ clause.kind <;> rfl

/-- Stand-ins are passed over. -/
theorem spared_append_of_isError (table : OrderingTable) (clauses : List Clause) {clause : Clause}
    (hc : clause.isError = true) : spared table (clauses ++ [clause]) = spared table clauses := by
  simp [spared, readable, List.filter_append, List.foldl_append, Reached.onward, hc]

/-- **Along a branch each clause is reported once or spared**, if the same is known of what is
inside. -/
theorem subperm_reportsAlong (clauses : List Clause)
    (hinside : ∀ clause ∈ clauses, ∀ body ∈ clause.subqueries,
      ((checkQuery table .subquery body).reports.map Diagnostic.span).Subperm
        (allMarks [.query body])) :
    ((reportsAlong table .start (withInside table clauses)).map Diagnostic.span ++
      (spared table clauses).map (·.span)).Subperm (allMarks (clauses.map .clause)) := by
  induction clauses using List.reverseRecOn with
  | nil => exact List.nil_subperm
  | append_singleton clauses clause ih =>
    specialize ih fun c hc => hinside c (List.mem_append_left _ hc)
    have hsplit : withInside table (clauses ++ [clause]) = withInside table clauses ++
        [(clause, clause.subqueries.flatMap fun body =>
          (checkQuery table .subquery body).reports)] := by
      simp [withInside]
    have hbody : ((clause.subqueries.flatMap fun body =>
        (checkQuery table .subquery body).reports).map Diagnostic.span).Subperm
          (allMarks (Node.ofClause clause)) := by
      rw [List.map_flatMap]
      exact (subperm_flatMap (hinside clause (List.mem_append_right _ List.mem_cons_self))).trans
        (Node.sublist_subqueries _).subperm
    rw [hsplit, reportsAlong_append, reportsAlong, reportsAlong, List.append_nil, List.map_append,
      List.map_append, List.map_append, List.map_singleton, Node.allMarks_append,
      Node.allMarks_singleton]
    cases hc : clause.isError with
    | true =>
      rw [spared_append_of_isError table clauses hc,
        Node.subqueries_of_isError hc, reportsOn, if_pos hc]
      simpa using ih.trans (List.sublist_append_left ..).subperm
    | false =>
      have hown := reported_or_spared table clauses hc
      have hmarks : (Node.clause clause).marks = [clause.span] := by
        simp [Node.marks, hc]
      have hbefore := (List.sublist_append_left
        ((reportsAlong table .start (withInside table clauses)).map Diagnostic.span)
        ((spared table clauses).map (·.span))).subperm.trans ih
      rw [List.append_assoc, List.append_assoc, hmarks, ← hown, List.append_assoc]
      refine hbefore.append ((List.Subperm.refl _).append ?_)
      exact List.perm_append_comm.subperm.trans ((List.Subperm.refl _).append hbody)

/-- **What is reported on the order of clauses in a query**: no mark more often than it is there. -/
theorem subperm_checkQuery (table : OrderingTable) (kind : ScopeKind) (query : Query) :
    ((checkQuery table kind query).reports.map Diagnostic.span).Subperm
      (allMarks [.query query]) := by
  rw [reports_checkQuery_eq, List.map_flatMap, Node.allMarks_query]
  refine (subperm_flatMap fun branch hbranch => ?_).trans (List.sublist_append_right ..).subperm
  rw [reportsOnBranch, List.map_append]
  refine ((List.Subperm.refl _).append (sublist_reportsAtEnd kind _ branch).subperm).trans ?_
  exact subperm_reportsAlong branch fun clause hclause body hbody =>
    subperm_checkQuery table .subquery body
termination_by sizeOf query
decreasing_by exact QueryOf.sizeOf_subquery_lt hbranch hclause hbody

end Order

/-! ### The names that projections bind -/

namespace Alias

open Node (subqueries ofProjection)

/-- The marks in the subqueries of some trees. -/
def innerMarks (nodes : List Node) : List Span :=
  (subqueries nodes).flatMap fun body => allMarks [.query body]

theorem innerMarks_append (a b : List Node) :
    innerMarks (a ++ b) = innerMarks a ++ innerMarks b := by
  rw [innerMarks, Node.subqueries_append, List.flatMap_append]
  rfl

/-- A column has a mark for the name that it binds, besides those inside. -/
theorem sublist_item (i : ProjectionItem Expression) :
    (i.binding?.toList.map (·.span) ++ innerMarks [.item i]).Sublist (allMarks [.item i]) := by
  have hinner : innerMarks [.item i] = innerMarks [.expression i.expression] := by
    rw [innerMarks, Node.subqueries_single fun _ => Node.noConfusion]
    rfl
  rw [Node.allMarks_singleton, hinner]
  obtain ⟨value, rename, span⟩ := i
  cases rename with
  | some name => exact (List.Sublist.refl [name.span]).append (Node.sublist_subqueries _)
  | none =>
    rw [ProjectionItem.binding?, Option.none_or]
    cases hv : value.asVariable? with
    | none => exact Node.sublist_subqueries _
    | some name =>
      cases value with
      | reference text place =>
        cases hv
        have hnone : innerMarks [.expression (.reference text place)] = [] := by
          rw [innerMarks, Node.subqueries_single fun _ => Node.noConfusion]
          exact congrArg (List.flatMap _) Node.subqueries.eq_1
        rw [hnone, List.append_nil]
        change List.Sublist [place] (allMarks [.expression (.reference text place)])
        rw [Node.allMarks_singleton]
        exact List.sublist_append_left ..
      | _ => cases hv

/-- So have the columns of a projection. -/
theorem subperm_items (items : List (ProjectionItem Expression)) :
    ((items.filterMap ProjectionItem.binding?).map (·.span) ++ innerMarks (items.map .item)).Subperm
      (allMarks (items.map .item)) := by
  induction items with
  | nil => simp [innerMarks, Node.subqueries]
  | cons i items ih =>
    have hbindings : ((i :: items).filterMap ProjectionItem.binding?).map (·.span) =
        i.binding?.toList.map (·.span) ++
          (items.filterMap ProjectionItem.binding?).map (·.span) := by
      rw [List.filterMap_cons]
      cases i.binding? <;> rfl
    have hinner : innerMarks ((i :: items).map .item) =
        innerMarks [.item i] ++ innerMarks (items.map .item) := innerMarks_append [.item i] _
    rw [hbindings, hinner, List.map_cons, Node.allMarks_cons]
    refine List.Subperm.trans ?_ ((sublist_item i).subperm.append ih)
    refine List.Perm.subperm ?_
    simp only [List.append_assoc]
    exact (List.perm_append_comm_assoc ..).append_left _

theorem sublist_duplicatesAfter (seen names : List Ident) :
    ((duplicatesAfter seen names).map Diagnostic.span).Sublist (names.map (·.span)) := by
  fun_induction duplicatesAfter seen names with
  | case1 => exact .refl _
  | case2 seen x xs first hfirst ih => exact ih.cons_cons _
  | case3 seen x xs hnone ih => exact ih.cons _

/-- **What is reported on a clause and inside it**: no mark more often than it is there. -/
theorem subperm_reportsOn (clause : Clause) {inside : List Diagnostic}
    (h : (inside.map Diagnostic.span).Subperm (innerMarks (Node.ofClause clause))) :
    ((inside ++ reportsOn clause).map Diagnostic.span).Subperm (allMarks [.clause clause]) := by
  have hprojection : ∀ projection : Projection Expression,
      ((duplicates projection).map Diagnostic.span ++ innerMarks (ofProjection projection)).Subperm
        (allMarks (ofProjection projection)) := by
    intro projection
    rw [ofProjection, List.append_assoc, List.append_assoc, innerMarks_append,
      Node.allMarks_append, ← List.append_assoc]
    refine List.Subperm.append ?_ (Node.sublist_subqueries _).subperm
    refine List.Subperm.trans ?_ (subperm_items projection.items)
    exact (sublist_duplicatesAfter [] projection.bindings).subperm.append (.refl _)
  have hclause : ((reportsOn clause).map Diagnostic.span ++
      innerMarks (Node.ofClause clause)).Subperm (allMarks (Node.ofClause clause)) := by
    cases clause with
    | withColumns projection => exact hprojection projection
    | returnColumns projection => exact hprojection projection
    | _ => exact (Node.sublist_subqueries _).subperm
  rw [List.map_append, Node.allMarks_singleton]
  refine List.Subperm.trans ?_ (hclause.trans (List.sublist_append_right ..).subperm)
  exact List.perm_append_comm.subperm.trans ((List.Subperm.refl _).append h)

/-- **What is reported on the names that the projections of a query bind**: no mark more often than
it is there. -/
theorem subperm_checkQuery (kind : ScopeKind) (query : Query) :
    ((checkQuery kind query).reports.map Diagnostic.span).Subperm (allMarks [.query query]) := by
  rw [reports_checkQuery_eq, List.map_flatMap, Node.allMarks_query]
  refine (subperm_flatMap fun branch hbranch => ?_).trans (List.sublist_append_right ..).subperm
  rw [reportsOnBranch, List.map_flatMap, List.map_eq_flatMap, Node.allMarks_flatMap]
  refine subperm_flatMap fun clause hclause => subperm_reportsOn clause ?_
  rw [List.map_flatMap]
  exact subperm_flatMap fun body hbody => subperm_checkQuery .subquery body
termination_by sizeOf query
decreasing_by exact QueryOf.sizeOf_subquery_lt hbranch hclause hbody

end Alias

/-! ### Unions and old forms -/

namespace Union

theorem sublist_formReports (unions : List (UnionBranch Clause)) :
    ((formReports unions).map Diagnostic.span).Sublist (unions.map (·.span)) := by
  unfold formReports
  cases unions with
  | nil => exact .refl _
  | cons first rest =>
    dsimp only
    cases hfind : (first :: rest).find? fun branch => branch.all ≠ first.all with
    | none => exact List.nil_sublist _
    | some branch =>
      have hmem : branch.span ∈ (first :: rest).map (·.span) :=
        List.mem_map_of_mem (List.mem_of_find?_eq_some hfind)
      exact List.singleton_sublist.2 hmem

/-- **What is reported on the unions of a query with one code**: no union more than once. -/
theorem sublist_queryReports (code : Code) (query : Query) :
    ((Validator.withCode code (queryReports query)).map Diagnostic.span).Sublist
      (query.unions.map (·.span)) := by
  by_cases hc : code = .unionColumnMismatch
  · rw [hc, spans_queryReports]
    exact List.filter_sublist.map _
  · have hcolumns : ∀ ds : List Diagnostic, (∀ d ∈ ds, d.code = some .unionColumnMismatch) →
        Validator.withCode code ds = [] := fun ds hds =>
      Validator.withCode_eq_nil (fun d hd => ⟨_, List.mem_singleton_self _, hds d hd⟩)
        fun hmem => hc (List.mem_singleton.1 hmem)
    have hform : ((Validator.withCode code (formReports query.unions)).map
        Diagnostic.span).Sublist (query.unions.map (·.span)) :=
      (List.filter_sublist.map _).trans (sublist_formReports query.unions)
    rw [queryReports, Validator.withCode_append]
    cases columns? query.clauses with
    | none =>
      dsimp only
      rwa [hcolumns [] (by simp), List.append_nil]
    | some expected =>
      dsimp only
      rw [hcolumns (query.unions.flatMap _) fun d hd => ?_, List.append_nil]
      · exact hform
      · obtain ⟨branch, -, hd⟩ := List.mem_flatMap.1 hd
        rw [← withCode_columnReports] at hd
        exact of_decide_eq_true (List.mem_filter.1 hd).2

/-- **What is reported on the unions of a document with one code.** -/
theorem sublist_reports (code : Code) (document : Document) :
    ((Validator.withCode code (reports document)).map Diagnostic.span).Sublist
      (allMarks [.document document]) := by
  have hnodes : (Validator.withCode code (reports document)).map Diagnostic.span =
      document.nodes.flatMap fun n => n.query?.toList.flatMap fun query =>
        (Validator.withCode code (queryReports query)).map Diagnostic.span := by
    rw [reports, Validator.withCode, List.filter_flatMap, List.map_flatMap]
    induction document.nodes with
    | nil => rfl
    | cons n rest ih =>
      rw [List.filterMap_cons, List.flatMap_cons, ← ih]
      cases n.query? with
      | none => rfl
      | some query => exact congrArg (· ++ _) (List.append_nil _).symm
  rw [hnodes]
  refine Node.sublist_preorder (fun n => ?_) [.document document]
  cases n with
  | query q =>
    rw [show (Node.query q).query?.toList = [q] from rfl, List.flatMap_singleton]
    exact sublist_queryReports code q
  | _ => exact List.nil_sublist _

end Union

namespace Deprecation

/-- **What is advised against old forms**: once for each old test. -/
theorem sublist_reports (document : Document) :
    ((reports document).map Diagnostic.span).Sublist (allMarks [.document document]) := by
  have hnodes : (reports document).map Diagnostic.span =
      document.nodes.flatMap fun n => (n.expression?.bind oldTest?).toList := by
    rw [reports]
    induction document.nodes with
    | nil => rfl
    | cons n rest ih =>
      rw [List.flatMap_cons, ← ih]
      cases n with
      | expression e =>
        have hspan : ∀ span, (advice span).span = span := fun _ => rfl
        cases h : oldTest? e with
        | none => simp [Node.expression?, h]
        | some span => simp [Node.expression?, h, hspan]
      | _ => rfl
  rw [hnodes]
  refine Node.sublist_preorder (fun n => ?_) [.document document]
  cases n with
  | expression e =>
    cases e with
    | reference name span => exact List.nil_sublist _
    | _ => exact .refl _
  | _ => exact List.nil_sublist _

end Deprecation

/-! ### All reports -/

/-- **What a validator reports with one code**: no mark more often than it is in the tree. -/
theorem Validator.subperm_withCode (dialect : Dialect) (document : Document) (scopes : Scopes)
    (code : Code) :
    ((withCode code (((ofDialect dialect).check document).run scopes).2.2).map
      Diagnostic.span).Subperm (allMarks [.document document]) := by
  by_cases horder : code = .clauseOrder
  · rw [horder, withCode_clauseOrder, List.map_flatMap]
    exact (subperm_flatMap fun query _ => Order.subperm_checkQuery _ .statement query).trans
      (Node.sublist_queries document).subperm
  by_cases halias : code = .aliasConflict
  · rw [halias, withCode_aliasConflict, List.map_flatMap]
    exact (subperm_flatMap fun query _ => Alias.subperm_checkQuery .statement query).trans
      (Node.sublist_queries document).subperm
  rw [run_ofDialect]
  simp only [withCode_append]
  rw [withCode_eq_nil (fun d hd => ⟨_, List.mem_singleton_self _, code_of_mem_order hd⟩)
      fun hmem => horder (List.mem_singleton.1 hmem),
    withCode_eq_nil (fun d hd => ⟨_, List.mem_singleton_self _, code_of_mem_aliases hd⟩)
      fun hmem => halias (List.mem_singleton.1 hmem), List.nil_append, List.nil_append]
  by_cases hold : code = .deprecated
  · rw [withCode_unions document (by rw [hold]; decide), List.nil_append]
    split
    · exact ((List.filter_sublist.map _).trans (Deprecation.sublist_reports document)).subperm
    · exact List.nil_subperm
  · rw [withCode_deprecations _ document fun hmem => hold (List.mem_singleton.1 hmem),
      List.append_nil]
    exact (Union.sublist_reports code document).subperm

/-! ### Where marks lie -/

theorem Span.contains_trans {a b c : Span} (hab : a.contains b = true) (hbc : b.contains c = true) :
    a.contains c = true := by
  simp only [Span.contains, Bool.and_eq_true, decide_eq_true_iff] at hab hbc ⊢
  omega

/-- A mark is the span of something inside the node. -/
theorem Node.exists_within_of_mem_marks {n : Node} {x : Span} (h : x ∈ n.marks) :
    ∃ e, n.element.Within e ∧ e.span = x := by
  cases n with
  | query q =>
    obtain ⟨branch, hbranch, rfl⟩ := List.mem_map.1 h
    refine ⟨.branch branch, .single ?_, rfl⟩
    exact List.mem_append_right _ (List.mem_flatMap.2 ⟨branch, hbranch, List.mem_cons_self⟩)
  | clause c =>
    refine ⟨.clause c, .refl, ?_⟩
    rw [marks] at h
    split at h
    · cases h
    · exact (List.mem_singleton.1 h).symm
  | item i =>
    obtain ⟨name, hname, rfl⟩ := List.mem_map.1 h
    refine ⟨.name name, .single ?_, rfl⟩
    exact List.mem_append_right _ (List.mem_flatMap.2 ⟨name, hname, List.mem_cons_self⟩)
  | expression e =>
    refine ⟨.expression e, .refl, ?_⟩
    have hmark : e.mark? = some x := Option.mem_toList.1 h
    unfold Expression.mark? Deprecation.oldTest? at hmark
    split at hmark
    · exact Option.some.inj hmark
    · split at hmark
      · split at hmark
        · exact Option.some.inj hmark
        · cases hmark
      · cases hmark
  | _ => cases h

/-- **What is inside an element of a document lies in its span.** -/
theorem contains_of_within {source : String} {options : Options} {document : Document}
    {e inner : Element} (h : (parse source options).document = some document)
    (he : (Element.document document).Within e) (hi : e.Within inner) :
    e.span.contains inner.span = true := by
  induction hi with
  | refl => simp [Span.contains]
  | tail hi hc ih =>
    obtain ⟨-, -, -, -, hcontains⟩ := laid_of_parse h (he.trans hi)
    exact Span.contains_trans ih (hcontains _ hc)

/-- The marks in an expression of a document lie in its span. -/
theorem contains_of_mem_allMarks {source : String} {options : Options} {document : Document}
    {operand : Expression} {x : Span} (h : (parse source options).document = some document)
    (he : .expression operand ∈ document.nodes) (hx : x ∈ allMarks [.expression operand]) :
    operand.span.contains x = true := by
  obtain ⟨n, hn, hmark⟩ := List.mem_flatMap.1 hx
  obtain ⟨m, hm, hwithin⟩ := Node.within_of_mem_preorder hn
  obtain ⟨e, he', rfl⟩ := Node.exists_within_of_mem_marks hmark
  rw [List.mem_singleton.1 hm] at hwithin
  exact contains_of_within h (Document.within_of_mem_nodes he) (hwithin.trans he')

/-! ### Reports that are repeated -/

/-- No report of reading has a semantic code. -/
theorem withCode_reading (source : String) (options : Options) {code : Code}
    (hc : code.family = .semantic) :
    ((tokenize source options.dialect).problems ++
      (parseTokens (tokenize source options.dialect).tokens options).problems).filter
        (fun d => d.code = some code) = [] := by
  have hother {e : Diagnostic} (he : e.family? = some .lexical ∨ e.family? = some .grammatical) :
      ¬ e.code = some code := by
    intro hcode
    rw [Diagnostic.family?, hcode, Option.map_some, hc] at he
    simp at he
  refine List.filter_eq_nil_iff.2 fun e he hcode => ?_
  rcases List.mem_append.1 he with he | he
  · exact hother (Or.inl (family_of_mem_tokenize he)) (of_decide_eq_true hcode)
  · exact hother (Or.inr (Grammar.family_of_mem_problems he)) (of_decide_eq_true hcode)

/-- The reports with a semantic code are those of the validator. -/
theorem withCode_parse {source : String} {options : Options} {code : Code}
    (hc : code.family = .semantic) {d : Diagnostic}
    (hd : d ∈ (parse source options).withCode code) :
    ∃ document scopes, (parse source options).document = some document ∧
      (parse source options).withCode code = Validator.withCode code
        (((Validator.ofDialect options.dialect).check document).run scopes).2.2 := by
  have hnone := withCode_reading source options hc
  cases hread : parseTokens (tokenize source options.dialect).tokens options with
  | mk document problems scopes =>
    rw [hread] at hnone
    cases document with
    | none =>
      rw [parse_of_none hread] at hd
      rw [Parsed.withCode, Parsed.ofLog, hnone] at hd
      cases hd
    | some document =>
      refine ⟨document, scopes, ?_, ?_⟩
      · rw [parse_of_document hread]
        rfl
      · rw [parse_of_document hread, Parsed.withCode, Parsed.ofLog, List.filter_append, hnone]
        rfl

/-- **A report is repeated only in an operand that is shared.** If two reports of a check have the
same code and the same span, then there are two comparisons in a row in the document, and what is
reported lies in the operand between them. -/
theorem shared_of_reported_twice {source : String} {options : Options} {first second : Diagnostic}
    (hreports : [first, second].Sublist (parse source options).diagnostics)
    (hsemantic : first.family? = some .semantic) (hcode : first.code = second.code)
    (hspan : first.span = second.span) :
    ∃ document tree operand, (parse source options).document = some document ∧
      .expression tree ∈ document.nodes ∧ tree.Shares operand ∧
      operand.span.contains first.span = true := by
  obtain ⟨code, hfirst, hfamily⟩ := Option.map_eq_some_iff.1 hsemantic
  have htwice : [first, second].Sublist ((parse source options).withCode code) := by
    have hfilter := hreports.filter fun d => d.code = some code
    rwa [List.filter_eq_self.2 (by simp [hfirst, ← hcode])] at hfilter
  obtain ⟨document, scopes, hdocument, hreported⟩ :=
    withCode_parse hfamily (htwice.subset List.mem_cons_self)
  have hcount : 2 ≤ (allMarks [.document document]).count first.span := by
    rw [hreported] at htwice
    have hle := (htwice.map Diagnostic.span).subperm.trans
      (Validator.subperm_withCode options.dialect document scopes code)
    have htwo : ([first, second].map Diagnostic.span).count first.span = 2 := by
      simp [hspan]
    exact htwo ▸ hle.count_le first.span
  obtain ⟨w, rest, hw, -, hstems⟩ := stems_of_parse hdocument
  have ha := apart_tokensRead source options.dialect
  rw [hw] at ha
  have htally := hstems.tally (ha.sublist (List.sublist_append_left ..))
  obtain ⟨tree, operand, htree, hshares, hmark⟩ := htally.shared first.span hcount
  refine ⟨document, tree, operand, hdocument, htree, hshares, ?_⟩
  exact contains_of_mem_allMarks hdocument (hshares.mem_preorder htree) hmark

/-- The clause that is misplaced in the body of an existence test between two comparisons is
reported for both of them. -/
theorem shared_of_reported_twice_exists :
    let report : Diagnostic := ⟨.error, "MATCH cannot follow RETURN",
      [⟨.primary, ⟨29, 38⟩, "misplaced clause"⟩],
      some "RETURN must be the last clause of a query", [], some .clauseOrder⟩
    let result := parse "RETURN 1 < exists { RETURN 1 MATCH (n) } < 2 AS x"
      (Options.standard.withDialect .neo4j5)
    [report, report].Sublist result.diagnostics ∧ report.family? = some .semantic ∧
      ∃ document tree operand, result.document = some document ∧
        .expression tree ∈ document.nodes ∧ tree.Shares operand ∧
        operand.span.contains report.span = true := by
  intro report result
  have hreports : [report, report].Sublist result.diagnostics := by decide +kernel
  exact ⟨hreports, rfl, shared_of_reported_twice hreports rfl rfl rfl⟩

/-- Not every two reports of checks differ in code or span. -/
theorem not_pairwise_reports :
    ¬ ∀ (source : String) (options : Options),
      ((parse source options).diagnostics.filter fun d => d.family? = some .semantic).Pairwise
        fun first second => ¬ (first.code = second.code ∧ first.span = second.span) := by
  intro h
  have hdiffer := h "RETURN 1 < exists { RETURN 1 MATCH (n) } < 2 AS x"
    (Options.standard.withDialect .neo4j5)
  revert hdiffer
  decide +kernel

end Cypher
