import Cypher.Proofs.Stripped.Node
import Cypher.Proofs.Seclusion
import Cypher.Proofs.Switches

/-!
# Layout has no part in what is read and reported

The checks report on clauses, columns, unions and expressions, and they point at their spans; but
whether they report, and in which words, depends on kinds, names and numbers only. So the reports on
documents that are the same but for spans are the same but for spans. Bodies of subqueries are
checked along with the clauses they lie in, which makes this an induction on queries for the first
two checks.

With that, layout drops out altogether. Two lists of tokens that agree in kinds and texts lead to
the same document but for spans, and to diagnostics that differ in nothing but the stretches they
point at (`Cypher.strip_readAndCheck`).
-/

namespace Cypher

/-! ### The order of clauses -/

/-- Whether columns are handed on is not a matter of places. -/
theorem ProcedureCall.yields_strip (call : ProcedureCall Expression) :
    (strip call).yields = call.yields := by
  obtain ⟨name, values, yieldItems, yieldAll⟩ := call
  simp only [Strip.strip_items, yields, Strip.isEmpty_strip]

theorem Clause.yields_strip (c : Clause) : ClauseOf.yields (strip c) = ClauseOf.yields c := by
  cases c with
  | callProcedure call span =>
    simp only [Strip.strip_clause, ClauseOf.yields, ProcedureCall.yields_strip]
  | _ => simp only [Strip.strip_clause, ClauseOf.yields]

theorem Clause.yields_eq_of_strip {c d : Clause} (h : strip c = strip d) :
    ClauseOf.yields c = ClauseOf.yields d := by
  rw [← Clause.yields_strip, h, Clause.yields_strip]

theorem Clause.isError_eq_of_strip {c d : Clause} (h : strip c = strip d) :
    ClauseOf.isError c = ClauseOf.isError d := by
  rw [← Clause.isError_strip, h, Clause.isError_strip]

namespace Order

open Check

variable {table : OrderingTable} {c c' : Clause}

/-- How far a branch has come behind a clause is not a matter of where the clause stands. -/
theorem onward_strip (reached : Reached) (c : Clause) :
    reached.onward table (strip c) = reached.onward table c := by
  rw [Reached.onward, Reached.onward, Clause.isError_strip, Clause.kind_strip, Clause.yields_strip]

theorem onward_eq_of_strip (h : strip c = strip c') (reached : Reached) :
    reached.onward table c = reached.onward table c' := by
  rw [← onward_strip, h, onward_strip]

/-- A branch comes as far wherever its clauses stand. -/
theorem foldl_onward_strip (clauses : List Clause) (reached : Reached) :
    (strip clauses).foldl (Reached.onward table) reached =
      clauses.foldl (Reached.onward table) reached := by
  change (clauses.map strip).foldl _ _ = _
  rw [List.foldl_map]
  simp only [onward_strip]

/-- A misplaced clause is reported in the same words wherever it stands. -/
theorem strip_misplaced (h : strip c = strip c') (state : OrderState) :
    strip (misplaced c state) = strip (misplaced c' state) := by
  simp only [misplaced, Clause.kind_eq_of_strip h]
  split <;> rfl

theorem strip_unfinished (h : strip c = strip c') :
    strip (unfinished c) = strip (unfinished c') := by
  simp only [unfinished, Clause.kind_eq_of_strip h]
  rfl

theorem strip_reportsOn (h : strip c = strip c') (state : OrderState) :
    strip (reportsOn table state c) = strip (reportsOn table state c') := by
  rw [reportsOn, reportsOn, Clause.isError_eq_of_strip h, Clause.kind_eq_of_strip h,
    Clause.yields_eq_of_strip h]
  split
  · rfl
  · split
    · rfl
    · exact congrArg (· :: []) (strip_misplaced h state)

/-- What is reported along a branch is the same wherever its clauses stand, if this is true of what
is reported inside them. -/
theorem strip_reportsAlong {clauses clauses' : List (Clause × List Diagnostic)}
    (h : strip clauses = strip clauses') (reached : Reached) :
    strip (reportsAlong table reached clauses) = strip (reportsAlong table reached clauses') := by
  induction clauses generalizing clauses' reached with
  | nil =>
    obtain rfl := Strip.eq_nil h
    rfl
  | cons x xs ih =>
    obtain ⟨x', xs', rfl, hx, hxs⟩ := Strip.exists_eq_cons h
    obtain ⟨c, inside⟩ := x
    obtain ⟨c', inside'⟩ := x'
    obtain ⟨hc, hinside⟩ : strip c = strip c' ∧ strip inside = strip inside' := Prod.mk.inj hx
    simp only [reportsAlong, Strip.strip_append]
    rw [strip_reportsOn hc, hinside, onward_eq_of_strip hc, ih hxs]

theorem readable_strip (clauses : List Clause) :
    readable (strip clauses) = strip (readable clauses) :=
  Strip.filter_strip (p := fun c : Clause => !c.isError)
    (fun c => congrArg not (Clause.isError_strip c)) clauses

theorem isLoneCall_strip (clauses : List Clause) :
    isLoneCall (strip clauses) = isLoneCall clauses := by
  rw [isLoneCall, isLoneCall, readable_strip]
  rcases readable clauses with _ | ⟨first, _ | ⟨second, _ | ⟨third, rest⟩⟩⟩
  · rfl
  · cases first <;> simp
  · cases first with
    | callProcedure call span =>
      cases second with
      | whereHolds => simp [ProcedureCall.yields_strip]
      | _ => simp
    | _ => simp
  · cases first with
    | callProcedure => cases second <;> simp
    | _ => simp

theorem strip_reportsAtEnd {clauses clauses' : List Clause} (h : strip clauses = strip clauses')
    (kind : ScopeKind) (lone : Bool) (reached : Reached) :
    strip (reportsAtEnd table kind lone reached clauses) =
      strip (reportsAtEnd table kind lone reached clauses') := by
  have hlone : isLoneCall clauses = isLoneCall clauses' := by
    rw [← isLoneCall_strip, h, isLoneCall_strip]
  have hlast := Strip.eq_of_commutes Strip.getLast?_strip (Strip.eq_of_commutes readable_strip h)
  rw [reportsAtEnd, reportsAtEnd, hlone]
  split
  · cases hc : (readable clauses).getLast? with
    | none =>
      rw [hc] at hlast
      rw [Strip.eq_none hlast]
    | some c =>
      rw [hc] at hlast
      obtain ⟨c', hc', hcc'⟩ := Strip.exists_eq_some hlast
      rw [hc']
      dsimp only
      split
      · rfl
      · exact congrArg (· :: []) (strip_unfinished hcc')
  · rfl

theorem strip_withInside {clauses clauses' : List Clause}
    (h : strip clauses = strip clauses')
    (hinside : ∀ c ∈ clauses, ∀ body ∈ c.subqueries, ∀ body', strip body = strip body' →
      strip (checkQuery table .subquery body).reports =
        strip (checkQuery table .subquery body').reports) :
    strip (withInside table clauses) = strip (withInside table clauses') := by
  have hpairs (clauses : List Clause) : withInside table clauses = clauses.flatMap fun c =>
      [(c, c.subqueries.flatMap fun body => (checkQuery table .subquery body).reports)] := by
    rw [withInside, List.map_eq_flatMap]
  rw [hpairs, hpairs]
  refine Strip.flatMap_eq h fun c hc c' hcc' => ?_
  have hbodies := Strip.flatMap_eq (Strip.eq_of_commutes Clause.subqueries_strip hcc')
    (hinside c hc)
  exact congrArg (· :: []) (Prod.ext hcc' hbodies)

/-- **The order of clauses is checked alike** wherever they stand. -/
theorem strip_reports_checkQuery (kind : ScopeKind) {query query' : Query}
    (h : strip query = strip query') :
    strip (checkQuery table kind query).reports = strip (checkQuery table kind query').reports := by
  -- on the query: the hypothesis is about the bodies of subqueries in its clauses
  fun_induction checkQuery table kind query generalizing query' with
  | case1 kind query ih =>
    rw [← checkQuery, reports_checkQuery_eq, reports_checkQuery_eq]
    have hunions : query.unions.isEmpty = query'.unions.isEmpty := by
      obtain ⟨clauses, unions, span⟩ := query
      obtain ⟨clauses', unions', span'⟩ := query'
      rw [Strip.strip_query, Strip.strip_query] at h
      injection h with _ hunions
      exact Strip.isEmpty_eq hunions
    rw [hunions]
    refine Strip.flatMap_eq (Strip.eq_of_commutes Query.branches_strip h)
      fun branch hbranch branch' hbb' => ?_
    have hinside := strip_withInside hbb' fun c hc body hbody body' hbody' =>
      ih ⟨branch, hbranch⟩ ⟨c, hc⟩ ⟨body, hbody⟩ hbody'
    have hreached : branch.foldl (Reached.onward table) .start =
        branch'.foldl (Reached.onward table) .start := by
      rw [← foldl_onward_strip, hbb', foldl_onward_strip]
    simp only [reportsOnBranch, Strip.strip_append]
    rw [strip_reportsAlong hinside, hreached, strip_reportsAtEnd hbb']

end Order

/-! ### The names that projections bind -/

/-- The name that a column binds. -/
theorem ProjectionItem.binding?_strip (item : ProjectionItem Expression) :
    (strip item).binding? = strip item.binding? := by
  obtain ⟨value, rename, span⟩ := item
  cases rename with
  | some name => simp [binding?]
  | none => cases value <;> simp [binding?, Expression.asVariable?]

namespace Alias

open Check

/-- Names bound again are reported in the same words wherever they stand. -/
theorem strip_duplicatesAfter {seen seen' names names' : List Ident}
    (hseen : strip seen = strip seen') (h : strip names = strip names') :
    strip (duplicatesAfter seen names) = strip (duplicatesAfter seen' names') := by
  induction names generalizing seen seen' names' with
  | nil =>
    obtain rfl := Strip.eq_nil h
    rfl
  | cons x xs ih =>
    obtain ⟨x', xs', rfl, hx, hxs⟩ := Strip.exists_eq_cons h
    have hfind : strip (seen.find? fun y => y.value = x.value) =
        strip (seen'.find? fun y => y.value = x'.value) := by
      -- names are looked up by their value, which is still there without spans
      rw [← Strip.value_eq hx]
      exact Strip.eq_of_commutes (Strip.find?_strip fun _ => rfl) hseen
    rw [duplicatesAfter, duplicatesAfter]
    cases hf : seen.find? fun y => y.value = x.value with
    | none =>
      rw [hf] at hfind
      rw [Strip.eq_none hfind]
      exact ih (by simp [hseen, hx]) hxs
    | some first =>
      rw [hf] at hfind
      obtain ⟨first', hf', -⟩ := Strip.exists_eq_some hfind
      have hreport : strip (duplicate x first.span) = strip (duplicate x' first'.span) := by
        rw [duplicate, duplicate, Strip.value_eq hx]
        rfl
      rw [hf']
      dsimp only
      rw [Strip.strip_cons, Strip.strip_cons, hreport, ih hseen hxs]

/-- What is reported on a clause is the same wherever its columns stand. -/
theorem strip_reportsOn {c c' : Clause} (h : strip c = strip c') :
    strip (reportsOn c) = strip (reportsOn c') := by
  have hbinding (n : Node) : (strip n).binding? = strip n.binding? := by
    cases n with
    | item column => exact column.binding?_strip
    | _ => rfl
  rw [reportsOn_eq, reportsOn_eq]
  exact strip_duplicatesAfter rfl (Strip.eq_of_commutes (Strip.filterMap_strip hbinding)
    (Strip.eq_of_commutes Node.ofClause_strip h))

/-- **The names that projections bind are checked alike** wherever they stand. -/
theorem strip_reports_checkQuery (kind : ScopeKind) {query query' : Query}
    (h : strip query = strip query') :
    strip (checkQuery kind query).reports = strip (checkQuery kind query').reports := by
  fun_induction checkQuery kind query generalizing query' with
  | case1 kind query ih =>
    rw [← checkQuery, reports_checkQuery_eq, reports_checkQuery_eq]
    refine Strip.flatMap_eq (Strip.eq_of_commutes Query.branches_strip h)
      fun branch hbranch branch' hbb' => ?_
    refine Strip.flatMap_eq hbb' fun c hc c' hcc' => ?_
    have hinside := Strip.flatMap_eq (f := fun body => (checkQuery .subquery body).reports)
      (Strip.eq_of_commutes Clause.subqueries_strip hcc')
      fun body hbody body' hbody' => ih ⟨branch, hbranch⟩ ⟨c, hc⟩ ⟨body, hbody⟩ hbody'
    rw [Strip.strip_append, Strip.strip_append, hinside, strip_reportsOn hcc']

end Alias

/-! ### Unions -/

namespace Union

theorem columns?_strip (clauses : List Clause) : columns? (strip clauses) = columns? clauses := by
  have hnames (items : List (ProjectionItem Expression)) :
      ((strip items).map fun item => item.binding?.map Located.value) =
        items.map fun item => item.binding?.map Located.value := by
    change (items.map strip).map _ = _
    rw [List.map_map]
    refine List.map_congr_left fun item _ => ?_
    rw [Function.comp, ProjectionItem.binding?_strip]
    cases item.binding? <;> rfl
  rw [columns?, columns?, Strip.getLast?_strip]
  cases clauses.getLast? with
  | none => rfl
  | some last =>
    cases last with
    | returnColumns projection span =>
      obtain ⟨distinct, star, items, orderBy, skip, limit⟩ := projection
      simp only [Strip.strip_some, Strip.strip_clause, Strip.strip_items, hnames]
    | _ => simp only [Strip.strip_some, Strip.strip_clause]

/-- Branches behind unions that are the same but for spans. -/
theorem strip_branch_iff {u u' : UnionBranch Clause} :
    strip u = strip u' ↔ u.all = u'.all ∧ strip u.clauses = strip u'.clauses := by
  obtain ⟨all, clauses, span⟩ := u
  obtain ⟨all', clauses', span'⟩ := u'
  simp

theorem strip_columnReports (expected : List (Option String)) {u u' : UnionBranch Clause}
    (h : strip u = strip u') :
    strip (columnReports expected u) = strip (columnReports expected u') := by
  have hcolumns : columns? u.clauses = columns? u'.clauses := by
    rw [← columns?_strip, (strip_branch_iff.1 h).2, columns?_strip]
  rw [columnReports, columnReports, hcolumns]
  split
  · rfl
  · split <;> rfl

theorem strip_formReports {unions unions' : List (UnionBranch Clause)}
    (h : strip unions = strip unions') :
    strip (formReports unions) = strip (formReports unions') := by
  cases unions with
  | nil =>
    obtain rfl := Strip.eq_nil h
    rfl
  | cons first rest =>
    obtain ⟨first', rest', rfl, hhead, -⟩ := Strip.exists_eq_cons h
    have hfirst : first.all = first'.all := (strip_branch_iff.1 hhead).1
    have hfind : strip ((first :: rest).find? fun branch => branch.all ≠ first.all) =
        strip ((first' :: rest').find? fun branch => branch.all ≠ first'.all) := by
      rw [← hfirst]
      refine Strip.eq_of_commutes (Strip.find?_strip fun branch => ?_) h
      cases branch
      rw [Strip.strip_unionBranch]
    simp only [formReports]
    cases hf : (first :: rest).find? fun branch => branch.all ≠ first.all with
    | none =>
      rw [hf] at hfind
      rw [Strip.eq_none hfind]
      rfl
    | some branch =>
      rw [hf] at hfind
      obtain ⟨branch', hf', -⟩ := Strip.exists_eq_some hfind
      rw [hf']
      rfl

/-- **Unions are checked alike** wherever they stand. -/
theorem strip_queryReports {query query' : Query} (h : strip query = strip query') :
    strip (queryReports query) = strip (queryReports query') := by
  obtain ⟨clauses, unions, span⟩ := query
  obtain ⟨clauses', unions', span'⟩ := query'
  rw [Strip.strip_query, Strip.strip_query] at h
  injection h with hclauses hunions
  have hcolumns : columns? clauses = columns? clauses' := by
    rw [← columns?_strip, hclauses, columns?_strip]
  simp only [queryReports, Strip.strip_append, hcolumns]
  rw [strip_formReports hunions]
  split
  · rfl
  · rw [Strip.flatMap_eq hunions fun _ _ _ => strip_columnReports _]

theorem strip_reports {document document' : Document} (h : strip document = strip document') :
    strip (reports document) = strip (reports document') :=
  Strip.flatMap_eq (Strip.eq_of_commutes (Strip.filterMap_strip Node.query?_strip)
    (Strip.eq_of_commutes Document.nodes_strip h)) fun _ _ _ => strip_queryReports

end Union

/-! ### Old forms -/

namespace Deprecation

theorem oldTest?_strip (e : Expression) : oldTest? (strip e) = strip (oldTest? e) := by
  cases e with
  | call name distinct arguments span =>
    simp only [Strip.strip_expression]
    rcases arguments with _ | ⟨argument, _ | ⟨second, rest⟩⟩
    · rfl
    · cases argument with
      | property =>
        simp only [Strip.strip_cons, Strip.strip_nil, Strip.strip_expression, oldTest?]
        split <;> rfl
      | _ =>
        simp only [Strip.strip_cons, Strip.strip_nil, Strip.strip_expression, oldTest?]
        rfl
    · have hmany (a b : Expression) (rest : List Expression) (span : Span) :
          oldTest? (.call name distinct (a :: b :: rest) span) = none := by
        cases a <;> rfl
      rw [Strip.strip_cons, Strip.strip_cons, hmany, hmany]
      rfl
  | _ =>
    simp only [Strip.strip_expression, oldTest?]
    rfl

/-- **Old forms are advised against alike** wherever they stand. -/
theorem strip_reports {document document' : Document} (h : strip document = strip document') :
    strip (reports document) = strip (reports document') := by
  have hexpressions := Strip.eq_of_commutes (Strip.filterMap_strip Node.expression?_strip)
    (Strip.eq_of_commutes Document.nodes_strip h)
  have hspans := Strip.eq_of_commutes (Strip.filterMap_strip oldTest?_strip) hexpressions
  have hreports (d : Document) : reports d =
      ((d.nodes.filterMap Node.expression?).filterMap oldTest?).map advice := by
    rw [List.map_filterMap]
    rfl
  have hadvice (spans : List Span) : strip (spans.map advice) = (strip spans).map advice := by
    change (spans.map advice).map strip = (spans.map strip).map advice
    rw [List.map_map, List.map_map]
    rfl
  rw [hreports, hreports, hadvice, hspans, hadvice]

end Deprecation

/-! ### Layout -/

/-- **A document is checked alike** wherever its parts stand. -/
theorem Validator.strip_reportsOf (rules : Rules) (checks : Checks) {document document' : Document}
    (h : strip document = strip document') :
    strip (reportsOf rules checks document) = strip (reportsOf rules checks document') := by
  have hqueries := Strip.eq_of_commutes Document.queries_strip h
  have horder := Strip.flatMap_eq
    (f := fun query => (Order.checkQuery rules.ordering .statement query).reports) hqueries
    fun _ _ _ => Order.strip_reports_checkQuery .statement
  have haliases := Strip.flatMap_eq hqueries fun _ _ _ => Alias.strip_reports_checkQuery .statement
  have hon {enabled : Bool} {ds ds' : List Diagnostic} (h : strip ds = strip ds') :
      strip (ifOn enabled ds) = strip (ifOn enabled ds') := by
    cases enabled
    · rfl
    · exact h
  simp only [reportsOf, Strip.strip_append]
  rw [hon horder, hon haliases, hon (Union.strip_reports h), hon (Deprecation.strip_reports h)]

/-- **What some options make of tokens**, behind what a log has already: the document that is read
from them, and the problems of reading and of the checks. -/
def readAndCheck (tokens : List Token) (options : Options) (log : Log) : Parsed :=
  let reading := parseTokens tokens options
  let log := log.extend reading.problems
  match reading.document with
  | none => .ofLog none log
  | some document =>
    let (_, log) := (Validator.ofDialect options.dialect).validate document reading.scopes log
    .ofLog (some document) log

/-- A text is its tokens read and checked behind its lexical problems. -/
theorem parse_eq_readAndCheck (source : String) (options : Options) :
    parse source options =
      readAndCheck (tokenize source options.dialect).tokens options
        (Log.empty.extend (tokenize source options.dialect).problems) := by
  unfold parse readAndCheck
  rfl

theorem readAndCheck_of_none {tokens : List Token} {options : Options}
    (h : (parseTokens tokens options).document = none) (log : Log) :
    readAndCheck tokens options log =
      .ofLog none (log.extend (parseTokens tokens options).problems) := by
  unfold readAndCheck
  dsimp only
  rw [h]

theorem readAndCheck_of_some {tokens : List Token} {options : Options} {document : Document}
    (h : (parseTokens tokens options).document = some document) (log : Log) :
    readAndCheck tokens options log =
      .ofLog (some document) ((log.extend (parseTokens tokens options).problems).extend
        (Validator.reportsOf options.dialect.rules (.ofRules options.dialect.rules) document)) := by
  unfold readAndCheck
  dsimp only
  rw [h]
  dsimp only
  rw [Validator.validate_eq_extend]
  rfl

instance : Strip Log := ⟨fun log => ⟨strip log.entries⟩⟩

/-- Logs that are the same but for spans are so behind reports that are. -/
theorem Log.strip_extend {log log' : Log} {ds ds' : List Diagnostic} (h : strip log = strip log')
    (hds : strip ds = strip ds') : strip (log.extend ds) = strip (log'.extend ds') := by
  injection h with hentries
  change Log.mk (strip (log.entries ++ ds)) = Log.mk (strip (log'.entries ++ ds'))
  rw [Strip.strip_append, Strip.strip_append, hentries, hds]

/-- Whether there are errors in a log is not a matter of places. -/
theorem Log.hasErrors_strip (log : Log) : (strip log).hasErrors = log.hasErrors :=
  List.any_map.trans (congrArg log.entries.any (funext Diagnostic.isError_strip))

/-- Results are the same but for spans if their documents and logs are. -/
theorem Parsed.strip_ofLog {document document' : Option Document} {log log' : Log}
    (hd : strip document = strip document') (hl : strip log = strip log') :
    let result := ofLog document log
    let result' := ofLog document' log'
    strip result.document = strip result'.document ∧
      strip result.diagnostics = strip result'.diagnostics ∧
      result.hasErrors = result'.hasErrors := by
  refine ⟨hd, congrArg Log.entries hl, ?_⟩
  change log.hasErrors = log'.hasErrors
  rw [← log.hasErrors_strip, hl, log'.hasErrors_strip]

/-- **Layout does not affect the parse.** Two lists of tokens that agree in kinds and texts,
wherever the tokens stand, lead to the same document but for spans, or both to none; and to
diagnostics that differ in nothing but the stretches their labels point at. -/
theorem strip_readAndCheck {first second : List Token}
    (h : List.Forall₂ (fun t u => t.kind = u.kind ∧ t.lexeme = u.lexeme) first second)
    (options : Options) (log : Log) :
    strip (readAndCheck first options log).document =
        strip (readAndCheck second options log).document ∧
      strip (readAndCheck first options log).diagnostics =
        strip (readAndCheck second options log).diagnostics ∧
      (readAndCheck first options log).hasErrors = (readAndCheck second options log).hasErrors := by
  have htokens : strip first = strip second := by
    induction h with
    | nil => rfl
    | cons htu _ ih => rw [Strip.strip_cons, Strip.strip_cons, Token.strip_eq_iff.2 htu, ih]
  have hreading := strip_parseTokens htokens options
  injection hreading with hdocument hproblems
  have hlog : strip (log.extend (parseTokens first options).problems) =
      strip (log.extend (parseTokens second options).problems) := Log.strip_extend rfl hproblems
  cases hfirst : (parseTokens first options).document with
  | none =>
    rw [hfirst] at hdocument
    rw [readAndCheck_of_none hfirst, readAndCheck_of_none (Strip.eq_none hdocument)]
    exact Parsed.strip_ofLog rfl hlog
  | some d =>
    rw [hfirst] at hdocument
    obtain ⟨d', hsecond, hd⟩ := Strip.exists_eq_some hdocument
    rw [readAndCheck_of_some hfirst, readAndCheck_of_some hsecond]
    exact Parsed.strip_ofLog (congrArg some hd)
      (Log.strip_extend hlog (Validator.strip_reportsOf _ _ hd))

/-- Two columns of one name, written in order and scattered backwards over other lines. -/
theorem strip_readAndCheck_scattered :
    let first : List Token :=
      [⟨.keyword .RETURN, "RETURN", ⟨0, 6⟩, 1, 1⟩, ⟨.identifier "n", "n", ⟨7, 8⟩, 1, 8⟩,
        ⟨.sign .comma, ",", ⟨8, 9⟩, 1, 9⟩, ⟨.identifier "n", "n", ⟨10, 11⟩, 1, 11⟩]
    let second : List Token :=
      [⟨.keyword .RETURN, "RETURN", ⟨90, 96⟩, 8, 1⟩, ⟨.identifier "n", "n", ⟨40, 41⟩, 5, 3⟩,
        ⟨.sign .comma, ",", ⟨2, 3⟩, 1, 3⟩, ⟨.identifier "n", "n", ⟨0, 1⟩, 1, 1⟩]
    List.Forall₂ (fun t u => t.kind = u.kind ∧ t.lexeme = u.lexeme) first second ∧
      strip (readAndCheck first .standard .empty).diagnostics =
        strip (readAndCheck second .standard .empty).diagnostics ∧
      (readAndCheck first .standard .empty).diagnostics ≠
        (readAndCheck second .standard .empty).diagnostics := by
  intro first second
  have h : List.Forall₂ (fun t u => t.kind = u.kind ∧ t.lexeme = u.lexeme) first second := by
    simp [first, second]
  exact ⟨h, (strip_readAndCheck h .standard .empty).2.1, by decide +kernel⟩

end Cypher
