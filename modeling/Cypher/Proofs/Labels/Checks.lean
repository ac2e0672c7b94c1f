import Cypher.Proofs.Labels.Rule
import Cypher.Proofs.Modes
import Cypher.Proofs.Nodes
import Cypher.Proofs.Seclusion
import Cypher.Proofs.Switches

/-!
# All diagnostics are well formed

The checks point at clauses, at the names of columns, at branches behind unions and at expressions,
also in their secondary labels. All of these are elements of the document, and the elements of a
document that has been read from a text are laid out well in it. So the reports of a validator are
well placed, as the problems of the lexer and of the grammar are.

Together this is the form of all that is said about a text (`Cypher.wellFormed_diagnostics`): every
diagnostic has a code and a label, all labels lie within the text, warnings are the advice against
old forms, and the three stages come one after the other.
-/

namespace Cypher

variable {fit : Nat → Prop}

/-- The span of an element that is laid out well fits. -/
theorem Element.Laid.fits {e : Element} (h : e.Laid fit) : e.span.Fits fit :=
  ⟨h.ordered, h.fit_start, h.fit_stop⟩

/-! ### What the checks get to see -/

/-- The subqueries found in some trees are inside them. -/
theorem Node.within_of_mem_subqueries {nodes : List Node} {body : Query}
    (h : body ∈ subqueries nodes) : ∃ n ∈ nodes, n.element.Within (.query body) := by
  fun_induction subqueries nodes with
  | case1 => cases h
  | case2 rest inner ih =>
    rcases List.mem_cons.1 h with rfl | h
    · exact ⟨_, List.mem_cons_self, .refl⟩
    · obtain ⟨n, hn, hw⟩ := ih h
      exact ⟨n, List.mem_cons_of_mem _ hn, hw⟩
  | case3 rest n _ ih =>
    obtain ⟨c, hc, hw⟩ := ih h
    rcases List.mem_append.1 hc with hc | hc
    · exact ⟨n, List.mem_cons_self, (within_of_mem_children hc).trans hw⟩
    · exact ⟨c, List.mem_cons_of_mem n hc, hw⟩

/-- The subqueries in a clause are laid out well with it. -/
theorem Element.Laid.subquery {c : Clause} {body : Query} (h : (Element.clause c).Laid fit)
    (hbody : body ∈ c.subqueries) : (Element.query body).Laid fit := by
  obtain ⟨n, hn, hw⟩ := Node.within_of_mem_subqueries hbody
  exact h.within ((Node.within_of_mem_children (n := .clause c) hn).trans hw)

/-- The clauses in a query are laid out well with it. -/
theorem Element.Laid.clause {query : Query} {branch : List Clause} {c : Clause}
    (h : (Element.query query).Laid fit) (hbranch : branch ∈ query.branches) (hc : c ∈ branch) :
    (Element.clause c).Laid fit := by
  refine h.within (Node.within_of_mem_children (n := .query query) (c := .clause c) ?_)
  exact List.mem_map.2 ⟨c, List.mem_flatten.2 ⟨branch, hbranch, hc⟩, rfl⟩

/-! ### The order of clauses -/

namespace Order

open Check

theorem placed_misplaced {c : Clause} (h : (Element.clause c).Laid fit) (state : OrderState) :
    (misplaced c state).Placed fit := by
  simp only [misplaced]
  split <;> exact Diagnostic.placed_of_label rfl h.fits

theorem placed_unfinished {c : Clause} (h : (Element.clause c).Laid fit) :
    (unfinished c).Placed fit := Diagnostic.placed_of_label rfl h.fits

variable {table : OrderingTable} {clauses : List Clause}

theorem placed_of_mem_reportsAlong {reached : Reached} {d : Diagnostic}
    (hlaid : ∀ c ∈ clauses, (Element.clause c).Laid fit)
    (hinside : ∀ c ∈ clauses, ∀ body ∈ c.subqueries,
      ∀ d ∈ (checkQuery table .subquery body).reports, d.Placed fit)
    (hd : d ∈ reportsAlong table reached (withInside table clauses)) : d.Placed fit := by
  induction clauses generalizing reached with
  | nil => cases hd
  | cons c cs ih =>
    rcases List.mem_append.1 hd with hd | hd
    · rcases List.mem_append.1 hd with hd | hd
      · unfold reportsOn at hd
        split at hd
        · cases hd
        · split at hd
          · cases hd
          · exact List.mem_singleton.1 hd ▸ placed_misplaced (hlaid c List.mem_cons_self) _
      · obtain ⟨body, hbody, hd⟩ := List.mem_flatMap.1 hd
        exact hinside c List.mem_cons_self body hbody d hd
    · exact ih (fun c hc => hlaid c (List.mem_cons_of_mem _ hc))
        (fun c hc => hinside c (List.mem_cons_of_mem _ hc)) hd

theorem placed_of_mem_reportsAtEnd {kind : ScopeKind} {lone : Bool} {reached : Reached}
    {d : Diagnostic} (hlaid : ∀ c ∈ clauses, (Element.clause c).Laid fit)
    (hd : d ∈ reportsAtEnd table kind lone reached clauses) : d.Placed fit := by
  unfold reportsAtEnd at hd
  split at hd
  · split at hd
    · cases hd
    · next last hlast =>
      split at hd
      · cases hd
      · have hmem : last ∈ clauses := List.mem_of_mem_filter (List.mem_of_getLast? hlast)
        exact List.mem_singleton.1 hd ▸ placed_unfinished (hlaid last hmem)
  · cases hd

/-- **Reports on the order of clauses are well placed.** -/
theorem placed_of_mem_checkQuery {kind : ScopeKind} {query : Query} {d : Diagnostic}
    (hlaid : (Element.query query).Laid fit) (hd : d ∈ (checkQuery table kind query).reports) :
    d.Placed fit := by
  rw [reports_checkQuery_eq] at hd
  obtain ⟨branch, hbranch, hd⟩ := List.mem_flatMap.1 hd
  have hclauses (c : Clause) (hc : c ∈ branch) := hlaid.clause hbranch hc
  rcases List.mem_append.1 hd with hd | hd
  · exact placed_of_mem_reportsAlong hclauses (fun c hc body hbody d hd =>
      placed_of_mem_checkQuery ((hclauses c hc).subquery hbody) hd) hd
  · exact placed_of_mem_reportsAtEnd hclauses hd
termination_by sizeOf query
decreasing_by exact QueryOf.sizeOf_subquery_lt hbranch hc hbody

end Order

/-! ### The names that projections bind -/

/-- The name that a column binds is marked where the column has it. -/
theorem ProjectionItem.fits_binding? {column : ProjectionItem Expression} {name : Ident}
    (h : (Element.item column).Laid fit) (hname : column.binding? = some name) :
    name.span.Fits fit := by
  obtain ⟨value, rename, span⟩ := column
  cases rename with
  | some given =>
    cases hname
    exact (h.within (.single (List.mem_append_right _ List.mem_cons_self))).fits
  | none =>
    have hvalue : (Element.expression value).Laid fit :=
      h.within (.single (List.mem_append_left _ List.mem_cons_self))
    cases value <;> cases hname
    exact hvalue.fits

namespace Alias

open Check

/-- A report on names is about one of them and an earlier one. -/
theorem exists_of_mem_duplicatesAfter {seen names : List Ident} {d : Diagnostic}
    (h : d ∈ duplicatesAfter seen names) :
    ∃ x ∈ seen ++ names, ∃ y ∈ seen ++ names, d = duplicate x y.span := by
  induction names generalizing seen with
  | nil => cases h
  | cons name names ih =>
    rw [duplicatesAfter] at h
    split at h
    · next first hfirst =>
      have hmem : first ∈ seen := List.mem_of_find?_eq_some hfirst
      rcases List.mem_cons.1 h with rfl | h
      · exact ⟨name, by simp, first, by simp [hmem], rfl⟩
      · obtain ⟨x, hx, y, hy, rfl⟩ := ih h
        have hsub : seen ++ names ⊆ seen ++ name :: names := by simp
        exact ⟨x, hsub hx, y, hsub hy, rfl⟩
    · obtain ⟨x, hx, y, hy, rfl⟩ := ih h
      exact ⟨x, by simpa using hx, y, by simpa using hy, rfl⟩

/-- The reports on a clause itself are well placed. -/
theorem placed_of_mem_reportsOn {c : Clause} (h : (Element.clause c).Laid fit) {d : Diagnostic}
    (hd : d ∈ reportsOn c) : d.Placed fit := by
  have hname {x : Ident} (hx : x ∈ [] ++ (Node.ofClause c).filterMap Node.binding?) :
      x.span.Fits fit := by
    obtain ⟨n, hn, hx⟩ := List.mem_filterMap.1 hx
    cases n with
    | item column =>
      exact ProjectionItem.fits_binding?
        (h.within (Node.within_of_mem_children (n := .clause c) (c := .item column) hn)) hx
    | _ => cases hx
  rw [reportsOn_eq] at hd
  obtain ⟨x, hx, y, hy, rfl⟩ := exists_of_mem_duplicatesAfter hd
  exact Diagnostic.placed_of_labels rfl (hname hx) (hname hy)

/-- **Reports on the names that projections bind are well placed.** -/
theorem placed_of_mem_checkQuery {kind : ScopeKind} {query : Query} {d : Diagnostic}
    (hlaid : (Element.query query).Laid fit) (hd : d ∈ (checkQuery kind query).reports) :
    d.Placed fit := by
  rw [reports_checkQuery_eq] at hd
  obtain ⟨branch, hbranch, hd⟩ := List.mem_flatMap.1 hd
  obtain ⟨c, hc, hd⟩ := List.mem_flatMap.1 hd
  rcases List.mem_append.1 hd with hd | hd
  · obtain ⟨body, hbody, hd⟩ := List.mem_flatMap.1 hd
    exact placed_of_mem_checkQuery ((hlaid.clause hbranch hc).subquery hbody) hd
  · exact placed_of_mem_reportsOn (hlaid.clause hbranch hc) hd
termination_by sizeOf query
decreasing_by exact QueryOf.sizeOf_subquery_lt hbranch hc hbody

end Alias

/-! ### Unions -/

namespace Union

/-- **Reports on the unions of a query are well placed.** -/
theorem placed_of_mem_queryReports {query : Query} {d : Diagnostic}
    (hlaid : (Element.query query).Laid fit) (hd : d ∈ queryReports query) : d.Placed fit := by
  have hbranch {u : UnionBranch Clause} (hu : u ∈ query.unions) : u.span.Fits fit := by
    have hinside : (Element.branch u).Laid fit :=
      hlaid.within (.single (List.mem_append_right _
        (List.mem_flatMap.2 ⟨u, hu, List.mem_cons_self⟩)))
    exact hinside.fits
  rcases List.mem_append.1 hd with hd | hd
  · unfold formReports at hd
    split at hd
    · cases hd
    · next first rest hunions =>
      obtain ⟨u, hu, rfl⟩ := Option.map_eq_some_iff.1 (Option.mem_toList.1 hd)
      exact Diagnostic.placed_of_labels rfl (hbranch (List.mem_of_find?_eq_some hu))
        (hbranch (hunions ▸ List.mem_cons_self))
  · split at hd
    · cases hd
    · obtain ⟨u, hu, hd⟩ := List.mem_flatMap.1 hd
      unfold columnReports at hd
      split at hd
      · cases hd
      · split at hd
        · cases hd
        · exact List.mem_singleton.1 hd ▸ Diagnostic.placed_of_label rfl (hbranch hu)

end Union

/-- An old test is marked as a whole. -/
theorem Deprecation.span_of_oldTest? {e : Expression} {span : Span}
    (h : oldTest? e = some span) : span = e.span := by
  unfold oldTest? at h
  split at h
  · split at h
    · exact (Option.some.inj h).symm
    · cases h
  · cases h

/-! ### All checks -/

/-- **The reports of a validator on a document are well placed** if the document is laid out
well. -/
theorem Validator.placed_of_mem_reportsOf {rules : Rules} {checks : Checks} {document : Document}
    (hlaid : (Element.document document).Laid fit) {d : Diagnostic}
    (hd : d ∈ reportsOf rules checks document) : d.Placed fit := by
  have hnode {n : Node} (hn : n ∈ document.nodes) : n.element.Laid fit :=
    hlaid.within (Document.within_of_mem_nodes hn)
  have hquery {query : Query} (hq : query ∈ document.queries) : (Element.query query).Laid fit := by
    obtain ⟨statement, hs, hq⟩ := List.mem_filterMap.1 hq
    have hstatement : (Element.statement statement).Laid fit :=
      hlaid.within (.single (List.mem_flatMap.2 ⟨statement, hs, List.mem_cons_self⟩))
    cases statement with
    | query q =>
      cases hq
      exact hstatement.within (.single List.mem_cons_self)
    | error span => cases hq
  have hon {enabled : Bool} {ds : List Diagnostic} (h : d ∈ ifOn enabled ds) : d ∈ ds := by
    cases enabled
    · cases h
    · exact h
  rcases List.mem_append.1 hd with hd | hd
  · obtain ⟨query, hq, hd⟩ := List.mem_flatMap.1 (hon hd)
    exact Order.placed_of_mem_checkQuery (hquery hq) hd
  rcases List.mem_append.1 hd with hd | hd
  · obtain ⟨query, hq, hd⟩ := List.mem_flatMap.1 (hon hd)
    exact Alias.placed_of_mem_checkQuery (hquery hq) hd
  rcases List.mem_append.1 hd with hd | hd
  · obtain ⟨query, hq, hd⟩ := List.mem_flatMap.1 (hon hd)
    obtain ⟨n, hn, hq⟩ := List.mem_filterMap.1 hq
    cases n <;> cases hq
    exact Union.placed_of_mem_queryReports (hnode hn) hd
  · obtain ⟨e, he, hd⟩ := List.mem_filterMap.1 (hon hd)
    obtain ⟨n, hn, he⟩ := List.mem_filterMap.1 he
    cases n <;> cases he
    obtain ⟨span, hspan, rfl⟩ := Option.map_eq_some_iff.1 hd
    rw [Deprecation.span_of_oldTest? hspan]
    exact Diagnostic.placed_of_label rfl (hnode hn).fits

/-! ### Severity -/

/-- **A diagnostic with a code**, and which is a warning just if it is the advice against old
forms. -/
structure Diagnostic.Graded (d : Diagnostic) : Prop where
  /-- There is a code. -/
  coded : d.code.isSome
  /-- Old forms are all that is warned about. -/
  warning_iff : d.severity = .warning ↔ d.code = some .deprecated

/-- Errors with another code are graded. -/
theorem Diagnostic.graded_of_isError {d : Diagnostic} {code : Code} (hcode : d.code = some code)
    (herror : d.isError = true) (hne : code ≠ .deprecated) : d.Graded := by
  have hseverity : d.severity = .error := of_decide_eq_true herror
  refine ⟨by rw [hcode]; rfl, ?_⟩
  rw [hseverity, hcode]
  simp [hne]

/-- The errors of the first two stages are graded. -/
theorem Diagnostic.IsErrorOf.graded {d : Diagnostic} {family : Family} (h : d.IsErrorOf family)
    (hf : family ≠ .semantic) : d.Graded := by
  obtain ⟨code, hcode, hfamily⟩ := Option.map_eq_some_iff.1 h.1
  refine Diagnostic.graded_of_isError hcode h.2 fun hdeprecated => ?_
  rw [hdeprecated] at hfamily
  exact hf hfamily.symm

theorem Diagnostic.IsErrorAmong.graded {d : Diagnostic} {codes : List Code}
    (h : d.IsErrorAmong codes) (hc : .deprecated ∉ codes) : d.Graded := by
  obtain ⟨⟨code, hmem, hcode⟩, herror⟩ := h
  exact Diagnostic.graded_of_isError hcode herror fun hdeprecated => hc (hdeprecated ▸ hmem)

namespace Validator

/-- The checks of a validator make graded reports. -/
theorem reports_graded (v : Validator) (document : Document) :
    (v.check document).Reports Diagnostic.Graded := by
  refine (reports_onlyIf ((reports_order _ _).mono fun _ hd => hd.graded (by decide))).bind
    fun _ => ?_
  refine (reports_onlyIf ((reports_aliases _).mono fun _ hd => hd.graded (by decide))).bind
    fun _ => ?_
  refine (reports_onlyIf ((reports_unions _).mono fun _ hd => hd.graded (by decide))).bind
    fun _ => ?_
  refine reports_onlyIf (Check.reports_reportAll fun d hd => ?_)
  obtain ⟨e, -, hd⟩ := List.mem_filterMap.1 hd
  obtain ⟨span, -, rfl⟩ := Option.map_eq_some_iff.1 hd
  exact ⟨rfl, iff_of_true rfl rfl⟩

end Validator

/-! ### Stages -/

/-- What is found in a text, stage by stage. -/
theorem exists_stages (source : String) (options : Options) :
    ∃ reports, (parse source options).diagnostics =
      (tokenize source options.dialect).problems ++
        (parseTokens (tokenize source options.dialect).tokens options).problems ++ reports ∧
      ∀ d ∈ reports, d.family? = some .semantic ∧ d.Graded ∧
        d.Placed (Text.IsOffset source.toList) := by
  cases hread : parseTokens (tokenize source options.dialect).tokens options with
  | mk document problems scopes =>
    cases document with
    | none =>
      refine ⟨[], ?_, fun _ hd => absurd hd List.not_mem_nil⟩
      rw [parse_of_none hread, List.append_nil]
      rfl
    | some document =>
      have hlaid : (Element.document document).Laid (Text.IsOffset source.toList) := by
        have h0 : Text.IsOffset source.toList 0 := Text.isOffset_append [] source.toList
        have htokens := (follow_tokenize source options.dialect).laid_ofTokens h0
        have hdocument := congrArg Grammar.Reading.document hread
        exact Grammar.laid_of_read h0 htokens hdocument
      refine ⟨_, congrArg Parsed.diagnostics (parse_of_document hread), fun d hd => ?_⟩
      refine ⟨Validator.reports_check _ document scopes d hd,
        Validator.reports_graded _ document scopes d hd, ?_⟩
      rw [Validator.run_check] at hd
      exact Validator.placed_of_mem_reportsOf hlaid hd

/-- **A diagnostic that is well formed** for a text. -/
structure Diagnostic.WellFormed (text : List Char) (d : Diagnostic) : Prop where
  /-- There is a code. -/
  coded : d.code.isSome
  /-- There is a label. -/
  labelled : d.labels ≠ []
  /-- Every label marks a stretch of the text between two of its characters. -/
  within : ∀ l ∈ d.labels, l.span.start ≤ l.span.stop ∧ l.span.stop ≤ Text.size text ∧
    Text.isBoundary text l.span.start = true ∧ Text.isBoundary text l.span.stop = true
  /-- Old forms are all that is warned about. -/
  warning_iff : d.severity = .warning ↔ d.code = some .deprecated

theorem Diagnostic.Graded.wellFormed {text : List Char} {d : Diagnostic} (h : d.Graded)
    (hp : d.Placed (Text.IsOffset text)) : d.WellFormed text :=
  ⟨h.coded, hp.labelled, fun l hl =>
    let ⟨ordered, start, stop⟩ := hp.fits l hl
    ⟨ordered, stop.1, start.2, stop.2⟩, h.warning_iff⟩

/-- The diagnostics that one stage reports. -/
def Parsed.ofFamily (result : Parsed) (family : Family) : List Diagnostic :=
  result.diagnostics.filter fun d => d.family? = some family

/-- A list of diagnostics of three stages in a row is in order of the stages. -/
theorem filter_family_append {lexical grammatical semantic : List Diagnostic}
    (hl : ∀ d ∈ lexical, d.family? = some .lexical)
    (hg : ∀ d ∈ grammatical, d.family? = some .grammatical)
    (hs : ∀ d ∈ semantic, d.family? = some .semantic) (family : Family) :
    (lexical ++ grammatical ++ semantic).filter (fun d => d.family? = some family) =
      match family with
      | .lexical => lexical
      | .grammatical => grammatical
      | .semantic => semantic := by
  have hall {own family : Family} {ds : List Diagnostic}
      (h : ∀ d ∈ ds, d.family? = some own) :
      ds.filter (fun d => d.family? = some family) = if own = family then ds else [] := by
    split
    · next heq => exact List.filter_eq_self.2 fun d hd => by simp [h d hd, heq]
    · next hne => exact List.filter_eq_nil_iff.2 fun d hd => by simp [h d hd, hne]
  rw [List.filter_append, List.filter_append, hall hl, hall hg, hall hs]
  cases family <;> simp

/-- **All diagnostics are well formed, and they come stage by stage**: first those of the lexer,
then those of the grammar, then those of the checks. -/
theorem wellFormed_diagnostics (source : String) (options : Options) :
    (∀ d ∈ (parse source options).diagnostics, d.WellFormed source.toList) ∧
      (parse source options).diagnostics =
        (parse source options).ofFamily .lexical ++ (parse source options).ofFamily .grammatical ++
          (parse source options).ofFamily .semantic := by
  obtain ⟨reports, hall, hreports⟩ := exists_stages source options
  have hlexical (d : Diagnostic) (hd : d ∈ (tokenize source options.dialect).problems) :=
    Piece.isErrorOf_of_mem_allProblems hd
  have hgrammatical (d : Diagnostic)
      (hd : d ∈ (parseTokens (tokenize source options.dialect).tokens options).problems) :=
    Grammar.isErrorOf_of_mem_problems hd
  constructor
  · intro d hd
    rw [hall] at hd
    rcases List.mem_append.1 hd with hd | hd
    · rcases List.mem_append.1 hd with hd | hd
      · exact ((hlexical d hd).graded (by decide)).wellFormed (placed_of_mem_tokenize hd)
      · exact ((hgrammatical d hd).graded (by decide)).wellFormed (placed_of_mem_parseTokens hd)
    · obtain ⟨-, hgraded, hplaced⟩ := hreports d hd
      exact hgraded.wellFormed hplaced
  · have hfamily := filter_family_append (fun d hd => (hlexical d hd).1)
      (fun d hd => (hgrammatical d hd).1) fun d hd => (hreports d hd).1
    simp only [Parsed.ofFamily, hall, hfamily]

/-- One problem of each stage: a form inside a string behind a character of two bytes, a branch
that the end of the text cuts off, and a name that an earlier column has. -/
example :
    (parse "RETURN 'é\\d' AS a, 1 AS a UNION" ⟨true, .neo4j5, 128⟩).diagnostics.map
        (fun d => (d.code, d.labels.map Label.span)) =
      [(some .invalidEscape, [⟨10, 12⟩]), (some .invalidClauseComposition, [⟨32, 32⟩]),
        (some .aliasConflict, [⟨25, 26⟩, ⟨17, 18⟩])] := by decide +kernel

end Cypher
