import Cypher.Proofs.Outline
import Cypher.Proofs.Sealed
import Mathlib.Logic.IsEmpty.Basic

/-!
# Subqueries are checked on their own

What a check reports on the body of a subquery does not depend on what is around the body, and what
it reports on the rest does not depend on the body. For a family of documents that vary in one body
(`Cypher.Node.Varies`) this takes the form of a frame: the reports on each document are the same
list, in which the reports on its body, as a query outside all scopes, stand at the same place
(`Cypher.Framed`).

Frames compose, so the proof goes one level of subqueries at a time. At one level the families vary
in one clause of one branch (`Cypher.Node.Spot`), and of this clause the check of the order of
clauses sees its outline only, while the check of names also sees the names that its columns bind.
Both are the same throughout the family.
-/

namespace Cypher

variable {ι : Type}

/-! ### Frames -/

/-- **Lists in one frame**: they are the same but for the parts that are given. -/
def Framed {α : Type} (parts wholes : ι → List α) : Prop :=
  ∃ before after, ∀ i, wholes i = before ++ parts i ++ after

namespace Framed

variable {α β : Type} {parts middle wholes : ι → List α}

theorem trans (h : Framed parts middle) (h' : Framed middle wholes) : Framed parts wholes := by
  obtain ⟨before, after, hm⟩ := h
  obtain ⟨before', after', hw⟩ := h'
  exact ⟨before' ++ before, after ++ after', fun i => by simp [hw i, hm i]⟩

/-- What is around the parts is the same in all lists. -/
theorem of_eq {before after : ι → List α} (i : ι)
    (h : ∀ j, wholes j = before j ++ parts j ++ after j) (hb : ∀ j, before j = before i)
    (ha : ∀ j, after j = after i) : Framed parts wholes :=
  ⟨before i, after i, fun j => by rw [h j, hb j, ha j]⟩

/-- What is made from the members of lists that differ in one member. -/
theorem flatMap {members : ι → List β} {before after : List β} {member : ι → β}
    (h : ∀ i, members i = before ++ member i :: after) (f : β → List α) :
    Framed (fun i => f (member i)) fun i => (members i).flatMap f :=
  ⟨before.flatMap f, after.flatMap f, fun i => by simp [h i]⟩

end Framed

/-! ### What the checks see of a clause -/

section Outline

open Node

variable (clause : Clause)

@[simp] theorem kind_outlineClause : (outlineClause clause).kind = clause.kind := by
  cases clause <;> rfl

@[simp] theorem span_outlineClause : (outlineClause clause).span = clause.span := by
  cases clause <;> rfl

@[simp] theorem isError_outlineClause : (outlineClause clause).isError = clause.isError := by
  cases clause <;> rfl

@[simp] theorem yields_outlineClause : (outlineClause clause).yields = clause.yields := by
  cases clause <;> rfl

end Outline

namespace Order

open Node

variable (table : OrderingTable)

@[simp] theorem reportsOn_outlineClause (state : OrderState) (clause : Clause) :
    reportsOn table state (outlineClause clause) = reportsOn table state clause := by
  simp [reportsOn, misplaced]

@[simp] theorem onward_outlineClause (reached : Reached) (clause : Clause) :
    reached.onward table (outlineClause clause) = reached.onward table clause := by
  simp [Reached.onward]

theorem readable_outlines (clauses : List Clause) :
    readable (clauses.map outlineClause) = (readable clauses).map outlineClause := by
  simp [readable, List.filter_map, Function.comp_def]

theorem isLoneCall_outlines (clauses : List Clause) :
    isLoneCall (clauses.map outlineClause) = isLoneCall clauses := by
  unfold isLoneCall
  rw [readable_outlines]
  rcases readable clauses with _ | ⟨c, _ | ⟨d, _ | ⟨e, rest⟩⟩⟩
  · rfl
  · cases c <;> rfl
  · cases c <;> cases d <;> rfl
  · cases c <;> cases d <;> rfl

theorem foldl_outlines (clauses : List Clause) (reached : Reached) :
    (clauses.map outlineClause).foldl (Reached.onward table) reached =
      clauses.foldl (Reached.onward table) reached := by
  simp [List.foldl_map]

/-- The end of a branch is judged by the outlines of its clauses. -/
theorem reportsAtEnd_outlines (kind : ScopeKind) (lone : Bool) (reached : Reached)
    (clauses : List Clause) :
    reportsAtEnd table kind lone reached (clauses.map outlineClause) =
      reportsAtEnd table kind lone reached clauses := by
  unfold reportsAtEnd
  rw [isLoneCall_outlines, readable_outlines, List.getLast?_map]
  cases (readable clauses).getLast? with
  | none => rfl
  | some last => simp [unfinished]

theorem reportsAlong_append (clauses : List Clause) (reached : Reached)
    (rest : List (Clause × List Diagnostic)) :
    reportsAlong table reached (withInside table clauses ++ rest) =
      reportsAlong table reached (withInside table clauses) ++
        reportsAlong table (clauses.foldl (Reached.onward table) reached) rest := by
  induction clauses generalizing reached with
  | nil => rfl
  | cons clause clauses ih =>
    simp only [withInside, List.map_cons, List.cons_append, reportsAlong, List.foldl_cons,
      List.append_assoc]
    exact congrArg _ (congrArg _ (ih _))

/-- The reports on a branch around what is inside one of its clauses. -/
theorem reportsOnBranch_eq (kind : ScopeKind) (lone : Bool) (first : List Clause) (clause : Clause)
    (last : List Clause) :
    let reached := first.foldl (Reached.onward table) .start
    reportsOnBranch table kind lone (first ++ clause :: last) =
      (reportsAlong table .start (withInside table first) ++
        reportsOn table reached.state clause) ++
      (clause.subqueries.flatMap fun body => (checkQuery table .subquery body).reports) ++
      (reportsAlong table (reached.onward table clause) (withInside table last) ++
        reportsAtEnd table kind lone
          ((first ++ clause :: last).foldl (Reached.onward table) .start)
          (first ++ clause :: last)) := by
  intro reached
  have hsplit : withInside table (first ++ clause :: last) = withInside table first ++
      (clause, clause.subqueries.flatMap fun body => (checkQuery table .subquery body).reports) ::
        withInside table last := by
    simp [withInside]
  rw [reportsOnBranch, hsplit, reportsAlong_append, reportsAlong]
  simp only [List.append_assoc]
  rfl

/-- In a branch whose clauses have the same outlines, only what is inside them makes a
difference. -/
theorem framed_branch {first last : List Clause} {clauses : ι → Clause}
    (houtlines : ∀ i j, outlineClause (clauses i) = outlineClause (clauses j))
    (kind : ScopeKind) (lone : Bool) (i : ι) :
    Framed
      (fun j => (clauses j).subqueries.flatMap fun body =>
        (checkQuery table .subquery body).reports)
      fun j => reportsOnBranch table kind lone (first ++ clauses j :: last) := by
  have hbranch (j : ι) : (first ++ clauses j :: last).map outlineClause =
      (first ++ clauses i :: last).map outlineClause := by
    simp [houtlines j i]
  refine .of_eq i (fun j => reportsOnBranch_eq table kind lone first (clauses j) last)
    (fun j => ?_) fun j => ?_
  · rw [← reportsOn_outlineClause, houtlines j i, reportsOn_outlineClause]
  · rw [← onward_outlineClause, ← foldl_outlines table (first ++ _), ← reportsAtEnd_outlines,
      hbranch, houtlines j i, onward_outlineClause, foldl_outlines, reportsAtEnd_outlines]

/-- **One level**: what the check of the order of clauses reports on queries that vary is the same
but for what it reports on the subqueries that vary. -/
theorem framed_level {queries inner : ι → Query} (spot : Spot queries inner) (kind : ScopeKind)
    (i : ι) :
    Framed (fun j => (checkQuery table .subquery (inner j)).reports)
      fun j => (checkQuery table kind (queries j)).reports := by
  have hqueries : (fun j => (checkQuery table kind (queries j)).reports) = fun j =>
      (queries j).branches.flatMap (reportsOnBranch table kind (queries i).unions.isEmpty) := by
    funext j
    rw [reports_checkQuery_eq, spot.unions j i]
  rw [hqueries]
  exact ((Framed.flatMap spot.subqueries _).trans
    (framed_branch table spot.outlines kind _ i)).trans (.flatMap spot.branches _)

end Order

namespace Alias

open Node

theorem binding?_expressions {α : Type} (f : α → Expression) (xs : List α) :
    (xs.map fun x => expression (f x)).filterMap binding? = [] :=
  List.filterMap_eq_nil_iff.2 (by simp [binding?])

theorem filterMap_ofProjection (projection : Projection Expression) :
    (ofProjection projection).filterMap binding? = projection.bindings := by
  have hitems : (projection.items.map item).filterMap binding? = projection.bindings := by
    rw [List.filterMap_map]
    rfl
  rw [ofProjection, List.filterMap_append, List.filterMap_append, List.filterMap_append, hitems,
    binding?_expressions, binding?_expressions fun e => e, binding?_expressions fun e => e]
  simp

theorem item_not_mem_ofRemoveItem (column : ProjectionItem Expression) (i : RemoveItem Expression) :
    item column ∉ ofRemoveItem i := by
  cases i <;> simp [ofRemoveItem]

/-- The reports on a clause itself are those on the names that the columns inside it bind. -/
theorem reportsOn_eq (clause : Clause) :
    reportsOn clause = duplicatesAfter [] ((ofClause clause).filterMap binding?) := by
  cases clause with
  | withColumns projection => rw [ofClause, filterMap_ofProjection]; rfl
  | returnColumns projection => rw [ofClause, filterMap_ofProjection]; rfl
  | _ =>
    -- there is no column in the other clauses
    rw [List.filterMap_eq_nil_iff.2]
    · rfl
    · intro n hn
      cases n with
      | item column => simp [ofClause, item_not_mem_ofRemoveItem] at hn
      | _ => rfl

/-- **One level**: what the check of the names that projections bind reports on queries that vary is
the same but for what it reports on the subqueries that vary. -/
theorem framed_level {queries inner : ι → Query} (spot : Spot queries inner) (kind : ScopeKind)
    (i : ι) :
    Framed (fun j => (checkQuery .subquery (inner j)).reports)
      fun j => (checkQuery kind (queries j)).reports := by
  have hqueries : (fun j => (checkQuery kind (queries j)).reports) = fun j =>
      (queries j).branches.flatMap reportsOnBranch := by
    funext j
    rw [reports_checkQuery_eq]
  have hclause : Framed
      (fun j => (spot.clause j).subqueries.flatMap fun body => (checkQuery .subquery body).reports)
      fun j => ((spot.clause j).subqueries.flatMap fun body =>
        (checkQuery .subquery body).reports) ++ reportsOn (spot.clause j) := by
    have hown (j : ι) : reportsOn (spot.clause j) = reportsOn (spot.clause i) := by
      rw [reportsOn_eq, spot.bindings j i, reportsOn_eq]
    exact ⟨[], reportsOn (spot.clause i), fun j => congrArg _ (hown j)⟩
  rw [hqueries]
  exact (((Framed.flatMap spot.subqueries _).trans hclause).trans (.flatMap (fun _ => rfl) _)).trans
    (.flatMap spot.branches _)

end Alias

/-! ### All levels -/

namespace Node

variable {bodies queries : ι → Query}

/-- **From one level to all**: if reports on queries that vary at a spot frame those on the
subqueries there, then they frame those on the bodies, however deep these lie. -/
theorem Varies.framed (reports : ScopeKind → Query → List Diagnostic) (i : ι)
    (hlevel : ∀ {queries inner : ι → Query}, Spot queries inner → ∀ kind,
      Framed (fun j => reports .subquery (inner j)) fun j => reports kind (queries j))
    (h : Varies bodies fun j => .query (queries j)) (kind : ScopeKind) :
    Framed (fun j => reports .subquery (bodies j)) fun j => reports kind (queries j) := by
  induction hn : sizeOf (queries i) using Nat.strongRecOn generalizing queries kind with
  | ind n ih =>
    obtain ⟨inner, ⟨spot⟩, rfl | hinner⟩ := h.exists_spot i
    · exact hlevel spot kind
    · have hbranch : spot.first ++ spot.clause i :: spot.last ∈ (queries i).branches := by
        simp [spot.branches i]
      have hclause : spot.clause i ∈ spot.first ++ spot.clause i :: spot.last := by simp
      have hinside : inner i ∈ (spot.clause i).subqueries := by simp [spot.subqueries i]
      have hlt := hn ▸ QueryOf.sizeOf_subquery_lt hbranch hclause hinside
      exact (ih _ hlt hinner .subquery rfl).trans (hlevel spot kind)

/-- Reports on the queries of documents that vary frame those on the bodies. -/
theorem Varies.framed_queries {documents : ι → Document} {reports : Query → List Diagnostic}
    {inside : ι → List Diagnostic} (i : ι)
    (hquery : ∀ {queries : ι → Query}, Varies bodies (fun j => .query (queries j)) →
      Framed inside fun j => reports (queries j))
    (h : Varies bodies fun j => .document (documents j)) :
    Framed inside fun j => (documents j).queries.flatMap reports := by
  obtain ⟨_, _, queries, hqueries, hvaries⟩ := h.queries i
  exact (hquery hvaries).trans (.flatMap hqueries reports)

end Node

/-- **Subqueries are checked on their own.** For documents that vary in the body of one subquery,
the diagnostics of the validator of any dialect on the order of clauses frame those that the check
reports on the bodies outside all scopes, and the same holds of those on the names that projections
bind. -/
theorem framed_subqueries {bodies : ι → Query} {documents : ι → Document}
    (h : Node.Varies bodies fun i => .document (documents i)) (dialect : Dialect)
    (scopes : Scopes) :
    let reports := fun i => (((Validator.ofDialect dialect).check (documents i)).run scopes).2.2
    Framed (fun i => (Order.checkQuery dialect.rules.ordering .subquery (bodies i)).reports)
      (fun i => Validator.withCode .clauseOrder (reports i)) ∧
    Framed (fun i => (Alias.checkQuery .subquery (bodies i)).reports)
      fun i => Validator.withCode .aliasConflict (reports i) := by
  intro reports
  rcases isEmpty_or_nonempty ι with hempty | ⟨⟨i⟩⟩
  · exact ⟨⟨[], [], hempty.elim⟩, ⟨[], [], hempty.elim⟩⟩
  · simp only [reports, Validator.withCode_clauseOrder, Validator.withCode_aliasConflict]
    constructor
    · refine h.framed_queries i fun hq => ?_
      exact hq.framed (fun kind query => (Order.checkQuery _ kind query).reports) i
        (fun spot kind => Order.framed_level _ spot kind i) .statement
    · refine h.framed_queries i fun hq => ?_
      exact hq.framed (fun kind query => (Alias.checkQuery kind query).reports) i
        (fun spot kind => Alias.framed_level spot kind i) .statement

/-- The body of a test inside a list, with two columns of one name or with a clause behind its end,
in a query that has a misplaced filter itself. -/
theorem framed_subqueries_in_list :
    let s : Span := ⟨0, 0⟩
    let one := Expression.literal (.integer 1) s
    let returning := fun items : List (ProjectionItem Expression) =>
      (.returnColumns ⟨false, false, items, [], none, none⟩ s : Clause)
    let bodies : Bool → Query := fun twice =>
      if twice then ⟨[returning [⟨one, some ⟨"a", s⟩, s⟩, ⟨one, some ⟨"a", s⟩, s⟩]], [], s⟩
      else ⟨[returning [⟨one, none, s⟩], .unwindList one ⟨"a", s⟩ s], [], s⟩
    let test := fun twice =>
      returning [⟨.list [.existsQuery (bodies twice) s, one] s, none, s⟩]
    let documents : Bool → Document := fun twice =>
      ⟨[.query ⟨[test twice, .whereHolds one s], [], s⟩], s⟩
    let reports := fun twice =>
      (((Validator.ofDialect .neo4j5).check (documents twice)).run .outside).2.2
    Node.Varies bodies (fun twice => .document (documents twice)) ∧
    Framed (fun twice =>
      (Order.checkQuery Dialect.neo4j5.rules.ordering .subquery (bodies twice)).reports)
      (fun twice => Validator.withCode .clauseOrder (reports twice)) ∧
    Framed (fun twice => (Alias.checkQuery .subquery (bodies twice)).reports)
      fun twice => Validator.withCode .aliasConflict (reports twice) := by
  intro s one returning bodies test documents reports
  have hclauses (twice : Bool) :
      (Node.query ⟨[test twice, .whereHolds one s], [], s⟩).children =
        [.clause (test twice), .clause (.whereHolds one s)] := rfl
  have h : Node.Varies bodies fun twice => .document (documents twice) := by
    refine .first (fun _ _ => rfl) (fun _ => rfl) ?_
    refine .first (fun _ _ => rfl) (fun _ => rfl) ?_
    refine .first (fun _ _ => rfl) hclauses ?_
    refine .first (fun _ _ => rfl) (fun _ => rfl) ?_
    refine .first (fun _ _ => rfl) (fun _ => rfl) ?_
    refine .first (fun _ _ => rfl) (fun _ => rfl) ?_
    exact .first (fun _ _ => rfl) (fun _ => rfl) .here
  exact ⟨h, framed_subqueries h .neo4j5 .outside⟩

end Cypher
