import Cypher.Proofs.Weeded.Tree
import Cypher.Proofs.Sealed

/-!
# Stand-ins are invisible to checks

A stand-in may come first in a sequence of clauses, last, between any two clauses, or alone. The
check of the order of clauses passes over it in four places that have to agree: it leads to no other
state, it does not undo that the clause before it was reported, it is not the last clause that the
end of a branch is judged by, and a call stands alone even next to it. In the check of the names
that projections bind it binds nothing. So neither check can tell a document from the same document
with stand-ins deleted or inserted anywhere (`Cypher.Validator.reports_without_standIns`).

Both checks go from a clause to the subqueries in it, which is an induction on queries; what is
reported on one branch is followed clause by clause (`Cypher.Order.reportsAlong_weed`).
-/

namespace Cypher

/-! ### The order of clauses -/

namespace Order

open Check

variable {table : OrderingTable} {c : Clause}

theorem onward_of_isError (h : c.isError = true) (reached : Reached) :
    reached.onward table c = reached := if_pos h

theorem reportsOn_of_isError (h : c.isError = true) (state : OrderState) :
    reportsOn table state c = [] := if_pos h

theorem onward_weed (c : Clause) (reached : Reached) :
    reached.onward table (Weed.clause c) = reached.onward table c := by
  rw [Reached.onward, Reached.onward, Clause.isError_weed, Clause.kind_weed, Clause.yields_weed]

theorem misplaced_weed (c : Clause) (state : OrderState) :
    misplaced (Weed.clause c) state = misplaced c state := by
  simp only [misplaced, Clause.kind_weed, Clause.span_weed]

theorem unfinished_weed (c : Clause) : unfinished (Weed.clause c) = unfinished c := by
  simp only [unfinished, Clause.kind_weed, Clause.span_weed]

theorem reportsOn_weed (c : Clause) (state : OrderState) :
    reportsOn table state (Weed.clause c) = reportsOn table state c := by
  rw [reportsOn, reportsOn, Clause.isError_weed, Clause.kind_weed, Clause.yields_weed,
    misplaced_weed]

/-- **A branch comes as far** without its stand-ins. -/
theorem foldl_onward_weed (cs : List Clause) (reached : Reached) :
    (Weed.clauses cs).foldl (Reached.onward table) reached =
      cs.foldl (Reached.onward table) reached := by
  induction cs generalizing reached with
  | nil => rfl
  | cons c cs ih =>
    by_cases h : c.isError = true
    · rw [Weed.clauses_cons_of_isError h, ih, List.foldl_cons, onward_of_isError h]
    · rw [Weed.clauses_cons h, List.foldl_cons, ih, List.foldl_cons, onward_weed]

/-- What is reported on the body of a subquery. -/
def reportsOnBody (table : OrderingTable) (body : Query) : List Diagnostic :=
  (checkQuery table .subquery body).reports

/-- **The same is reported along a branch** without its stand-ins, if the same is reported inside
the clauses. -/
theorem reportsAlong_weed {cs : List Clause}
    (hinside : ∀ c ∈ cs, Clause.inside (reportsOnBody table) (Weed.clause c) =
      Clause.inside (reportsOnBody table) c)
    (reached : Reached) :
    reportsAlong table reached (withInside table (Weed.clauses cs)) =
      reportsAlong table reached (withInside table cs) := by
  induction cs generalizing reached with
  | nil => rfl
  | cons c cs ih =>
    obtain ⟨hhead, htail⟩ := List.forall_mem_cons.1 hinside
    have hcons (c : Clause) (cs : List Clause) : withInside table (c :: cs) =
        (c, Clause.inside (reportsOnBody table) c) :: withInside table cs := rfl
    by_cases h : c.isError = true
    · rw [Weed.clauses_cons_of_isError h, ih htail, hcons, reportsAlong, reportsOn_of_isError h,
        Clause.inside_of_isError h, onward_of_isError h]
      rfl
    · rw [Weed.clauses_cons h, hcons, hcons, reportsAlong, reportsAlong, reportsOn_weed, hhead,
        onward_weed, ih htail]

theorem readable_weed (cs : List Clause) :
    readable (Weed.clauses cs) = (readable cs).map Weed.clause := by
  rw [readable, Weed.clauses, List.filter_filter, List.filter_map, readable]
  refine congrArg (List.map Weed.clause) (List.filter_congr fun c _ => ?_)
  simp only [Function.comp_apply, Clause.isError_weed, Bool.and_self]

/-- **A call stands alone** with stand-ins next to it as without. -/
theorem isLoneCall_weed (cs : List Clause) : isLoneCall (Weed.clauses cs) = isLoneCall cs := by
  rw [isLoneCall, isLoneCall, readable_weed]
  rcases readable cs with - | ⟨first, - | ⟨second, - | ⟨third, rest⟩⟩⟩
  · rfl
  · cases first <;> simp only [List.map_cons, List.map_nil, Weed.clause]
  · cases first with
    | callProcedure call =>
      obtain ⟨name, values, yieldItems, yieldAll⟩ := call
      cases second with
      | whereHolds =>
        simp only [List.map_cons, List.map_nil, Weed.clause, Weed.call]
        rfl
      | _ => simp only [List.map_cons, List.map_nil, Weed.clause]
    | _ => simp only [List.map_cons, List.map_nil, Weed.clause]
  · cases first with
    | callProcedure => cases second <;> simp only [List.map_cons, Weed.clause]
    | _ => simp only [List.map_cons, Weed.clause]

/-- The end of a branch is judged by the same clause. -/
theorem reportsAtEnd_weed (kind : ScopeKind) (lone : Bool) (reached : Reached) (cs : List Clause) :
    reportsAtEnd table kind lone reached (Weed.clauses cs) =
      reportsAtEnd table kind lone reached cs := by
  rw [reportsAtEnd, reportsAtEnd, isLoneCall_weed, readable_weed, List.getLast?_map]
  cases (readable cs).getLast? with
  | none => rfl
  | some c => simp only [Option.map_some, unfinished_weed]

/-- **The order of clauses is judged alike** with and without stand-ins. -/
theorem reports_checkQuery_weed (kind : ScopeKind) (query : Query) :
    (checkQuery table kind (Weed.query query)).reports = (checkQuery table kind query).reports := by
  -- on the query: the hypothesis is about the bodies of subqueries in its clauses
  fun_induction checkQuery table kind query with
  | case1 kind query ih =>
    rw [← checkQuery, reports_checkQuery_eq, reports_checkQuery_eq, Query.branches_weed,
      List.flatMap_map, Query.isEmpty_unions_weed]
    refine List.flatMap_congr fun branch hbranch => ?_
    have hinside : ∀ c ∈ branch, Clause.inside (reportsOnBody table) (Weed.clause c) =
        Clause.inside (reportsOnBody table) c := fun c hc =>
      Clause.inside_weed fun body hbody => ih ⟨branch, hbranch⟩ ⟨c, hc⟩ ⟨body, hbody⟩
    rw [reportsOnBranch, reportsOnBranch, reportsAlong_weed hinside, foldl_onward_weed,
      reportsAtEnd_weed]

end Order

/-! ### The names that projections bind -/

theorem ProjectionItem.binding?_weed (item : ProjectionItem Expression) :
    (Weed.item item).binding? = item.binding? := by
  obtain ⟨value, rename, span⟩ := item
  cases value <;> simp only [Weed.item, Weed.expression, binding?] <;> rfl

theorem Projection.bindings_weed (p : Projection Expression) :
    (Weed.projection p).bindings = p.bindings := by
  obtain ⟨distinct, star, items, orderBy, skip, limit⟩ := p
  simp only [Weed.projection, bindings, List.filterMap_map]
  exact congrFun (congrArg List.filterMap (funext ProjectionItem.binding?_weed)) items

namespace Alias

open Check

theorem reportsOn_weed (c : Clause) : reportsOn (Weed.clause c) = reportsOn c := by
  cases c with
  | withColumns | returnColumns =>
    simp only [Weed.clause, reportsOn, duplicates, Projection.bindings_weed]
  | _ => simp only [Weed.clause, reportsOn]

theorem reportsOn_of_isError {c : Clause} (h : c.isError = true) : reportsOn c = [] := by
  cases c with
  | error => rfl
  | _ => cases h

/-- What is reported on the body of a subquery. -/
def reportsOnBody (body : Query) : List Diagnostic := (checkQuery .subquery body).reports

/-- The same is reported on a branch without its stand-ins, if the same is reported inside the
clauses. -/
theorem reportsOnBranch_weed {cs : List Clause}
    (hinside : ∀ c ∈ cs, Clause.inside reportsOnBody (Weed.clause c) =
      Clause.inside reportsOnBody c) :
    reportsOnBranch (Weed.clauses cs) = reportsOnBranch cs := by
  induction cs with
  | nil => rfl
  | cons c cs ih =>
    obtain ⟨hhead, htail⟩ := List.forall_mem_cons.1 hinside
    have hcons (c : Clause) (cs : List Clause) : reportsOnBranch (c :: cs) =
        Clause.inside reportsOnBody c ++ reportsOn c ++ reportsOnBranch cs := rfl
    by_cases h : c.isError = true
    · rw [Weed.clauses_cons_of_isError h, ih htail, hcons, Clause.inside_of_isError h,
        reportsOn_of_isError h]
      rfl
    · rw [Weed.clauses_cons h, hcons, hcons, hhead, reportsOn_weed, ih htail]

/-- **The names that projections bind are judged alike** with and without stand-ins. -/
theorem reports_checkQuery_weed (kind : ScopeKind) (query : Query) :
    (checkQuery kind (Weed.query query)).reports = (checkQuery kind query).reports := by
  fun_induction checkQuery kind query with
  | case1 kind query ih =>
    rw [← checkQuery, reports_checkQuery_eq, reports_checkQuery_eq, Query.branches_weed,
      List.flatMap_map]
    refine List.flatMap_congr fun branch hbranch => reportsOnBranch_weed fun c hc => ?_
    exact Clause.inside_weed fun body hbody => ih ⟨branch, hbranch⟩ ⟨c, hc⟩ ⟨body, hbody⟩

end Alias

/-! ### Documents -/

namespace Validator

theorem withCode_clauseOrder_weed (dialect : Dialect) (d : Document) (scopes : Scopes) :
    withCode .clauseOrder (((ofDialect dialect).check (Weed.document d)).run scopes).2.2 =
      withCode .clauseOrder (((ofDialect dialect).check d).run scopes).2.2 := by
  rw [withCode_clauseOrder, withCode_clauseOrder, Document.queries_weed, List.flatMap_map]
  simp only [Order.reports_checkQuery_weed]

theorem withCode_aliasConflict_weed (dialect : Dialect) (d : Document) (scopes : Scopes) :
    withCode .aliasConflict (((ofDialect dialect).check (Weed.document d)).run scopes).2.2 =
      withCode .aliasConflict (((ofDialect dialect).check d).run scopes).2.2 := by
  rw [withCode_aliasConflict, withCode_aliasConflict, Document.queries_weed, List.flatMap_map]
  simp only [Alias.reports_checkQuery_weed]

/-- **Stand-ins are invisible** to the check of the order of clauses and to that of the names that
projections bind. Whatever the dialect, both report the same on a document, in the same order, when
all stand-ins are deleted from it; and so they do when some are deleted and others put anywhere in
its sequences of clauses. -/
theorem reports_without_standIns (dialect : Dialect) (scopes : Scopes) (d : Document) :
    let reports (code : Code) (d : Document) : List Diagnostic :=
      withCode code (((ofDialect dialect).check d).run scopes).2.2
    ∀ code ∈ [Code.clauseOrder, Code.aliasConflict],
      reports code (Weed.document d) = reports code d ∧
        ∀ d', Weed.document d' = Weed.document d → reports code d' = reports code d := by
  intro reports code hcode
  have hweed (d : Document) : reports code (Weed.document d) = reports code d := by
    rcases List.mem_pair.1 hcode with rfl | rfl
    · exact withCode_clauseOrder_weed dialect d scopes
    · exact withCode_aliasConflict_weed dialect d scopes
  exact ⟨hweed d, fun d' h => by rw [← hweed d', h, hweed d]⟩

/-- A clause behind `RETURN`, with stand-ins before, between and behind the two. -/
theorem reports_without_standIns_return :
    let clause (span : Span) : Clause := .returnColumns ⟨false, true, [], [], none, none⟩ span
    let d : Document := ⟨[.query ⟨[clause ⟨0, 8⟩, clause ⟨11, 19⟩], [], ⟨0, 22⟩⟩], ⟨0, 22⟩⟩
    let d' : Document :=
      ⟨[.query ⟨[.error ⟨0, 0⟩, clause ⟨0, 8⟩, .error ⟨9, 10⟩, clause ⟨11, 19⟩, .error ⟨20, 22⟩], [],
        ⟨0, 22⟩⟩], ⟨0, 22⟩⟩
    let reports (d : Document) : List Diagnostic :=
      withCode .clauseOrder (((ofDialect .neo4j5).check d).run .outside).2.2
    Weed.document d' = Weed.document d ∧ reports d' = reports d ∧ reports d ≠ [] := by
  intro clause d d' reports
  have h : Weed.document d' = Weed.document d := by
    simp [d, d', clause, Weed.document, Weed.statement, Weed.query, Weed.clause, Weed.projection,
      ClauseOf.isError]
  exact ⟨h, (reports_without_standIns .neo4j5 .outside d _ (by decide)).2 d' h, by decide +kernel⟩

end Validator

end Cypher
