import Cypher.Proofs.Guess.Expression

/-!
# Rules for clauses and documents follow one another

The rest of the rules, from clauses to documents. Nothing is guessed in them, and the only value
that they go by is that of the target of a change, which is dealt with as a rule that nests
(`Cypher.Rivals.Nests`).
-/

namespace Cypher.Grammar

open Rule hiding pure bind
open Rivals

variable {r : Rivals}

/-! ### Small parts -/

theorem follows_newName : r.Follows (Option.Rel Eq) newName newName :=
  follows_variableName.behind _

theorem follows_yieldItem : r.Follows (fun _ _ => True) yieldItem yieldItem :=
  .same (follows_symbolicName _) fun _ => .skip follows_newName fun _ _ => .value

theorem follows_sortDirection : r.Follows (fun _ _ => True) sortDirection sortDirection := by
  refine .same .here fun token => ?_
  split
  · exact .skip follows_move fun _ _ => .value
  · exact .skip follows_move fun _ _ => .value
  · exact .skip follows_move fun _ _ => .value
  · exact .skip follows_move fun _ _ => .value
  · exact .value

theorem follows_assigned : r.Follows (fun _ _ => True) assigned assigned :=
  .same follows_variableName fun _ => .skip follows_move fun _ _ => .value

theorem follows_mergeEvent : r.Follows (fun _ _ => True) mergeEvent mergeEvent :=
  .same (follows_consume _) fun _ => .ite .value <|
    .same (follows_consume _) fun _ => .ite .value (.fail _)

theorem follows_atClausesEnd : r.Follows Eq atClausesEnd atClausesEnd :=
  .same .here fun _ => .same .nested fun _ => .pure rfl

section Nests

variable (h : r.Nests)

include h

/-! ### Reading data -/

theorem follows_matchClause : r.Follows (fun _ _ => True) matchClause matchClause :=
  .startHere fun _ _ => .same (follows_consume _) fun _ => .same (follows_expect _) fun _ =>
    .skip (follows_pattern h) fun _ _ => .glance fun _ _ => .value

theorem follows_whereClause : r.Follows (fun _ _ => True) whereClause whereClause :=
  .same .advance fun _ => .skip (follows_expression h) fun _ _ => .glance fun _ _ => .value

theorem follows_unwindClause : r.Follows (fun _ _ => True) unwindClause unwindClause :=
  .same .advance fun _ => .skip (follows_expression h) fun _ _ =>
    .same (follows_expect _) fun _ => .same follows_variableName fun _ => .glance fun _ _ => .value

theorem follows_procedureArguments :
    r.Follows (fun _ _ => True) procedureArguments procedureArguments :=
  .skip (follows_expressionList h _) fun _ _ => .same (follows_expect _) fun _ => .value

theorem follows_procedureCall : r.Follows (fun _ _ => True) procedureCall procedureCall :=
  .skip (follows_qualifiedName _) fun _ _ =>
    .skip ((follows_procedureArguments h).behind _) fun _ _ => .same (follows_consume _) fun _ =>
      .ite (.same (follows_consume _) fun _ => .ite .value
        (.skip follows_yieldItem.separated fun _ _ => .value)) .value

theorem follows_callClause : r.Follows (fun _ _ => True) callClause callClause :=
  .same .advance fun _ => .same (follows_isAt _) fun _ => .ite
    (.same (.requireSubqueries _) fun _ => .skip follows_move fun _ _ =>
      .skip h.subquery fun _ _ => .same (follows_expect _) fun _ => .glance fun _ _ => .value)
    (.skip (follows_procedureCall h) fun _ _ => .glance fun _ _ => .value)

/-! ### Projections -/

theorem follows_projectionItem : r.Follows (fun _ _ => True) projectionItem projectionItem :=
  .startHere fun _ _ => .skip (follows_expression h) fun _ _ => .skip follows_newName fun _ _ =>
    .glance fun _ _ => .value

theorem follows_sortItem : r.Follows (fun _ _ => True) sortItem sortItem :=
  .startHere fun _ _ => .skip (follows_expression h) fun _ _ =>
    .skip follows_sortDirection fun _ _ => .glance fun _ _ => .value

theorem follows_columns : r.Follows (fun _ _ => True) columns columns :=
  have hitems := (follows_projectionItem h).separated
  .same (follows_consume _) fun _ => .ite
    (.same (follows_consume _) fun _ => .ite (.skip hitems fun _ _ => .value) .value)
    (.skip hitems fun _ _ => .value)

theorem follows_sorting : r.Follows (fun _ _ => True) sorting sorting :=
  .same (follows_consume _) fun _ => .ite
    (.same (follows_expect _) fun _ => (follows_sortItem h).separated.mono fun _ _ _ => trivial)
    .value

theorem follows_projection : r.Follows (fun _ _ => True) projection projection :=
  .same (follows_consume _) fun _ => .skip (follows_columns h) fun _ _ =>
    .skip (follows_sorting h) fun _ _ => .skip ((follows_expression h).behind _) fun _ _ =>
      .skip ((follows_expression h).behind _) fun _ _ => .value

theorem follows_withClause : r.Follows (fun _ _ => True) withClause withClause :=
  .same .advance fun _ => .skip (follows_projection h) fun _ _ => .glance fun _ _ => .value

theorem follows_returnClause : r.Follows (fun _ _ => True) returnClause returnClause :=
  .same .advance fun _ => .skip (follows_projection h) fun _ _ => .glance fun _ _ => .value

/-! ### Changing data -/

theorem follows_propertyAssignment (start start' : Nat) :
    r.Follows (fun _ _ => True) (propertyAssignment start) (propertyAssignment start') :=
  .skip h.target fun _ _ => .same (follows_expect _) fun _ =>
    .skip (follows_expression h) fun _ _ => .glance fun _ _ => .value

theorem follows_setItem : r.Follows (fun _ _ => True) setItem setItem := by
  have hassign (make make' : Ident → Expression → Span → SetItem Expression) (start : Nat) :
      r.Follows (fun _ _ => True)
        (do
          let name ← assigned
          let value ← expression
          return make name value (← look (.spanFrom start)))
        (do
          let name ← assigned
          let value ← expression
          return make' name value (← look (.spanFrom start))) :=
    .skip follows_assigned fun _ _ => .skip (follows_expression h) fun _ _ =>
      .glance fun _ _ => .value
  refine .same .here fun token => .ite (.same .next fun kind => ?_)
    (follows_propertyAssignment h _ _)
  split
  · exact hassign _ _ _
  · exact hassign _ _ _
  · exact .same follows_variableName fun _ => .skip follows_labels fun _ _ =>
      .glance fun _ _ => .value
  · exact follows_propertyAssignment h _ _

theorem follows_removeItem : r.Follows (fun _ _ => True) removeItem removeItem :=
  .startHere fun _ _ => .same (follows_atVariableBefore _) fun _ => .ite
    (.same follows_variableName fun _ => .skip follows_labels fun _ _ => .glance fun _ _ => .value)
    (.skip h.target fun _ _ => .value)

theorem follows_createClause : r.Follows (fun _ _ => True) createClause createClause :=
  .same .advance fun _ => .skip (follows_pattern h) fun _ _ => .glance fun _ _ => .value

theorem follows_mergeAction : r.Follows (fun _ _ => True) mergeAction mergeAction :=
  .same .advance fun _ => .skip follows_mergeEvent fun _ _ => .same (follows_expect _) fun _ =>
    .skip (follows_setItem h).separated fun _ _ => .glance fun _ _ => .value

theorem follows_mergeClause : r.Follows (fun _ _ => True) mergeClause mergeClause :=
  .same .advance fun _ => .skip (follows_patternPart h) fun _ _ =>
    .skip (Follows.many ((follows_mergeAction h).optionally (follows_isAt _)) .nil) fun _ _ =>
      .glance fun _ _ => .value

theorem follows_deleteClause : r.Follows (fun _ _ => True) deleteClause deleteClause :=
  .startHere fun _ _ => .same (follows_consume _) fun _ => .same (follows_expect _) fun _ =>
    .skip (follows_expression h).separated fun _ _ => .glance fun _ _ => .value

theorem follows_setClause : r.Follows (fun _ _ => True) setClause setClause :=
  .same .advance fun _ => .skip (follows_setItem h).separated fun _ _ => .glance fun _ _ => .value

theorem follows_removeClause : r.Follows (fun _ _ => True) removeClause removeClause :=
  .same .advance fun _ => .skip (follows_removeItem h).separated fun _ _ =>
    .glance fun _ _ => .value

/-- **Clauses follow one another**, chosen by the same word. -/
theorem follows_clause : r.Follows (fun _ _ => True) clause clause := by
  refine .same .here fun token => ?_
  dsimp only
  split
  · split
    · exact follows_matchClause h
    · exact follows_matchClause h
    · exact follows_whereClause h
    · exact follows_withClause h
    · exact follows_returnClause h
    · exact follows_unwindClause h
    · exact follows_createClause h
    · exact follows_mergeClause h
    · exact follows_deleteClause h
    · exact follows_deleteClause h
    · exact follows_setClause h
    · exact follows_removeClause h
    · exact follows_callClause h
    · exact .fail _
  · exact .fail _

/-! ### Queries -/

theorem follows_clauseOrError : r.Follows (fun _ _ => True) clauseOrError clauseOrError :=
  .startHere fun _ _ => .same .position fun _ => .skip (.mend (follows_clause h)) fun _ _ =>
    .same (.record _ _) fun _ => .value

theorem follows_nextClause : r.Follows (Option.Rel fun _ _ => True) nextClause nextClause :=
  .same follows_atClausesEnd fun _ => .ite (.pure .none)
    (.skip (follows_clauseOrError h) fun _ _ => .pure (.some trivial))

/-- A branch has no clauses or some in both. -/
theorem follows_branchIn (kind : ScopeKind) (context : String) :
    r.Follows (fun _ _ => True) (branchIn kind context) (branchIn kind context) := by
  refine .bind (.inScope kind (Follows.many (follows_nextClause h) .nil)) fun found found' hall =>
    .same ?_ fun _ => .value
  have hempty : found.isEmpty = found'.isEmpty := by cases hall <;> rfl
  rw [requireClauses, requireClauses, hempty]
  exact .ite (.complain _) (.pure rfl)

theorem follows_unionBranch (kind : ScopeKind) :
    r.Follows (fun _ _ => True) (unionBranch kind) (unionBranch kind) :=
  .same .advance fun _ => .same (follows_consume _) fun _ =>
    .skip (follows_branchIn h _ _) fun _ _ => .glance fun _ _ => .value

theorem follows_query (kind : ScopeKind) :
    r.Follows (fun _ _ => True) (query kind) (query kind) :=
  .startHere fun _ _ => .skip (follows_branchIn h _ _) fun _ _ =>
    .skip (Follows.many ((follows_unionBranch h kind).optionally (follows_isAt _)) .nil)
      fun _ _ => .glance fun _ _ => .value

/-! ### Bodies of existence tests -/

omit h in
/-- However many clauses are noted, one is in as many scopes. -/
theorem run_recordAll (inner : Inner) (setting : Setting) (clauses : List Clause) (s : State) :
    (recordAll clauses).run setting inner s =
      .done () { s with scopes := s.scopes.recordAll (clauses.map ClauseOf.kind) } := by
  induction clauses generalizing s with
  | nil => rfl
  | cons clause clauses ih => exact ih _

omit h in
theorem follows_recordAll (clauses clauses' : List Clause) :
    r.Follows Eq (recordAll clauses) (recordAll clauses') := by
  intro s s' hs a t hr
  rw [run_recordAll] at hr ⊢
  cases hr
  refine ⟨rfl, hs.cursor, ?_, hs.onward⟩
  simp only [Scopes.depth_recordAll, hs.depth]

theorem follows_patternBody : r.Follows (fun _ _ => True) patternBody patternBody :=
  .startHere fun _ _ => .skip (follows_pattern h) fun _ _ =>
    .skip ((follows_whereClause h).optionally (follows_isAt _)) fun _ _ =>
      .same (follows_recordAll _ _) fun _ => .glance fun _ _ => .value

theorem follows_existsBody : r.Follows (fun _ _ => True) existsBody existsBody :=
  .same .here fun _ => .ite (follows_query h _) (.inScope _ (follows_patternBody h))

/-! ### Documents -/

omit h in
theorem follows_moveOverSemicolons :
    r.Follows Eq moveOverSemicolons moveOverSemicolons :=
  .loop (fun _ _ _ => (Follows.pure rfl).behind _) rfl

theorem follows_statement : r.Follows (fun _ _ => True) statement statement :=
  .same .here fun _ => .skip (follows_query h _) fun _ _ => fun s s' hs a t hr => by
    split at hr <;> split <;> exact Follows.value s s' hs a t hr

theorem follows_nextStatement :
    r.Follows (Option.Rel fun _ _ => True) nextStatement nextStatement :=
  .same follows_moveOverSemicolons fun _ => .same (follows_isAt _) fun _ => .ite (.pure .none)
    (.skip (follows_statement h) fun _ _ => .pure (.some trivial))

/-- **Documents follow one another.** -/
theorem follows_document : r.Follows (fun _ _ => True) document document :=
  .skip (Follows.many (follows_nextStatement h) .nil) fun _ _ => .same .here fun _ => .value

end Nests

end Cypher.Grammar
