import Cypher.Proofs.Layout.Clause
import Cypher.Proofs.Ledger.Expression

/-!
# Ledgers of clauses

The same for clauses and their parts. No clause has to be asked about: the one that stands in for a
clause that could not be read is no clause of the grammar.
-/

namespace Cypher.Grammar

open Rule hiding pure bind
open Composed (elements)

variable {setting : Setting} {inner : Inner} {L : Ledger setting}

/-! ### Rules without expressions -/

theorem quiet_sortDirection : sortDirection.Quiet setting inner := by
  refine .bind (.look _) fun token => ?_
  split
  · exact .bind quiet_move fun _ => .pure _
  · exact .bind quiet_move fun _ => .pure _
  · exact .bind quiet_move fun _ => .pure _
  · exact .bind quiet_move fun _ => .pure _
  · exact .pure _

theorem quiet_assigned : assigned.Quiet setting inner :=
  .bind quiet_variableName fun _ => .bind quiet_move fun _ => .pure _

theorem quiet_mergeEvent : mergeEvent.Quiet setting inner :=
  .bind (.consume _) fun _ => .ite (.pure _) (.bind (.consume _) fun _ => .ite (.pure _) (.fail _))

variable (h : inner.Accounts L) {s : State}

include h

/-! ### Reading data -/

theorem accounts_matchClause : Accounts L inner [] matchClause s := by
  refine .startHere (.skip h.steady (.consume _) fun optional t _ => ?_)
  refine .skip h.steady (.expect _) fun _ u _ => ?_
  exact .bind h.steady (accounts_pattern h) fun pattern v => .look (.close rfl rfl fun _ => .rfl)

theorem accounts_whereClause : Accounts L inner [] whereClause s := by
  refine .skip h.steady .advance fun word t _ => ?_
  exact .bind h.steady (accounts_expression h) fun predicate u =>
    .look (.close rfl rfl fun _ => .rfl)

theorem accounts_unwindClause : Accounts L inner [] unwindClause s := by
  refine .skip h.steady .advance fun word t _ => ?_
  refine .bind h.steady (accounts_expression h) fun list u => .skip h.steady (.expect _) ?_
  intro _ v _
  exact .bind h.steady accounts_variableName fun binder w => .look (.close rfl rfl fun _ => .rfl)

theorem accounts_newName : Accounts L inner [] newName s :=
  accounts_optionally h.steady (.consume _) fun _ _ => accounts_variableName

theorem accounts_yieldItem : Accounts L inner [] yieldItem s := by
  refine .bind h.steady (accounts_symbolicName _) fun field t => ?_
  exact .bind h.steady (accounts_newName h) fun rename u => .pure fun _ => .rfl

theorem accounts_procedureArguments : Accounts L inner [] procedureArguments s := by
  refine .bind h.steady (accounts_expressionList h _) fun arguments t => ?_
  exact .skip h.steady (.expect _) fun _ u _ => .pure fun _ => .rfl

theorem accounts_procedureCall : Accounts L inner [] procedureCall s := by
  refine .bind h.steady (.names (quiet_qualifiedName _) fun name _ he =>
    ⟨name, List.mem_singleton.1 he⟩) fun name t => ?_
  refine .bind h.steady (accounts_optionally h.steady (.consume _) fun _ _ =>
    accounts_procedureArguments h) fun arguments u => ?_
  refine .skip h.steady (.consume _) fun yields v _ => .ite (fun _ => ?_) fun _ => ?_
  · refine .skip h.steady (.consume _) fun star w _ => .ite (fun _ => ?_) fun _ => ?_
    · exact .pure (by simp [elements])
    · exact .bind h.steady (accounts_separated h.steady fun _ => accounts_yieldItem h)
        fun items x => .pure fun _ => .rfl
  · exact .pure (by simp [elements])

theorem accounts_callClause : Accounts L inner [] callClause s := by
  refine .skip h.steady .advance fun word t _ => .skip h.steady (.isAt _) fun brace u _ => ?_
  refine .ite (fun _ => .requireSubqueries (.skip h.steady quiet_move fun _ v _ => ?_)) fun _ => ?_
  · refine .bind h.steady (h.subquery v) fun body w => .skip h.steady (.expect _) fun _ x _ => ?_
    exact .look (.close rfl rfl fun _ => .rfl)
  · exact .bind h.steady (accounts_procedureCall h) fun call v =>
      .look (.close rfl rfl fun _ => .rfl)

/-! ### Projections -/

theorem accounts_projectionItem : Accounts L inner [] projectionItem s := by
  refine .startHere (.bind h.steady (accounts_expression h) fun value t => ?_)
  exact .bind h.steady (accounts_newName h) fun rename u => .look (.close rfl rfl fun _ => .rfl)

theorem accounts_sortItem : Accounts L inner [] sortItem s := by
  refine .startHere (.bind h.steady (accounts_expression h) fun value t => ?_)
  exact .skip h.steady quiet_sortDirection fun descending u _ =>
    .look (.close rfl rfl fun _ => .rfl)

theorem accounts_columns : Accounts L inner [] columns s := by
  have hitems : ∀ {t : State}, Accounts L inner [] (separated projectionItem) t :=
    accounts_separated h.steady fun _ => accounts_projectionItem h
  refine .skip h.steady (.consume _) fun star t _ => .ite (fun _ => ?_) fun _ => ?_
  · refine .skip h.steady (.consume _) fun comma u _ => .ite (fun _ => ?_) fun _ => ?_
    · exact .bind h.steady hitems fun items v => .pure fun _ => .rfl
    · exact .pure fun _ => .rfl
  · exact .bind h.steady hitems fun items u => .pure fun _ => .rfl

theorem accounts_sorting : Accounts L inner [] sorting s := by
  refine .skip h.steady (.consume _) fun order t _ => .ite (fun _ => ?_) fun _ => ?_
  · exact .skip h.steady (.expect _) fun _ u _ =>
      accounts_separated h.steady fun _ => accounts_sortItem h
  · exact .pure fun _ => .rfl

theorem accounts_projection : Accounts L inner [] projection s := by
  refine .skip h.steady (.consume _) fun distinct t _ => ?_
  refine .bind h.steady (accounts_columns h) fun items u => ?_
  refine .bind h.steady (accounts_sorting h) fun orderBy v => ?_
  refine .bind h.steady (accounts_optionally h.steady (.consume _) fun _ _ => accounts_expression h)
    fun skip w => ?_
  refine .bind h.steady (accounts_optionally h.steady (.consume _) fun _ _ => accounts_expression h)
    fun limit x => ?_
  exact .pure fun _ => .rfl

theorem accounts_withClause : Accounts L inner [] withClause s := by
  refine .skip h.steady .advance fun word t _ => ?_
  exact .bind h.steady (accounts_projection h) fun projection u =>
    .look (.close rfl rfl fun _ => .rfl)

theorem accounts_returnClause : Accounts L inner [] returnClause s := by
  refine .skip h.steady .advance fun word t _ => ?_
  exact .bind h.steady (accounts_projection h) fun projection u =>
    .look (.close rfl rfl fun _ => .rfl)

/-! ### Changing data -/

theorem accounts_propertyTarget : Accounts L inner [] propertyTarget s := by
  refine .startHere (.bind h.steady (h.expression _ s) fun target t => ?_)
  exact .ite (fun _ => .pure fun _ => .rfl) fun _ => .fail _

theorem accounts_propertyAssignment (start : Nat) :
    Accounts L inner [] (propertyAssignment start) s := by
  refine .bind h.steady (accounts_propertyTarget h) fun target t => ?_
  refine .skip h.steady (.expect _) fun _ u _ => ?_
  exact .bind h.steady (accounts_expression h) fun value v => .look (.close rfl rfl fun _ => .rfl)

theorem accounts_setItem : Accounts L inner [] setItem s := by
  have hassigned : ∀ {t : State}, Accounts L inner [] assigned t :=
    .names quiet_assigned fun name _ he => ⟨name, List.mem_singleton.1 he⟩
  refine .look (.ite (fun _ => .look ?_) fun _ => accounts_propertyAssignment h _)
  split
  · refine .bind h.steady hassigned fun name t => ?_
    exact .bind h.steady (accounts_expression h) fun value u => .look (.close rfl rfl fun _ => .rfl)
  · refine .bind h.steady hassigned fun name t => ?_
    exact .bind h.steady (accounts_expression h) fun value u => .look (.close rfl rfl fun _ => .rfl)
  · refine .bind h.steady accounts_variableName fun name t => ?_
    exact .bind h.steady accounts_labels fun labels u => .look (.close rfl rfl fun _ => .rfl)
  · exact accounts_propertyAssignment h _

theorem accounts_removeItem : Accounts L inner [] removeItem s := by
  refine .startHere (.skip h.steady (.atVariableBefore _) fun labelled t _ =>
    .ite (fun _ => ?_) fun _ => ?_)
  · refine .bind h.steady accounts_variableName fun name u => ?_
    exact .bind h.steady accounts_labels fun labels v => .look (.close rfl rfl fun _ => .rfl)
  · exact .part h.steady (accounts_propertyTarget h) fun target u => .close rfl rfl fun _ => .rfl

theorem accounts_createClause : Accounts L inner [] createClause s := by
  refine .skip h.steady .advance fun word t _ => ?_
  exact .bind h.steady (accounts_pattern h) fun pattern u => .look (.close rfl rfl fun _ => .rfl)

theorem accounts_mergeAction : Accounts L inner [] mergeAction s := by
  refine .skip h.steady .advance fun word t _ => .skip h.steady quiet_mergeEvent fun event u _ => ?_
  refine .skip h.steady (.expect _) fun _ v _ => ?_
  exact .bind h.steady (accounts_separated h.steady fun _ => accounts_setItem h) fun items w =>
    .look (.close rfl rfl fun _ => .rfl)

theorem accounts_mergeClause : Accounts L inner [] mergeClause s := by
  refine .skip h.steady .advance fun word t _ => ?_
  refine .bind h.steady (accounts_patternPart h) fun part u => ?_
  refine .bind h.steady (accounts_many h.steady fun _ =>
    accounts_optionally h.steady (.isAt _) fun _ _ => accounts_mergeAction h) fun actions v => ?_
  exact .look (.close rfl rfl fun _ => .rfl)

theorem accounts_deleteClause : Accounts L inner [] deleteClause s := by
  refine .startHere (.skip h.steady (.consume _) fun detach t _ => ?_)
  refine .skip h.steady (.expect _) fun _ u _ => ?_
  exact .bind h.steady (accounts_separated h.steady fun _ => accounts_expression h) fun values v =>
    .look (.close rfl rfl fun _ => .rfl)

theorem accounts_setClause : Accounts L inner [] setClause s := by
  refine .skip h.steady .advance fun word t _ => ?_
  exact .bind h.steady (accounts_separated h.steady fun _ => accounts_setItem h) fun items u =>
    .look (.close rfl rfl fun _ => .rfl)

theorem accounts_removeClause : Accounts L inner [] removeClause s := by
  refine .skip h.steady .advance fun word t _ => ?_
  exact .bind h.steady (accounts_separated h.steady fun _ => accounts_removeItem h) fun items u =>
    .look (.close rfl rfl fun _ => .rfl)

/-- **Clauses are accounted for.** -/
theorem accounts_clause : Accounts L inner [] clause s := by
  refine .look ?_
  dsimp only
  split
  · split
    · exact accounts_matchClause h
    · exact accounts_matchClause h
    · exact accounts_whereClause h
    · exact accounts_withClause h
    · exact accounts_returnClause h
    · exact accounts_unwindClause h
    · exact accounts_createClause h
    · exact accounts_mergeClause h
    · exact accounts_deleteClause h
    · exact accounts_deleteClause h
    · exact accounts_setClause h
    · exact accounts_removeClause h
    · exact accounts_callClause h
    · exact .fail _
  · exact .fail _

end Cypher.Grammar
