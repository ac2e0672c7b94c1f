import Cypher.Proofs.Stripped.Expression

/-!
# Rules for clauses do not see where things are

One lemma for each rule of the grammar for clauses and their parts, as for expressions. What a
clause is read as is decided by the words at the cursor, never by where they are.
-/

namespace Cypher.Grammar

open Rule hiding pure bind

/-! ### Reading data -/

theorem alike_matchClause : Alike matchClause matchClause :=
  .startHere fun _ _ => .andThen (.consume _) fun _ => .expectThen fun _ _ =>
    .bind alike_pattern fun paths paths' h => .spanFrom _ _ fun _ _ => .pure (by simp [h])

theorem alike_whereClause : Alike whereClause whereClause :=
  .advanceThen fun _ _ => .bind alike_expression fun predicate predicate' h =>
    .spanFrom _ _ fun _ _ => .pure (by simp [h])

theorem alike_unwindClause : Alike unwindClause unwindClause := by
  refine .advanceThen fun _ _ => .bind alike_expression fun list list' hlist => ?_
  refine .expectThen fun _ _ => .bind alike_variableName fun binder binder' hbinder => ?_
  exact .spanFrom _ _ fun _ _ => .pure (by simp [hlist, hbinder])

theorem alike_newName : Alike newName newName := .optionally (.consume _) alike_variableName

theorem alike_yieldItem : Alike yieldItem yieldItem :=
  .bind (alike_symbolicName _) fun field field' hfield => .bind alike_newName
    fun rename rename' hrename => .pure (by simp [hfield, hrename])

theorem alike_procedureArguments : Alike procedureArguments procedureArguments :=
  .bind (alike_expressionList _) fun _ _ h => .expectThen fun _ _ => .pure h

theorem alike_procedureCall : Alike procedureCall procedureCall := by
  refine .bind (alike_qualifiedName _) fun name name' hname => ?_
  refine .bind (.optionally (.consume _) alike_procedureArguments) fun values values' hvalues => ?_
  refine .andThen (.consume _) fun _ => .ite (.andThen (.consume _) fun _ => .ite ?_ ?_) ?_
  · exact .pure (by simp [hname, hvalues])
  · exact .bind (.separated alike_yieldItem) fun items items' hitems =>
      .pure (by simp [hname, hvalues, hitems])
  · exact .pure (by simp [hname, hvalues])

theorem alike_callClause : Alike callClause callClause := by
  refine .advanceThen fun _ _ => .andThen (.isAt _) fun _ => .ite ?_ ?_
  · refine .andThen (.requireSubqueries _) fun _ => .andThen alike_move fun _ => ?_
    refine .bind .subquery fun body body' h => .expectThen fun _ _ => ?_
    exact .spanFrom _ _ fun _ _ => .pure (by simp [h])
  · exact .bind alike_procedureCall fun call call' h => .spanFrom _ _ fun _ _ =>
      .pure (by simp [h])

/-! ### Projections -/

theorem alike_projectionItem : Alike projectionItem projectionItem :=
  .startHere fun _ _ => .bind alike_expression fun value value' hvalue => .bind alike_newName
    fun rename rename' hrename => .spanFrom _ _ fun _ _ => .pure (by simp [hvalue, hrename])

theorem alike_sortDirection : Alike sortDirection sortDirection := by
  refine .here fun t t' hkind _ => ?_
  rw [hkind]
  split
  · exact .andThen alike_move fun _ => .pure rfl
  · exact .andThen alike_move fun _ => .pure rfl
  · exact .andThen alike_move fun _ => .pure rfl
  · exact .andThen alike_move fun _ => .pure rfl
  · exact .pure rfl

theorem alike_sortItem : Alike sortItem sortItem :=
  .startHere fun _ _ => .bind alike_expression fun value value' h =>
    .andThen alike_sortDirection fun _ => .spanFrom _ _ fun _ _ => .pure (by simp [h])

theorem alike_columns : Alike columns columns := by
  have hitems := Alike.separated alike_projectionItem
  refine .andThen (.consume _) fun _ => .ite (.andThen (.consume _) fun _ => .ite ?_ ?_) ?_
  · exact .bind hitems fun items items' h => .pure (by simp [h])
  · exact .pure rfl
  · exact .bind hitems fun items items' h => .pure (by simp [h])

theorem alike_sorting : Alike sorting sorting :=
  .andThen (.consume _) fun _ =>
    .ite (.expectThen fun _ _ => .separated alike_sortItem) (.pure rfl)

theorem alike_projection : Alike projection projection := by
  refine .andThen (.consume _) fun _ => .bind alike_columns fun columns columns' hcolumns => ?_
  obtain ⟨star, items⟩ := columns
  obtain ⟨star', items'⟩ := columns'
  obtain ⟨hstar, hitems⟩ : star = star' ∧ strip items = strip items' := Prod.mk.inj hcolumns
  refine .bind alike_sorting fun orderBy orderBy' horder => ?_
  refine .bind (.optionally (.consume _) alike_expression) fun skip skip' hskip => ?_
  refine .bind (.optionally (.consume _) alike_expression) fun limit limit' hlimit => ?_
  exact .pure (by simp [hstar, hitems, horder, hskip, hlimit])

theorem alike_withClause : Alike withClause withClause :=
  .advanceThen fun _ _ => .bind alike_projection fun columns columns' h =>
    .spanFrom _ _ fun _ _ => .pure (by simp [h])

theorem alike_returnClause : Alike returnClause returnClause :=
  .advanceThen fun _ _ => .bind alike_projection fun columns columns' h =>
    .spanFrom _ _ fun _ _ => .pure (by simp [h])

/-! ### Changing data -/

theorem alike_assigned : Alike assigned assigned :=
  .bind alike_variableName fun _ _ h => .andThen alike_move fun _ => .pure h

theorem alike_propertyAssignment (start start' : Nat) :
    Alike (propertyAssignment start) (propertyAssignment start') :=
  .bind .propertyTarget fun target target' htarget => .expectThen fun _ _ =>
    .bind alike_expression fun value value' hvalue => .spanFrom _ _ fun _ _ =>
      .pure (by simp [htarget, hvalue])

theorem alike_setItem : Alike setItem setItem := by
  refine .here fun t t' hkind _ => ?_
  have hproperty := alike_propertyAssignment t.span.start t'.span.start
  rw [hkind]
  refine .ite (.andThen (.look View.alike_next) fun next => ?_) hproperty
  split
  · exact .bind alike_assigned fun name name' hname => .bind alike_expression
      fun value value' hvalue => .spanFrom _ _ fun _ _ => .pure (by simp [hname, hvalue])
  · exact .bind alike_assigned fun name name' hname => .bind alike_expression
      fun value value' hvalue => .spanFrom _ _ fun _ _ => .pure (by simp [hname, hvalue])
  · exact .bind alike_variableName fun name name' hname => .bind alike_labels
      fun labels labels' hlabels => .spanFrom _ _ fun _ _ => .pure (by simp [hname, hlabels])
  · exact hproperty

theorem alike_removeItem : Alike removeItem removeItem := by
  refine .startHere fun _ _ => .andThen (.atVariableBefore _) fun _ => .ite ?_ ?_
  · exact .bind alike_variableName fun name name' hname => .bind alike_labels
      fun labels labels' hlabels => .spanFrom _ _ fun _ _ => .pure (by simp [hname, hlabels])
  · exact .bind .propertyTarget fun target target' h => .pure (by simp [h])

theorem alike_createClause : Alike createClause createClause :=
  .advanceThen fun _ _ => .bind alike_pattern fun paths paths' h => .spanFrom _ _ fun _ _ =>
    .pure (by simp [h])

theorem alike_mergeEvent : Alike mergeEvent mergeEvent :=
  .andThen (.consume _) fun _ => .ite (.pure rfl) <|
    .andThen (.consume _) fun _ => .ite (.pure rfl) (.fail trivial)

theorem alike_mergeAction : Alike mergeAction mergeAction :=
  .advanceThen fun _ _ => .andThen alike_mergeEvent fun _ => .expectThen fun _ _ =>
    .bind (.separated alike_setItem) fun items items' h => .spanFrom _ _ fun _ _ =>
      .pure (by simp [h])

theorem alike_mergeClause : Alike mergeClause mergeClause :=
  .advanceThen fun _ _ => .bind alike_patternPart fun path path' hpath =>
    .bind (.many (.optionally (.isAt _) alike_mergeAction) rfl) fun actions actions' hactions =>
      .spanFrom _ _ fun _ _ => .pure (by simp [hpath, hactions])

theorem alike_deleteClause : Alike deleteClause deleteClause :=
  .startHere fun _ _ => .andThen (.consume _) fun _ => .expectThen fun _ _ =>
    .bind (.separated alike_expression) fun values values' h => .spanFrom _ _ fun _ _ =>
      .pure (by simp [h])

theorem alike_setClause : Alike setClause setClause :=
  .advanceThen fun _ _ => .bind (.separated alike_setItem) fun items items' h =>
    .spanFrom _ _ fun _ _ => .pure (by simp [h])

theorem alike_removeClause : Alike removeClause removeClause :=
  .advanceThen fun _ _ => .bind (.separated alike_removeItem) fun items items' h =>
    .spanFrom _ _ fun _ _ => .pure (by simp [h])

/-! ### All clauses -/

theorem alike_noClause (kind : TokenKind) : Alike (noClause kind) (noClause kind) := .fail trivial

/-- **Clauses are read alike** wherever they stand. -/
theorem alike_clause : Alike clause clause := by
  refine .here fun t t' hkind _ => ?_
  dsimp only
  rw [hkind]
  split
  · split
    · exact alike_matchClause
    · exact alike_matchClause
    · exact alike_whereClause
    · exact alike_withClause
    · exact alike_returnClause
    · exact alike_unwindClause
    · exact alike_createClause
    · exact alike_mergeClause
    · exact alike_deleteClause
    · exact alike_deleteClause
    · exact alike_setClause
    · exact alike_removeClause
    · exact alike_callClause
    · exact alike_noClause _
  · exact alike_noClause _

end Cypher.Grammar
