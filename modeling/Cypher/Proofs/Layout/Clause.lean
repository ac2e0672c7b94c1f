import Cypher.Proofs.Layout.Expression
import Cypher.Grammar.Clause

/-!
# Rules for clauses lay out what they read

The same for clauses and their parts. A clause begins with the word that introduces it, which has to
be at the cursor where the rule begins with passing whatever is there.
-/

namespace Cypher.Grammar

open Rule hiding pure bind
open Composed (elements)

variable {fit : Nat → Prop} {setting : Setting} {inner : Inner}

/-- The outermost elements of columns that are read along with a star. -/
instance {α : Type} [Composed α] : Composed (Bool × α) := ⟨fun x => elements x.2⟩

variable (h : inner.Lays fit setting) {s : State}

include h

/-! ### Reading data -/

theorem laysAt_matchClause : LaysAt fit setting inner true matchClause s := by
  refine .startHere (.skip h.goesOn fun _ t _ => .expectWord h.goesOn ?_)
  refine .bind h.goesOn (laysAt_pattern h) fun pattern u => ?_
  exact .look (.close rfl rfl fun c hc => hc)

theorem laysAt_whereClause (hk : s.cursor.kind ≠ .endOfInput) :
    LaysAt fit setting inner true whereClause s := by
  refine .advance h.goesOn hk (.bind h.goesOn (laysAt_expression h) fun predicate t => ?_)
  exact .look (.close rfl rfl fun c hc => hc)

theorem laysAt_unwindClause (hk : s.cursor.kind ≠ .endOfInput) :
    LaysAt fit setting inner true unwindClause s := by
  refine .advance h.goesOn hk (.bind h.goesOn (laysAt_expression h) fun list t => ?_)
  refine .expectWord h.goesOn (.bind h.goesOn (laysAt_variableName h) fun binder u => ?_)
  exact .look (.close rfl rfl fun c hc => hc)

theorem laysAt_newName : LaysAt fit setting inner false newName s :=
  laysAt_optionally h.goesOn fun _ _ => laysAt_variableName h

theorem laysAt_yieldItem : LaysAt fit setting inner true yieldItem s := by
  refine .bind h.goesOn (laysAt_symbolicName h _) fun field t => ?_
  exact .bind h.goesOn (laysAt_newName h) fun rename u => .pure fun c hc => hc

theorem laysAt_procedureArguments : LaysAt fit setting inner true procedureArguments s := by
  refine .bind h.goesOn (laysAt_expressionList h _) fun arguments t => .expectSign h.goesOn ?_
  exact .pure fun c hc => hc

theorem laysAt_procedureCall : LaysAt fit setting inner true procedureCall s := by
  refine .bind h.goesOn (laysAt_qualifiedName h _) fun name t => ?_
  refine .bind h.goesOn (laysAt_optionally h.goesOn fun _ _ => laysAt_procedureArguments h)
    fun arguments u => ?_
  refine .skip h.goesOn fun yields v _ => .ite (fun _ => ?_) fun _ => ?_
  · refine .skip h.goesOn fun star w _ => .ite (fun _ => ?_) fun _ => ?_
    · exact .pure (by simp [elements])
    · exact .bind h.goesOn (laysAt_separated h.goesOn fun _ => laysAt_yieldItem h)
        fun items x => .pure fun c hc => hc
  · exact .pure (by simp [elements])

theorem laysAt_callClause (hk : s.cursor.kind ≠ .endOfInput) :
    LaysAt fit setting inner true callClause s := by
  refine .advance h.goesOn hk (.skip h.goesOn fun brace t _ => .ite (fun _ => ?_) fun _ => ?_)
  · refine .requireSubqueries (.skip h.goesOn fun _ u _ => ?_)
    refine .braced h.goesOn h.subquery fun body v => ?_
    exact .look (.close rfl rfl fun c hc => hc)
  · refine .bind h.goesOn (laysAt_procedureCall h) fun call u => ?_
    exact .look (.close rfl rfl fun c hc => hc)

/-! ### Projections -/

theorem laysAt_projectionItem : LaysAt fit setting inner true projectionItem s := by
  refine .startHere (.bind h.goesOn (laysAt_expression h) fun value t => ?_)
  refine .bind h.goesOn (laysAt_newName h) fun rename u => ?_
  exact .look (.close rfl rfl fun c hc => hc)

theorem laysAt_sortItem : LaysAt fit setting inner true sortItem s := by
  refine .startHere (.bind h.goesOn (laysAt_expression h) fun value t => ?_)
  exact .skip h.goesOn fun descending u _ => .look (.close rfl rfl fun c hc => hc)

theorem laysAt_columns : LaysAt fit setting inner false columns s := by
  have hitems : ∀ {t : State}, LaysAt fit setting inner true (separated projectionItem) t :=
    laysAt_separated h.goesOn fun _ => laysAt_projectionItem h
  refine .skip h.goesOn fun star t _ => .ite (fun _ => ?_) fun _ => ?_
  · refine .skip h.goesOn fun comma u _ => .ite (fun _ => ?_) fun _ => ?_
    · exact .lax (.bind h.goesOn hitems fun items v => .pure fun c hc => hc)
    · exact .pure fun _ hc => absurd hc List.not_mem_nil
  · exact .lax (.bind h.goesOn hitems fun items u => .pure fun c hc => hc)

theorem laysAt_sorting : LaysAt fit setting inner false sorting s := by
  refine .skip h.goesOn fun order t _ => .ite (fun _ => .expectWord h.goesOn ?_) fun _ => ?_
  · exact .lax (laysAt_separated h.goesOn fun _ => laysAt_sortItem h).builds
  · exact .pure fun _ hc => absurd hc List.not_mem_nil

theorem laysAt_projection : LaysAt fit setting inner false projection s := by
  refine .skip h.goesOn fun distinct t _ => .bind h.goesOn (laysAt_columns h) fun items u => ?_
  refine .bind h.goesOn (laysAt_sorting h) fun orderBy v => ?_
  refine .bind h.goesOn (laysAt_optionally h.goesOn fun _ _ => laysAt_expression h)
    fun skip w => ?_
  refine .bind h.goesOn (laysAt_optionally h.goesOn fun _ _ => laysAt_expression h)
    fun limit x => ?_
  exact .pure fun c hc => hc

theorem laysAt_withClause (hk : s.cursor.kind ≠ .endOfInput) :
    LaysAt fit setting inner true withClause s := by
  refine .advance h.goesOn hk (.bind h.goesOn (laysAt_projection h) fun projection t => ?_)
  exact .look (.close rfl rfl fun c hc => hc)

theorem laysAt_returnClause (hk : s.cursor.kind ≠ .endOfInput) :
    LaysAt fit setting inner true returnClause s := by
  refine .advance h.goesOn hk (.bind h.goesOn (laysAt_projection h) fun projection t => ?_)
  exact .look (.close rfl rfl fun c hc => hc)

/-! ### Changing data -/

theorem laysAt_propertyTarget : LaysAt fit setting inner true propertyTarget s := by
  refine .startHere (.bind h.goesOn (h.expression _ s) fun target t =>
    .ite (fun _ => ?_) fun _ => ?_)
  · exact .pure fun c hc => hc
  · exact .fail _

theorem laysAt_assigned : LaysAt fit setting inner true assigned s := by
  refine .bind h.goesOn (laysAt_variableName h) fun name t => .skip h.goesOn fun _ u _ => ?_
  exact .pure fun _ hc => hc

theorem laysAt_propertyAssignment :
    LaysAt fit setting inner true (propertyAssignment s.cursor.front) s := by
  refine .bind h.goesOn (laysAt_propertyTarget h) fun target t => .expectSign h.goesOn ?_
  refine .bind h.goesOn (laysAt_expression h) fun value u => ?_
  exact .look (.close rfl rfl fun c hc => hc)

theorem laysAt_setItem : LaysAt fit setting inner true setItem s := by
  refine .look (.ite (fun _ => .look ?_) fun _ => laysAt_propertyAssignment h)
  split
  · refine .bind h.goesOn (laysAt_assigned h) fun name t => ?_
    refine .bind h.goesOn (laysAt_expression h) fun value u => ?_
    exact .look (.close rfl rfl fun c hc => hc)
  · refine .bind h.goesOn (laysAt_assigned h) fun name t => ?_
    refine .bind h.goesOn (laysAt_expression h) fun value u => ?_
    exact .look (.close rfl rfl fun c hc => hc)
  · refine .bind h.goesOn (laysAt_variableName h) fun name t => ?_
    refine .bind h.goesOn (laysAt_labels h) fun labels u => ?_
    exact .look (.close rfl rfl fun c hc => hc)
  · exact laysAt_propertyAssignment h

theorem laysAt_removeItem : LaysAt fit setting inner true removeItem s := by
  refine .startHere (.skip h.goesOn fun labelled t _ => .ite (fun _ => ?_) fun _ => ?_)
  · refine .bind h.goesOn (laysAt_variableName h) fun name u => ?_
    refine .bind h.goesOn (laysAt_labels h) fun labels v => ?_
    exact .look (.close rfl rfl fun c hc => hc)
  · refine .part (laysAt_propertyTarget h).builds fun target u => ?_
    exact .recast rfl rfl fun hl => hl.around rfl rfl

theorem laysAt_createClause (hk : s.cursor.kind ≠ .endOfInput) :
    LaysAt fit setting inner true createClause s := by
  refine .advance h.goesOn hk (.bind h.goesOn (laysAt_pattern h) fun pattern t => ?_)
  exact .look (.close rfl rfl fun c hc => hc)

theorem laysAt_mergeAction (hk : s.cursor.kind ≠ .endOfInput) :
    LaysAt fit setting inner true mergeAction s := by
  refine .advance h.goesOn hk (.skip h.goesOn fun event t _ => .expectWord h.goesOn ?_)
  refine .bind h.goesOn (laysAt_separated h.goesOn fun _ => laysAt_setItem h) fun items u => ?_
  exact .look (.close rfl rfl fun c hc => hc)

theorem laysAt_furtherAction :
    LaysAt fit setting inner false (optionally (atWord .ON) mergeAction) s := by
  refine laysAt_optionally h.goesOn fun t ht => ?_
  obtain ⟨rfl, hk⟩ := kind_of_isAt ht
  exact laysAt_mergeAction h (hk ▸ TokenKind.noConfusion)

theorem laysAt_mergeClause (hk : s.cursor.kind ≠ .endOfInput) :
    LaysAt fit setting inner true mergeClause s := by
  refine .advance h.goesOn hk (.bind h.goesOn (laysAt_patternPart h) fun part t => ?_)
  refine .bind h.goesOn (laysAt_many h.goesOn fun _ => laysAt_furtherAction h)
    fun actions u => ?_
  exact .look (.close rfl rfl fun c hc => hc)

theorem laysAt_deleteClause : LaysAt fit setting inner true deleteClause s := by
  refine .startHere (.skip h.goesOn fun detach t _ => .expectWord h.goesOn ?_)
  refine .bind h.goesOn (laysAt_separated h.goesOn fun _ => laysAt_expression h) fun values u => ?_
  exact .look (.close rfl rfl fun c hc => hc)

theorem laysAt_setClause (hk : s.cursor.kind ≠ .endOfInput) :
    LaysAt fit setting inner true setClause s := by
  refine .advance h.goesOn hk ?_
  refine .bind h.goesOn (laysAt_separated h.goesOn fun _ => laysAt_setItem h) fun items t => ?_
  exact .look (.close rfl rfl fun c hc => hc)

theorem laysAt_removeClause (hk : s.cursor.kind ≠ .endOfInput) :
    LaysAt fit setting inner true removeClause s := by
  refine .advance h.goesOn hk ?_
  refine .bind h.goesOn (laysAt_separated h.goesOn fun _ => laysAt_removeItem h) fun items t => ?_
  exact .look (.close rfl rfl fun c hc => hc)

/-- **Clauses are laid out.** -/
theorem laysAt_clause : LaysAt fit setting inner true clause s := by
  refine .look ?_
  dsimp only
  split
  · next word hk =>
    have hne : s.cursor.kind ≠ .endOfInput := by
      rw [show s.cursor.kind = .keyword word from hk]
      exact TokenKind.noConfusion
    split
    · exact laysAt_matchClause h
    · exact laysAt_matchClause h
    · exact laysAt_whereClause h hne
    · exact laysAt_withClause h hne
    · exact laysAt_returnClause h hne
    · exact laysAt_unwindClause h hne
    · exact laysAt_createClause h hne
    · exact laysAt_mergeClause h hne
    · exact laysAt_deleteClause h
    · exact laysAt_deleteClause h
    · exact laysAt_setClause h hne
    · exact laysAt_removeClause h hne
    · exact laysAt_callClause h hne
    · exact .fail _
  · exact .fail _

end Cypher.Grammar
