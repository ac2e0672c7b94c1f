import Cypher.Proofs.Parallel.Clause
import Cypher.Proofs.Shape.Expression

/-!
# The shape of clauses

The same for clauses and their parts. What is asked of a clause comes from the rules that it calls:
things separated by commas are at least one, columns are at least one if there is no star, and what
is assigned to or removed has been tested to be a property.
-/

namespace Cypher.Grammar

open Rule hiding pure bind
open Composed (elements)

variable {setting : Setting} {inner : Inner} {s : State} {word : Keyword}

/-! ### What a run tells -/

/-- What is assigned to is a property. -/
theorem isProperty_of_propertyTarget {target : Expression} {t : State}
    (hr : propertyTarget.run setting inner s = .done target t) : target.isProperty = true := by
  obtain ⟨_, _, -, hr⟩ := done_of_bind hr
  obtain ⟨found, u, -, hr⟩ := done_of_bind hr
  split at hr
  · next hproperty =>
    cases hr
    exact hproperty
  · cases hr

/-- Where there is no star, there is a column. -/
theorem star_or_ne_nil_of_columns {found : Bool × List (ProjectionItem Expression)} {t : State}
    (hr : columns.run setting inner s = .done found t) : found.1 = true ∨ found.2 ≠ [] := by
  obtain ⟨star, u, -, hr⟩ := done_of_bind hr
  split at hr
  · obtain ⟨comma, v, -, hr⟩ := done_of_bind hr
    split at hr
    · obtain ⟨items, w, -, hr⟩ := done_of_bind hr
      cases hr
      exact .inl rfl
    · cases hr
      exact .inl rfl
  · obtain ⟨items, v, hitems, hr⟩ := done_of_bind hr
    cases hr
    exact .inr (ne_nil_of_separated hitems)

theorem formed_of_projection {found : Projection Expression} {t : State}
    (hr : projection.run setting inner s = .done found t) : found.Formed := by
  obtain ⟨_, _, -, hr⟩ := done_of_bind hr
  obtain ⟨⟨star, items⟩, u, hcolumns, hr⟩ := done_of_bind hr
  obtain ⟨_, _, -, hr⟩ := done_of_bind hr
  obtain ⟨_, _, -, hr⟩ := done_of_bind hr
  obtain ⟨_, _, -, hr⟩ := done_of_bind hr
  cases hr
  exact star_or_ne_nil_of_columns hcolumns

section

variable (h : inner.Forms setting)

include h

/-! ### Reading data -/

theorem forms_matchClause : Forms setting inner [] 0 matchClause s := by
  refine .startHere (.skip h.goesOn (forms_takeWord _) fun optional t _ => ?_)
  refine .expect fun hk => .advance hk rfl (.bind h.goesOn (forms_pattern h) fun pattern u _ => ?_)
  exact .look (.close rfl trivial rfl fun _ => .rfl)

theorem forms_whereClause (hk : s.cursor.kind = .keyword word) :
    Forms setting inner [] 0 whereClause s :=
  .advance hk rfl (.bind h.goesOn (forms_expression h) fun _ _ _ =>
    .look (.close rfl trivial rfl fun _ => .rfl))

theorem forms_unwindClause (hk : s.cursor.kind = .keyword word) :
    Forms setting inner [] 0 unwindClause s := by
  refine .advance hk rfl (.bind h.goesOn (forms_expression h) fun list t _ => ?_)
  refine .expect fun hk => .advance hk rfl (.bind h.goesOn forms_variableName fun binder u _ => ?_)
  exact .look (.close rfl trivial rfl fun _ => .rfl)

theorem forms_newName : Forms setting inner [] 0 newName s :=
  forms_optionally h.goesOn (forms_takeWord _) fun _ _ => forms_variableName

theorem forms_yieldItem : Forms setting inner [] 0 yieldItem s :=
  .bind h.goesOn (forms_symbolicName _) fun _ _ _ =>
    .bind h.goesOn (forms_newName h) fun _ _ _ => .pure fun _ => .rfl

/-- The arguments of a procedure shut the parenthesis before them. -/
theorem forms_procedureArguments : Forms setting inner [] 1 procedureArguments s :=
  .bind h.goesOn (forms_expressionList h _) fun _ _ _ =>
    .expect fun hk => .closing hk rfl (.pure fun _ => .rfl)

theorem forms_procedureCall : Forms setting inner [] 0 procedureCall s := by
  have harguments : ∀ {t : State}, Forms setting inner [] 0
      (optionally (takeSign .leftParen) procedureArguments) t := fun {_} =>
    .consume (fun hk => .opening hk rfl (.part h.goesOn (forms_procedureArguments h)
      fun _ _ _ => .pure (by simp [elements]))) fun _ => .pure fun _ => .rfl
  refine .bind h.goesOn (forms_qualifiedName h.goesOn _) fun name t _ => ?_
  refine .bind h.goesOn harguments fun arguments u _ => ?_
  refine .skip h.goesOn (forms_takeWord _) fun yields v _ => .ite (fun _ => ?_) fun _ => ?_
  · refine .skip h.goesOn (forms_takeSign rfl) fun star w _ => .ite (fun _ => ?_) fun _ => ?_
    · exact .pure (by simp [elements])
    · exact .bind h.goesOn (forms_separated h.goesOn fun _ => forms_yieldItem h)
        fun items x _ => .pure fun _ => .rfl
  · exact .pure (by simp [elements])

theorem forms_callClause (hk : s.cursor.kind = .keyword word) :
    Forms setting inner [] 0 callClause s := by
  refine .advance hk rfl (.isAt (.ite (fun hopen => ?_) fun _ => ?_))
  · refine .requireSubqueries (.move (.opening (of_decide_eq_true hopen) rfl ?_))
    refine .bind h.goesOn (h.subquery _) fun body t _ => ?_
    exact .expect fun hk => .closing hk rfl (.look (.close rfl trivial rfl fun _ => .rfl))
  · exact .bind h.goesOn (forms_procedureCall h) fun call t _ =>
      .look (.close rfl trivial rfl fun _ => .rfl)

/-! ### Projections -/

theorem forms_projectionItem : Forms setting inner [] 0 projectionItem s :=
  .startHere (.bind h.goesOn (forms_expression h) fun _ _ _ =>
    .bind h.goesOn (forms_newName h) fun _ _ _ => .look (.close rfl trivial rfl fun _ => .rfl))

omit h in
theorem forms_sortDirection : Forms setting inner [] 0 sortDirection s := by
  refine .look ?_
  split
  · next hk => exact .move (.advance hk rfl (.value _))
  · next hk => exact .move (.advance hk rfl (.value _))
  · next hk => exact .move (.advance hk rfl (.value _))
  · next hk => exact .move (.advance hk rfl (.value _))
  · exact .value _

theorem forms_sortItem : Forms setting inner [] 0 sortItem s :=
  .startHere (.bind h.goesOn (forms_expression h) fun _ _ _ =>
    .skip h.goesOn forms_sortDirection fun _ _ _ => .look (.close rfl trivial rfl fun _ => .rfl))

theorem forms_columns : Forms setting inner [] 0 columns s := by
  have hitems : ∀ {t : State}, Forms setting inner [] 0 (separated projectionItem) t :=
    forms_separated h.goesOn fun _ => forms_projectionItem h
  refine .skip h.goesOn (forms_takeSign rfl) fun star t _ => .ite (fun _ => ?_) fun _ => ?_
  · refine .skip h.goesOn (forms_takeSign rfl) fun comma u _ => .ite (fun _ => ?_) fun _ => ?_
    · exact .bind h.goesOn hitems fun items v _ => .pure fun _ => .rfl
    · exact .pure fun _ => .rfl
  · exact .bind h.goesOn hitems fun items u _ => .pure fun _ => .rfl

theorem forms_sorting : Forms setting inner [] 0 sorting s := by
  refine .skip h.goesOn (forms_takeWord _) fun order t _ => .ite (fun _ => ?_) fun _ => ?_
  · exact .expect fun hk => .advance hk rfl (forms_separated h.goesOn fun _ => forms_sortItem h)
  · exact .pure fun _ => .rfl

theorem forms_projection : Forms setting inner [] 0 projection s := by
  refine .skip h.goesOn (forms_takeWord _) fun distinct t _ => ?_
  refine .bind h.goesOn (forms_columns h) fun items u _ => ?_
  refine .bind h.goesOn (forms_sorting h) fun orderBy v _ => ?_
  refine .bind h.goesOn (forms_behind h rfl) fun skip w _ => ?_
  exact .bind h.goesOn (forms_behind h rfl) fun limit x _ => .pure fun _ => .rfl

theorem forms_withClause (hk : s.cursor.kind = .keyword word) :
    Forms setting inner [] 0 withClause s :=
  .advance hk rfl (.bind h.goesOn (forms_projection h) fun _ _ hr =>
    .look (.close rfl (formed_of_projection hr) rfl fun _ => .rfl))

theorem forms_returnClause (hk : s.cursor.kind = .keyword word) :
    Forms setting inner [] 0 returnClause s :=
  .advance hk rfl (.bind h.goesOn (forms_projection h) fun _ _ hr =>
    .look (.close rfl (formed_of_projection hr) rfl fun _ => .rfl))

/-! ### Changing data -/

theorem forms_propertyTarget : Forms setting inner [] 0 propertyTarget s :=
  .startHere (.bind h.goesOn (h.expression _ s) fun _ _ _ =>
    .ite (fun _ => .pure fun _ => .rfl) fun _ => .fail _)

theorem forms_propertyAssignment (start : Nat) :
    Forms setting inner [] 0 (propertyAssignment start) s := by
  refine .bind h.goesOn (forms_propertyTarget h) fun target t htarget => ?_
  refine .expect fun hk => .advance hk rfl ?_
  refine .bind h.goesOn (forms_expression h) fun value u _ => .look ?_
  exact .close rfl (isProperty_of_propertyTarget htarget) rfl fun _ => .rfl

/-- A variable, the sign behind it and a value. -/
theorem forms_assigning {kind : TokenKind} (make : Ident → Expression → Span → SetItem Expression)
    (hformed : ∀ name value span, (Element.setItem (make name value span)).Formed)
    (hchildren : ∀ name value span,
      (Element.setItem (make name value span)).children = elements name ++ elements value)
    (start : Nat) (hv : s.cursor.kind.isVariable = true) (hk : s.cursor.peek 1 = kind)
    (hl : kind.isLevel = true) :
    Forms setting inner [] 0 (do
      let name ← assigned
      let value ← expression
      return make name value (← look (.spanFrom start))) s := by
  have hname : Forms setting inner [] 0 assigned s := forms_pathName h.goesOn hv hk hl
  refine .bind h.goesOn hname fun name t _ => .bind h.goesOn (forms_expression h) fun value u _ => ?_
  exact .look (.close rfl (hformed ..) rfl fun _ => by rw [hchildren]; exact .rfl)

theorem forms_setItem : Forms setting inner [] 0 setItem s := by
  refine .look (.ite (fun hv => .look ?_) fun _ => forms_propertyAssignment h _)
  split
  · next hk =>
    exact forms_assigning h .replace (fun _ _ _ => trivial) (fun _ _ _ => rfl) _ hv hk rfl
  · next hk =>
    exact forms_assigning h .merge (fun _ _ _ => trivial) (fun _ _ _ => rfl) _ hv hk rfl
  · refine .bind h.goesOn forms_variableName fun name t _ => ?_
    exact .bind h.goesOn (forms_labels h.goesOn) fun names u hnames =>
      .look (.close rfl (ne_nil_of_labels hnames) rfl fun _ => .rfl)
  · exact forms_propertyAssignment h _

theorem forms_removeItem : Forms setting inner [] 0 removeItem s := by
  refine .startHere (.skip h.goesOn (forms_atVariableBefore h.goesOn) fun labelled t _ =>
    .ite (fun _ => ?_) fun _ => ?_)
  · refine .bind h.goesOn forms_variableName fun name u _ => ?_
    exact .bind h.goesOn (forms_labels h.goesOn) fun names v hnames =>
      .look (.close rfl (ne_nil_of_labels hnames) rfl fun _ => .rfl)
  · exact .part h.goesOn (forms_propertyTarget h) fun target u htarget =>
      .close rfl (isProperty_of_propertyTarget htarget) rfl fun _ => .rfl

theorem forms_createClause (hk : s.cursor.kind = .keyword word) :
    Forms setting inner [] 0 createClause s :=
  .advance hk rfl (.bind h.goesOn (forms_pattern h) fun _ _ _ =>
    .look (.close rfl trivial rfl fun _ => .rfl))

theorem forms_mergeEvent : Forms setting inner [] 0 mergeEvent s :=
  .skip h.goesOn (forms_takeWord _) fun _ _ _ => .ite (fun _ => .value _) fun _ =>
    .skip h.goesOn (forms_takeWord _) fun _ _ _ => .ite (fun _ => .value _) fun _ => .fail _

theorem forms_mergeAction (hk : s.cursor.kind = .keyword word) :
    Forms setting inner [] 0 mergeAction s := by
  refine .advance hk rfl (.skip h.goesOn (forms_mergeEvent h) fun event t _ => ?_)
  refine .expect fun hk => .advance hk rfl ?_
  exact .bind h.goesOn (forms_separated h.goesOn fun _ => forms_setItem h) fun items u hitems =>
    .look (.close rfl (ne_nil_of_separated hitems) rfl fun _ => .rfl)

theorem forms_mergeClause (hk : s.cursor.kind = .keyword word) :
    Forms setting inner [] 0 mergeClause s := by
  refine .advance hk rfl (.bind h.goesOn (forms_patternPart h) fun part t _ => ?_)
  refine .bind h.goesOn (forms_many h.goesOn fun _ => forms_optionally h.goesOn forms_isAt
    fun u hu => ?_) fun actions u _ => .look (.close rfl trivial rfl fun _ => .rfl)
  obtain ⟨rfl, hk⟩ := kind_of_isAt hu
  exact forms_mergeAction h hk

theorem forms_deleteClause : Forms setting inner [] 0 deleteClause s := by
  refine .startHere (.skip h.goesOn (forms_takeWord _) fun detach t _ => ?_)
  refine .expect fun hk => .advance hk rfl ?_
  exact .bind h.goesOn (forms_separated h.goesOn fun _ => forms_expression h) fun values u hvalues =>
    .look (.close rfl (ne_nil_of_separated hvalues) rfl fun _ => .rfl)

theorem forms_setClause (hk : s.cursor.kind = .keyword word) :
    Forms setting inner [] 0 setClause s :=
  .advance hk rfl (.bind h.goesOn (forms_separated h.goesOn fun _ => forms_setItem h) fun _ _ hr =>
    .look (.close rfl (ne_nil_of_separated hr) rfl fun _ => .rfl))

theorem forms_removeClause (hk : s.cursor.kind = .keyword word) :
    Forms setting inner [] 0 removeClause s :=
  .advance hk rfl (.bind h.goesOn (forms_separated h.goesOn fun _ => forms_removeItem h)
    fun _ _ hr => .look (.close rfl (ne_nil_of_separated hr) rfl fun _ => .rfl))

/-- **Clauses are formed.** -/
theorem forms_clause : Forms setting inner [] 0 clause s := by
  refine .look ?_
  dsimp only
  split
  · next hk =>
    split
    · exact forms_matchClause h
    · exact forms_matchClause h
    · exact forms_whereClause h hk
    · exact forms_withClause h hk
    · exact forms_returnClause h hk
    · exact forms_unwindClause h hk
    · exact forms_createClause h hk
    · exact forms_mergeClause h hk
    · exact forms_deleteClause h
    · exact forms_deleteClause h
    · exact forms_setClause h hk
    · exact forms_removeClause h hk
    · exact forms_callClause h hk
    · exact .fail _
  · exact .fail _

end

end Cypher.Grammar
