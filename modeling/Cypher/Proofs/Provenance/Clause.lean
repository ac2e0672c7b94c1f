import Cypher.Proofs.Growth.Clause
import Cypher.Proofs.Parallel.Clause
import Cypher.Proofs.Provenance.Expression

/-!
# Where clauses come from

The same for clauses and their parts. Each clause begins with a word of its own, which gives it its
mark; so does a column with a new name. A called subquery is the third and last place where there
are braces.
-/

namespace Cypher.Grammar

open Rule hiding pure bind
open Rooted (Bare roots map_eq_roots toList_map_eq_roots)

variable {setting : Setting} {inner : Inner} (h : inner.Sprouts setting) {s : State}
  {word : Keyword}

include h

/-! ### Reading data -/

theorem sprouts_matchClause : Sprouts setting inner 1 .whole matchClause s := by
  have hpattern : ∀ {optional : Bool} {t : State}, Turns setting inner 1 .whole
      (Stems .whole [] [] [s.cursor.front]) (fun c => Stems .whole (roots c) [] []) (do
        let pattern ← pattern
        return ClauseOf.matchPattern optional pattern (← look (.spanFrom s.cursor.front))) t :=
    fun {_ _} => .bind h.goesOn (sprouts_pattern h) fun pattern _ =>
      .look (.node rfl rfl (map_eq_roots (fun _ => rfl) pattern.parts) (.refl _))
  refine .startHere (.consumeThen (fun hk => ?_) fun _ => ?_)
  · exact .advanceMarked hk rfl (.expect rfl hpattern)
  · exact .expectThen (fun _ hu => hu.broken) fun hk => .advanceMarked hk rfl hpattern

theorem sprouts_whereClause (hk : s.cursor.kind = .keyword word) :
    Sprouts setting inner 1 .whole whereClause s :=
  .advanceMarked hk rfl (.bind h.goesOn (sprouts_expression h) fun _ _ =>
    .look (.node rfl rfl rfl (.refl _)))

theorem sprouts_unwindClause (hk : s.cursor.kind = .keyword word) :
    Sprouts setting inner 1 .whole unwindClause s :=
  .advanceMarked hk rfl (.bind h.goesOn (sprouts_expression h) fun _ _ => .expect rfl
    (.skip h.goesOn sprouts_variableName fun _ _ => .look (.node rfl rfl rfl (.refl _))))

/-- A new name begins where its token does. -/
theorem turns_newName :
    Turns setting inner 1 .whole (Stems .whole [] [] [])
      (fun name => Stems .whole [] [] (name.toList.map (·.span.start))) newName s := by
  refine .skip h.goesOn (sprouts_takeWord _) fun renamed _ => .ite (fun _ => ?_)
    fun _ => .pure fun _ hu => hu
  exact .mark h.goesOn turns_variableName fun _ _ => .pure fun _ hu => hu

theorem sprouts_yieldItem : Sprouts setting inner 1 .whole yieldItem s :=
  .skip h.goesOn (sprouts_symbolicName _) fun _ _ =>
    .skip h.goesOn (sprouts_optionally h.goesOn (sprouts_takeWord _) fun _ _ =>
      sprouts_variableName) fun _ _ => .value rfl

theorem sprouts_procedureArguments : Sprouts setting inner 1 .whole procedureArguments s :=
  .bind h.goesOn (sprouts_expressionList h _) fun _ _ => .expect rfl (.value rfl)

theorem sprouts_procedureCall : Sprouts setting inner 1 .whole procedureCall s := by
  have hname : Sprouts setting inner 1 .whole (qualifiedName "a procedure name") s :=
    (turns_qualifiedName h.goesOn _).mono fun _ _ hw => hw.forget (List.nil_sublist _)
  refine .skip h.goesOn hname fun _ _ => ?_
  refine .bind h.goesOn (sprouts_optionally h.goesOn (sprouts_takeSign rfl) fun _ _ =>
    sprouts_procedureArguments h) fun _ _ => .consume rfl (fun _ => ?_) fun _ => .value rfl
  refine .consume rfl (fun _ => .value rfl) fun _ => ?_
  exact .skip h.goesOn (sprouts_separated h.goesOn fun _ => sprouts_yieldItem h) fun _ _ =>
    .value rfl

theorem sprouts_callClause (hk : s.cursor.kind = .keyword word) :
    Sprouts setting inner 1 .whole callClause s := by
  have hword : s.cursor.current.kind.isPlain = true := by
    rw [show s.cursor.current.kind = .keyword word from hk]
    rfl
  by_cases hopen : s.step.cursor.kind = .sign .leftBrace
  · refine .sprouts (.advanceFirst (hk ▸ TokenKind.noConfusion) (.isAt (.ite (fun _ => ?_)
      fun hn => absurd (decide_eq_true hopen) hn)))
    refine .requireSubqueries ?_ (turns_subquery h.goesOn
      (f := fun body span => .clause (.callQuery body span)) hword hopen (fun t => h.subquery t)
      (fun _ _ => rfl) (fun _ _ => rfl) (fun _ _ => rfl) fun _ _ => .refl _)
    rintro u rfl
    have hfirst : Stems .whole [] [] [] [s.cursor.current] := .bare hword
    exact hfirst.tear nofun
  · refine .advanceMarked hk rfl (.isAt (.ite (fun hb => absurd (of_decide_eq_true hb) hopen)
      fun _ => ?_))
    exact .bind h.goesOn (sprouts_procedureCall h) fun call _ =>
      .look (.node rfl rfl (getD_map_eq_roots call.arguments) (.refl _))

/-! ### Projections -/

theorem sprouts_projectionItem : Sprouts setting inner 1 .whole projectionItem s := by
  refine .startHere (.bind h.goesOn (sprouts_expression h) fun value _ => ?_)
  refine .mark h.goesOn (turns_newName h) fun rename _ => .look (.node rfl rfl rfl ?_)
  cases rename <;> exact .refl _

omit h in
theorem sprouts_sortDirection : Sprouts setting inner 1 .whole sortDirection s := by
  refine .look ?_
  split
  · next hk => exact .move hk rfl (.value rfl)
  · next hk => exact .move hk rfl (.value rfl)
  · next hk => exact .move hk rfl (.value rfl)
  · next hk => exact .move hk rfl (.value rfl)
  · exact .value rfl

theorem sprouts_sortItem : Sprouts setting inner 1 .whole sortItem s :=
  .startHere (.bind h.goesOn (sprouts_expression h) fun _ _ =>
    .skip h.goesOn sprouts_sortDirection fun _ _ => .look (.value rfl))

theorem sprouts_columns : Sprouts setting inner 1 .whole columns s := by
  have hitems : ∀ {t : State}, Sprouts setting inner 1 .whole (separated projectionItem) t :=
    sprouts_separated h.goesOn fun _ => sprouts_projectionItem h
  refine .consume rfl (fun _ => .consume rfl (fun _ => ?_) fun _ => .value rfl) fun _ => ?_
  · exact .bind h.goesOn hitems fun _ _ => .value rfl
  · exact .bind h.goesOn hitems fun _ _ => .value rfl

theorem sprouts_sorting : Sprouts setting inner 1 .whole sorting s :=
  .consume rfl (fun _ => .expect rfl (sprouts_separated h.goesOn fun _ => sprouts_sortItem h))
    fun _ => .value rfl

theorem sprouts_projection : Sprouts setting inner 1 .whole projection s := by
  refine .skip h.goesOn (sprouts_takeWord _) fun distinct _ => ?_
  refine .bind h.goesOn (sprouts_columns h) fun items _ => ?_
  refine .bind h.goesOn (sprouts_sorting h) fun orderBy _ => ?_
  refine .bind h.goesOn (sprouts_behind h rfl) fun skip _ => ?_
  refine .bind h.goesOn (sprouts_behind h rfl) fun limit _ => .value ?_
  change [] ++ roots items.2 ++ roots orderBy ++ roots skip ++ roots limit =
    Node.ofProjection ⟨distinct, items.1, items.2, orderBy, skip, limit⟩
  rw [Node.ofProjection, map_eq_roots (fun _ => rfl) items.2, map_eq_roots (fun _ => rfl) orderBy,
    toList_map_eq_roots (fun _ => rfl) skip, toList_map_eq_roots (fun _ => rfl) limit]
  rfl

theorem sprouts_withClause (hk : s.cursor.kind = .keyword word) :
    Sprouts setting inner 1 .whole withClause s :=
  .advanceMarked hk rfl (.bind h.goesOn (sprouts_projection h) fun _ _ =>
    .look (.node rfl rfl rfl (.refl _)))

theorem sprouts_returnClause (hk : s.cursor.kind = .keyword word) :
    Sprouts setting inner 1 .whole returnClause s :=
  .advanceMarked hk rfl (.bind h.goesOn (sprouts_projection h) fun _ _ =>
    .look (.node rfl rfl rfl (.refl _)))

/-! ### Changing data -/

theorem sprouts_propertyTarget : Sprouts setting inner 1 .whole propertyTarget s :=
  .startHere (.bind h.goesOn (h.expression _ s) fun _ _ =>
    .ite (fun _ => .value rfl) fun _ => .fail _)

theorem sprouts_propertyAssignment (start : Nat) :
    Sprouts setting inner 1 .whole (propertyAssignment start) s :=
  .bind h.goesOn (sprouts_propertyTarget h) fun _ _ => .expect rfl
    (.bind h.goesOn (sprouts_expression h) fun _ _ =>
      .look (.node rfl rfl rfl (List.nil_sublist _)))

/-- A variable, the sign behind it and a value. -/
theorem sprouts_assigning {kind : TokenKind} (f : Ident → Expression → Span → SetItem Expression)
    (hf : ∀ name value span, Node.ofSetItem (f name value span) = [.expression value])
    (start : Nat) (hv : s.cursor.kind.isVariable = true) (hk : s.cursor.peek 1 = kind)
    (hp : kind.isPlain = true) :
    Sprouts setting inner 1 .whole (do
      let name ← assigned
      let value ← expression
      return f name value (← look (.spanFrom start))) s := by
  have hname : Sprouts setting inner 1 .whole assigned s := sprouts_pathName h hv hk hp
  exact .skip h.goesOn hname fun _ _ => .bind h.goesOn (sprouts_expression h) fun _ _ =>
    .look (.node rfl rfl (hf _ _ _) (List.nil_sublist _))

theorem sprouts_setItem : Sprouts setting inner 1 .whole setItem s := by
  refine .look (.ite (fun hv => .look ?_) fun _ => sprouts_propertyAssignment h _)
  split
  · next hk => exact sprouts_assigning h .replace (fun _ _ _ => rfl) _ hv hk rfl
  · next hk => exact sprouts_assigning h .merge (fun _ _ _ => rfl) _ hv hk rfl
  · exact .skip h.goesOn sprouts_variableName fun _ _ => .skip h.goesOn (sprouts_labels h.goesOn)
      fun _ _ => .look (.node rfl rfl rfl (List.nil_sublist _))
  · exact sprouts_propertyAssignment h _

theorem sprouts_removeItem : Sprouts setting inner 1 .whole removeItem s := by
  refine .startHere (.skip h.goesOn (sprouts_atVariableBefore h) fun labelled _ =>
    .ite (fun _ => ?_) fun _ => ?_)
  · exact .skip h.goesOn sprouts_variableName fun _ _ => .skip h.goesOn (sprouts_labels h.goesOn)
      fun _ _ => .look (.value rfl)
  · exact .bind h.goesOn (sprouts_propertyTarget h) fun _ _ => .value rfl

theorem sprouts_createClause (hk : s.cursor.kind = .keyword word) :
    Sprouts setting inner 1 .whole createClause s :=
  .advanceMarked hk rfl (.bind h.goesOn (sprouts_pattern h) fun pattern _ =>
    .look (.node rfl rfl (map_eq_roots (fun _ => rfl) pattern.parts) (.refl _)))

omit h in
theorem sprouts_mergeEvent : Sprouts setting inner 1 .whole mergeEvent s :=
  .consume rfl (fun _ => .value rfl) fun _ => .consume rfl (fun _ => .value rfl) fun _ => .fail _

theorem sprouts_mergeAction (hk : s.cursor.kind = .keyword .ON) :
    Sprouts setting inner 1 .whole mergeAction s :=
  .advance hk rfl (.skip h.goesOn sprouts_mergeEvent fun _ _ => .expect rfl
    (.bind h.goesOn (sprouts_separated h.goesOn fun _ => sprouts_setItem h) fun _ _ =>
      .look (.value rfl)))

theorem sprouts_mergeClause (hk : s.cursor.kind = .keyword word) :
    Sprouts setting inner 1 .whole mergeClause s := by
  refine .advanceMarked hk rfl (.bind h.goesOn (sprouts_patternPart h) fun part _ => ?_)
  refine .bind h.goesOn (sprouts_many h.goesOn fun _ => sprouts_optionally h.goesOn sprouts_isAt
    fun t ht => ?_) fun actions _ => .look (.node rfl rfl ?_ (.refl _))
  · obtain ⟨rfl, hk⟩ := kind_of_isAt ht
    exact sprouts_mergeAction h hk
  · have hnodes : (actions.flatMap fun a => a.items.map Node.setItem) = roots actions :=
      congrArg (actions.flatMap ·) (funext fun a => map_eq_roots (fun _ => rfl) a.items)
    exact congrArg (_ :: ·) hnodes

theorem sprouts_deleteClause : Sprouts setting inner 1 .whole deleteClause s := by
  have hvalues : ∀ {detach : Bool} {t : State}, Turns setting inner 1 .whole
      (Stems .whole [] [] [s.cursor.front]) (fun c => Stems .whole (roots c) [] []) (do
        let values ← separated expression
        return ClauseOf.deleteValues detach values (← look (.spanFrom s.cursor.front))) t :=
    fun {_ _} => .bind h.goesOn (sprouts_separated h.goesOn fun _ => sprouts_expression h)
      fun values _ => .look (.node rfl rfl (map_eq_roots (fun _ => rfl) values) (.refl _))
  refine .startHere (.consumeThen (fun hk => ?_) fun _ => ?_)
  · exact .advanceMarked hk rfl (.expect rfl hvalues)
  · exact .expectThen (fun _ hu => hu.broken) fun hk => .advanceMarked hk rfl hvalues

theorem sprouts_setClause (hk : s.cursor.kind = .keyword word) :
    Sprouts setting inner 1 .whole setClause s :=
  .advanceMarked hk rfl (.bind h.goesOn (sprouts_separated h.goesOn fun _ => sprouts_setItem h)
    fun items _ => .look (.node rfl rfl (map_eq_roots (fun _ => rfl) items) (.refl _)))

theorem sprouts_removeClause (hk : s.cursor.kind = .keyword word) :
    Sprouts setting inner 1 .whole removeClause s :=
  .advanceMarked hk rfl (.bind h.goesOn (sprouts_separated h.goesOn fun _ => sprouts_removeItem h)
    fun _ _ => .look (.node rfl rfl rfl (.refl _)))

/-- **Clauses stem from the tokens that are passed.** -/
theorem sprouts_clause : Sprouts setting inner 1 .whole clause s := by
  refine .look ?_
  dsimp only
  split
  · next hk =>
    split
    · exact sprouts_matchClause h
    · exact sprouts_matchClause h
    · exact sprouts_whereClause h hk
    · exact sprouts_withClause h hk
    · exact sprouts_returnClause h hk
    · exact sprouts_unwindClause h hk
    · exact sprouts_createClause h hk
    · exact sprouts_mergeClause h hk
    · exact sprouts_deleteClause h
    · exact sprouts_deleteClause h
    · exact sprouts_setClause h hk
    · exact sprouts_removeClause h hk
    · exact sprouts_callClause h hk
    · exact .fail _
  · exact .fail _

end Cypher.Grammar
