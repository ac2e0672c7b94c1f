import Cypher.Proofs.Lookout.Expression
import Cypher.Proofs.Tiling.Query

/-!
# Looking out in clauses

The same for clauses and their parts. Only one rule passes the word, which is the one for a merge,
and the clause that it reads begins there (`Cypher.Grammar.finds_mergeClause`). A called procedure
may have any word for its name; that no name is awaited before the call is needed to know that one
is awaited behind its word (`Cypher.Grammar.finds_callClause`).
-/

namespace Cypher.Grammar

open Rule hiding pure bind
open Composed (elements)

variable {setting : Setting} {inner : Inner} {L : Lookout setting} {s : State}
  (h : inner.Finds L)

include h

/-! ### Reading data -/

theorem finds_matchClause (s : State) : Finds L inner [] matchClause s := by
  refine .startHere (.skip h.goesOn (tests_takeWord (by decide)).spares fun optional t _ => ?_)
  refine .past h.goesOn (.expect rfl) fun _ u _ => ?_
  exact .bind h.goesOn (finds_pattern h u) fun pattern v hv =>
    .look (.close hv rfl fun _ hc => hc)

theorem finds_whereClause (hk : s.cursor.kind.isOrdinary = true) :
    Finds L inner [] whereClause s := by
  refine .past h.goesOn (.advance hk) fun word t _ => ?_
  exact .bind h.goesOn (finds_expression h t) fun predicate u hu =>
    .look (.close hu rfl fun _ hc => hc)

theorem finds_unwindClause (hk : s.cursor.kind.isOrdinary = true) :
    Finds L inner [] unwindClause s := by
  refine .past h.goesOn (.advance hk) fun word t _ => ?_
  refine .bind h.goesOn (finds_expression h t) fun list u _ => ?_
  refine .past h.goesOn (.expect rfl) fun _ v _ => ?_
  exact .bind h.goesOn (.ofClears clears_variableName) fun binder w hw =>
    .look (.close hw rfl fun _ hc => hc)

theorem clears_newName (hs : s.awaits = false) : Clears L inner newName s :=
  clears_ifTaken h.goesOn rfl hs fun _ _ => clears_variableName

theorem clears_yieldItem (hs : s.awaits = true) : Clears L inner yieldItem s :=
  .andThen h.goesOn (clears_symbolicName _ (.inl hs)) fun _ _ ht =>
    .andThen h.goesOn (clears_newName h ht) fun _ _ hu => .pure hu

theorem finds_procedureArguments (hs : s.awaits = false) :
    Finds L inner [] procedureArguments s := by
  refine .bind h.goesOn (finds_expressionList h _ hs) fun arguments t _ => ?_
  exact .past h.goesOn (.expect rfl) fun _ u hu => .pure hu fun _ hc => hc

/-- Behind the word for a call, a name is awaited, and behind what is called none is. -/
theorem finds_procedureCall (hs : s.awaits = true) : Finds L inner [] procedureCall s := by
  refine .bind h.goesOn (.ofClears (clears_qualifiedName h.goesOn _ (.inl hs))) fun name t ht => ?_
  refine .assuming fun hover => .bind h.goesOn (finds_optionally h.goesOn ht (tests_takeSign _)
    fun u hu => finds_procedureArguments h ?_) fun arguments u hu => ?_
  · exact (clears_consume (L := L) rfl ht hover true u hu).2
  refine .assuming fun hover => .skip h.goesOn (tests_takeWord (by decide)).spares
    fun yields v hv => ?_
  cases yields with
  | false =>
    rcases of_consume hv with ⟨htrue, -⟩ | ⟨-, -, rfl⟩
    · cases htrue
    · exact .pure hu (by simp [elements])
  | true =>
    obtain ⟨-, hyield, rfl⟩ := (of_consume hv).resolve_right (by simp)
    -- behind what is called no name was awaited, so behind `YIELD` one is
    have hawaits := State.awaits_step_of_isCallWord hover.closed (hyield ▸ rfl) hu
    refine .ite (fun _ => ?_) (absurd rfl)
    refine .assuming fun hover => .skip h.goesOn (tests_takeSign _).spares fun star w hw => ?_
    cases star with
    | true =>
      obtain ⟨-, hstar, rfl⟩ := (of_consume hw).resolve_right (by simp)
      exact .ite (fun _ => .pure (State.awaits_step_of_isOrdinary hover.closed (hstar ▸ rfl))
        (by simp [elements])) (absurd rfl)
    | false =>
      obtain ⟨-, -, rfl⟩ := (of_consume hw).resolve_left (by simp)
      refine .ite nofun fun _ => ?_
      exact .bind h.goesOn (finds_separated h.goesOn (.ofClears (clears_yieldItem h hawaits))
        fun x hx => .ofClears (clears_yieldItem h hx)) fun items x hx => .pure hx fun _ hc => hc

theorem finds_callClause (hk : s.cursor.kind = .keyword .CALL) (hs : s.awaits = false) :
    Finds L inner [] callClause s := by
  refine .assuming fun hover => .skip h.goesOn (.advance (hk ▸ nofun)) fun word t ht => ?_
  cases ht
  have hawaits := State.awaits_step_of_isCallWord hover.closed (hk ▸ rfl) hs
  refine .skip h.goesOn (tests_isAt _).spares fun brace u hu => ?_
  cases hu
  refine .ite (fun hbrace => .requireSubqueries ?_) fun _ => ?_
  · have hbrace : s.step.cursor.kind = .sign .leftBrace := of_decide_eq_true hbrace
    refine .past h.goesOn (clears_move (s := s.step) (hbrace ▸ rfl)) fun _ v hv => ?_
    refine .bind h.goesOn (h.subquery hv) fun body w _ => ?_
    exact .past h.goesOn (.expect rfl) fun _ x hx => .look (.close hx rfl fun _ hc => hc)
  · exact .bind h.goesOn (finds_procedureCall h (s := s.step) hawaits) fun call v hv =>
      .look (.close hv rfl fun _ hc => hc)

/-! ### Projections -/

theorem finds_projectionItem (s : State) : Finds L inner [] projectionItem s := by
  refine .startHere (.bind h.goesOn (finds_expression h s) fun value t ht => ?_)
  exact .bind h.goesOn (.ofClears (clears_newName h ht)) fun rename u hu =>
    .look (.close hu rfl fun _ hc => hc)

theorem clears_sortDirection (hs : s.awaits = false) : Clears L inner sortDirection s := by
  have hpast {word : Keyword} {descending : Bool}
      (hk : s.cursor.kind = .keyword word) (ho : (TokenKind.keyword word).isOrdinary = true) :
      Clears L inner (do move; return descending) s :=
    .andThen h.goesOn (clears_move (hk ▸ ho)) fun _ _ ht => .pure ht
  refine .look ?_
  split
  · next hk => exact hpast hk rfl
  · next hk => exact hpast hk rfl
  · next hk => exact hpast hk rfl
  · next hk => exact hpast hk rfl
  · exact .pure hs

theorem finds_sortItem (s : State) : Finds L inner [] sortItem s := by
  refine .startHere (.bind h.goesOn (finds_expression h s) fun value t ht => ?_)
  exact .past h.goesOn (clears_sortDirection h ht) fun descending u hu =>
    .look (.close hu rfl fun _ hc => hc)

theorem finds_columns (hs : s.awaits = false) : Finds L inner [] columns s := by
  have hitems (t : State) : Finds L inner [] (separated projectionItem) t :=
    finds_separated h.goesOn (finds_projectionItem h t) fun u _ => finds_projectionItem h u
  refine .past h.goesOn (clears_consume rfl hs) fun star t ht => .ite (fun _ => ?_) fun _ => ?_
  · refine .skip h.goesOn (tests_takeSign _).spares fun comma u hu => ?_
    cases comma with
    | true =>
      exact .ite (fun _ => .bind h.goesOn (hitems u) fun items v hv => .pure hv fun _ hc => hc)
        (absurd rfl)
    | false =>
      obtain ⟨-, -, rfl⟩ := (of_consume hu).resolve_left (by simp)
      exact .ite nofun fun _ => .pure ht nofun
  · exact .bind h.goesOn (hitems t) fun items u hu => .pure hu fun _ hc => hc

theorem finds_sorting (hs : s.awaits = false) : Finds L inner [] sorting s := by
  refine .past h.goesOn (clears_consume rfl hs) fun order t ht => .ite (fun _ => ?_) fun _ => ?_
  · exact .past h.goesOn (.expect rfl) fun _ u _ =>
      finds_separated h.goesOn (finds_sortItem h u) fun v _ => finds_sortItem h v
  · exact .pure ht nofun

theorem finds_projection (hs : s.awaits = false) : Finds L inner [] projection s := by
  refine .past h.goesOn (clears_consume rfl hs) fun distinct t ht => ?_
  refine .bind h.goesOn (finds_columns h ht) fun items u hu => ?_
  refine .bind h.goesOn (finds_sorting h hu) fun orderBy v hv => ?_
  refine .bind h.goesOn (finds_ifTaken h (by decide) hv) fun skip w hw => ?_
  refine .bind h.goesOn (finds_ifTaken h (by decide) hw) fun limit x hx => ?_
  exact .pure hx fun _ hc => hc

theorem finds_withClause (hk : s.cursor.kind.isOrdinary = true) :
    Finds L inner [] withClause s := by
  refine .past h.goesOn (.advance hk) fun word t ht => ?_
  exact .bind h.goesOn (finds_projection h ht) fun projection u hu =>
    .look (.close hu rfl fun _ hc => hc)

theorem finds_returnClause (hk : s.cursor.kind.isOrdinary = true) :
    Finds L inner [] returnClause s := by
  refine .past h.goesOn (.advance hk) fun word t ht => ?_
  exact .bind h.goesOn (finds_projection h ht) fun projection u hu =>
    .look (.close hu rfl fun _ hc => hc)

/-! ### Changing data -/

theorem finds_propertyTarget (s : State) : Finds L inner [] propertyTarget s := by
  refine .startHere (.bind h.goesOn (h.expression _ s) fun target t ht => ?_)
  exact .ite (fun _ => .pure ht fun _ hc => hc) fun _ => .fail _

theorem finds_propertyAssignment (start : Nat) (s : State) :
    Finds L inner [] (propertyAssignment start) s := by
  refine .bind h.goesOn (finds_propertyTarget h s) fun target t _ => ?_
  refine .past h.goesOn (.expect rfl) fun _ u _ => ?_
  exact .bind h.goesOn (finds_expression h u) fun value v hv =>
    .look (.close hv rfl fun _ hc => hc)

theorem finds_setItem (s : State) : Finds L inner [] setItem s := by
  have hassigned {sign : Sign} (hk : s.cursor.peek 1 = .sign sign)
      (ho : (TokenKind.sign sign).isOrdinary = true) : Finds L inner [] assigned s :=
    .ofClears (clears_pathName h.goesOn (hk ▸ ho))
  refine .look (.ite (fun _ => .look ?_) fun _ => finds_propertyAssignment h _ s)
  split
  · next hk =>
    refine .bind h.goesOn (hassigned hk rfl) fun name t _ => ?_
    exact .bind h.goesOn (finds_expression h t) fun value u hu =>
      .look (.close hu rfl fun _ hc => hc)
  · next hk =>
    refine .bind h.goesOn (hassigned hk rfl) fun name t _ => ?_
    exact .bind h.goesOn (finds_expression h t) fun value u hu =>
      .look (.close hu rfl fun _ hc => hc)
  · refine .bind h.goesOn (.ofClears clears_variableName) fun name t ht => ?_
    exact .bind h.goesOn (.ofClears (clears_labels h.goesOn ht)) fun labels u hu =>
      .look (.close hu rfl fun _ hc => hc)
  · exact finds_propertyAssignment h _ s

theorem finds_setItems (s : State) : Finds L inner [] (separated setItem) s :=
  finds_separated h.goesOn (finds_setItem h s) fun t _ => finds_setItem h t

theorem finds_removeItem (s : State) : Finds L inner [] removeItem s := by
  refine .startHere (.skip h.goesOn (tests_atVariableBefore _).spares fun labelled t _ => ?_)
  refine .ite (fun _ => ?_) fun _ => ?_
  · refine .bind h.goesOn (.ofClears clears_variableName) fun name u hu => ?_
    exact .bind h.goesOn (.ofClears (clears_labels h.goesOn hu)) fun labels v hv =>
      .look (.close hv rfl fun _ hc => hc)
  · exact .part h.goesOn (finds_propertyTarget h t) fun target u hu =>
      .close hu rfl fun _ hc => hc

theorem finds_createClause (hk : s.cursor.kind.isOrdinary = true) :
    Finds L inner [] createClause s := by
  refine .past h.goesOn (.advance hk) fun word t _ => ?_
  exact .bind h.goesOn (finds_pattern h t) fun pattern u hu =>
    .look (.close hu rfl fun _ hc => hc)

omit h in
/-- The event of an action is one word. -/
theorem spares_mergeEvent (hi : inner.GoesOn) (s : State) : Spares L inner mergeEvent s := by
  refine .bind hi (tests_takeWord (by decide)).spares fun create t _ => ?_
  cases create with
  | true => exact .pure _
  | false =>
    refine .bind hi (tests_takeWord (by decide)).spares fun matched u _ => ?_
    cases matched with
    | true => exact .pure _
    | false => exact .fail _

theorem finds_mergeAction (hk : s.cursor.kind.isOrdinary = true) :
    Finds L inner [] mergeAction s := by
  refine .past h.goesOn (.advance hk) fun word t _ => ?_
  refine .skip h.goesOn (spares_mergeEvent h.goesOn t) fun event u _ => ?_
  refine .past h.goesOn (.expect rfl) fun _ v _ => ?_
  exact .bind h.goesOn (finds_setItems h v) fun items w hw => .look (.close hw rfl fun _ hc => hc)

/-- **A merge begins with its word**, which is the one that is looked out for or another. -/
theorem finds_mergeClause (s : State) : Finds L inner [] mergeClause s := by
  intro hs c u hr
  obtain ⟨span, t, ht, hr⟩ := done_of_bind hr
  cases ht
  have hrest : Finds L inner [] (do
      let part ← patternPart
      let actions ← many (optionally (atWord .ON) mergeAction) []
      return (.mergePart part actions (← look (.spanFrom s.cursor.front)) : Clause)) s.step := by
    refine .bind h.goesOn (finds_patternPart h _) fun part v hv => ?_
    refine .bind h.goesOn (finds_many h.goesOn hv fun w hw => finds_optionally h.goesOn hw
      (tests_isAt _) fun x hx => finds_mergeAction h ?_) fun actions w hw => ?_
    · rw [(kind_of_isAt hx).1, (kind_of_isAt hx).2]
      rfl
    · exact .look (.close hw rfl fun _ hc => hc)
  obtain ⟨hawaits, hfound⟩ := hrest hs.advance c u hr
  refine ⟨hawaits, fun hmet => ?_⟩
  rcases Lookout.between_trans (hmet.resolve_left Lookout.not_found_nil) with hfirst | hthen
  · -- the word is the first token of the clause
    refine ⟨.clause c, List.mem_singleton_self _, c, .refl, ?_⟩
    obtain ⟨part, v, -, hr⟩ := done_of_bind hr
    obtain ⟨actions, w, -, hr⟩ := done_of_bind hr
    cases hr
    exact congrArg (fun t => t.span.start) (Lookout.eq_word_of_between hfirst)
  · exact hfound (.inr hthen)

theorem finds_deleteClause (s : State) : Finds L inner [] deleteClause s := by
  refine .startHere (.skip h.goesOn (tests_takeWord (by decide)).spares fun detach t _ => ?_)
  refine .past h.goesOn (.expect rfl) fun _ u _ => ?_
  exact .bind h.goesOn (finds_separated h.goesOn (finds_expression h u) fun v _ =>
    finds_expression h v) fun values w hw => .look (.close hw rfl fun _ hc => hc)

theorem finds_setClause (hk : s.cursor.kind.isOrdinary = true) :
    Finds L inner [] setClause s := by
  refine .past h.goesOn (.advance hk) fun word t _ => ?_
  exact .bind h.goesOn (finds_setItems h t) fun items u hu => .look (.close hu rfl fun _ hc => hc)

theorem finds_removeClause (hk : s.cursor.kind.isOrdinary = true) :
    Finds L inner [] removeClause s := by
  refine .past h.goesOn (.advance hk) fun word t _ => ?_
  exact .bind h.goesOn (finds_separated h.goesOn (finds_removeItem h t) fun u _ =>
    finds_removeItem h u) fun items v hv => .look (.close hv rfl fun _ hc => hc)

/-! ### All clauses -/

/-- **The word is found in clauses**, if they are read past it. -/
theorem finds_clause (hs : s.awaits = false) : Finds L inner [] clause s := by
  have hkind {word : Keyword} (hk : s.cursor.kind = .keyword word)
      (ho : (TokenKind.keyword word).isOrdinary = true) : s.cursor.kind.isOrdinary = true :=
    hk ▸ ho
  refine .look ?_
  dsimp only
  split
  · next word hk =>
    have hk : s.cursor.kind = .keyword word := hk
    split
    · exact finds_matchClause h s
    · exact finds_matchClause h s
    · exact finds_whereClause h (hkind hk rfl)
    · exact finds_withClause h (hkind hk rfl)
    · exact finds_returnClause h (hkind hk rfl)
    · exact finds_unwindClause h (hkind hk rfl)
    · exact finds_createClause h (hkind hk rfl)
    · exact finds_mergeClause h s
    · exact finds_deleteClause h s
    · exact finds_deleteClause h s
    · exact finds_setClause h (hkind hk rfl)
    · exact finds_removeClause h (hkind hk rfl)
    · exact finds_callClause h hk hs
    · exact .fail _
  · exact .fail _

end Cypher.Grammar
