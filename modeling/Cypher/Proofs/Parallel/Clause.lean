import Cypher.Proofs.Parallel.Expression

/-!
# Rules for clauses run alike

One lemma for each rule of the grammar that clauses are made of. Each clause begins with a word, so
that both runs are at the same token when it is read and have a token behind afterwards. The parts
of clauses that note where they start begin with an expression, which cannot be read where a
statement ends.
-/

namespace Cypher.Grammar

open Rule hiding pure bind
open Parallel

variable {setting : Setting} {inner : Inner} {p : Parallel setting} {s s' : State}

section Nested

variable (h : inner.Parallel p)

include h

/-! ### Reading data -/

theorem agree_matchClause (hs : p.States s s') (he : s.cursor.current = s'.cursor.current) :
    p.Agree inner matchClause s s' := by
  refine .startHere he (.andThen h.goesOn (.consume hs rfl) fun optional t t' _ ht => ?_)
  refine .expectWord h.goesOn ht fun hu => ?_
  exact .bind h.goesOn hu (agree_pattern h hu) fun pattern v v' _ hv => .close hv

theorem agree_whereClause (hs : p.States s s') (he : s.cursor.current = s'.cursor.current)
    (hk : s.cursor.kind ≠ .endOfInput) : p.Agree inner whereClause s s' :=
  .advance h.goesOn hs he hk fun ht => .bind h.goesOn ht (agree_expression h ht) fun _ _ _ _ hu => .close hu

theorem agree_unwindClause (hs : p.States s s') (he : s.cursor.current = s'.cursor.current)
    (hk : s.cursor.kind ≠ .endOfInput) : p.Agree inner unwindClause s s' := by
  refine .advance h.goesOn hs he hk fun ht => ?_
  refine .bind h.goesOn ht (agree_expression h ht) fun list u u' _ hu => ?_
  refine .expectWord h.goesOn hu.toStates fun hv => ?_
  exact .bind h.goesOn hv (agree_variableName h.goesOn hv.toStates) fun binder w w' _ hw => .close hw

theorem agree_newName (hs : p.Inside s s') : p.Agree inner newName s s' :=
  agree_behindWord h hs .AS fun _ _ ht => agree_variableName h.goesOn ht.toStates

theorem agree_yieldItem (hs : p.Inside s s') : p.Agree inner yieldItem s s' := by
  refine .bind h.goesOn hs (agree_symbolicName h.goesOn hs.toStates _) fun field t t' _ ht => ?_
  exact .andThen h.goesOn (agree_newName h ht) fun _ _ _ _ hu => .pure hu _

theorem agree_procedureArguments (hs : p.Inside s s') :
    p.Agree inner procedureArguments s s' := by
  refine .bind h.goesOn hs (agree_expressionList h hs rfl) fun arguments t t' _ ht => ?_
  exact .expectSign h.goesOn ht.toStates rfl fun hu => .pure hu.toStates arguments

theorem agree_procedureCall (hs : p.Inside s s') : p.Agree inner procedureCall s s' := by
  refine .bind h.goesOn hs (agree_qualifiedName h hs.toStates _) fun name t t' _ ht => ?_
  refine .bind h.goesOn ht (.optionally h.goesOn ht (.consume ht.toStates rfl) fun _ _ _ hu =>
    agree_procedureArguments h hu) fun arguments u u' _ hu => ?_
  refine .bind h.goesOn hu (.consume hu.toStates rfl) fun yields v v' _ hv => .ite (fun _ => ?_)
    fun _ => .pure hv.toStates _
  refine .bind h.goesOn hv (.consume hv.toStates rfl) fun all w w' _ hw => .ite (fun _ => ?_)
    fun _ => ?_
  · exact .pure hw.toStates _
  · exact .andThen h.goesOn (.separated h.goesOn hw fun _ _ hx => agree_yieldItem h hx) fun _ _ _ _ hx =>
      .pure hx _

/-- Past an opening brace, both runs are at the same token. -/
theorem agree_callClause (hs : p.States s s') (he : s.cursor.current = s'.cursor.current)
    (hk : s.cursor.kind ≠ .endOfInput) : p.Agree inner callClause s s' := by
  refine .advance h.goesOn hs he hk fun ht => ?_
  refine .bind h.goesOn ht (.isAt ht.toStates rfl) fun opens u u' hopens hu =>
    .ite (fun hbrace => ?_) fun _ => ?_
  · obtain ⟨rfl, hleft⟩ := kind_of_isAt (hbrace ▸ hopens)
    refine .bind h.goesOn hu (.requireSubqueries hu.toStates _) fun _ v v' hr hv => ?_
    cases eq_of_requireSubqueries hr
    have hcur := hv.current_eq (hleft ▸ rfl)
    refine agree_past h.goesOn hv.toStates hcur (hleft ▸ TokenKind.noConfusion) fun hw => ?_
    refine .bind h.goesOn hw (h.subquery hw (p.brace hv.cursors hcur hleft))
      fun body x x' _ hx => ?_
    exact .expectSign h.goesOn hx.toStates rfl fun hy => .close hy
  · exact .bind h.goesOn hu (agree_procedureCall h hu) fun call v v' _ hv => .close hv

/-! ### Projections -/

omit h in
/-- What notes its start before it reads an expression fails where a statement ends. -/
theorem refuses_behindStart {α : Type} {problem : Problem} {rule : Rule Expression}
    {next : Nat → Expression → Rule α} (hr : Refuses setting inner problem rule) :
    Refuses setting inner problem (startHere >>= fun start => rule >>= next start) :=
  .startHere fun _ => .bind hr

theorem agree_projectionItem (hs : p.Inside s s') : p.Agree inner projectionItem s s' := by
  obtain ⟨problem, hr⟩ := h.refuses 0
  refine .of_refuses (refuses_behindStart hr) hs.toStates fun he => .startHere he ?_
  refine .bind h.goesOn hs (agree_expression h hs) fun value t t' _ ht => ?_
  exact .bind h.goesOn ht (agree_newName h ht) fun rename u u' _ hu => .close hu

theorem agree_sortDirection (hs : p.States s s') : p.Agree inner sortDirection s s' := by
  refine .here (Pure.pure false) (fun t ht => by simp only [ht]) (fun t ht => by simp only [ht]) hs
    (fun _ => ?_) (.pure hs false)
  have hmove : ∀ {word : Keyword} (b : Bool), s.cursor.kind = .keyword word →
      p.Agree inner (move >>= fun _ => Pure.pure b) s s' := fun b hk =>
    .andThen h.goesOn (agree_move_of h.goesOn hs hk rfl) fun _ _ _ _ ht => .pure ht b
  split
  · next hk => exact hmove true hk
  · next hk => exact hmove true hk
  · next hk => exact hmove false hk
  · next hk => exact hmove false hk
  · exact .pure hs false

theorem agree_sortItem (hs : p.Inside s s') : p.Agree inner sortItem s s' := by
  obtain ⟨problem, hr⟩ := h.refuses 0
  refine .of_refuses (refuses_behindStart hr) hs.toStates fun he => .startHere he ?_
  refine .bind h.goesOn hs (agree_expression h hs) fun value t t' _ ht => ?_
  exact .bind h.goesOn ht (agree_sortDirection h ht.toStates) fun descending u u' _ hu => .close hu

theorem agree_columns (hs : p.Inside s s') : p.Agree inner columns s s' := by
  have hitems : ∀ (star : Bool) {t t' : State}, p.Inside t t' → p.Agree inner
      (do return (star, ← separated projectionItem)) t t' := fun star _ _ ht =>
    .andThen h.goesOn (.separated h.goesOn ht fun _ _ hu => agree_projectionItem h hu) fun _ _ _ _ hu =>
      .pure hu _
  refine .bind h.goesOn hs (.consume hs.toStates rfl) fun star t t' _ ht => .ite (fun _ => ?_)
    fun _ => hitems false ht
  exact .bind h.goesOn ht (.consume ht.toStates rfl) fun more u u' _ hu =>
    .ite (fun _ => hitems true hu) fun _ => .pure hu.toStates _

theorem agree_sorting (hs : p.Inside s s') : p.Agree inner sorting s s' := by
  refine .bind h.goesOn hs (.consume hs.toStates rfl) fun orders t t' _ ht => .ite (fun _ => ?_)
    fun _ => .pure ht.toStates []
  exact .expectWord h.goesOn ht.toStates fun hu => .separated h.goesOn hu fun _ _ hv => agree_sortItem h hv

theorem agree_projection (hs : p.Inside s s') : p.Agree inner projection s s' := by
  refine .bind h.goesOn hs (.consume hs.toStates rfl) fun distinct t t' _ ht => ?_
  refine .bind h.goesOn ht (agree_columns h ht) fun columns u u' _ hu => ?_
  refine .bind h.goesOn hu (agree_sorting h hu) fun orderBy v v' _ hv => ?_
  refine .bind h.goesOn hv (agree_behindWord h hv .SKIP fun _ _ hw => agree_expression h hw)
    fun skip w w' _ hw => ?_
  exact .andThen h.goesOn (agree_behindWord h hw .LIMIT fun _ _ hx => agree_expression h hx)
    fun _ _ _ _ hx => .pure hx _

/-- A projection behind its word. -/
theorem agree_projecting (f : Projection Expression → Span → Clause) (hs : p.States s s')
    (he : s.cursor.current = s'.cursor.current) (hk : s.cursor.kind ≠ .endOfInput) :
    p.Agree inner (do
      let word ← advance
      let projection ← projection
      return f projection (← look (.spanFrom word.start))) s s' :=
  .advance h.goesOn hs he hk fun ht => .bind h.goesOn ht (agree_projection h ht) fun _ _ _ _ hu => .close hu

/-! ### Changing data -/

omit h in
theorem refuses_propertyTarget {problem : Problem} (hr : Refuses setting inner problem suffixed) :
    Refuses setting inner problem propertyTarget := refuses_behindStart hr

theorem agree_propertyTarget (hs : p.Inside s s') (he : s.cursor.current = s'.cursor.current) :
    p.Agree inner propertyTarget s s' :=
  .startHere he (.bind h.goesOn hs (h.expression _ hs.toStates) fun target _ _ _ ht =>
    .ite (fun _ => .pure ht.toStates target) fun _ => .fail ht.toStates _)

theorem agree_propertyAssignment (hs : p.Inside s s') (he : s.cursor.current = s'.cursor.current)
    (start : Nat) : p.Agree inner (propertyAssignment start) s s' := by
  refine .bind h.goesOn hs (agree_propertyTarget h hs he) fun target t t' _ ht => ?_
  refine .expectSign h.goesOn ht.toStates rfl fun hu => ?_
  exact .bind h.goesOn hu (agree_expression h hu) fun value v v' _ hv => .close hv

omit h in
theorem refuses_setItem {problem : Problem} (hr : Refuses setting inner problem suffixed) :
    Refuses setting inner problem setItem := by
  refine .here fun t ht => ?_
  dsimp only
  rw [not_isVariable_of_isStop ht]
  exact .bind (refuses_propertyTarget hr)

/-- A variable, the sign behind it and a value. -/
theorem agree_assigning {kind : TokenKind} (f : Ident → Expression → Span → SetItem Expression)
    (start : Nat) (hs : p.Inside s s') (hv : s.cursor.kind.isVariable = true)
    (hk : s.cursor.peek 1 = kind) (hne : kind.isStop = false) :
    p.Agree inner (do
      let name ← assigned
      let value ← expression
      return f name value (← look (.spanFrom start))) s s' := by
  have hname : p.Agree inner assigned s s' := agree_pathName h hs.toStates hv hk hne
  refine .bind h.goesOn hs hname fun name t t' _ ht => ?_
  exact .bind h.goesOn ht (agree_expression h ht) fun value u u' _ hu => .close hu

/-- A variable and its labels. -/
theorem agree_labelling {α : Type} (f : Ident → List Ident → Span → α) (start : Nat)
    (hs : p.Inside s s') :
    p.Agree inner (do
      let name ← variableName
      let labels ← labels
      return f name labels (← look (.spanFrom start))) s s' := by
  refine .bind h.goesOn hs (agree_variableName h.goesOn hs.toStates) fun name t t' _ ht => ?_
  exact .bind h.goesOn ht (agree_labels h ht.toStates) fun labels u u' _ hu => .close hu

theorem agree_setItem (hs : p.Inside s s') : p.Agree inner setItem s s' := by
  obtain ⟨problem, hr⟩ := h.refuses suffixStrength
  refine .of_refuses (refuses_setItem hr) hs.toStates fun he => .look he ?_
  refine .ite (fun hv => .next rfl hs.toStates he (not_isFinal_of_isVariable hv) ?_) fun _ =>
    agree_propertyAssignment h hs he _
  split
  · next hk => exact agree_assigning h .replace _ hs hv hk rfl
  · next hk => exact agree_assigning h .merge _ hs hv hk rfl
  · exact agree_labelling h SetItem.labels _ hs
  · exact agree_propertyAssignment h hs he _

omit h in
theorem refuses_removeItem {problem : Problem} (hr : Refuses setting inner problem suffixed) :
    Refuses setting inner problem removeItem := by
  refine .startHere fun start => .after fun s hs => ⟨false, ?_, .bind (refuses_propertyTarget hr)⟩
  rw [run_atVariableBefore, not_isVariable_of_isStop hs, Bool.false_and]

theorem agree_removeItem (hs : p.Inside s s') : p.Agree inner removeItem s s' := by
  obtain ⟨problem, hr⟩ := h.refuses suffixStrength
  refine .of_refuses (refuses_removeItem hr) hs.toStates fun he => .startHere he ?_
  refine .bind h.goesOn hs (agree_atVariableBefore hs.toStates rfl) fun labelled t t' _ ht =>
    .ite (fun _ => agree_labelling h RemoveItem.labels _ ht) fun _ => ?_
  exact .andThen h.goesOn (.of_refuses (refuses_propertyTarget hr) ht.toStates (agree_propertyTarget h ht))
    fun _ _ _ _ hu => .pure hu _

theorem agree_createClause (hs : p.States s s') (he : s.cursor.current = s'.cursor.current)
    (hk : s.cursor.kind ≠ .endOfInput) : p.Agree inner createClause s s' :=
  .advance h.goesOn hs he hk fun ht => .bind h.goesOn ht (agree_pattern h ht) fun _ _ _ _ hu => .close hu

theorem agree_mergeEvent (hs : p.Inside s s') : p.Agree inner mergeEvent s s' := by
  refine .bind h.goesOn hs (.consume hs.toStates rfl) fun creates t t' _ ht =>
    .ite (fun _ => .pure ht.toStates _) fun _ => ?_
  exact .bind h.goesOn ht (.consume ht.toStates rfl) fun onMatch u u' _ hu =>
    .ite (fun _ => .pure hu.toStates _) fun _ => .fail hu.toStates _

theorem agree_mergeAction (hs : p.States s s') (hk : s.cursor.kind = .keyword .ON) :
    p.Agree inner mergeAction s s' := by
  refine .advance h.goesOn hs (hs.current_eq (hk ▸ rfl)) (hk ▸ TokenKind.noConfusion) fun ht => ?_
  refine .bind h.goesOn ht (agree_mergeEvent h ht) fun event u u' _ hu => ?_
  refine .expectWord h.goesOn hu.toStates fun hv => ?_
  exact .bind h.goesOn hv (.separated h.goesOn hv fun _ _ hw => agree_setItem h hw)
    fun items w w' _ hw => .close hw

theorem agree_mergeClause (hs : p.States s s') (he : s.cursor.current = s'.cursor.current)
    (hk : s.cursor.kind ≠ .endOfInput) : p.Agree inner mergeClause s s' := by
  refine .advance h.goesOn hs he hk fun ht => ?_
  refine .bind h.goesOn ht (agree_patternPart h ht.toStates) fun part u u' _ hu => ?_
  refine .bind h.goesOn hu (.many_inside h.goesOn hu (movesOn_furtherAction h.goesOn)
    (fun v v' hv => .optionally h.goesOn hv (.isAt hv.toStates rfl) fun w w' hon hw => ?_) [])
    fun actions v v' _ hv => .close hv
  obtain ⟨rfl, hkind⟩ := kind_of_isAt hon
  exact agree_mergeAction h hw.toStates hkind

theorem agree_deleteClause (hs : p.States s s') (he : s.cursor.current = s'.cursor.current) :
    p.Agree inner deleteClause s s' := by
  refine .startHere he (.andThen h.goesOn (.consume hs rfl) fun detach t t' _ ht => ?_)
  refine .expectWord h.goesOn ht fun hu => ?_
  exact .bind h.goesOn hu (.separated h.goesOn hu fun _ _ hv => agree_expression h hv)
    fun values v v' _ hv => .close hv

/-- Items separated by commas behind a word. -/
theorem agree_listing {α : Type} {rule : Rule α} (f : List α → Span → Clause)
    (hr : ∀ t t', p.Inside t t' → p.Agree inner rule t t') (hs : p.States s s')
    (he : s.cursor.current = s'.cursor.current) (hk : s.cursor.kind ≠ .endOfInput) :
    p.Agree inner (do
      let word ← advance
      let items ← separated rule
      return f items (← look (.spanFrom word.start))) s s' :=
  .advance h.goesOn hs he hk fun ht => .bind h.goesOn ht (.separated h.goesOn ht hr) fun _ _ _ _ hu =>
    .close hu

/-! ### All clauses -/

/-- **Two runs agree on a clause**, if both are at the same token. -/
theorem agree_clause (hs : p.States s s') (he : s.cursor.current = s'.cursor.current) :
    p.Agree inner clause s s' := by
  refine .look he ?_
  dsimp only
  split
  · next word hword =>
    have hk : s.cursor.kind ≠ .endOfInput := by
      rw [show s.cursor.kind = .keyword word from hword]
      exact TokenKind.noConfusion
    split
    · exact agree_matchClause h hs he
    · exact agree_matchClause h hs he
    · exact agree_whereClause h hs he hk
    · exact agree_projecting h .withColumns hs he hk
    · exact agree_projecting h .returnColumns hs he hk
    · exact agree_unwindClause h hs he hk
    · exact agree_createClause h hs he hk
    · exact agree_mergeClause h hs he hk
    · exact agree_deleteClause h hs he
    · exact agree_deleteClause h hs he
    · exact agree_listing h .setItems (fun _ _ => agree_setItem h) hs he hk
    · exact agree_listing h .removeItems (fun _ _ => agree_removeItem h) hs he hk
    · exact agree_callClause h hs he hk
    · exact .fail hs _
  · exact .fail hs _

end Nested

end Cypher.Grammar
