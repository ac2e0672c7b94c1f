import Cypher.Proofs.Parallel.Basic

/-!
# Rules for expressions run alike

One lemma for each rule of the grammar, up to expressions: two runs from corresponding states agree
on it. Rules that begin by passing a token, whichever it is, are only run where that token is
the same; and rules that note where they start fail at the end of a statement.
-/

namespace Cypher.Grammar

open Rule hiding pure bind
open Parallel

variable {setting : Setting} {inner : Inner} {p : Parallel setting} {s s' : State}

/-! ### Tokens -/

theorem peek_one_of_ahead_eq_cons {c : Cursor} {t : Token} {ts : List Token}
    (h : c.ahead = t :: ts) : c.peek 1 = t.kind := by
  rw [Cursor.peek, h]
  cases ts <;> rfl

/-- Past a token, the kind at the cursor is the one that was next. -/
theorem kind_step (hc : s.cursor.Closed) (hk : s.cursor.kind ≠ .endOfInput) :
    s.step.cursor.kind = s.cursor.peek 1 := by
  obtain ⟨t, ts, ha⟩ := List.exists_cons_of_ne_nil (hc.ahead_ne_nil hk)
  rw [State.step, Cursor.advance_of_ahead_eq_cons ha, peek_one_of_ahead_eq_cons ha]
  rfl

theorem agree_move (hi : inner.GoesOn) (hs : p.States s s') (he : s.cursor.current = s'.cursor.current)
    (hk : s.cursor.kind ≠ .endOfInput) : p.Agree inner move s s' :=
  .advance hi hs he hk fun ht => .pure ht.toStates ()

/-- Both runs move past a token of a kind that ends no statement. -/
theorem agree_move_of (hi : inner.GoesOn) {kind : TokenKind} (hs : p.States s s') (hk : s.cursor.kind = kind)
    (hne : kind.isStop = false) : p.Agree inner move s s' :=
  agree_move hi hs (hs.current_eq (hk ▸ hne)) (hk ▸ TokenKind.ne_endOfInput hne)

/-- Both runs move past the same token and go on. -/
theorem agree_past (hi : inner.GoesOn) {α : Type} {next : Unit → Rule α} (hs : p.States s s')
    (he : s.cursor.current = s'.cursor.current) (hk : s.cursor.kind ≠ .endOfInput)
    (h : p.Inside s.step s'.step → p.Agree inner (next ()) s.step s'.step) :
    p.Agree inner (move >>= next) s s' := by
  have hstep := (hs.step he hk).elim (.of_lost hi (next ())) h
  unfold Agree at hstep ⊢
  rw [run_bind_done (run_move s), run_bind_done (run_move s')]
  exact hstep

/-- What the token at the cursor stands for. -/
theorem agree_leaf (hi : inner.GoesOn) {α : Type} {f : Span → α} {kind : TokenKind} (hs : p.States s s')
    (hk : s.cursor.kind = kind) (hne : kind.isStop = false) :
    p.Agree inner (do return f (← advance)) s s' :=
  .advance hi hs (hs.current_eq (hk ▸ hne)) (hk ▸ TokenKind.ne_endOfInput hne) fun ht =>
    .pure ht.toStates _

theorem agree_atVariable (hs : p.States s s') : p.Agree inner atVariable s s' :=
  .here (Pure.pure false) (fun t ht => by rw [ht]; rfl) (fun t ht => by rw [ht]; rfl) hs
    (fun _ => .pure hs _) (.pure hs _)

/-- What has been seen when a variable is followed by a kind of token. -/
theorem of_atVariableBefore {kind : TokenKind} {t : State}
    (h : (atVariableBefore kind).run setting inner s = .done true t) :
    t = s ∧ s.cursor.kind.isVariable = true ∧ s.cursor.peek 1 = kind := by
  rw [run_atVariableBefore] at h
  obtain ⟨hb, rfl⟩ := Outcome.done.inj h
  obtain ⟨hv, hk⟩ := Bool.and_eq_true_iff.1 hb
  exact ⟨rfl, hv, of_decide_eq_true hk⟩

theorem not_isStop_of_isVariable {kind : TokenKind} (h : kind.isVariable = true) :
    kind.isStop = false := by
  cases kind <;> first | rfl | cases h

theorem not_isFinal_of_isVariable {kind : TokenKind} (h : kind.isVariable = true) :
    kind.isFinal = false := by
  cases kind <;> first | rfl | cases h

theorem not_isVariable_of_isStop {kind : TokenKind} (h : kind.isStop = true) :
    kind.isVariable = false := TokenKind.apply_of_isStop (f := TokenKind.isVariable) rfl rfl h

/-- A kind that ends no statement is next in both places or in neither. -/
theorem decide_peek_eq (hs : p.States s s') (he : s.cursor.current = s'.cursor.current)
    (hfinal : s.cursor.kind.isFinal = false) {kind : TokenKind} (hk : kind.isStop = false) :
    decide (s.cursor.peek 1 = kind) = decide (s'.cursor.peek 1 = kind) := by
  rcases p.next hs.cursors he hfinal with hn | ⟨hn, hn'⟩
  · rw [hn]
  · rw [decide_eq_false (TokenKind.ne_of_isStop hn hk),
      decide_eq_false (TokenKind.ne_of_isStop hn' hk)]

theorem agree_atVariableBefore (hs : p.States s s') {kind : TokenKind} (hk : kind.isStop = false) :
    p.Agree inner (atVariableBefore kind) s s' := by
  unfold Agree
  rw [run_atVariableBefore, run_atVariableBefore]
  suffices heq : (s.cursor.kind.isVariable && decide (s.cursor.peek 1 = kind)) =
      (s'.cursor.kind.isVariable && decide (s'.cursor.peek 1 = kind)) from
    heq ▸ .done _ hs
  rcases p.current hs.cursors with he | ⟨hstop, hstop'⟩
  · have hkind : s.cursor.kind = s'.cursor.kind := congrArg Token.kind he
    cases hv : s.cursor.kind.isVariable with
    | false => rw [← hkind, hv, Bool.false_and, Bool.false_and]
    | true => rw [decide_peek_eq hs he (not_isFinal_of_isVariable hv) hk, ← hkind, hv]
  · rw [not_isVariable_of_isStop hstop, not_isVariable_of_isStop hstop', Bool.false_and,
      Bool.false_and]

/-! ### Names, labels and maps -/

theorem agree_variableName (hi : inner.GoesOn) (hs : p.States s s') : p.Agree inner variableName s s' := by
  refine .here (.fail (.expected "a variable name")) (fun t ht => by simp only [ht])
    (fun t ht => by simp only [ht]) hs (fun _ => ?_) (.fail hs _)
  split
  · next hk => exact agree_leaf hi hs hk rfl
  · next hk => exact agree_leaf hi hs hk rfl
  · exact .fail hs _

theorem agree_symbolicName (hi : inner.GoesOn) (hs : p.States s s') (what : String) :
    p.Agree inner (symbolicName what) s s' := by
  refine .here (.fail (.expected what)) (fun t ht => by simp only [ht])
    (fun t ht => by simp only [ht]) hs (fun _ => ?_) (.fail hs _)
  split
  · next hk => exact agree_leaf hi hs hk rfl
  · next hk => exact agree_leaf hi hs hk rfl
  · next hk => exact agree_leaf hi hs hk rfl
  · exact .fail hs _

section Nested

variable (h : inner.Parallel p)

include h

omit h in
/-- What has been seen when a further part of a name comes next. -/
theorem of_atNamePart {t : State} (hr : atNamePart.run setting inner s = .done true t) :
    t = s ∧ s.cursor.kind = .sign .dot := by
  rw [atNamePart, run_bind, atSign, run_isAt, Outcome.andThen_done] at hr
  by_cases hk : s.cursor.kind = .sign .dot
  · rw [decide_eq_true hk, if_pos rfl] at hr
    exact ⟨(Outcome.done.inj hr).2.symm, hk⟩
  · rw [decide_eq_false hk] at hr
    cases hr

theorem agree_atNamePart (hs : p.States s s') : p.Agree inner atNamePart s s' := by
  refine .andThen h.goesOn (.isAt hs rfl) fun b t t' hb ht => .ite (fun hdot => ?_) fun _ => .pure ht false
  obtain ⟨rfl, hk⟩ := kind_of_isAt (hdot ▸ hb)
  exact .next rfl ht (ht.current_eq (hk ▸ rfl)) (hk ▸ rfl) (.pure ht _)

theorem agree_namePart (hs : p.Inside s s') (what : String) (hk : s.cursor.kind = .sign .dot) :
    p.Agree inner (namePart what) s s' := by
  refine .bind h.goesOn hs (agree_move_of h.goesOn hs.toStates hk rfl) fun _ t t' _ ht => ?_
  exact .andThen h.goesOn (agree_symbolicName h.goesOn ht.toStates what) fun _ _ _ _ hu => .pure hu _

theorem agree_furtherPart (hs : p.Inside s s') (what : String) :
    p.Agree inner (optionally atNamePart (namePart what)) s s' := by
  refine .optionally h.goesOn hs (agree_atNamePart h hs.toStates) fun t t' hr ht => ?_
  obtain ⟨rfl, hk⟩ := of_atNamePart hr
  exact agree_namePart h ht what hk

theorem agree_qualifiedName (hs : p.States s s') (what : String) :
    p.Agree inner (qualifiedName what) s s' := by
  refine .bind_moving h.goesOn hs (movesOn_symbolicName h.goesOn what s) (agree_symbolicName h.goesOn hs what)
    fun first t t' _ ht => ?_
  refine .bind h.goesOn ht (.many_inside h.goesOn ht (movesOn_furtherPart h.goesOn what)
    (fun u u' hu => agree_furtherPart h hu what) _) fun parts u u' _ hu => .close hu

/-- A label with its colon. -/
theorem agree_label (hs : p.States s s') :
    p.Agree inner (optionally (takeSign .colon) (symbolicName "a label name")) s s' := by
  refine .andThen h.goesOn (.consume hs rfl) fun colon t t' _ ht => .ite (fun _ => ?_) fun _ =>
    .pure ht none
  exact .andThen h.goesOn (agree_symbolicName h.goesOn ht _) fun _ _ _ _ hu => .pure hu _

theorem agree_labels (hs : p.States s s') : p.Agree inner labels s s' := by
  refine .andThen h.goesOn (.many h.goesOn hs
    (fun t _ => movesOn_optionally h.goesOn (movesOn_takeSign h.goesOn _ t))
    (fun t t' _ _ ht => agree_label h ht) []) fun labels t t' _ ht => ?_
  exact .ite (fun _ => .fail ht _) fun _ => .pure ht _

theorem agree_expression (hs : p.Inside s s') : p.Agree inner expression s s' :=
  h.expression 0 hs.toStates

theorem agree_mapEntry (hs : p.Inside s s') : p.Agree inner mapEntry s s' := by
  refine .bind h.goesOn hs (agree_symbolicName h.goesOn hs.toStates _) fun key t t' _ ht => ?_
  refine .expectSign h.goesOn ht.toStates rfl fun hu => ?_
  exact .andThen h.goesOn (agree_expression h hu) fun _ _ _ _ hv => .pure hv _

theorem agree_mapLiteral (hs : p.States s s') : p.Agree inner mapLiteral s s' := by
  refine .expectSign h.goesOn hs rfl fun ht => ?_
  refine .bind h.goesOn ht (.listUntil h.goesOn ht rfl fun u u' hu => agree_mapEntry h hu)
    fun entries u u' _ hu => ?_
  exact .expectSign h.goesOn hu.toStates rfl fun hv => .close hv

theorem agree_properties (hs : p.States s s') : p.Agree inner properties s s' := by
  refine .here (Pure.pure none) (fun t ht => by simp only [ht])
    (fun t ht => by simp only [ht]) hs (fun _ => ?_) (.pure hs _)
  split
  · exact .andThen h.goesOn (agree_mapLiteral h hs) fun _ _ _ _ ht => .pure ht _
  · next hk => exact agree_leaf h.goesOn hs hk rfl
  · exact .pure hs _

/-! ### Patterns -/

theorem agree_lengthBound (hs : p.States s s') : p.Agree inner lengthBound s s' := by
  refine .here (Pure.pure none) (fun t ht => by simp only [ht])
    (fun t ht => by simp only [ht]) hs (fun _ => ?_) (.pure hs _)
  split
  · next hk =>
    split
    · exact .andThen h.goesOn (agree_move_of h.goesOn hs hk rfl) fun _ _ _ _ ht => .pure ht _
    · exact .fail hs _
  · exact .pure hs _

theorem agree_pathLength (hs : p.States s s') : p.Agree inner pathLength s s' := by
  refine .andThen h.goesOn (agree_lengthBound h hs) fun least t t' _ ht => ?_
  refine .andThen h.goesOn (.consume ht rfl) fun dots u u' _ hu => .ite (fun _ => ?_) fun _ => .pure hu _
  exact .andThen h.goesOn (agree_lengthBound h hu) fun _ _ _ _ hv => .pure hv _

theorem agree_furtherType (hs : p.States s s') : p.Agree inner furtherType s s' :=
  .andThen h.goesOn (.consume hs rfl) fun _ _ _ _ ht => agree_symbolicName h.goesOn ht _

theorem agree_relationshipTypes (hs : p.Inside s s') :
    p.Agree inner relationshipTypes s s' := by
  refine .bind h.goesOn hs (.consume hs.toStates rfl) fun colon t t' _ ht =>
    .ite (fun _ => ?_) fun _ => .pure ht.toStates []
  refine .bind h.goesOn ht (agree_symbolicName h.goesOn ht.toStates _) fun first u u' _ hu => ?_
  exact .many_inside h.goesOn hu
    (fun v => movesOn_optionally h.goesOn (movesOn_takeSign h.goesOn _ v))
    (fun v v' hv => .optionally h.goesOn hv (.consume hv.toStates rfl) fun w w' _ hw =>
      agree_furtherType h hw.toStates) [first]

theorem agree_binder (hs : p.Inside s s') :
    p.Agree inner (optionally atVariable variableName) s s' :=
  .optionally h.goesOn hs (agree_atVariable hs.toStates) fun _ _ _ ht =>
    agree_variableName h.goesOn ht.toStates

theorem agree_detail (hs : p.Inside s s') : p.Agree inner detail s s' := by
  refine .bind h.goesOn hs (agree_binder h hs) fun binder t t' _ ht => ?_
  refine .bind h.goesOn ht (agree_relationshipTypes h ht) fun types u u' _ hu => ?_
  refine .bind h.goesOn hu (.optionally h.goesOn hu (.consume hu.toStates rfl) fun _ _ _ hv =>
    agree_pathLength h hv.toStates) fun length v v' _ hv => ?_
  refine .bind h.goesOn hv (agree_properties h hv.toStates) fun properties w w' _ hw => ?_
  exact .expectSign h.goesOn hw.toStates rfl fun hx => .pure hx.toStates _

theorem agree_detailIfAny (hs : p.Inside s s') : p.Agree inner detailIfAny s s' :=
  .bind h.goesOn hs (.consume hs.toStates rfl) fun _ _ _ _ ht =>
    .ite (fun _ => agree_detail h ht) fun _ => .pure ht.toStates _

theorem agree_relationship (hs : p.Inside s s') (he : s.cursor.current = s'.cursor.current) :
    p.Agree inner relationship s s' := by
  refine .startHere he ?_
  refine .bind h.goesOn hs (.consume hs.toStates rfl) fun left t t' _ ht => ?_
  refine .expectSign h.goesOn ht.toStates rfl fun hu => ?_
  refine .bind h.goesOn hu (agree_detailIfAny h hu) fun detail v v' _ hv => ?_
  refine .expectSign h.goesOn hv.toStates rfl fun hw => ?_
  exact .bind h.goesOn hw (.consume hw.toStates rfl) fun right x x' _ hx => .close hx

theorem agree_nodeLabels (hs : p.Inside s s') : p.Agree inner nodeLabels s s' :=
  .bind h.goesOn hs (.isAt hs.toStates rfl) fun _ _ _ _ ht =>
    .ite (fun _ => agree_labels h ht.toStates) fun _ => .pure ht.toStates _

theorem agree_pathNode (hs : p.States s s') : p.Agree inner pathNode s s' := by
  refine .expectSign h.goesOn hs rfl fun ht => ?_
  refine .bind h.goesOn ht (agree_binder h ht) fun binder u u' _ hu => ?_
  refine .bind h.goesOn hu (agree_nodeLabels h hu) fun labels v v' _ hv => ?_
  refine .bind h.goesOn hv (agree_properties h hv.toStates) fun properties w w' _ hw => ?_
  exact .expectSign h.goesOn hw.toStates rfl fun hx => .close hx

omit h in
/-- What has been seen when a relationship comes next. -/
theorem of_atRelationship {t : State} (hr : atRelationship.run setting inner s = .done true t) :
    t = s ∧ s.cursor.kind.isStop = false := by
  rw [run_atRelationship] at hr
  obtain ⟨hb, rfl⟩ := Outcome.done.inj hr
  rcases Bool.or_eq_true_iff.1 hb with hk | hk
  · exact ⟨rfl, of_decide_eq_true hk ▸ rfl⟩
  · exact ⟨rfl, of_decide_eq_true (Bool.and_eq_true_iff.1 hk).1 ▸ rfl⟩

omit h in
theorem agree_atRelationship (hs : p.States s s') : p.Agree inner atRelationship s s' := by
  refine .here (Pure.pure false) (fun t ht => by simp only [ht])
    (fun t ht => by simp only [ht]) hs (fun he => ?_) (.pure hs _)
  split
  · exact .pure hs _
  · next hk =>
    change s.cursor.kind = _ at hk
    exact .next rfl hs he (hk ▸ rfl) (.pure hs _)
  · exact .pure hs _

theorem agree_furtherStep (hs : p.Inside s s') :
    p.Agree inner (optionally atRelationship step) s s' := by
  refine .optionally h.goesOn hs (agree_atRelationship hs.toStates) fun t t' hr ht => ?_
  obtain ⟨rfl, hk⟩ := of_atRelationship hr
  refine .bind h.goesOn ht (agree_relationship h ht (ht.current_eq hk))
    fun relationship u u' _ hu => ?_
  exact .andThen h.goesOn (agree_pathNode h hu.toStates) fun _ _ _ _ hv => .pure hv _

omit h in
/-- A name moves past one token. -/
theorem step_of_variableName {name : Ident} {t : State}
    (hr : variableName.run setting inner s = .done name t) : t = s.step := by
  rw [variableName, run_bind, Rule.here, run_look, Outcome.andThen_done] at hr
  split at hr
  · exact (Outcome.done.inj hr).2.symm
  · exact (Outcome.done.inj hr).2.symm
  · cases hr

/-- A name and a token that has been seen behind it. -/
theorem agree_pathName {kind : TokenKind} (hs : p.States s s')
    (hv : s.cursor.kind.isVariable = true) (hk : s.cursor.peek 1 = kind)
    (hne : kind.isStop = false) : p.Agree inner pathName s s' := by
  refine .andThen h.goesOn (agree_variableName h.goesOn hs) fun name t t' hr ht => ?_
  have hkind : t.cursor.kind = kind := by
    rw [step_of_variableName hr,
      kind_step hs.closed (TokenKind.ne_endOfInput (not_isStop_of_isVariable hv)), hk]
  exact .andThen h.goesOn (agree_move_of h.goesOn ht hkind hne) fun _ _ _ _ hu => .pure hu _

/-- The problem of a path that does not begin with a parenthesis. -/
def missingNode : Problem := .expected ("`" ++ (TokenKind.sign .leftParen).describe ++ "`")

omit h in
theorem refuses_pathNode : Refuses setting inner missingNode pathNode := .bind (.expect rfl)

omit h in
theorem refuses_patternPart : Refuses setting inner missingNode patternPart := by
  refine .startHere fun start => .optionally (fun s hs => ?_) (.bind refuses_pathNode)
  rw [run_atVariableBefore, not_isVariable_of_isStop hs, Bool.false_and]

theorem agree_pathBinder (hs : p.States s s') :
    p.Agree inner (optionally (atVariableBefore (.sign .eq)) pathName) s s' := by
  refine .andThen h.goesOn (agree_atVariableBefore hs rfl) fun binds t t' hr ht =>
    .ite (fun hb => ?_) fun _ => .pure ht none
  obtain ⟨rfl, hv, hk⟩ := of_atVariableBefore (hb ▸ hr)
  exact .andThen h.goesOn (agree_pathName h ht hv hk rfl) fun _ _ _ _ hu => .pure hu _

theorem agree_patternPart (hs : p.States s s') : p.Agree inner patternPart s s' := by
  refine .of_refuses refuses_patternPart hs fun he => .startHere he ?_
  refine .andThen h.goesOn (agree_pathBinder h hs) fun binder t t' _ ht => ?_
  refine .bind_moving h.goesOn ht (movesOn_pathNode h.goesOn t) (agree_pathNode h ht)
    fun node u u' _ hu => ?_
  exact .bind h.goesOn hu (.many_inside h.goesOn hu (movesOn_furtherStep h.goesOn)
    (fun v v' hv => agree_furtherStep h hv) []) fun chain v v' _ hv => .close hv

omit h in
theorem refuses_pattern : Refuses setting inner missingNode pattern :=
  .startHere fun _ => .bind (.bind refuses_patternPart)

theorem agree_pattern (hs : p.Inside s s') : p.Agree inner pattern s s' := by
  refine .of_refuses refuses_pattern hs.toStates fun he => .startHere he ?_
  exact .bind h.goesOn hs (.separated h.goesOn hs fun _ _ ht => agree_patternPart h ht.toStates)
    fun parts t t' _ ht => .close ht

/-! ### Lists, cases and calls -/

theorem agree_expressionList (hs : p.Inside s s') {close : Sign}
    (hk : (TokenKind.sign close).isStop = false) : p.Agree inner (expressionList close) s s' :=
  .listUntil h.goesOn hs hk fun _ _ ht => agree_expression h ht

/-- An expression unless a token of some kind comes next. -/
theorem agree_expressionUnless (hs : p.Inside s s') {kind : TokenKind} (hk : kind.isStop = false) :
    p.Agree inner (skipIf (isAt kind) expression) s s' :=
  .skipIf h.goesOn hs (.isAt hs.toStates hk) fun _ _ ht => agree_expression h ht

/-- Something behind a word, if that word comes next. -/
theorem agree_behindWord {α : Type} {rule : Rule α} (hs : p.Inside s s') (word : Keyword)
    (hr : ∀ t t', p.Inside t t' → p.Agree inner rule t t') :
    p.Agree inner (optionally (takeWord word) rule) s s' :=
  .optionally h.goesOn hs (.consume hs.toStates rfl) fun t t' _ ht => hr t t' ht

theorem agree_elementProjection (hs : p.Inside s s') (projects : Bool) :
    p.Agree inner (elementProjection projects) s s' :=
  .ite (fun _ => .optionally h.goesOn hs (.consume hs.toStates rfl) fun _ _ _ ht =>
    agree_expression h ht) fun _ => .pure hs.toStates none

theorem agree_comprehension (hs : p.Inside s s') (start : Nat) {close : Sign}
    (hk : (TokenKind.sign close).isStop = false) (projects : Bool) :
    p.Agree inner (comprehension start close projects) s s' := by
  refine .bind h.goesOn hs (agree_variableName h.goesOn hs.toStates) fun binder t t' _ ht => ?_
  refine .expectWord h.goesOn ht.toStates fun hu => ?_
  refine .bind h.goesOn hu (agree_expression h hu) fun list v v' _ hv => ?_
  refine .bind h.goesOn hv (agree_behindWord h hv .WHERE fun _ _ hw => agree_expression h hw)
    fun predicate w w' _ hw => ?_
  refine .bind h.goesOn hw (agree_elementProjection h hw projects) fun projection x x' _ hx => ?_
  exact .expectSign h.goesOn hx.toStates hk fun hy => .close hy

theorem agree_listLiteral (hs : p.States s s') : p.Agree inner listLiteral s s' := by
  refine .expectSign h.goesOn hs rfl fun ht => ?_
  refine .bind h.goesOn ht (agree_atVariableBefore ht.toStates rfl) fun binds u u' _ hu =>
    .ite (fun _ => ?_) fun _ => ?_
  · exact .andThen h.goesOn (agree_comprehension h hu _ rfl true) fun _ _ _ _ hv => .pure hv _
  · refine .bind h.goesOn hu (agree_expressionList h hu rfl) fun items v v' _ hv => ?_
    exact .expectSign h.goesOn hv.toStates rfl fun hw => .close hw

theorem agree_caseAlternative (hs : p.Inside s s') : p.Agree inner caseAlternative s s' := by
  refine .bind h.goesOn hs (agree_expression h hs) fun condition t t' _ ht => ?_
  refine .expectWord h.goesOn ht.toStates fun hu => ?_
  exact .andThen h.goesOn (agree_expression h hu) fun _ _ _ _ hv => .pure hv _

theorem agree_caseAlternatives (hs : p.Inside s s') :
    p.Agree inner (many (optionally (takeWord .WHEN) caseAlternative) []) s s' :=
  .many_inside h.goesOn hs (fun t => movesOn_optionally h.goesOn (movesOn_takeWord h.goesOn _ t))
    (fun _ _ ht => agree_behindWord h ht .WHEN fun _ _ hu => agree_caseAlternative h hu) []

theorem agree_caseDistinction (hs : p.States s s') (hk : s.cursor.kind = .keyword .CASE) :
    p.Agree inner caseDistinction s s' := by
  refine .advance h.goesOn hs (hs.current_eq (hk ▸ rfl)) (hk ▸ TokenKind.noConfusion) fun ht => ?_
  refine .bind h.goesOn ht (agree_expressionUnless h ht rfl) fun operand u u' _ hu => ?_
  refine .bind h.goesOn hu (agree_caseAlternatives h hu) fun alternatives v v' _ hv =>
    .ite (fun _ => .fail hv.toStates _) fun _ => ?_
  refine .bind h.goesOn hv (agree_behindWord h hv .ELSE fun _ _ hw => agree_expression h hw)
    fun otherwise w w' _ hw => ?_
  exact .expectWord h.goesOn hw.toStates fun hx => .close hx

theorem agree_callArguments (hs : p.Inside s s') (name : String) (start : Nat) :
    p.Agree inner (callArguments name start) s s' := by
  refine .bind h.goesOn hs (.consume hs.toStates rfl) fun distinct t t' _ ht => ?_
  refine .bind h.goesOn ht (agree_expressionList h ht rfl) fun arguments u u' _ hu => ?_
  exact .expectSign h.goesOn hu.toStates rfl fun hv => .close hv

omit h in
/-- What has been seen when a star stands alone between parentheses. -/
theorem of_atLoneStar {t : State} (hr : atLoneStar.run setting inner s = .done true t) :
    t = s ∧ s.cursor.kind = .sign .star ∧ s.cursor.peek 1 = .sign .rightParen := by
  rw [atLoneStar, run_bind, atSign, run_isAt, Outcome.andThen_done] at hr
  by_cases hk : s.cursor.kind = .sign .star
  · rw [decide_eq_true hk, if_pos rfl] at hr
    obtain ⟨hn, hs⟩ := Outcome.done.inj hr
    exact ⟨hs.symm, hk, of_decide_eq_true hn⟩
  · rw [decide_eq_false hk] at hr
    cases hr

theorem agree_atLoneStar (hs : p.States s s') : p.Agree inner atLoneStar s s' := by
  refine .andThen h.goesOn (.isAt hs rfl) fun b t t' hb ht => .ite (fun hstar => ?_) fun _ => .pure ht false
  obtain ⟨rfl, hk⟩ := kind_of_isAt (hstar ▸ hb)
  exact .next rfl ht (ht.current_eq (hk ▸ rfl)) (hk ▸ rfl) (.pure ht _)

theorem agree_plainCall (hs : p.Inside s s') (name : Ident) :
    p.Agree inner (plainCall name) s s' := by
  refine .ite (fun _ => ?_) fun _ => agree_callArguments h hs _ _
  refine .bind h.goesOn hs (agree_atLoneStar h hs.toStates) fun star t t' hr ht =>
    .ite (fun hstar => ?_) fun _ => agree_callArguments h ht _ _
  obtain ⟨rfl, hk, hn⟩ := of_atLoneStar (hstar ▸ hr)
  have hne : t.cursor.kind ≠ .endOfInput := hk ▸ TokenKind.noConfusion
  refine agree_past h.goesOn ht.toStates (ht.current_eq (hk ▸ rfl)) hne fun hu => ?_
  have hclose : t.step.cursor.kind = .sign .rightParen := (kind_step ht.closed hne).trans hn
  exact agree_past h.goesOn hu.toStates (hu.current_eq (hclose ▸ rfl)) (hclose ▸ TokenKind.noConfusion)
    fun hv => .close hv

theorem agree_functionCall (hs : p.States s s') : p.Agree inner functionCall s s' := by
  refine .andThen h.goesOn (agree_qualifiedName h hs _) fun name t t' _ ht => ?_
  refine .expectSign h.goesOn ht rfl fun hu => ?_
  split
  · refine .bind h.goesOn hu (agree_atVariableBefore hu.toStates rfl) fun binds v v' _ hv =>
      .ite (fun _ => ?_) fun _ => agree_plainCall h hv name
    exact .andThen h.goesOn (agree_comprehension h hv _ rfl false) fun _ _ _ _ hw => .pure hw _
  · exact agree_plainCall h hu name

/-! ### Operands -/

/-- Past the opening brace of an existence test, both runs are at the same token. -/
theorem agree_existence (hs : p.States s s') (hk : s.cursor.kind = .keyword .EXISTS) :
    p.Agree inner existence s s' := by
  have he := hs.current_eq (hk ▸ rfl)
  refine .next rfl hs he (hk ▸ rfl) ?_
  split
  · exact agree_functionCall h hs
  · next hn =>
    refine .andThen h.goesOn (.requireSubqueries hs _) fun _ t t' hr ht => ?_
    cases eq_of_requireSubqueries hr
    have hne : s.cursor.kind ≠ .endOfInput := hk ▸ TokenKind.noConfusion
    refine .advance h.goesOn ht (ht.current_eq (hk ▸ rfl)) hne fun hu => ?_
    have hbrace : s.step.cursor.kind = .sign .leftBrace := (kind_step ht.closed hne).trans hn
    have hcur := hu.current_eq (hbrace ▸ rfl)
    refine agree_past h.goesOn hu.toStates hcur (hbrace ▸ TokenKind.noConfusion) fun hv => ?_
    refine .bind h.goesOn hv (h.existsBody hv (p.brace hu.cursors hcur hbrace))
      fun body w w' _ hw => ?_
    exact .expectSign h.goesOn hw.toStates rfl fun hx => .close hx
  · exact .andThen h.goesOn (agree_move_of h.goesOn hs hk rfl) fun _ _ _ _ ht => .fail ht _

theorem agree_group (hs : p.States s s') (hk : s.cursor.kind = .sign .leftParen) :
    p.Agree inner group s s' := by
  refine agree_past h.goesOn hs (hs.current_eq (hk ▸ rfl)) (hk ▸ nofun) fun ht => ?_
  refine .bind h.goesOn ht (agree_expression h ht) fun value u u' _ hu => ?_
  exact .expectSign h.goesOn hu.toStates rfl fun hv => .pure hv.toStates value

theorem agree_named (hs : p.States s s') {name : String} (hk : s.cursor.kind = .identifier name) :
    p.Agree inner (named name) s s' := by
  have he := hs.current_eq (hk ▸ rfl)
  have hvariable : p.Agree inner (variableHere name) s s' := agree_leaf h.goesOn hs hk rfl
  refine .look (p.opensCall hs.cursors he) (.ite (fun _ => agree_functionCall h hs) fun _ => ?_)
  refine .ite (fun _ => ?_) fun _ => hvariable
  exact .next rfl hs he (hk ▸ rfl)
    (.ite (fun _ => .fail hs _) fun _ => hvariable)

theorem agree_operand (hs : p.States s s') : p.Agree inner operand s s' := by
  refine .here (.fail (.expected "an expression")) (fun t ht => by simp only [ht])
    (fun t ht => by simp only [ht]) hs (fun he => ?_) (.fail hs _)
  split
  · next hk =>
    split
    · exact agree_leaf h.goesOn hs hk rfl
    · exact .fail hs _
  · next hk => exact agree_leaf h.goesOn hs hk rfl
  · next hk => exact agree_leaf h.goesOn hs hk rfl
  · next hk => exact agree_leaf h.goesOn hs hk rfl
  · next hk => exact agree_leaf h.goesOn hs hk rfl
  · next hk => exact agree_leaf h.goesOn hs hk rfl
  · next hk => exact agree_leaf h.goesOn hs hk rfl
  · next hk =>
    refine .look (p.opensPattern hs.cursors he) (.ite (fun _ => ?_) fun _ => agree_group h hs hk)
    exact .andThen h.goesOn (agree_patternPart h hs) fun _ _ _ _ ht => .pure ht _
  · exact agree_listLiteral h hs
  · exact agree_mapLiteral h hs
  · next hk => exact agree_caseDistinction h hs hk
  · next hk => exact agree_existence h hs hk
  · exact .look (p.opensCall hs.cursors he)
      (.ite (fun _ => agree_functionCall h hs) fun _ => .fail hs _)
  · next hk => exact agree_named h hs hk
  · next hk => exact agree_leaf h.goesOn hs hk rfl
  · exact .fail hs _

omit h in
theorem refuses_operand : Refuses setting inner (.expected "an expression") operand := by
  refine .here fun t ht => ?_
  rcases TokenKind.eq_of_isStop ht with hk | hk
  · simp only [hk]
    exact .fail _
  · simp only [hk]
    exact .fail _

omit h in
theorem refuses_leading : Refuses setting inner (.expected "an expression") leading := by
  refine .here fun t ht => ?_
  have hnone : unaryOperator? t.kind = none := TokenKind.apply_of_isStop rfl rfl ht
  simp only [hnone]
  exact refuses_operand

omit h in
theorem isLeastMagnitude_of_isStop {kind : TokenKind} (hk : kind.isStop = true) :
    isLeastMagnitude kind = false := TokenKind.apply_of_isStop rfl rfl hk

omit h in
theorem not_isStop_of_isLeastMagnitude {kind : TokenKind} (hk : isLeastMagnitude kind = true) :
    kind.isStop = false := by
  cases hstop : kind.isStop with
  | false => rfl
  | true =>
    rw [isLeastMagnitude_of_isStop hstop] at hk
    cases hk

theorem agree_leading (hs : p.States s s') : p.Agree inner leading s s' := by
  refine .of_refuses refuses_leading hs fun he => .look he ?_
  rw [View.read, show s.cursor.current.kind = s.cursor.kind from rfl]
  split
  · exact agree_operand h hs
  · next operator hop =>
    have hne : s.cursor.kind ≠ .endOfInput := by
      intro hk
      rw [hk] at hop
      cases hop
    refine agree_past h.goesOn hs he hne fun ht => ?_
    have hplain : p.Agree inner (do
        let value ← nested (.expression operator.strength)
        return Expression.unary operator value
          ⟨s.cursor.current.span.start, value.span.stop⟩) s.step s'.step :=
      .andThen h.goesOn (h.expression _ ht.toStates) fun _ _ _ _ hu => .pure hu _
    refine .here _ (fun t hk => ?_) (fun t hk => ?_) ht.toStates (fun hcur => ?_) hplain
    · rw [hk, isLeastMagnitude_of_isStop rfl, Bool.and_false]
      rfl
    · rw [hk, isLeastMagnitude_of_isStop rfl, Bool.and_false]
      rfl
    · refine .ite (fun hleast => ?_) fun _ => hplain
      have hstop := not_isStop_of_isLeastMagnitude (Bool.and_eq_true_iff.1 hleast).2
      exact .advance h.goesOn ht.toStates hcur (TokenKind.ne_endOfInput hstop) fun hu => .pure hu.toStates _

/-! ### What follows an operand -/

theorem agree_bracketed (hs : p.Inside s s') (base : Expression) :
    p.Agree inner (bracketed base) s s' := by
  refine .expectSign h.goesOn hs.toStates rfl fun ht => ?_
  refine .bind h.goesOn ht (agree_expressionUnless h ht rfl) fun lower u u' _ hu => ?_
  refine .bind h.goesOn hu (.consume hu.toStates rfl) fun dots v v' _ hv => .ite (fun _ => ?_)
    fun _ => ?_
  · refine .bind h.goesOn hv (agree_expressionUnless h hv rfl) fun upper w w' _ hw => ?_
    exact .expectSign h.goesOn hw.toStates rfl fun hx => .close hx
  · refine .expectSign h.goesOn hv.toStates rfl fun hw => ?_
    cases lower with
    | some index => exact .close hw
    | none => exact .fail hw.toStates _

theorem agree_suffix (hs : p.Inside s s') (base : Expression) :
    p.Agree inner (suffix base) s s' := by
  refine .here (bracketed base) (fun t ht => by simp only [ht]) (fun t ht => by simp only [ht])
    hs.toStates (fun _ => ?_) (agree_bracketed h hs base)
  split
  · next hk =>
    refine .bind h.goesOn hs (agree_move_of h.goesOn hs.toStates hk rfl) fun _ t t' _ ht => ?_
    exact .andThen h.goesOn (agree_symbolicName h.goesOn ht.toStates _) fun _ _ _ _ hu => .pure hu _
  · exact .bind h.goesOn hs (agree_labels h hs.toStates) fun labels t t' _ ht => .close ht
  · exact agree_bracketed h hs base

theorem agree_nullTest (hs : p.Inside s s') (base : Expression)
    (hk : s.cursor.kind = .keyword .IS) : p.Agree inner (nullTest base) s s' := by
  refine .bind h.goesOn hs (agree_move_of h.goesOn hs.toStates hk rfl) fun _ t t' _ ht => ?_
  refine .bind h.goesOn ht (.consume ht.toStates rfl) fun negated u u' _ hu => ?_
  refine .expectWord h.goesOn hu.toStates fun hv => ?_
  exact .look (p.previousSpan hv.cursors hv.behind) (.pure hv.toStates _)

omit h in
/-- At the end of a statement there is no operator. -/
theorem binaryOperator?_of_isStop {kind : TokenKind} (hk : kind.isStop = true)
    (next : TokenKind) : binaryOperator? kind next = none :=
  TokenKind.apply_of_isStop (f := (binaryOperator? · next)) rfl rfl hk

omit h in
/-- No operator goes on with a token that ends a statement. -/
theorem binaryOperator?_next_eq (kind : TokenKind) :
    binaryOperator? kind .endOfInput = binaryOperator? kind (.sign .semicolon) := by
  unfold binaryOperator?
  split <;> rfl

omit h in
/-- An operator is one token, or two of which the second is a word. -/
theorem width_of_binaryOperator? {kind next : TokenKind} {operator : BinaryOperator} {width : Nat}
    (hop : binaryOperator? kind next = some (operator, width)) :
    width = 1 ∨ width = 2 ∧ next = .keyword .WITH := by
  unfold binaryOperator? at hop
  split at hop <;> grind

/-- Both runs move past the tokens of an operator. -/
theorem agree_moveOver (hs : p.Inside s s') {operator : BinaryOperator} {width : Nat}
    (hop : binaryOperator? s.cursor.kind (s.cursor.peek 1) = some (operator, width)) :
    p.Agree inner (moveOver width) s s' := by
  have hk : s.cursor.kind.isStop = false := by
    refine Bool.eq_false_iff.2 fun hstop => ?_
    rw [binaryOperator?_of_isStop hstop] at hop
    cases hop
  have hne := TokenKind.ne_endOfInput hk
  rcases width_of_binaryOperator? hop with rfl | ⟨rfl, hwith⟩
  · exact agree_past h.goesOn hs.toStates (hs.current_eq hk) hne fun ht => .pure ht.toStates ()
  · refine agree_past h.goesOn hs.toStates (hs.current_eq hk) hne fun ht => ?_
    have hkind : s.step.cursor.kind = .keyword .WITH := (kind_step hs.closed hne).trans hwith
    exact agree_past h.goesOn ht.toStates (ht.current_eq (hkind ▸ rfl)) (hkind ▸ TokenKind.noConfusion)
      fun hu => .pure hu.toStates ()

omit h in
/-- What comes last in something is no operator. -/
theorem binaryOperator?_of_isFinal {kind : TokenKind} (hk : kind.isFinal = true)
    (next : TokenKind) : binaryOperator? kind next = none := by
  cases kind with
  | keyword word => cases word <;> first | rfl | cases hk
  | sign sign => cases sign <;> first | rfl | cases hk
  | _ => cases hk

omit h in
theorem rests_operation (strength : Nat) (chain : Chain) (s : State)
    (hs : ∀ next, binaryOperator? s.cursor.kind next = none) :
    (operation strength chain).run setting inner s = .done none s := by
  rw [operation, run_bind, Rule.here, run_look, Outcome.andThen_done, run_bind, run_look,
    Outcome.andThen_done, View.read, show s.cursor.current.kind = s.cursor.kind from rfl, hs]
  rfl

theorem agree_operation (hs : p.Inside s s') (strength : Nat) (chain : Chain) :
    p.Agree inner (operation strength chain) s s' := by
  refine .of_rests (fun t ht => rests_operation strength chain t (binaryOperator?_of_isStop ht))
    hs.toStates fun he => ?_
  -- behind what comes last in something, another token might follow in the other list
  by_cases hfinal : s.cursor.kind.isFinal = true
  · have hnone := binaryOperator?_of_isFinal hfinal
    have hnone' : ∀ next, binaryOperator? s'.cursor.kind next = none := by
      rwa [show s'.cursor.kind = s.cursor.kind from congrArg Token.kind he.symm]
    unfold Agree
    rw [rests_operation strength chain s hnone, rests_operation strength chain s' hnone']
    exact .done none hs.toStates
  refine .look he (.next (by rw [binaryOperator?_next_eq]) hs.toStates he
    (Bool.eq_false_iff.2 hfinal) ?_)
  split
  · exact .pure hs.toStates none
  · next operator width hop =>
    refine .ite (fun _ => .pure hs.toStates none) fun _ => ?_
    refine .bind h.goesOn hs (agree_moveOver h hs hop) fun _ t t' _ ht => ?_
    exact .andThen h.goesOn (h.expression _ ht.toStates) fun _ _ _ _ hu => .pure hu _

theorem agree_continuation (hs : p.Inside s s') (strength : Nat) (chain : Chain) :
    p.Agree inner (continuation strength chain) s s' := by
  refine .here (operation strength chain) (fun t ht => ?_) (fun t ht => ?_) hs.toStates
    (fun _ => ?_) (agree_operation h hs strength chain)
  · simp only [ht]
    rfl
  · simp only [ht]
    rfl
  · refine .ite (fun _ => ?_) fun _ => .ite (fun hk => ?_) fun _ =>
      agree_operation h hs strength chain
    · refine .ite (fun _ => .pure hs.toStates none) fun _ => ?_
      exact .andThen h.goesOn (agree_suffix h hs _) fun _ _ _ _ ht => .pure ht _
    · refine .ite (fun _ => .pure hs.toStates none) fun _ => ?_
      exact .andThen h.goesOn (agree_nullTest h hs _ hk) fun _ _ _ _ ht => .pure ht _

/-- **Two runs agree on an expression**, whatever strength it must have. -/
theorem agree_expressionOf (hs : p.States s s') (strength : Nat) :
    p.Agree inner (expressionOf strength) s s' := by
  refine .bind_moving h.goesOn hs (movesOn_leading h.goesOn s) (agree_leading h hs)
    fun first t t' _ ht => ?_
  refine .andThen h.goesOn (.loop h.goesOn ht.toStates
    (fun chain u _ => movesOn_continuation h.goesOn strength chain u) (fun chain u u' ho _ hu =>
      agree_continuation h (hu.inside ho ht.behind) strength chain) _) fun _ _ _ _ hu => .pure hu _

omit h in
/-- **No expression begins where a statement ends.** -/
theorem refuses_expressionOf (strength : Nat) :
    Refuses setting inner (.expected "an expression") (expressionOf strength) :=
  .bind refuses_leading

end Nested

end Cypher.Grammar
