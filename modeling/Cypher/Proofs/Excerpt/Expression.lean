import Cypher.Proofs.Excerpt.Basic

/-!
# Excerpts that are expressions

One lemma for each rule of the grammar, up to expressions. What stands in brackets has a fence at
its end, and all before that is left to the correspondence of places. The rules that may come to the
end without one are those for a single token, for names behind a dot or a colon, for the test
whether something is missing, and for right operands.

An expression is carried over if the tokens behind it do not go on with it
(`Cypher.Grammar.carried_runNested`).
-/

namespace Cypher.Grammar

open Rule hiding pure bind

variable {setting : Setting} {inner : Inner} {x : Excerpt setting} {s : State} {α : Type}

/-! ### Names -/

theorem refuses_symbolicName (what : String) :
    Refuses setting inner (.expected what) (symbolicName what) := by
  refine .here fun t ht => ?_
  rcases TokenKind.eq_of_isStop ht with hk | hk
  · simp only [hk]
    exact .fail _
  · simp only [hk]
    exact .fail _

/-- A token of which something is made. -/
theorem carried_leaf {kind : TokenKind} {f : Span → α} (hk : s.cursor.kind = kind)
    (hne : kind ≠ .endOfInput) : Carried x inner (do return f (← advance)) s :=
  .advance (hk ▸ hne) (.pure _)

theorem carried_symbolicName (what : String) : Carried x inner (symbolicName what) s := by
  refine .of_refuses (refuses_symbolicName what) fun hne => .here hne ?_
  split
  · next hk => exact carried_leaf hk nofun
  · next hk => exact carried_leaf hk nofun
  · next hk => exact carried_leaf hk nofun
  · exact .fail _

/-- A label with its colon, which is not behind the excerpt. -/
theorem carried_label :
    Carried x inner (optionally (takeSign .colon) (symbolicName "a label name")) s :=
  .consume nofun (fun _ => TokenKind.ne_of_isBorder x.border rfl)
    (fun _ => .map (carried_symbolicName _)) fun _ => .pure none

/-- A label takes two tokens. -/
theorem amid_of_label {t : State} {name : Ident} (hc : s.cursor.Closed)
    (hr : (optionally (takeSign .colon) (symbolicName "a label name")).run setting inner s =
      .done (some name) t) : s.cursor.Amid := by
  obtain ⟨name, u, hu, hname, ⟨⟩⟩ | ⟨-, ⟨⟩⟩ := done_of_optionally hr
  obtain ⟨-, hk, rfl⟩ | ⟨⟨⟩, -⟩ := of_consume hu
  refine .inl (two_le_of_kind hc (hk ▸ nofun) fun he => ?_)
  rw [refuses_symbolicName _ s.step (by rw [he]; rfl)] at hname
  cases hname

theorem rests_label {t : State}
    (hr : (optionally (takeSign .colon) (symbolicName "a label name")).run setting inner s =
      .done none t) : t = s := by
  obtain ⟨_, _, _, _, ⟨⟩⟩ | ⟨hu, -⟩ := done_of_optionally hr
  obtain ⟨⟨⟩, -⟩ | ⟨-, -, rfl⟩ := of_consume hu
  rfl

section Nested

variable (h : inner.Parallel x.parallel)

include h

omit h in
theorem rests_labelsEnd (labels : List Ident) (t : State) (all : List Ident) (u : State)
    (hr : (if labels.isEmpty then fail (.expected "`:`") else Pure.pure labels : Rule _).run setting
      inner t = .done all u) : u = t := by
  split at hr
  · cases hr
  · exact (Outcome.done.inj hr).2.symm

theorem carried_labels : Carried x inner labels s :=
  .finish (carried_many h.goesOn (fun t => movesOn_optionally h.goesOn
      (movesOn_takeSign h.goesOn _ t)) (fun _ _ _ hc hr _ => amid_of_label hc hr)
    (fun _ _ => rests_label) (fun _ => carried_label) (fun _ _ ht => agree_label h ht.toStates) [])
    (fun _ _ => .ite (fun _ => .fail _) fun _ => .pure _) rests_labelsEnd

theorem reaches_labels : Reaches setting inner labels s :=
  .finish (reaches_many h.goesOn (fun t => movesOn_optionally h.goesOn
    (movesOn_takeSign h.goesOn _ t)) (fun _ _ _ hc hr _ => amid_of_label hc hr)
    (fun _ _ => rests_label) []) rests_labelsEnd

/-! ### What stands in brackets -/

theorem fenced_mapLiteral : Fenced x inner mapLiteral s :=
  .past nofun <| .after h.goesOn (fun _ hs => .listUntil h.goesOn hs rfl fun _ _ ht =>
    agree_mapEntry h ht) fun _ _ _ => .close rfl

theorem fenced_comprehension (start : Nat) {close : Sign}
    (hc : (TokenKind.sign close).isFinal = true) (projects : Bool) :
    Fenced x inner (comprehension start close projects) s := by
  refine .after h.goesOn (fun _ hs => agree_variableName h.goesOn hs.toStates) fun binder t _ => ?_
  refine .past nofun (.after h.goesOn (fun _ hs => agree_expression h hs) fun list u _ => ?_)
  refine .after h.goesOn (fun _ hs => agree_behindWord h hs .WHERE fun _ _ ht =>
    agree_expression h ht) fun predicate v _ => ?_
  exact .after h.goesOn (fun _ hs => agree_elementProjection h hs projects) fun _ _ _ => .close hc

theorem fenced_listLiteral : Fenced x inner listLiteral s := by
  refine .past nofun (.after h.goesOn (fun _ hs => agree_atVariableBefore hs.toStates rfl)
    fun binds t _ => .ite (fun _ => .map (fenced_comprehension h _ rfl true)) fun _ => ?_)
  exact .after h.goesOn (fun _ hs => agree_expressionList h hs rfl) fun _ _ _ => .close rfl

theorem fenced_caseDistinction (hk : s.cursor.kind = .keyword .CASE) :
    Fenced x inner caseDistinction s := by
  refine .advance (hk ▸ nofun) (.after h.goesOn (fun _ hs => agree_expressionUnless h hs rfl)
    fun operand t _ => ?_)
  refine .after h.goesOn (fun _ hs => agree_caseAlternatives h hs) fun alternatives u _ =>
    .ite (fun _ => .fail _) fun _ => ?_
  exact .after h.goesOn (fun _ hs => agree_behindWord h hs .ELSE fun _ _ ht =>
    agree_expression h ht) fun _ _ _ => .close rfl

theorem fenced_callArguments (name : String) (start : Nat) :
    Fenced x inner (callArguments name start) s :=
  .after h.goesOn (fun _ hs => .consume hs.toStates rfl) fun _ _ _ =>
    .after h.goesOn (fun _ hs => agree_expressionList h hs rfl) fun _ _ _ => .close rfl

theorem fenced_plainCall (name : Ident) : Fenced x inner (plainCall name) s := by
  refine .ite (fun _ => ?_) fun _ => fenced_callArguments h _ _
  refine .after h.goesOn (fun _ hs => agree_atLoneStar h hs.toStates) fun star t hr =>
    .ite (fun hstar => ?_) fun _ => fenced_callArguments h _ _
  obtain ⟨rfl, hk, hn⟩ := of_atLoneStar (hstar ▸ hr)
  refine .assuming fun hc => .move (.advance (hk ▸ nofun) (.move (.closing ?_ .close)))
  rw [(kind_step hc (hk ▸ nofun)).trans hn]
  rfl

theorem fenced_functionCall : Fenced x inner functionCall s := by
  refine .after h.goesOn (fun _ hs => agree_qualifiedName h hs.toStates _) fun name t _ =>
    .past nofun ?_
  split
  · exact .after h.goesOn (fun _ hs => agree_atVariableBefore hs.toStates rfl) fun _ _ _ =>
      .ite (fun _ => .map (fenced_comprehension h _ rfl false)) fun _ => fenced_plainCall h name
  · exact fenced_plainCall h name

theorem fenced_existence (hk : s.cursor.kind = .keyword .EXISTS) :
    Fenced x inner existence s := by
  refine .look (fun s' ha hs => ?_) ?_
  · obtain ⟨u, us, us', ha, ha'⟩ := hs.cursors.exists_next
      (Excerpt.two_le_of_amid ha (hk ▸ rfl))
    exact (peek_one_of_ahead_eq_cons ha').trans (peek_one_of_ahead_eq_cons ha).symm
  · split
    · exact fenced_functionCall h
    · next hn =>
      refine .after h.goesOn (fun _ hs => .requireSubqueries hs.toStates _) fun _ t hr => ?_
      cases eq_of_requireSubqueries hr
      refine .assuming fun hc => ?_
      have hbrace : s.step.cursor.kind = .sign .leftBrace := (kind_step hc (hk ▸ nofun)).trans hn
      refine .advance (hk ▸ nofun) (.move (.advance (hbrace ▸ nofun) ?_))
      exact .after h.goesOn (fun s' hs => h.existsBody hs (hs.cursors.1.current_eq
        (Excerpt.ahead_ne_nil_of_amid hs.cursors.2))) fun _ _ _ => .close rfl
    · exact .move (.advance (hk ▸ nofun) (.fail _))

theorem fenced_group (hk : s.cursor.kind = .sign .leftParen) : Fenced x inner group s :=
  .move <| .advance (hk ▸ nofun) <| .after h.goesOn (fun _ hs => agree_expression h hs)
    fun _ _ _ => .expect (fun he => .closing (he ▸ rfl) (.pure _)) nofun

theorem fenced_pathNode : Fenced x inner pathNode s := by
  refine .past nofun (.after h.goesOn (fun _ hs => agree_binder h hs) fun binder t _ => ?_)
  refine .after h.goesOn (fun _ hs => agree_nodeLabels h hs) fun labels u _ => ?_
  exact .after h.goesOn (fun _ hs => agree_properties h hs.toStates) fun _ _ _ => .close rfl

theorem fenced_step (hk : s.cursor.kind.isStop = false) : Fenced x inner step s :=
  .after h.goesOn (fun _ hs => agree_relationship h hs (hs.current_eq hk)) fun _ _ _ =>
    .map (fenced_pathNode h)

theorem fenced_bracketed (base : Expression) : Fenced x inner (bracketed base) s := by
  refine .past nofun (.after h.goesOn (fun _ hs => agree_expressionUnless h hs rfl)
    fun lower t _ => .after h.goesOn (fun _ hs => .consume hs.toStates rfl) fun dots u _ =>
      .ite (fun _ => ?_) fun _ => ?_)
  · exact .after h.goesOn (fun _ hs => agree_expressionUnless h hs rfl) fun _ _ _ => .close rfl
  · refine .expect (fun he => .closing (he ▸ rfl) ?_) nofun
    cases lower with
    | some index => exact .close
    | none => exact .fail _

/-! ### Paths -/

theorem carried_furtherStep : Carried x inner (optionally atRelationship step) s := by
  refine .test run_atRelationship (fun s' hs => ?_) (.ite (fun hb => ?_) fun _ => .pure none)
  · by_cases hne : s.cursor.ahead = []
    · obtain ⟨-, hcurrent, -⟩ := hs.cursors.of_ahead_eq_nil hne
      have hk' : ∀ sign, (TokenKind.sign sign).isBorder = false →
          s'.cursor.kind ≠ .sign sign := fun sign hs' => by
        rw [Cursor.kind, hcurrent]
        exact TokenKind.ne_of_isBorder x.border hs'
      rw [hs.cursors.kind_of_ahead_eq_nil hne, decide_eq_false (hk' .minus rfl),
        decide_eq_false (hk' .lt rfl)]
      rfl
    · rw [show s'.cursor.kind = s.cursor.kind from
          congrArg Token.kind (hs.cursors.current_eq hne).symm,
        decide_eq_decide.2 (hs.cursors.peek_eq_iff hne rfl)]
  · have hat : atRelationship.run setting inner s = .done true s :=
      (run_atRelationship s).trans (by rw [hb])
    exact (fenced_step h (of_atRelationship hat).2).2.map

theorem amid_of_furtherStep {step : PatternStep Expression} {t : State} (hc : s.cursor.Closed)
    (hr : (optionally atRelationship Grammar.step).run setting inner s = .done (some step) t)
    (ht : t.cursor.ahead = []) : s.cursor.Amid := by
  obtain ⟨step, u, hu, hstep, ⟨⟩⟩ | ⟨-, ⟨⟩⟩ := done_of_optionally hr
  obtain ⟨rfl, hk⟩ := of_atRelationship hu
  exact (fenced_step h hk).1 hc step t hstep ht

omit h in
theorem rests_furtherStep {t : State}
    (hr : (optionally atRelationship step).run setting inner s = .done none t) : t = s := by
  obtain ⟨_, _, _, _, ⟨⟩⟩ | ⟨hu, -⟩ := done_of_optionally hr
  exact (Outcome.done.inj ((run_atRelationship s).symm.trans hu)).2.symm

/-- **A path** has a fence at the end of its first node at least. -/
theorem fenced_patternPart : Fenced x inner patternPart s := by
  refine .startHere (.after h.goesOn (fun _ hs => agree_pathBinder h hs.toStates)
    fun binder t _ => ?_)
  refine .bind h.goesOn (fenced_pathNode h) (.bind_left h.goesOn (movesOn_expectSign h.goesOn _ t))
    (fun _ ht => agree_pathNode h ht.toStates) fun node u _ => ⟨?_, ?_⟩
  · exact .finish (carried_many h.goesOn (movesOn_furtherStep h.goesOn)
      (fun _ _ _ => amid_of_furtherStep h) (fun _ _ => rests_furtherStep)
      (fun _ => carried_furtherStep h) (fun _ _ hv => agree_furtherStep h hv) [])
      (fun _ _ => .close) fun _ _ _ _ hr => (Outcome.done.inj hr).2.symm
  · exact .finish (reaches_many h.goesOn (movesOn_furtherStep h.goesOn)
      (fun _ _ _ => amid_of_furtherStep h) (fun _ _ => rests_furtherStep) [])
      fun _ _ _ _ hr => (Outcome.done.inj hr).2.symm

/-! ### Operands -/

theorem carried_named {name : String} (hk : s.cursor.kind = .identifier name) :
    Carried x inner (named name) s := by
  have hne : s.cursor.kind ≠ .endOfInput := hk ▸ nofun
  have hvariable : Carried x inner (variableHere name) s := carried_leaf hk nofun
  exact .look (fun _ hs => (hs.cursors.opensCall_eq (hs.cursors.ahead_ne_nil hne)).symm)
    (.ite (fun _ => (fenced_functionCall h).2) fun _ => .ite
      (fun _ => .ifNext hne rfl (.fail _) hvariable) fun _ => hvariable)

theorem carried_operand : Carried x inner operand s := by
  refine .of_refuses refuses_operand fun hne => .here hne ?_
  split
  · next hk =>
    split
    · exact carried_leaf hk nofun
    · exact .fail _
  · next hk => exact carried_leaf hk nofun
  · next hk => exact carried_leaf hk nofun
  · next hk => exact carried_leaf hk nofun
  · next hk => exact carried_leaf hk nofun
  · next hk => exact carried_leaf hk nofun
  · next hk => exact carried_leaf hk nofun
  · next hk =>
    exact .look (fun _ hs => (hs.cursors.opensPattern_eq (hs.cursors.ahead_ne_nil hne)).symm)
      (.ite (fun _ => (fenced_patternPart h).2.map) fun _ => (fenced_group h hk).2)
  · exact (fenced_listLiteral h).2
  · exact (fenced_mapLiteral h).2
  · next hk => exact (fenced_caseDistinction h hk).2
  · next hk => exact (fenced_existence h hk).2
  · exact .look (fun _ hs => (hs.cursors.opensCall_eq (hs.cursors.ahead_ne_nil hne)).symm)
      (.ite (fun _ => (fenced_functionCall h).2) fun _ => .fail _)
  · next hk => exact carried_named h hk
  · next hk => exact carried_leaf hk nofun
  · exact .fail _

/-- **An operand with the operators before it** is carried over if the operand of the first of them
is. -/
theorem carried_leading
    (hn : ∀ operator, unaryOperator? s.cursor.kind = some operator →
      ¬(decide (operator = .negate) && isLeastMagnitude s.cursor.advance.kind) = true →
      Carried x inner (nested (.expression operator.strength)) s.step) :
    Carried x inner leading s := by
  refine .of_refuses refuses_leading fun hne => .here hne ?_
  split
  · exact carried_operand h
  · next operator hop =>
    obtain ⟨problem, hrefuses⟩ := h.refuses operator.strength
    refine .move (.advance hne (.of_refuses (.here fun t ht => ?_ : Refuses setting inner problem _)
      fun hstep => .here hstep ?_))
    · rw [isLeastMagnitude_of_isStop ht, Bool.and_false]
      exact .bind hrefuses
    · exact .ite (fun _ => .advance hstep (.pure _)) fun hleast => (hn operator hop hleast).map

/-! ### What follows an operand -/

theorem fenced_suffix (base : Expression) (hk : opensSuffix s.cursor.kind = true) :
    Fenced x inner (suffix base) s := by
  have hne : s.cursor.kind ≠ .endOfInput := fun he => nomatch he ▸ hk
  have hstays (labels : List Ident) (t : State) (a : Expression) (u : State) (hr : (do
      return Expression.hasLabels base labels (← look (.spanFrom base.span.start))).run setting
        inner t = .done a u) : u = t := (Outcome.done.inj hr).2.symm
  refine .look (fun _ ha hs => (hs.cursors.current_eq (Excerpt.ahead_ne_nil_of_amid ha)).symm) ?_
  split
  · exact .move (.behind hne (fun _ => .bind (refuses_symbolicName _)) (carried_symbolicName _).map)
  · refine ⟨fun hc a t hr ht => ?_, .finish (carried_labels h) (fun _ _ => .close) hstays⟩
    exact ((reaches_labels h).finish hstays hc a t hr ht).resolve_left (hc.ahead_ne_nil hne)
  · exact fenced_bracketed h base

omit h in
theorem fenced_nullTest (base : Expression) (hk : s.cursor.kind = .keyword .IS) :
    Fenced x inner (nullTest base) s := by
  have hrefuses : Refuses setting inner (.expected ("`" ++ (TokenKind.keyword .NULL).describe ++
      "`")) (do
        let negated ← takeWord .NOT
        let _ ← expectWord .NULL
        return Expression.isNull base negated ⟨base.span.start, (← look .previousSpan).stop⟩) :=
    .consume rfl (.bind (.expect rfl))
  have hclose (negated : Bool) (t : State) : Carried x inner (do
      let _ ← expectWord .NULL
      return Expression.isNull base negated ⟨base.span.start, (← look .previousSpan).stop⟩) t :=
    .expect nofun fun _ => .look (fun _ hs => hs.cursors.previousSpan.symm) (.pure _)
  exact .move (.behind (hk ▸ nofun) (fun _ => hrefuses) (.of_refuses hrefuses fun hne =>
    .consume nofun (fun he => absurd he hne) (fun _ => hclose true _) fun _ => hclose false _))

/-- No operand begins at the end of the text. -/
theorem ne_endOfInput_of_nested {strength : Nat} {e : Expression} {t : State}
    (hr : inner (.expression strength) s = .done e t) : s.cursor.kind ≠ .endOfInput := by
  intro he
  obtain ⟨problem, hrefuses⟩ := h.refuses strength
  cases (hrefuses s (by rw [he]; rfl)).symm.trans hr

omit h in
/-- An operator takes a token more than it has words, since there is something to its right. -/
theorem two_le_of_operation {operator : BinaryOperator} {width : Nat} {t : State}
    (hc : s.cursor.Closed)
    (hop : binaryOperator? s.cursor.kind (s.cursor.peek 1) = some (operator, width))
    (hpast : (moveOver width).run setting inner s = .done () t)
    (hk : t.cursor.kind ≠ .endOfInput) : 2 ≤ s.cursor.ahead.length := by
  have hne : s.cursor.kind ≠ .endOfInput := fun he => by
    rw [he] at hop
    cases hop
  rcases width_of_binaryOperator? hop with rfl | ⟨rfl, hwith⟩
  · cases hpast
    exact two_le_of_kind hc hne hk
  · exact two_le_of_kind hc hne (by rw [kind_step hc hne, hwith]; nofun)

omit h in
theorem exists_moveOver {s' t : State} (hs : x.Alike s s') {operator : BinaryOperator} {width : Nat}
    (hop : binaryOperator? s.cursor.kind (s.cursor.peek 1) = some (operator, width))
    (hpast : (moveOver width).run setting inner s = .done () t)
    (htwo : 2 ≤ s.cursor.ahead.length) :
    binaryOperator? s'.cursor.kind (s'.cursor.peek 1) = some (operator, width) ∧
      ∃ t', (moveOver width).run setting inner s' = .done () t' ∧ x.Alike t t' := by
  have hne : s.cursor.ahead ≠ [] := List.ne_nil_of_length_pos (by omega)
  obtain ⟨u, us, us', ha, ha'⟩ := hs.cursors.exists_next htwo
  refine ⟨?_, ?_⟩
  · rwa [show s'.cursor.kind = s.cursor.kind from
      congrArg Token.kind (hs.cursors.current_eq hne).symm, peek_one_of_ahead_eq_cons ha',
      ← peek_one_of_ahead_eq_cons ha]
  · rcases width_of_binaryOperator? hop with rfl | ⟨rfl, hwith⟩
    · cases hpast
      exact ⟨s'.step, rfl, hs.step hne⟩
    · cases hpast
      have hstep : s.step.cursor.kind = .keyword .WITH := by
        rw [State.step, Cursor.advance_of_ahead_eq_cons ha, ← hwith, peek_one_of_ahead_eq_cons ha]
        rfl
      have hs₁ := hs.step hne
      exact ⟨s'.step.step, rfl, hs₁.step (hs₁.cursors.ahead_ne_nil (by rw [hstep]; decide))⟩

/-! ### Expressions -/

section Strength

variable {strength : Nat}
  (hstops : Stops strength (x.edge.kind :: x.beyond.map Token.kind))
  (hn : ∀ operator : BinaryOperator, strength ≤ operator.strength → ∀ t,
    Carried x inner (nested (.expression operator.rightStrength)) t)

theorem amid_of_continuation {chain next : Chain} {t : State} (hc : s.cursor.Closed)
    (hr : (continuation strength chain).run setting inner s = .done (some next) t)
    (ht : t.cursor.ahead = []) : s.cursor.Amid := by
  cases continues_of_done hr with
  | suffix opens binds run => exact (fenced_suffix (x := x) h _ opens).1 hc _ t run ht
  | nullTest opens binds run => exact (fenced_nullTest (x := x) _ opens).1 hc _ t run ht
  | operation opens binds past run =>
    exact .inl (two_le_of_operation hc opens past (ne_endOfInput_of_nested h run))

include hstops hn

/-- **What goes on with a chain** goes on with it in place, and what is behind does not. -/
theorem carried_continuation (chain : Chain) : Carried x inner (continuation strength chain) s := by
  intro next t hr ht s' hs
  have hkind (hne : s.cursor.kind ≠ .endOfInput) : s'.cursor.kind = s.cursor.kind :=
    congrArg Token.kind (hs.cursors.current_eq (hs.cursors.ahead_ne_nil hne)).symm
  cases continues_of_done hr with
  | stop stops =>
    refine ⟨s', run_of_continues (.stop ?_), hs⟩
    obtain ⟨-, hcurrent, hahead⟩ := hs.cursors.of_ahead_eq_nil ht
    rwa [State.kinds_eq_cons, Cursor.kind, hcurrent, hahead]
  | suffix opens binds run =>
    have hk := hkind fun he => nomatch he ▸ opens
    obtain ⟨t', hrun, ht'⟩ := (fenced_suffix h _ opens).2 _ t run ht s' hs
    exact ⟨t', run_of_continues (.suffix (hk ▸ opens) binds hrun), ht'⟩
  | nullTest opens binds run =>
    have hk := hkind (opens ▸ nofun)
    obtain ⟨t', hrun, ht'⟩ := (fenced_nullTest _ opens).2 _ t run ht s' hs
    exact ⟨t', run_of_continues (.nullTest (hk ▸ opens) binds hrun), ht'⟩
  | @operation operator width _ u _ opens binds past run =>
    have htwo := two_le_of_operation hs.closed opens past (ne_endOfInput_of_nested h run)
    obtain ⟨hopens, u', hpast, hu⟩ := exists_moveOver hs opens past htwo
    obtain ⟨t', hrun, ht'⟩ := hn operator binds u _ t run ht u' hu
    exact ⟨t', run_of_continues (.operation hopens binds hpast hrun), ht'⟩

/-- **An expression is carried over** if its first operand is and nothing behind goes on with it. -/
theorem carried_expressionOf (hl : Carried x inner leading s) :
    Carried x inner (expressionOf strength) s := by
  have hrests (chain : Chain) (t u : State)
      (hr : (continuation strength chain).run setting inner t = .done none u) : u = t := by
    cases continues_of_done hr with
    | stop => rfl
  refine .bind h.goesOn hl (fun _ hs => agree_leading h hs.toStates) fun first t _ => ⟨?_, ?_⟩
  · exact .map (carried_loop h.goesOn (movesOn_continuation h.goesOn strength)
      (fun _ _ _ _ hc => amid_of_continuation h hc) hrests
      (fun chain _ => carried_continuation h hstops hn chain)
      (fun chain _ _ hu => agree_continuation h hu strength chain) _)
  · exact .finish (reaches_loop h.goesOn (movesOn_continuation h.goesOn strength)
      (fun _ _ _ _ hc => amid_of_continuation h hc) hrests _)
      fun _ _ _ _ hr => (Outcome.done.inj hr).2.symm

end Strength

end Nested

/-! ### Nested expressions -/

variable {room strength : Nat}

/-- A nested expression is carried over if what it stands for is. -/
theorem carried_deeper
    (h : Carried x (runNested setting body room) (expressionOf strength)
      { s with depth := s.depth + 1 }) :
    Carried x (runNested setting body (room + 1)) (nested (.expression strength)) s := by
  intro e t hr ht s' hs
  obtain ⟨u, hu, rfl⟩ := done_of_runNested hr
  obtain ⟨u', hu', halike⟩ := h e u hu ht _ (hs.deeper _ (s'.depth + 1))
  refine ⟨{ u' with depth := u'.depth - 1 }, ?_, halike.deeper _ _⟩
  rw [run_nested, runNested_succ]
  exact congrArg (Outcome.mapState _) hu'

/-- **A nested expression is carried over** if nothing behind the excerpt goes on with it. -/
theorem carried_runNested (hstops : Stops 0 (x.edge.kind :: x.beyond.map Token.kind))
    (room strength : Nat) (s : State) :
    Carried x (runNested setting body room) (nested (.expression strength)) s := by
  induction room generalizing strength s with
  | zero =>
    intro e t hr
    cases hr
  | succ room ih =>
    have hp := parallel_runNested x.parallel room
    exact carried_deeper (carried_expressionOf hp (hstops.mono (Nat.zero_le _))
      (fun operator _ t => ih _ t) (carried_leading hp fun _ _ _ => ih _ _))

/-- **An operator before an operand leaves no property**: all that goes on with its operand belongs
to that. -/
theorem not_isProperty_of_unary {operator : UnaryOperator} {chain : Chain} {t : State}
    (hc : s.cursor.Closed) (hop : unaryOperator? s.cursor.kind = some operator)
    (hleast : ¬(decide (operator = .negate) && isLeastMagnitude s.cursor.advance.kind) = true)
    (hpart : Partway setting (runNested setting body room) suffixStrength s chain t) :
    chain.tree.isProperty = false ∧ Stops suffixStrength t.kinds := by
  induction hpart with
  | operand run =>
    rw [run_leading_of_some hop, if_neg hleast] at run
    cases hn : runNested setting body room (.expression operator.strength) s.step with
    | failed d u =>
      rw [hn] at run
      cases run
    | done e u =>
      rw [hn] at run
      cases run
      refine ⟨rfl, (stops_of_run hc.advance hn).mono ?_⟩
      cases operator <;> decide
  | step part run ih => cases (run_of_continues (.stop ih.2)).symm.trans run

/-- **A property is carried over** if no suffix stands behind it. -/
theorem exists_of_isProperty {e : Expression} {t s' : State}
    (hstops : Stops suffixStrength (x.edge.kind :: x.beyond.map Token.kind))
    (hr : runNested setting body room (.expression suffixStrength) s = .done e t)
    (hproperty : e.isProperty = true) (ht : t.cursor.ahead = []) (hs : x.Alike s s') :
    ∃ t', runNested setting body room (.expression suffixStrength) s' = .done e t' ∧
      x.Alike t t' := by
  cases room with
  | zero => cases hr
  | succ room =>
    obtain ⟨chain, u, hpart, rfl, -⟩ := partway_of_run hs.closed hr
    have hp := parallel_runNested x.parallel room
    have hleading : Carried x (runNested setting body room) leading
        { s with depth := s.depth + 1 } := by
      refine carried_leading hp fun operator hop hleast => ?_
      rw [(not_isProperty_of_unary (s := { s with depth := s.depth + 1 }) hs.closed hop hleast
        hpart).1] at hproperty
      cases hproperty
    have hright (operator : BinaryOperator) (hle : suffixStrength ≤ operator.strength) (t : State) :
        Carried x (runNested setting body room) (nested (.expression operator.rightStrength)) t :=
      absurd hle (by cases operator <;> decide)
    exact carried_deeper (carried_expressionOf hp hstops hright hleading) _ t hr ht s' hs

end Cypher.Grammar
