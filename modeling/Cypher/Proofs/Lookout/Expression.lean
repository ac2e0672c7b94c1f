import Cypher.Proofs.Chain
import Cypher.Proofs.Lookout.Basic
import Cypher.Proofs.Shape.Expression

/-!
# Looking out in expressions

One lemma for each rule of the grammar, up to expressions. None of them passes the word itself,
except inside a query. A name that may be a reserved word is only read where one is awaited, or
where the token at the cursor is known not to be the word; the key of a map is told by the colon
behind it.

Most rules end behind a token that no name comes after, whatever stands before them. Those that may
read nothing at all leave things as they are, so no name may be awaited to begin with.
-/

namespace Cypher.Grammar

open Rule hiding pure bind
open Composed (elements)

variable {setting : Setting} {inner : Inner} {L : Lookout setting} {s : State}

/-! ### Rules without expressions -/

section Names

theorem spares_move (hk : s.cursor.kind ≠ .keyword .MERGE) : Spares L inner move s := by
  intro _ a t hr
  cases hr
  exact Lookout.not_between_step hk

theorem clears_move (hk : s.cursor.kind.isOrdinary = true) : Clears L inner move s := by
  intro hs a t hr
  cases hr
  exact ⟨Lookout.not_between_step (TokenKind.ne_merge_of_isOrdinary hk),
    State.awaits_step_of_isOrdinary hs.closed hk⟩

theorem kind_of_variableName {name : Ident} {t : State}
    (hr : variableName.run setting inner s = .done name t) : s.cursor.kind.isVariable = true := by
  obtain ⟨token, u, hu, hr⟩ := done_of_bind hr
  cases hu
  split at hr
  · next name hk => exact (show s.cursor.kind = .identifier name from hk) ▸ rfl
  · next name hk => exact (show s.cursor.kind = .quotedIdentifier name from hk) ▸ rfl
  · cases hr

theorem clears_variableName : Clears L inner variableName s := by
  intro hs name t hr
  obtain rfl := step_of_variableName hr
  have hordinary := TokenKind.isOrdinary_of_isVariable (kind_of_variableName hr)
  exact ⟨Lookout.not_between_step (TokenKind.ne_merge_of_isOrdinary hordinary),
    State.awaits_step_of_isOrdinary hs.closed hordinary⟩

/-- A name that may be a reserved word is one or names a variable. -/
theorem kind_of_symbolicName {what : String} {name : Ident} {t : State}
    (hr : (symbolicName what).run setting inner s = .done name t) :
    s.cursor.kind.isVariable = true ∨ ∃ word, s.cursor.kind = .keyword word := by
  obtain ⟨token, u, hu, hr⟩ := done_of_bind hr
  cases hu
  split at hr
  · next name hk => exact .inl ((show s.cursor.kind = .identifier name from hk) ▸ rfl)
  · next name hk => exact .inl ((show s.cursor.kind = .quotedIdentifier name from hk) ▸ rfl)
  · next word hk => exact .inr ⟨word, hk⟩
  · cases hr

/-- **A name is not the word** where one is awaited, or where it is known to be another. -/
theorem clears_symbolicName (what : String)
    (h : s.awaits = true ∨ s.cursor.kind.isOrdinary = true) :
    Clears L inner (symbolicName what) s := by
  intro hs a t hr
  obtain ⟨-, rfl⟩ := of_symbolicName hr
  rcases h with hawaits | hordinary
  · refine ⟨Lookout.not_between_of_awaits hs hawaits, ?_⟩
    -- what has been read is a variable, or a word that stands for the name
    rcases kind_of_symbolicName hr with hk | ⟨word, hk⟩
    · exact State.awaits_step_of_isOrdinary hs.closed (TokenKind.isOrdinary_of_isVariable hk)
    · rw [State.awaits, State.behind_step hs.closed (hk ▸ TokenKind.noConfusion)]
      exact Token.awaitsName_of_keyword hk hawaits
  · exact ⟨Lookout.not_between_step (TokenKind.ne_merge_of_isOrdinary hordinary),
      State.awaits_step_of_isOrdinary hs.closed hordinary⟩

variable (hi : inner.GoesOn)

include hi

/-- A variable and the sign behind it. -/
theorem clears_pathName (hk : (s.cursor.peek 1).isOrdinary = true) :
    Clears L inner pathName s := by
  refine .assuming fun hs => .bind hi clears_variableName.spares fun name t ht => ?_
  obtain rfl := step_of_variableName ht
  have hend := TokenKind.ne_endOfInput_of_isOrdinary
    (TokenKind.isOrdinary_of_isVariable (kind_of_variableName ht))
  rw [← kind_step hs.closed hend] at hk
  exact .andThen hi (clears_move hk) fun _ u hu => .pure hu

/-- A name behind a sign that it may come after. -/
theorem clears_behindSign {α : Type} {next : Unit → Rule α}
    (hk : s.cursor.kind.precedesName = true)
    (hn : s.step.awaits = true → Clears L inner (next ()) s.step) :
    Clears L inner (move >>= next) s := by
  refine .assuming fun hs => .bind hi (spares_move fun he => ?_) fun _ t ht => ?_
  · rw [he] at hk
    cases hk
  · cases ht
    exact hn (State.awaits_step_of_precedesName hs.closed hk)

theorem clears_furtherPart (what : String) (hs : s.awaits = false) :
    Clears L inner (optionally atNamePart (namePart what)) s := by
  have hrun : atNamePart.run setting inner s =
      .done (decide (s.cursor.kind = .sign .dot) && (s.cursor.peek 1).isNamePart) s := by
    rw [atNamePart, run_bind, run_isAt, Outcome.andThen_done]
    cases decide (s.cursor.kind = .sign .dot) <;> rfl
  refine clears_optionally hi hs (fun b t hb => ?_) fun t ht => ?_
  · cases hrun.symm.trans hb
    exact ⟨Lookout.not_between_refl _, fun _ => rfl⟩
  · obtain ⟨htrue, rfl⟩ := Outcome.done.inj (hrun.symm.trans ht)
    have hdot := of_decide_eq_true (Bool.and_eq_true_iff.1 htrue).1
    exact clears_behindSign hi (hdot ▸ rfl) fun hawaits =>
      .andThen hi (clears_symbolicName what (.inl hawaits)) fun name u hu => .pure hu

theorem clears_qualifiedName (what : String)
    (h : s.awaits = true ∨ s.cursor.kind.isOrdinary = true) :
    Clears L inner (qualifiedName what) s := by
  refine .andThen hi (clears_symbolicName what h) fun first t ht => ?_
  refine .andThen hi (clears_many hi ht (fun u hu => clears_furtherPart hi what hu) _) ?_
  exact fun parts u hu => .look (.pure hu)

/-- A list of names, each behind a sign that names come after. -/
theorem clears_namesBehind {sign : Sign} {rule : Rule Ident} (hs : s.awaits = false)
    (hsign : (TokenKind.sign sign).precedesName = true)
    (h : ∀ t, t.awaits = true → Clears L inner rule t) (names : List Ident) :
    Clears L inner (many (optionally (takeSign sign) rule) names) s :=
  clears_many hi hs (fun _ ht => .assuming fun hover => clears_optionally hi ht
    (tests_takeSign _) fun u hu => h u (State.awaits_of_consume hover.closed hsign hu)) names

theorem clears_labels (hs : s.awaits = false) : Clears L inner labels s := by
  refine .andThen hi (clears_namesBehind hi hs rfl (fun _ ht => clears_symbolicName _ (.inl ht)) _)
    fun labels t ht => ?_
  exact .ite (fun _ => .fail _) fun _ => .pure ht

theorem clears_lengthBound (hs : s.awaits = false) : Clears L inner lengthBound s := by
  refine .look ?_
  split
  · next text hk =>
    have hk : s.cursor.kind = .integer text := hk
    split
    · exact .andThen hi (clears_move (hk ▸ rfl)) fun _ t ht => .pure ht
    · exact .fail _
  · exact .pure hs

theorem clears_pathLength (hs : s.awaits = false) : Clears L inner pathLength s := by
  refine .andThen hi (clears_lengthBound hi hs) fun least t ht => ?_
  refine .andThen hi (clears_consume rfl ht) fun dots u hu => .ite (fun _ => ?_) fun _ => .pure hu
  exact .andThen hi (clears_lengthBound hi hu) fun most v hv => .pure hv

/-- A colon behind the bar leaves a name awaited. -/
theorem clears_furtherType (h : s.awaits = true) : Clears L inner furtherType s := by
  refine .assuming fun hs => .bind hi (tests_takeSign _).spares fun colon t ht =>
    clears_symbolicName _ (.inl ?_)
  cases colon with
  | true => exact State.awaits_of_consume hs.closed rfl ht
  | false =>
    rcases of_consume ht with ⟨htrue, -⟩ | ⟨-, -, rfl⟩
    · cases htrue
    · exact h

theorem clears_relationshipTypes (hs : s.awaits = false) :
    Clears L inner relationshipTypes s := by
  refine .assuming fun hover => .bind hi (tests_takeSign _).spares fun colon t ht => ?_
  cases colon with
  | true =>
    have hawaits := State.awaits_of_consume hover.closed rfl ht
    exact .andThen hi (clears_symbolicName _ (.inl hawaits)) fun first u hu =>
      clears_namesBehind hi hu rfl (fun v hv => clears_furtherType hi hv) [first]
  | false =>
    rcases of_consume ht with ⟨htrue, -⟩ | ⟨-, -, rfl⟩
    · cases htrue
    · exact .pure hs

theorem clears_nodeLabels (hs : s.awaits = false) : Clears L inner nodeLabels s := by
  refine .bind hi (tests_isAt _).spares fun colon t ht => ?_
  cases ht
  exact .ite (fun _ => clears_labels hi hs) fun _ => .pure hs

end Names

section Rules

variable (h : inner.Finds L)

include h

/-! ### Names, labels and maps -/

theorem finds_expression (s : State) : Finds L inner [] expression s := h.expression _ s

/-- The key of a map has a colon behind it, and so it is not the word. -/
theorem finds_mapEntry (s : State) : Finds L inner [] mapEntry s := by
  refine .skipDone h.goesOn (fun hs key t a u hkey hu hbetween => ?_) fun key t _ => ?_
  · obtain ⟨hlevel, rfl⟩ := of_symbolicName hkey
    have hend := TokenKind.ne_endOfInput_of_isLevel hlevel
    obtain ⟨_, _, hcolon, -⟩ := done_of_bind hu
    -- were the key the word, there would be a colon behind the word
    have hnext := (kind_step hs.closed hend).symm.trans (of_expect hcolon).1
    exact L.next hs (Lookout.eq_word_of_between hbetween) hnext
  · exact .skip h.goesOn (.expect nofun) fun _ u _ =>
      .bind h.goesOn (finds_expression h u) fun value v hv => .pure hv (by simp [elements])

theorem finds_mapLiteral (s : State) : Finds L inner [] mapLiteral s := by
  refine .past h.goesOn (.expect rfl) fun opening t ht => ?_
  refine .bind h.goesOn (finds_listUntil h.goesOn ht (finds_mapEntry h)) fun entries u _ => ?_
  exact .past h.goesOn (.expect rfl) fun _ v hv => .look (.close hv rfl fun _ hc => hc)

theorem finds_properties (hs : s.awaits = false) : Finds L inner [] properties s := by
  refine .look ?_
  split
  · exact .bind h.goesOn (finds_mapLiteral h s) fun map t ht => .pure ht (by simp [elements])
  · next name hk =>
    have hk : s.cursor.kind = .parameter name := hk
    exact .past h.goesOn (.advance (hk ▸ rfl)) fun span t ht => .close ht rfl nofun
  · exact .pure hs nofun

/-! ### Patterns -/

theorem finds_detail (hs : s.awaits = false) : Finds L inner [] detail s := by
  refine .bind h.goesOn (finds_optionally h.goesOn hs tests_atVariable fun t _ =>
    .ofClears clears_variableName) fun binder t ht => ?_
  refine .bind h.goesOn (.ofClears (clears_relationshipTypes h.goesOn ht)) fun types u hu => ?_
  refine .past h.goesOn (clears_ifTaken h.goesOn rfl hu fun v => clears_pathLength h.goesOn)
    fun length v hv => ?_
  refine .bind h.goesOn (finds_properties h hv) fun properties w _ => ?_
  exact .past h.goesOn (.expect rfl) fun _ x hx => .pure hx (by simp [elements])

theorem finds_detailIfAny (hs : s.awaits = false) : Finds L inner [] detailIfAny s :=
  .past h.goesOn (clears_consume rfl hs) fun _ _ ht =>
    .ite (fun _ => finds_detail h ht) fun _ => .pure ht nofun

theorem finds_relationship (s : State) : Finds L inner [] relationship s := by
  refine .startHere (.skip h.goesOn (tests_takeSign _).spares fun left t _ => ?_)
  refine .past h.goesOn (.expect rfl) fun _ u hu => ?_
  refine .bind h.goesOn (finds_detailIfAny h hu) fun detail v _ => ?_
  refine .past h.goesOn (.expect rfl) fun _ w hw => ?_
  exact .past h.goesOn (clears_consume rfl hw) fun right x hx =>
    .look (.close hx rfl fun _ hc => hc)

theorem finds_pathNode (s : State) : Finds L inner [] pathNode s := by
  refine .past h.goesOn (.expect rfl) fun opening t ht => ?_
  refine .bind h.goesOn (finds_optionally h.goesOn ht tests_atVariable fun u _ =>
    .ofClears clears_variableName) fun binder u hu => ?_
  refine .bind h.goesOn (.ofClears (clears_nodeLabels h.goesOn hu)) fun labels v hv => ?_
  refine .bind h.goesOn (finds_properties h hv) fun properties w _ => ?_
  exact .past h.goesOn (.expect rfl) fun _ x hx => .look (.close hx rfl fun _ hc => hc)

theorem finds_step (s : State) : Finds L inner [] step s := by
  refine .bind h.goesOn (finds_relationship h s) fun relationship t _ => ?_
  exact .bind h.goesOn (finds_pathNode h t) fun node u hu => .pure hu (by simp [elements])

omit h in
theorem tests_atRelationship : Tests L inner atRelationship s := by
  intro b t hr
  cases (run_atRelationship s).symm.trans hr
  exact ⟨Lookout.not_between_refl _, fun _ => rfl⟩

/-- The name of a path, if it has one, is told by the sign behind it. -/
theorem spares_binder (s : State) :
    Spares L inner (optionally (atVariableBefore (.sign .eq)) pathName) s := by
  intro hs name t hr
  rcases done_of_optionally hr with ⟨name, u, hu, hr, -⟩ | ⟨hu, -⟩
  · obtain ⟨htrue, rfl⟩ := Outcome.done.inj ((run_atVariableBefore _ s).symm.trans hu)
    have heq := of_decide_eq_true (Bool.and_eq_true_iff.1 htrue).2
    exact (clears_pathName h.goesOn (heq ▸ rfl)).spares hs name t hr
  · exact (tests_atVariableBefore _).spares hs _ t hu

theorem finds_patternPart (s : State) : Finds L inner [] patternPart s := by
  refine .startHere (.skip h.goesOn (spares_binder h s) fun binder t _ => ?_)
  refine .bind h.goesOn (finds_pathNode h t) fun node u hu => ?_
  refine .bind h.goesOn (finds_many h.goesOn hu fun v hv => finds_optionally h.goesOn hv
    tests_atRelationship fun w _ => finds_step h w) fun chain v hv => ?_
  refine .look (.close hv rfl fun e he => ?_)
  simp only [List.nil_append] at he
  simpa [Element.children, elements, or_assoc] using Or.inr (List.mem_append.1 he)

theorem finds_pattern (s : State) : Finds L inner [] pattern s := by
  refine .startHere (.bind h.goesOn (finds_separated h.goesOn (finds_patternPart h s) fun t _ =>
    finds_patternPart h t) fun parts t ht => ?_)
  exact .look (.close ht rfl fun _ hc => hc)

/-! ### Lists, cases and calls -/

theorem finds_expressionList (close : Sign) (hs : s.awaits = false) :
    Finds L inner [] (expressionList close) s :=
  finds_listUntil h.goesOn hs (finds_expression h)

/-- An expression behind a word or a sign, if that comes next. -/
theorem finds_ifTaken {kind : TokenKind} (hk : kind ≠ .keyword .MERGE) (hs : s.awaits = false) :
    Finds L inner [] (optionally (consume kind) expression) s :=
  finds_optionally h.goesOn hs (tests_consume hk) fun t _ => finds_expression h t

theorem finds_elementProjection (projects : Bool) (hs : s.awaits = false) :
    Finds L inner [] (elementProjection projects) s :=
  .ite (fun _ => finds_ifTaken h TokenKind.noConfusion hs) fun _ => .pure hs nofun

theorem finds_comprehension (start : Nat) (close : Sign) (projects : Bool)
    (hclose : (TokenKind.sign close).isOrdinary = true) (s : State) :
    Finds L inner [] (comprehension start close projects) s := by
  refine .bind h.goesOn (.ofClears clears_variableName) fun binder t _ => ?_
  refine .past h.goesOn (.expect rfl) fun _ u _ => ?_
  refine .bind h.goesOn (finds_expression h u) fun list v hv => ?_
  refine .bind h.goesOn (finds_ifTaken h (by decide) hv) fun predicate w hw => ?_
  refine .bind h.goesOn (finds_elementProjection h projects hw) fun projection x _ => ?_
  exact .past h.goesOn (.expect hclose) fun _ y hy => .look (.close hy rfl fun _ hc => hc)

theorem finds_listLiteral (s : State) : Finds L inner [] listLiteral s := by
  refine .past h.goesOn (.expect rfl) fun opening t ht => ?_
  refine .skip h.goesOn (tests_atVariableBefore _).spares fun binds u hu => ?_
  cases (run_atVariableBefore _ t).symm.trans hu
  refine .ite (fun _ => ?_) fun _ => ?_
  · exact .part h.goesOn (finds_comprehension h _ _ _ rfl t) fun body v hv =>
      .pure hv (by simp [elements])
  · refine .bind h.goesOn (finds_expressionList h _ ht) fun items v _ => ?_
    exact .past h.goesOn (.expect rfl) fun _ w hw => .look (.close hw rfl fun _ hc => hc)

theorem finds_caseAlternative (s : State) : Finds L inner [] caseAlternative s := by
  refine .bind h.goesOn (finds_expression h s) fun condition t _ => ?_
  refine .past h.goesOn (.expect rfl) fun _ u _ => ?_
  exact .bind h.goesOn (finds_expression h u) fun result v hv => .pure hv (by simp [elements])

theorem finds_caseDistinction (hk : s.cursor.kind.isOrdinary = true) :
    Finds L inner [] caseDistinction s := by
  refine .past h.goesOn (.advance hk) fun opening t ht => ?_
  refine .bind h.goesOn (finds_skipIf h.goesOn ht (finds_expression h t)) fun operand u hu => ?_
  refine .bind h.goesOn (finds_many h.goesOn hu fun v hv => finds_optionally h.goesOn hv
    (tests_takeWord (by decide)) fun w _ => finds_caseAlternative h w) fun alternatives v hv => ?_
  refine .ite (fun _ => .fail _) fun _ => ?_
  refine .bind h.goesOn (finds_ifTaken h (by decide) hv) fun otherwise w _ => ?_
  exact .past h.goesOn (.expect rfl) fun _ x hx => .look (.close hx rfl fun _ hc => hc)

/-! ### Calls -/

theorem finds_callArguments (name : String) (start : Nat) (hs : s.awaits = false) :
    Finds L inner [] (callArguments name start) s := by
  refine .past h.goesOn (clears_consume rfl hs) fun distinct t ht => ?_
  refine .bind h.goesOn (finds_expressionList h _ ht) fun arguments u _ => ?_
  exact .past h.goesOn (.expect rfl) fun _ v hv => .look (.close hv rfl fun _ hc => hc)

omit h in
theorem run_atLoneStar (s : State) :
    atLoneStar.run setting inner s =
      .done (decide (s.cursor.kind = .sign .star) &&
        decide (s.cursor.peek 1 = .sign .rightParen)) s := by
  rw [atLoneStar, run_bind, run_isAt, Outcome.andThen_done]
  cases decide (s.cursor.kind = .sign .star) <;> rfl

theorem finds_plainCall (name : Ident) (hs : s.awaits = false) :
    Finds L inner [] (plainCall name) s := by
  refine .assuming fun hover => .ite (fun _ => ?_) fun _ => finds_callArguments h _ _ hs
  have hlooks : Spares L inner atLoneStar s := fun _ b t hr => by
    cases (run_atLoneStar s).symm.trans hr
    exact Lookout.not_between_refl _
  refine .skip h.goesOn hlooks fun star t ht => ?_
  cases (run_atLoneStar s).symm.trans ht
  refine .ite (fun hstar => ?_) fun _ => finds_callArguments h _ _ hs
  obtain ⟨hk, hnext⟩ := Bool.and_eq_true_iff.1 hstar
  have hk : s.cursor.kind = .sign .star := of_decide_eq_true hk
  have hclose : s.step.cursor.kind = .sign .rightParen :=
    (kind_step hover.closed (hk ▸ nofun)).trans (of_decide_eq_true hnext)
  refine .skip h.goesOn (spares_move (hk ▸ nofun)) fun _ u hu => ?_
  cases hu
  exact .past h.goesOn (clears_move (hclose ▸ rfl)) fun _ v hv => .look (.close hv rfl nofun)

theorem finds_functionCall (hk : s.cursor.kind.isOrdinary = true) :
    Finds L inner [] functionCall s := by
  refine .past h.goesOn (clears_qualifiedName h.goesOn _ (.inr hk)) fun name t _ => ?_
  refine .past h.goesOn (.expect rfl) fun _ u hu => ?_
  split
  · refine .skip h.goesOn (tests_atVariableBefore _).spares fun binds v hv => ?_
    cases (run_atVariableBefore _ u).symm.trans hv
    refine .ite (fun _ => ?_) fun _ => finds_plainCall h name hu
    refine .part h.goesOn (finds_comprehension h _ _ _ rfl u) fun body w hw => ?_
    exact .recast hw rfl nofun rfl
  · exact finds_plainCall h name hu

/-! ### Operands -/

theorem finds_existence (hk : s.cursor.kind = .keyword .EXISTS) :
    Finds L inner [] existence s := by
  refine .assuming fun hover => .look ?_
  split
  · exact finds_functionCall h (hk ▸ rfl)
  · next hnext =>
    have hopen : s.step.cursor.kind = .sign .leftBrace :=
      (kind_step hover.closed (hk ▸ nofun)).trans hnext
    refine .requireSubqueries (.skip h.goesOn (.advance (hk ▸ nofun)) fun opening t ht => ?_)
    cases ht
    refine .past h.goesOn (clears_move (s := s.step) (hopen ▸ rfl)) fun _ u hu => ?_
    refine .bind h.goesOn (h.existsBody hu) fun body v _ => ?_
    exact .past h.goesOn (.expect rfl) fun _ w hw => .look (.close hw rfl fun _ hc => hc)
  · exact .skip h.goesOn (spares_move (hk ▸ nofun)) fun _ _ _ => .fail _

theorem finds_group (hk : s.cursor.kind.isOrdinary = true) : Finds L inner [] group s := by
  refine .past h.goesOn (clears_move hk) fun _ t _ => ?_
  refine .bind h.goesOn (finds_expression h t) fun e u _ => ?_
  exact .past h.goesOn (.expect rfl) fun _ v hv => .pure hv (by simp [elements])

/-- An expression that is one token. -/
theorem finds_here {f : Span → Expression} (hk : s.cursor.kind.isOrdinary = true) :
    Finds L inner [] (do return f (← advance)) s :=
  .past h.goesOn (.advance hk) fun _ _ ht => .close ht rfl nofun

theorem finds_named {name : String} (hk : s.cursor.kind = .identifier name) :
    Finds L inner [] (named name) s := by
  have hordinary : s.cursor.kind.isOrdinary = true := hk ▸ rfl
  refine .look (.ite (fun _ => finds_functionCall h hordinary) fun _ => .ite (fun _ => ?_)
    fun _ => finds_here h hordinary)
  exact .look (.ite (fun _ => .fail _) fun _ => finds_here h hordinary)

theorem finds_operand (s : State) : Finds L inner [] operand s := by
  have hkind {kind : TokenKind} (hk : s.cursor.kind = kind) (ho : kind.isOrdinary = true) :
      s.cursor.kind.isOrdinary = true := hk ▸ ho
  refine .look ?_
  split
  · next hk =>
    split
    · exact finds_here h (hkind hk rfl)
    · exact .fail _
  · next hk => exact finds_here h (hkind hk rfl)
  · next hk => exact finds_here h (hkind hk rfl)
  · next hk => exact finds_here h (hkind hk rfl)
  · next hk => exact finds_here h (hkind hk rfl)
  · next hk => exact finds_here h (hkind hk rfl)
  · next hk => exact finds_here h (hkind hk rfl)
  · next hk =>
    refine .look (.ite (fun _ => ?_) fun _ => finds_group h (hkind hk rfl))
    exact .part h.goesOn (finds_patternPart h s) fun part t ht => .close ht rfl fun _ hc => hc
  · exact finds_listLiteral h s
  · exact finds_mapLiteral h s
  · next hk => exact finds_caseDistinction h (hkind hk rfl)
  · next hk => exact finds_existence h hk
  · next hk =>
    exact .look (.ite (fun _ => finds_functionCall h (hkind hk rfl)) fun _ => .fail _)
  · next hk => exact finds_named h hk
  · next hk => exact finds_here h (hkind hk rfl)
  · exact .fail _

/-! ### Operators and suffixes -/

omit h in
theorem isOrdinary_of_unaryOperator {kind : TokenKind} {operator : UnaryOperator}
    (hk : unaryOperator? kind = some operator) : kind.isOrdinary = true := by
  unfold unaryOperator? at hk
  split at hk
  all_goals first
    | rfl
    | cases hk

omit h in
theorem isOrdinary_of_isLeastMagnitude {kind : TokenKind} (hk : isLeastMagnitude kind = true) :
    kind.isOrdinary = true := by
  unfold isLeastMagnitude at hk
  split at hk
  · rfl
  · cases hk

theorem finds_leading (s : State) : Finds L inner [] leading s := by
  refine .look ?_
  split
  · exact finds_operand h s
  · next hk =>
    refine .past h.goesOn (clears_move (isOrdinary_of_unaryOperator hk)) fun _ t _ => .look ?_
    refine .ite (fun hleast => ?_) fun _ => ?_
    · have hdigits := isOrdinary_of_isLeastMagnitude (Bool.and_eq_true_iff.1 hleast).2
      exact .past h.goesOn (.advance hdigits) fun digits u hu => .close hu rfl nofun
    · exact .part h.goesOn (h.expression _ t) fun operand u hu => .close hu rfl fun _ hc => hc

theorem finds_bracketed (base : Expression) (s : State) :
    Finds L inner [.expression base] (bracketed base) s := by
  refine .past h.goesOn (.expect rfl) fun _ t ht => ?_
  refine .bind h.goesOn (finds_skipIf h.goesOn ht (finds_expression h t)) fun lower u hu => ?_
  refine .past h.goesOn (clears_consume rfl hu) fun dots v hv => .ite (fun _ => ?_) fun _ => ?_
  · refine .bind h.goesOn (finds_skipIf h.goesOn hv (finds_expression h v)) fun upper w _ => ?_
    exact .past h.goesOn (.expect rfl) fun _ x hx => .look (.close hx rfl fun _ hc => hc)
  · refine .past h.goesOn (.expect rfl) fun _ w hw => ?_
    cases lower with
    | none => exact .fail _
    | some index => exact .look (.close hw rfl fun _ hc => hc)

theorem finds_suffix (base : Expression) (hs : s.awaits = false) :
    Finds L inner [.expression base] (suffix base) s := by
  refine .assuming fun hover => .look ?_
  split
  · next hk =>
    have hk : s.cursor.kind = .sign .dot := hk
    refine .skip h.goesOn (spares_move (hk ▸ nofun)) fun _ t ht => ?_
    cases ht
    have hawaits := State.awaits_step_of_precedesName hover.closed (hk ▸ rfl)
    exact .bind h.goesOn (.ofClears (clears_symbolicName _ (.inl hawaits))) fun key u hu =>
      .close hu rfl fun _ hc => hc
  · exact .bind h.goesOn (.ofClears (clears_labels h.goesOn hs)) fun labels t ht =>
      .look (.close ht rfl fun _ hc => hc)
  · exact finds_bracketed h base s

theorem finds_nullTest (base : Expression) (hk : s.cursor.kind = .keyword .IS) :
    Finds L inner [.expression base] (nullTest base) s := by
  refine .past h.goesOn (clears_move (hk ▸ rfl)) fun _ t ht => ?_
  refine .past h.goesOn (clears_consume rfl ht) fun negated u _ => ?_
  exact .past h.goesOn (.expect rfl) fun _ v hv => .look (.close hv rfl fun _ hc => hc)

omit h in
/-- The tokens of an operator are its own. -/
theorem kinds_of_binaryOperator {kind next : TokenKind} {operator : BinaryOperator} {width : Nat}
    (hk : binaryOperator? kind next = some (operator, width)) :
    kind.isOrdinary = true ∧ (width = 1 ∨ width = 2 ∧ next = .keyword .WITH) := by
  unfold binaryOperator? at hk
  split at hk
  all_goals first
    | (cases hk; exact ⟨rfl, .inl rfl⟩)
    | (split at hk <;> cases hk; exact ⟨rfl, .inr ⟨rfl, ‹_›⟩⟩)
    | cases hk

theorem spares_moveOver {operator : BinaryOperator} {width : Nat}
    (hk : binaryOperator? s.cursor.kind (s.cursor.peek 1) = some (operator, width)) :
    Spares L inner (moveOver width) s := by
  obtain ⟨hordinary, hwidth⟩ := kinds_of_binaryOperator hk
  have hfirst := TokenKind.ne_merge_of_isOrdinary hordinary
  rcases hwidth with rfl | ⟨rfl, hnext⟩
  · exact .bind h.goesOn (spares_move hfirst) fun _ t _ => .pure ()
  · intro hs
    have hwith : s.step.cursor.kind = .keyword .WITH :=
      (kind_step hs.closed (TokenKind.ne_endOfInput_of_isOrdinary hordinary)).trans hnext
    refine Spares.bind h.goesOn (spares_move hfirst) (fun _ t ht => ?_) hs
    cases ht
    exact .bind h.goesOn (spares_move (s := s.step) (hwith ▸ nofun)) fun _ u _ => .pure ()

/-! ### Chains of operators -/

omit h in
/-- What is found in a chain or in the right operand of an operator is found in what it makes of
them. -/
theorem found_extend {chain : Chain} {operator : BinaryOperator} {right : Expression}
    (hfound : L.Found [.expression chain.tree] ∨ L.Found [.expression right]) :
    L.Found [.expression (chain.extend operator right).tree] := by
  have hjoin (operator : BinaryOperator) (l r : Expression)
      (hlr : L.Found [.expression l] ∨ L.Found [.expression r]) :
      L.Found [.expression (join operator l r)] :=
    (Lookout.found_append.2 hlr).close fun _ hc => hc
  unfold Chain.extend
  split
  · split
    · exact hjoin .and _ _ (hfound.imp_right fun hright => hjoin operator _ _ (.inr hright))
    · exact hjoin operator _ _ hfound
  · exact hjoin operator _ _ hfound

theorem found_continuation {strength : Nat} {chain : Chain} {next : Option Chain} {t : State}
    (hover : s.cursor.Over L.all) (hs : s.awaits = false)
    (hr : (continuation strength chain).run setting inner s = .done next t) :
    t.awaits = false ∧ (L.Found [.expression chain.tree] ∨ L.Between s t →
      L.Found [.expression (next.getD chain).tree]) := by
  cases continues_of_done hr with
  | stop => exact ⟨hs, fun hmet => hmet.resolve_right (Lookout.not_between_refl _)⟩
  | suffix opens _ run => exact finds_suffix h chain.tree hs hover _ t run
  | nullTest opens _ run => exact finds_nullTest h chain.tree opens hover _ t run
  | @operation operator width right u _ opens _ past run =>
    have hu := hover.onward (onward_of_done h.goesOn past).cursor
    -- the word is no operator, so it has been passed in the right operand
    obtain ⟨hawaits, hright⟩ := h.expression operator.rightStrength u hu right t run
    refine ⟨hawaits, fun hmet => found_extend (hmet.imp_right fun hbetween => ?_)⟩
    exact hright (.inr ((Lookout.between_trans hbetween).resolve_left
      (spares_moveOver h opens hover () u past)))

/-- **The word is found in expressions**, if they are read past it. -/
theorem finds_expressionOf (strength : Nat) (s : State) :
    Finds L inner [] (expressionOf strength) s := by
  intro hs e v hr
  obtain ⟨first, t, ht, hr⟩ := done_of_bind hr
  obtain ⟨chain, u, hu, hr⟩ := done_of_bind hr
  cases hr
  obtain ⟨hawaits, hfirst⟩ := finds_leading h s hs first t ht
  refine (loop_induct (p := fun chain u => s.Onward u ∧ u.awaits = false ∧
    (L.Found [] ∨ L.Between s u → L.Found [.expression chain.tree]))
    (fun chain u next w hw hr => ?_) ⟨onward_of_done h.goesOn ht, hawaits, hfirst⟩ hu).2
  obtain ⟨hsu, hawaits, hfound⟩ := hw
  obtain ⟨hawaits', hfound'⟩ := found_continuation h (hs.onward hsu.cursor) hawaits hr
  refine ⟨hsu.trans (onward_of_done h.goesOn hr), hawaits', ?_⟩
  rintro (hbefore | hbetween)
  · exact hfound' (.inl (hfound (.inl hbefore)))
  · exact hfound' ((Lookout.between_trans hbetween).imp_left fun hb => hfound (.inr hb))

end Rules

end Cypher.Grammar
