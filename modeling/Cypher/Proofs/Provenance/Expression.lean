import Cypher.Proofs.Parallel.Expression
import Cypher.Proofs.Provenance.Basic

/-!
# Where expressions come from

One lemma for each rule of the grammar, up to expressions: what it reads stems from the tokens that
it passes. A rule that moves on without a look at the token has had one before, which says that the
token is no brace. Braces are passed by two of these rules only: around the entries of a map and
around the body of an existence test.
-/

namespace Cypher.Grammar

open Rule hiding pure bind
open Rooted (Bare roots map_eq_roots toList_map_eq_roots)

variable {setting : Setting} {inner : Inner} {low : Nat} {level : Wholeness} {s : State}

/-! ### Names -/

/-- A name begins where its token does. -/
theorem turns_symbolicName (what : String) :
    Turns setting inner low level (Stems level [] [] [])
      (fun name => Stems level [] [] [name.span.start]) (symbolicName what) s := by
  refine .look ?_
  split
  · next hk => exact .advanceMarked hk rfl (.pure fun _ hu => hu)
  · next hk => exact .advanceMarked hk rfl (.pure fun _ hu => hu)
  · next hk => exact .advanceMarked hk rfl (.pure fun _ hu => hu)
  · exact .fail _

theorem turns_variableName :
    Turns setting inner low level (Stems level [] [] [])
      (fun name => Stems level [] [] [name.span.start]) variableName s := by
  refine .look ?_
  split
  · next hk => exact .advanceMarked hk rfl (.pure fun _ hu => hu)
  · next hk => exact .advanceMarked hk rfl (.pure fun _ hu => hu)
  · exact .fail _

theorem sprouts_symbolicName (what : String) :
    Sprouts setting inner low level (symbolicName what) s :=
  (turns_symbolicName what).mono fun _ _ hw => hw.forget (List.nil_sublist _)

theorem sprouts_variableName :
    Sprouts setting inner low level variableName s :=
  turns_variableName.mono fun _ _ hw => hw.forget (List.nil_sublist _)

section Names

variable (hi : inner.GoesOn)

include hi

theorem sprouts_namePart {what : String} (hk : s.cursor.kind = .sign .dot) :
    Sprouts setting inner low level (namePart what) s :=
  .move hk rfl (.skip hi (sprouts_symbolicName what) fun _ _ => .value rfl)

omit hi in
theorem sprouts_atNamePart : Sprouts setting inner low level atNamePart s :=
  .isAt (.ite (fun _ => .look (.value rfl)) fun _ => .value rfl)

/-- A name with its namespaces begins where its first token does. -/
theorem turns_qualifiedName (what : String) :
    Turns setting inner low level (Stems level [] [] [])
      (fun name => Stems level [] [] [name.span.start]) (qualifiedName what) s := by
  refine .mark hi (turns_symbolicName what) fun first t => ?_
  refine .skip hi (sprouts_manyFrom hi (fun u => sprouts_optionally hi sprouts_atNamePart
    fun v hv => ?_) [first.value]) fun parts u => .look (.pure fun _ hu => hu)
  obtain ⟨rfl, hk⟩ := of_atNamePart hv
  exact sprouts_namePart hi hk

theorem sprouts_labels : Sprouts setting inner low level labels s :=
  .skip hi (sprouts_many hi fun _ => sprouts_optionally hi (sprouts_takeSign rfl)
    fun _ _ => sprouts_symbolicName _) fun labels _ =>
    .ite (fun _ => .fail _) fun _ => .value (Bare.roots_eq_nil labels).symm

end Names

section Nodes

variable (h : inner.Sprouts setting)

include h

/-! ### Maps and properties -/

theorem sprouts_expression : Sprouts setting inner 1 .whole expression s := h.expression _ s

theorem sprouts_mapEntry : Sprouts setting inner 1 .whole mapEntry s :=
  .skip h.goesOn (sprouts_symbolicName _) fun _ _ => .expect rfl <|
    .bind h.goesOn (sprouts_expression h) fun _ _ => .value rfl

/-- **The entries of a map stand in braces.** -/
theorem sprouts_mapLiteral : Sprouts setting inner 1 .whole mapLiteral s := by
  refine .expectThen (fun _ hu => hu.tear nofun) fun hk => ?_
  refine .braced h.goesOn hk (fun _ hu => hu.tear nofun)
    (sprouts_listUntil h.goesOn fun _ => sprouts_mapEntry h).alone (fun _ _ hv => hv.tear nofun)
    fun entries t => .look (.pure ?_)
  rintro w ⟨u, left, v, right, rfl, hleft, hright, hu, hv⟩
  exact (hu.append (hv.braces hleft hright)).frame rfl (map_eq_roots (fun _ => rfl) entries)
    (List.nil_sublist _)

theorem sprouts_properties : Sprouts setting inner 1 .whole properties s := by
  refine .look ?_
  split
  · refine .bind h.goesOn (sprouts_mapLiteral h) fun map _ => .value ?_
    exact (List.flatMap_singleton ..).symm
  · next hk => exact .advance hk rfl (.node rfl rfl rfl (List.nil_sublist _))
  · exact .value rfl

/-! ### Patterns -/

omit h in
theorem sprouts_lengthBound : Sprouts setting inner 1 .whole lengthBound s := by
  refine .look ?_
  split
  · next hk =>
    split
    · exact .move hk rfl (.value rfl)
    · exact .fail _
  · exact .value rfl

theorem sprouts_pathLength : Sprouts setting inner 1 .whole pathLength s :=
  .skip h.goesOn sprouts_lengthBound fun _ _ => .consume rfl
    (fun _ => .skip h.goesOn sprouts_lengthBound fun _ _ => .value rfl) fun _ => .value rfl

theorem sprouts_relationshipTypes : Sprouts setting inner 1 .whole relationshipTypes s := by
  have htype : ∀ {t}, Sprouts setting inner 1 .whole relationshipType t :=
    fun {_} => sprouts_symbolicName _
  refine .consume rfl (fun _ => ?_) fun _ => .value rfl
  refine .bind h.goesOn htype fun first t => ?_
  exact sprouts_manyFrom h.goesOn (fun _ => sprouts_optionally h.goesOn
    (sprouts_takeSign rfl) fun _ _ => .skip h.goesOn (sprouts_takeSign rfl)
      fun _ _ => htype) [first]

omit h in
theorem sprouts_atVariable : Sprouts setting inner 1 .whole atVariable s := .look (.value rfl)

theorem sprouts_binder :
    Sprouts setting inner 1 .whole (optionally atVariable variableName) s :=
  sprouts_optionally h.goesOn sprouts_atVariable fun _ _ => sprouts_variableName

theorem sprouts_detail : Sprouts setting inner 1 .whole detail s :=
  .skip h.goesOn (sprouts_binder h) fun _ _ =>
    .skip h.goesOn (sprouts_relationshipTypes h) fun _ _ =>
      .skip h.goesOn (sprouts_optionally h.goesOn (sprouts_takeSign rfl)
        fun _ _ => sprouts_pathLength h) fun _ _ =>
        .bind h.goesOn (sprouts_properties h) fun _ _ => .expect rfl (.value rfl)

theorem sprouts_detailIfAny : Sprouts setting inner 1 .whole detailIfAny s :=
  .consume rfl (fun _ => sprouts_detail h) fun _ => .value rfl

theorem sprouts_relationship : Sprouts setting inner 1 .whole relationship s := by
  refine .startHere (.skip h.goesOn (sprouts_takeSign rfl) fun _ _ => .expect rfl ?_)
  refine .bind h.goesOn (sprouts_detailIfAny h) fun detail _ => .expect rfl ?_
  refine .skip h.goesOn (sprouts_takeSign rfl) fun _ _ => .look ?_
  exact .node rfl rfl (toList_map_eq_roots (fun _ => rfl) _) (List.nil_sublist _)

theorem sprouts_nodeLabels : Sprouts setting inner 1 .whole nodeLabels s :=
  .isAt (.ite (fun _ => sprouts_labels h.goesOn) fun _ => .value rfl)

/-- A node begins with its parenthesis, which is left to others. -/
theorem turns_pathNode :
    Turns setting inner 1 .whole (Stems .whole [] [] [])
      (fun node => Stems .whole (roots node) [] [s.cursor.front]) pathNode s := by
  refine .expectThen (fun _ hu => hu.broken) fun hk => .advanceMarked hk rfl ?_
  refine .skip h.goesOn (sprouts_binder h) fun _ _ => ?_
  refine .skip h.goesOn (sprouts_nodeLabels h) fun _ _ => ?_
  refine .bind h.goesOn (sprouts_properties h) fun _ _ => .expect rfl (.look ?_)
  exact .unmarked rfl rfl (toList_map_eq_roots (fun _ => rfl) _) rfl

theorem sprouts_pathNode : Sprouts setting inner 1 .whole pathNode s :=
  (turns_pathNode h).mono fun _ _ hw => hw.forget (List.nil_sublist _)

omit h in
theorem sprouts_atRelationship : Sprouts setting inner 1 .whole atRelationship s := by
  refine .look ?_
  split
  · exact .value rfl
  · exact .look (.value rfl)
  · exact .value rfl

theorem sprouts_step : Sprouts setting inner 1 .whole step s :=
  .bind h.goesOn (sprouts_relationship h) fun _ _ =>
    .bind h.goesOn (sprouts_pathNode h) fun _ _ => .value rfl

theorem sprouts_atVariableBefore {kind : TokenKind} :
    Sprouts setting inner 1 .whole (atVariableBefore kind) s :=
  .skip h.goesOn sprouts_atVariable fun _ _ => .ite (fun _ => .look (.value rfl)) fun _ =>
    .value rfl

omit h in
/-- A variable begins where its token does. -/
theorem start_of_variableName {name : Ident} {t : State}
    (hr : variableName.run setting inner s = .done name t) : name.span.start = s.cursor.front := by
  rw [variableName, run_bind, Rule.here, run_look, Outcome.andThen_done] at hr
  split at hr
  · obtain ⟨rfl, -⟩ := Outcome.done.inj hr
    rfl
  · obtain ⟨rfl, -⟩ := Outcome.done.inj hr
    rfl
  · cases hr

/-- A name and a sign that has been seen behind it. -/
theorem turns_pathName {kind : TokenKind} (hv : s.cursor.kind.isVariable = true)
    (hk : s.cursor.peek 1 = kind) (hp : kind.isPlain = true) :
    Turns setting inner 1 .whole (Stems .whole [] [] [])
      (fun _ => Stems .whole [] [] [s.cursor.front]) pathName s := by
  refine .sound fun hs => .andThen h.goesOn turns_variableName fun name t ht => ?_
  have hne := TokenKind.ne_endOfInput (not_isStop_of_isVariable hv)
  rw [start_of_variableName ht]
  obtain rfl := step_of_variableName ht
  exact .move ((kind_step hs.closed hne).trans hk) hp (.pure fun _ hu => hu)

theorem sprouts_pathName {kind : TokenKind} (hv : s.cursor.kind.isVariable = true)
    (hk : s.cursor.peek 1 = kind) (hp : kind.isPlain = true) :
    Sprouts setting inner 1 .whole pathName s :=
  (turns_pathName h hv hk hp).mono fun _ _ hw => hw.forget (List.nil_sublist _)

/-- A path begins with its name or the parenthesis of its first node. -/
theorem turns_patternPart :
    Turns setting inner 1 .whole (Stems .whole [] [] [])
      (fun part => Stems .whole (roots part) [] [s.cursor.front]) patternPart s := by
  have hrest : ∀ {binder : Option Ident} {node : NodePattern Expression} {t : State},
      Turns setting inner 1 .whole (Stems .whole (roots node) [] [s.cursor.front])
        (fun part => Stems .whole (roots part) [] [s.cursor.front]) (do
          let chain ← many (optionally atRelationship step) []
          return PatternPart.mk binder node chain (← look (.spanFrom s.cursor.front))) t :=
    fun {_ _ _} => .bind h.goesOn (sprouts_many h.goesOn fun _ => sprouts_optionally h.goesOn
      sprouts_atRelationship fun _ _ => sprouts_step h) fun _ _ =>
        .look (.unmarked rfl rfl rfl rfl)
  refine .startHere (.andThen h.goesOn (r := fun binder => Stems .whole [] []
    (binder.toList.map fun _ => s.cursor.front)) ?_ fun binder t hr => ?_)
  · refine .test h.goesOn (sprouts_atVariableBefore h) fun named t hr => ?_
    cases named with
    | false => exact .pure fun _ hu => hu
    | true =>
      obtain ⟨rfl, hv, hk⟩ := of_atVariableBefore hr
      exact .andThen h.goesOn (turns_pathName h hv hk rfl) fun _ _ _ => .pure fun _ hu => hu
  · cases binder with
    | some name => exact .bind h.goesOn (sprouts_pathNode h) fun _ _ => hrest
    | none =>
      obtain ⟨named, u, hu, hr⟩ := done_of_bind hr
      rw [run_atVariableBefore] at hu
      obtain ⟨-, rfl⟩ := Outcome.done.inj hu
      cases named with
      | false =>
        cases hr
        exact .andThen h.goesOn (turns_pathNode h) fun _ _ _ => hrest
      | true =>
        obtain ⟨_, _, -, hr⟩ := done_of_bind hr
        cases hr

theorem sprouts_patternPart : Sprouts setting inner 1 .whole patternPart s :=
  (turns_patternPart h).mono fun _ _ hw => hw.forget (List.nil_sublist _)

/-- **A pattern begins with its first path.** -/
theorem turns_pattern :
    Turns setting inner 1 .whole (Stems .whole [] [] [])
      (fun pattern => Stems .whole (roots pattern) [] [pattern.span.start]) pattern s :=
  .startHere (.andThen h.goesOn (turns_separated h.goesOn (turns_patternPart h) fun _ =>
    sprouts_patternPart h) fun _ _ _ => .look (.pure fun _ hu => hu))

theorem sprouts_pattern : Sprouts setting inner 1 .whole pattern s :=
  (turns_pattern h).mono fun _ _ hw => hw.forget (List.nil_sublist _)

/-! ### Lists, cases and calls -/

theorem sprouts_expressionList (close : Sign) :
    Sprouts setting inner 1 .whole (expressionList close) s :=
  sprouts_listUntil h.goesOn fun _ => sprouts_expression h

/-- An expression behind a sign or word. -/
theorem sprouts_behind {kind : TokenKind} (hk : kind.isPlain = true) :
    Sprouts setting inner 1 .whole (optionally (consume kind) expression) s :=
  sprouts_optionally h.goesOn (sprouts_consume hk) fun _ _ => sprouts_expression h

theorem sprouts_elementProjection (projects : Bool) :
    Sprouts setting inner 1 .whole (elementProjection projects) s :=
  .ite (fun _ => sprouts_behind h rfl) fun _ => .value rfl

theorem sprouts_comprehension (start : Nat) {close : Sign} (projects : Bool)
    (hc : (TokenKind.sign close).isPlain = true) :
    Sprouts setting inner 1 .whole (comprehension start close projects) s := by
  refine .skip h.goesOn sprouts_variableName fun _ _ => .expect rfl ?_
  refine .bind h.goesOn (sprouts_expression h) fun list _ => ?_
  refine .bind h.goesOn (sprouts_behind h rfl) fun predicate _ => ?_
  refine .bind h.goesOn (sprouts_elementProjection h projects) fun projection _ => ?_
  refine .expect hc (.look (.value ?_))
  rw [← toList_map_eq_roots (fun _ => rfl) predicate,
    ← toList_map_eq_roots (fun _ => rfl) projection]
  rfl

theorem sprouts_listLiteral : Sprouts setting inner 1 .whole listLiteral s := by
  refine .expect rfl (.skip h.goesOn (sprouts_atVariableBefore h) fun _ _ =>
    .ite (fun _ => ?_) fun _ => ?_)
  · exact .bind h.goesOn (sprouts_comprehension h _ _ rfl) fun _ _ =>
      .node rfl rfl rfl (List.nil_sublist _)
  · refine .bind h.goesOn (sprouts_expressionList h _) fun items _ => ?_
    exact .expect rfl (.look (.node rfl rfl (map_eq_roots (fun _ => rfl) items)
      (List.nil_sublist _)))

theorem sprouts_caseAlternative : Sprouts setting inner 1 .whole caseAlternative s :=
  .bind h.goesOn (sprouts_expression h) fun _ _ => .expect rfl <|
    .bind h.goesOn (sprouts_expression h) fun _ _ => .value rfl

theorem sprouts_caseDistinction (hk : s.cursor.kind = .keyword .CASE) :
    Sprouts setting inner 1 .whole caseDistinction s := by
  refine .advance hk rfl (.bind h.goesOn (sprouts_skipIf h.goesOn sprouts_isAt
    fun _ => sprouts_expression h) fun operand _ => ?_)
  refine .bind h.goesOn (sprouts_many h.goesOn fun _ => sprouts_optionally h.goesOn
    (sprouts_takeWord _) fun _ _ => sprouts_caseAlternative h) fun alternatives _ =>
    .ite (fun _ => .fail _) fun _ => ?_
  refine .bind h.goesOn (sprouts_behind h rfl) fun otherwise _ => ?_
  refine .expect rfl (.look (.node rfl rfl ?_ (List.nil_sublist _)))
  rw [← toList_map_eq_roots (fun _ => rfl) operand, ← toList_map_eq_roots (fun _ => rfl) otherwise]
  rfl

/-! ### Calls -/

omit h in
/-- The mark of a call is where it starts. -/
theorem marks_call (name : String) (distinct : Bool) (arguments : List Expression) (span : Span) :
    ((Node.expression (.call name distinct arguments span)).marks.map Span.start).Sublist
      [span.start] := by
  have hmark : ∀ x ∈ Expression.mark? (.call name distinct arguments span), x = span := by
    intro x hx
    change Deprecation.oldTest? _ = some x at hx
    unfold Deprecation.oldTest? at hx
    split at hx
    · next heq =>
      cases heq
      split at hx
      · exact (Option.some.inj hx).symm
      · cases hx
    · cases hx
  change ((Expression.mark? (.call name distinct arguments span)).toList.map Span.start).Sublist _
  cases hm : Expression.mark? (.call name distinct arguments span) with
  | none => exact List.nil_sublist _
  | some x => rw [hmark x hm]; exact .refl _

theorem turns_callArguments (name : String) (start : Nat) :
    Turns setting inner 1 .whole (Stems .whole [] [] [start])
      (fun e => Stems .whole (roots e) [] []) (callArguments name start) s := by
  refine .skip h.goesOn (sprouts_takeWord _) fun distinct _ => ?_
  refine .bind h.goesOn (sprouts_expressionList h _) fun arguments _ => ?_
  exact .expect rfl (.look (.node rfl rfl (map_eq_roots (fun _ => rfl) arguments)
    (marks_call name distinct arguments _)))

theorem turns_plainCall (name : Ident) :
    Turns setting inner 1 .whole (Stems .whole [] [] [name.span.start])
      (fun e => Stems .whole (roots e) [] []) (plainCall name) s := by
  refine .ite (fun _ => ?_) fun _ => turns_callArguments h _ _
  refine .test h.goesOn (.isAt (.ite (fun _ => .look (.value rfl)) fun _ => .value rfl))
    fun star t hstar => .ite (fun hb => ?_) fun _ => turns_callArguments h _ _
  subst hb
  obtain ⟨rfl, hk, hnext⟩ := of_atLoneStar hstar
  refine .sound fun hs => ?_
  have hclose : t.step.cursor.kind = .sign .rightParen :=
    (kind_step hs.closed (hk ▸ TokenKind.noConfusion)).trans hnext
  exact .move hk rfl (.move hclose rfl (.look (.node rfl rfl rfl (List.nil_sublist _))))

theorem sprouts_functionCall : Sprouts setting inner 1 .whole functionCall s := by
  refine .mark h.goesOn (turns_qualifiedName h.goesOn _) fun name t => .expect rfl ?_
  split
  · refine .skip h.goesOn (sprouts_atVariableBefore h) fun _ _ => .ite (fun _ => ?_)
      fun _ => turns_plainCall h name
    exact .bind h.goesOn (sprouts_comprehension h _ _ rfl) fun _ _ =>
      .node rfl rfl rfl (List.nil_sublist _)
  · exact turns_plainCall h name

/-! ### Existence tests -/

omit h in
/-- **The body of a subquery stands in braces**, behind a word. -/
theorem turns_subquery {α : Type} [Rooted α] (hi : inner.GoesOn) {rule : Rule Query}
    {make : Query → Span → α} {f : Query → Span → Node} {word : Token}
    (hword : word.kind.isPlain = true) (hk : s.cursor.kind = .sign .leftBrace)
    (hbody : ∀ t, Sprouts setting inner 1 .whole rule t)
    (hroots : ∀ body span, roots (make body span) = [f body span])
    (hspan : ∀ body span, (f body span).span = span)
    (his : ∀ body span, (f body span).body? = some body)
    (hmarks : ∀ body span, ((f body span).marks.map Span.start).Sublist [span.start]) :
    Turns setting inner 1 .whole (· = [word]) (fun a => Stems .whole (roots a) [] [])
      (do
        move
        let body ← rule
        let _ ← expectSign .rightBrace
        return make body (← look (.spanFrom word.span.start))) s := by
  refine .moveThen (.braced hi hk ?_ (hbody s.step).alone (fun _ _ hv => hv.tear nofun)
    fun body t => .spanFrom ?_ (.pure ?_))
  · rintro u rfl
    have hbare : Stems .whole [] [] [] [word] := .bare hword
    exact hbare.tear nofun
  · rintro _ ⟨_, left, v, right, rfl, -, -, rfl, -⟩
    exact ⟨_, _, rfl, rfl⟩
  · rintro _ ⟨⟨_, left, v, right, rfl, hleft, hright, rfl, hv⟩, hhull⟩
    rw [hroots]
    exact .subquery (his body _) (hmarks body _) hword hleft hright
      ((hspan body _).trans hhull) hv

theorem sprouts_existence (hk : s.cursor.kind = .keyword .EXISTS) :
    Sprouts setting inner 1 .whole existence s := by
  refine .look ?_
  split
  · exact sprouts_functionCall h
  · next hnext =>
    refine .sound fun hs => .sprouts (.requireSubqueries (fun u hu => hu ▸ .nil) ?_)
    have hne : s.cursor.kind ≠ .endOfInput := hk ▸ TokenKind.noConfusion
    have hopen : s.step.cursor.kind = .sign .leftBrace := (kind_step hs.closed hne).trans hnext
    have hword : s.cursor.current.kind.isPlain = true := by
      rw [show s.cursor.current.kind = .keyword .EXISTS from hk]
      rfl
    exact .advanceFirst hne (turns_subquery h.goesOn
      (f := fun body span => .expression (.existsQuery body span)) hword hopen
      (fun t => h.existsBody t) (fun _ _ => rfl) (fun _ _ => rfl) (fun _ _ => rfl)
      fun _ _ => List.nil_sublist _)
  · exact .move hk rfl (.fail _)

/-! ### Operands -/

theorem sprouts_group (hk : s.cursor.kind = .sign .leftParen) :
    Sprouts setting inner 1 .whole group s :=
  .move hk rfl (.bind h.goesOn (sprouts_expression h) fun _ _ => .expect rfl (.value rfl))

omit h in
/-- Only a subquery is more than a frame, and it has something inside. -/
theorem isFrame_of_ofExpression_eq_nil {e : Expression} (he : Node.ofExpression e = []) :
    (Node.expression e).isFrame = true := by
  cases e with
  | existsQuery => cases he
  | _ => rfl

omit h in
/-- An expression that is the token at the cursor. -/
theorem sprouts_here {kind : TokenKind} {make : Span → Expression} (hk : s.cursor.kind = kind)
    (hp : kind.isPlain = true) (hc : ∀ span, Node.ofExpression (make span) = [])
    (hm : ∀ span, ((Node.expression (make span)).marks.map Span.start).Sublist [span.start]) :
    Sprouts setting inner 1 .whole (do return make (← advance)) s :=
  .advanceMarked hk hp (.node rfl (isFrame_of_ofExpression_eq_nil (hc _)) (hc _) (hm _))

omit h in
theorem sprouts_variableHere {name : String} {kind : TokenKind} (hk : s.cursor.kind = kind)
    (hp : kind.isPlain = true) : Sprouts setting inner 1 .whole (variableHere name) s :=
  sprouts_here hk hp (fun _ => rfl) fun _ => .refl _

theorem sprouts_named {name : String} {kind : TokenKind} (hk : s.cursor.kind = kind)
    (hp : kind.isPlain = true) : Sprouts setting inner 1 .whole (named name) s := by
  refine .look (.ite (fun _ => sprouts_functionCall h) fun _ =>
    .ite (fun _ => ?_) fun _ => sprouts_variableHere hk hp)
  exact .look (.ite (fun _ => .fail _) fun _ => sprouts_variableHere hk hp)

theorem sprouts_operand : Sprouts setting inner 1 .whole operand s := by
  have hhere : ∀ {kind : TokenKind} {make : Span → Expression}, s.cursor.kind = kind →
      kind.isPlain = true → (∀ span, Node.ofExpression (make span) = []) →
      (∀ span, (Node.expression (make span)).marks = []) →
      Sprouts setting inner 1 .whole (do return make (← advance)) s :=
    fun hk hp hc hm => sprouts_here hk hp hc fun span => hm span ▸ List.nil_sublist _
  refine .look ?_
  split
  · next hk =>
    split
    · exact hhere hk rfl (fun _ => rfl) fun _ => rfl
    · exact .fail _
  · next hk => exact hhere hk rfl (fun _ => rfl) fun _ => rfl
  · next hk => exact hhere hk rfl (fun _ => rfl) fun _ => rfl
  · next hk => exact hhere hk rfl (fun _ => rfl) fun _ => rfl
  · next hk => exact hhere hk rfl (fun _ => rfl) fun _ => rfl
  · next hk => exact hhere hk rfl (fun _ => rfl) fun _ => rfl
  · next hk => exact hhere hk rfl (fun _ => rfl) fun _ => rfl
  · next hk =>
    refine .look (.ite (fun _ => ?_) fun _ => sprouts_group h hk)
    exact .bind h.goesOn (sprouts_patternPart h) fun _ _ =>
      .node rfl rfl rfl (List.nil_sublist _)
  · exact sprouts_listLiteral h
  · exact sprouts_mapLiteral h
  · next hk => exact sprouts_caseDistinction h hk
  · next hk => exact sprouts_existence h hk
  · exact .look (.ite (fun _ => sprouts_functionCall h) fun _ => .fail _)
  · next hk => exact sprouts_named h hk rfl
  · next hk => exact sprouts_variableHere hk rfl
  · exact .fail _

omit h in
theorem isPlain_of_unaryOperator? {kind : TokenKind} {operator : UnaryOperator}
    (h : unaryOperator? kind = some operator) : kind.isPlain = true := by
  unfold unaryOperator? at h
  split at h <;> first | rfl | cases h

omit h in
theorem isPlain_of_isLeastMagnitude {kind : TokenKind} (h : isLeastMagnitude kind = true) :
    kind.isPlain = true := by
  unfold isLeastMagnitude at h
  split at h
  · rfl
  · cases h

theorem sprouts_leading : Sprouts setting inner 1 .whole leading s := by
  refine .look ?_
  split
  · exact sprouts_operand h
  · next operator hop =>
    refine .move rfl (isPlain_of_unaryOperator? hop) (.look (.ite (fun hleast => ?_) fun _ => ?_))
    · have hdigits := isPlain_of_isLeastMagnitude (Bool.and_eq_true_iff.1 hleast).2
      exact .advance rfl hdigits (.node rfl rfl rfl (List.nil_sublist _))
    · exact .bind h.goesOn (h.expression _ _) fun _ _ =>
        .node rfl rfl rfl (List.nil_sublist _)

/-! ### What goes on with an operand -/

section GoesOn

variable {base : Expression}

/-- What goes on with an operand that stems from the tokens before. -/
theorem turns_bracketed :
    Turns setting inner 1 .whole (Stems .whole [.expression base] [] [])
      (fun e => Stems .whole (roots e) [] []) (bracketed base) s := by
  have hindex : ∀ {sign : Sign} {t : State}, Sprouts setting inner 1 .whole
      (skipIf (atSign sign) expression) t :=
    fun {_ _} => sprouts_skipIf h.goesOn sprouts_isAt fun _ => sprouts_expression h
  refine .expect rfl (.bind h.goesOn hindex fun lower _ => .consume rfl (fun _ => ?_) fun _ => ?_)
  · refine .bind h.goesOn hindex fun upper _ => .expect rfl (.look (.node rfl rfl ?_
      (List.nil_sublist _)))
    rw [← toList_map_eq_roots (fun _ => rfl) lower, ← toList_map_eq_roots (fun _ => rfl) upper]
    rfl
  · refine .expect rfl ?_
    cases lower with
    | none => exact .fail _
    | some index => exact .look (.node rfl rfl rfl (List.nil_sublist _))

theorem turns_suffix :
    Turns setting inner 1 .whole (Stems .whole [.expression base] [] [])
      (fun e => Stems .whole (roots e) [] []) (suffix base) s := by
  refine .look ?_
  split
  · next hk =>
    exact .move hk rfl (.skip h.goesOn (sprouts_symbolicName _) fun _ _ =>
      .node rfl rfl rfl (List.nil_sublist _))
  · exact .skip h.goesOn (sprouts_labels h.goesOn) fun _ _ =>
      .look (.node rfl rfl rfl (List.nil_sublist _))
  · exact turns_bracketed h

theorem turns_nullTest (hk : s.cursor.kind = .keyword .IS) :
    Turns setting inner 1 .whole (Stems .whole [.expression base] [] [])
      (fun e => Stems .whole (roots e) [] []) (nullTest base) s :=
  .move hk rfl (.skip h.goesOn (sprouts_takeWord _) fun _ _ => .expect rfl
    (.look (.node rfl rfl rfl (List.nil_sublist _))))

end GoesOn

/-! ### Chains of operators -/

/-- **A chain that stems from tokens**, with what it keeps. -/
def Chain.StemsFrom (chain : Chain) (tokens : List Token) : Prop :=
  Stems .whole [.expression chain.tree] chain.kept [] tokens

omit h in
theorem isPlain_of_binaryOperator? {kind next : TokenKind} {operator : BinaryOperator} {width : Nat}
    (hop : binaryOperator? kind next = some (operator, width)) : kind.isPlain = true := by
  unfold binaryOperator? at hop
  split at hop <;> first | rfl | cases hop

omit h in
/-- The tokens of an operator have been seen before. -/
theorem sprouts_moveOver {operator : BinaryOperator} {width : Nat}
    (hop : binaryOperator? s.cursor.kind (s.cursor.peek 1) = some (operator, width)) :
    Sprouts setting inner 1 .whole (moveOver width) s := by
  have hp := isPlain_of_binaryOperator? hop
  rcases width_of_binaryOperator? hop with rfl | ⟨rfl, hnext⟩
  · exact .move rfl hp (.value rfl)
  · refine .sound fun hs => ?_
    have hkind := (kind_step hs.closed (TokenKind.ne_endOfInput_of_isPlain hp)).trans hnext
    exact .move rfl hp (.move hkind rfl (.value rfl))

section Chains

variable {chain : Chain} {strength : Nat}

/-- **An operator goes on with a chain.** -/
theorem turns_operation :
    Turns setting inner 1 .whole chain.StemsFrom
      (fun next => (next.getD chain).StemsFrom) (operation strength chain) s := by
  refine .look (.look ?_)
  split
  · exact .pure fun _ hu => hu
  · next operator width hop =>
    refine .ite (fun _ => .pure fun _ hu => hu) fun _ => ?_
    have htorn : ∀ u, chain.StemsFrom u → Stems .torn [] [] [] u := fun _ hu => hu.tear nofun
    refine .andThen h.goesOn (.apart htorn (sprouts_moveOver hop).alone) fun _ t _ => ?_
    refine .andThen h.goesOn (.apart ?_ (h.expression operator.rightStrength t).alone)
      fun right _ _ => .pure ?_
    · rintro _ ⟨u, v, rfl, hu, hv⟩
      exact (htorn u hu).append (hv.tear nofun)
    · rintro _ ⟨_, w, rfl, ⟨u, v, rfl, hu, hv⟩, hw⟩
      cases ho : operator.isComparison with
      | true => exact .comparison ho hu hv hw
      | false =>
        -- what was kept for a comparison is given up, so that nothing is copied
        have hextend : chain.extend operator right = ⟨join operator chain.tree right, none⟩ := by
          rw [Chain.extend, ho]
          rfl
        rw [Option.getD_some, hextend]
        exact (((hu.forget (.refl _)).append hv).append hw).frame rfl rfl (List.nil_sublist _)

theorem turns_continuation :
    Turns setting inner 1 .whole chain.StemsFrom
      (fun next => (next.getD chain).StemsFrom) (continuation strength chain) s := by
  have hforget : ∀ u, chain.StemsFrom u → Stems .whole [.expression chain.tree] [] [] u :=
    fun _ hu => hu.forget (.refl _)
  refine .look (.ite (fun _ => .ite (fun _ => .pure fun _ hu => hu) fun _ => ?_) fun _ =>
    .ite (fun hk => .ite (fun _ => .pure fun _ hu => hu) fun _ => ?_) fun _ => turns_operation h)
  · exact .andThen h.goesOn ((turns_suffix h).given hforget) fun _ _ _ => .pure fun _ hu => hu
  · exact .andThen h.goesOn ((turns_nullTest h hk).given hforget) fun _ _ _ => .pure fun _ hu => hu

/-- **Expressions stem from the tokens that are passed.** -/
theorem sprouts_expressionOf : Sprouts setting inner 1 .whole (expressionOf strength) s := by
  refine .andThen h.goesOn (sprouts_leading h) fun first t _ => ?_
  -- the invariant of the loop: the chain so far stems from what has been passed for it
  have hloop : Turns setting inner 1 .whole (Chain.StemsFrom ⟨first, none⟩) Chain.StemsFrom
      (.loop (continuation strength) ⟨first, none⟩) t :=
    .loop h.goesOn fun _ _ => turns_continuation h
  exact .andThen h.goesOn hloop fun chain _ _ => .pure fun _ hu => hu.forget (.refl _)

end Chains

end Nodes

end Cypher.Grammar
