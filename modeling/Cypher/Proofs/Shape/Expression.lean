import Cypher.Proofs.Parallel.Expression
import Cypher.Proofs.Shape.Basic

/-!
# The shape of expressions

One lemma for each rule of the grammar, up to expressions: it forms what it reads. A rule that moves
on without a look at the token has had one before, which says whether the token is a bracket. Lists,
maps, groups, nodes, the details of relationships and the arguments of calls stand in brackets, and
the rules that begin behind the opening one shut it.

The one place where the brackets matter is a path that stands for a test
(`Cypher.Grammar.formed_of_opensPattern`).
-/

namespace Cypher.Grammar

open Rule hiding pure bind
open Composed (elements)
open Element (All Formed Clear)

variable {setting : Setting} {inner : Inner} {s : State}

/-! ### Names -/

theorem forms_variableName : Forms setting inner [] 0 variableName s := by
  refine .look ?_
  split
  · next hk => exact .advance hk rfl (.close rfl trivial rfl fun _ => .rfl)
  · next hk => exact .advance hk rfl (.close rfl trivial rfl fun _ => .rfl)
  · exact .fail _

theorem forms_symbolicName (what : String) : Forms setting inner [] 0 (symbolicName what) s := by
  refine .look ?_
  split
  · next hk => exact .advance hk rfl (.close rfl trivial rfl fun _ => .rfl)
  · next hk => exact .advance hk rfl (.close rfl trivial rfl fun _ => .rfl)
  · next hk => exact .advance hk rfl (.close rfl trivial rfl fun _ => .rfl)
  · exact .fail _

/-- A name moves past one token. -/
theorem of_symbolicName {what : String} {name : Ident} {t : State}
    (hr : (symbolicName what).run setting inner s = .done name t) :
    s.cursor.kind.isLevel = true ∧ t = s.step := by
  rw [symbolicName, run_bind, Rule.here, run_look, Outcome.andThen_done] at hr
  rw [show s.cursor.kind = s.cursor.current.kind from rfl]
  split at hr
  · next hk => exact ⟨hk ▸ rfl, (Outcome.done.inj hr).2.symm⟩
  · next hk => exact ⟨hk ▸ rfl, (Outcome.done.inj hr).2.symm⟩
  · next hk => exact ⟨hk ▸ rfl, (Outcome.done.inj hr).2.symm⟩
  · cases hr

/-- A dot is passed with the name behind it. -/
theorem forms_behindDot {what : String} (hk : s.cursor.kind = .sign .dot) :
    Forms setting inner [] 0 (move >>= fun _ => symbolicName what) s := by
  intro hs name t hr
  obtain ⟨_, _, ⟨⟩, hr⟩ := done_of_bind hr
  obtain ⟨hlevel, rfl⟩ := of_symbolicName hr
  obtain ⟨hformed, hclear⟩ := forms_symbolicName what hs.advance name _ hr
  exact ⟨hformed, fun hc => ⟨Element.all_nil, Cursor.shuts_behind_dot
    (hs.ahead_ne_nil (hk ▸ nofun)) hk
    (hs.advance.ahead_ne_nil (TokenKind.ne_endOfInput_of_isLevel hlevel)) hlevel⟩⟩

theorem forms_atNamePart : Forms setting inner [] 0 atNamePart s :=
  .isAt (.ite (fun _ => .look (.value _)) fun _ => .value _)

theorem forms_atVariable : Forms setting inner [] 0 atVariable s := .look (.value _)

theorem forms_atRelationship : Forms setting inner [] 0 atRelationship s := by
  refine .look ?_
  split
  · exact .value _
  · exact .look (.value _)
  · exact .value _

theorem forms_atLoneStar : Forms setting inner [] 0 atLoneStar s :=
  .isAt (.ite (fun _ => .look (.value _)) fun _ => .value _)

/-- A label test or a list of labels is never empty. -/
theorem ne_nil_of_labels {names : List Ident} {t : State}
    (hr : labels.run setting inner s = .done names t) : names ≠ [] := by
  obtain ⟨found, u, -, hr⟩ := done_of_bind hr
  split at hr
  · cases hr
  · next hne =>
    cases hr
    exact fun he => hne (List.isEmpty_iff.2 he)

/-- Properties are a map or a parameter, if there are any. -/
theorem isProperties_of_properties {found : Option Expression} {t : State}
    (hr : properties.run setting inner s = .done found t) :
    ∀ e ∈ found, e.isProperties = true := by
  obtain ⟨token, u, hu, hr⟩ := done_of_bind hr
  split at hr
  · obtain ⟨map, v, hv, hr⟩ := done_of_bind hr
    cases hr
    obtain ⟨_, _, -, hv⟩ := done_of_bind hv
    obtain ⟨_, _, -, hv⟩ := done_of_bind hv
    obtain ⟨_, _, -, hv⟩ := done_of_bind hv
    cases hv
    rintro _ ⟨⟩
    rfl
  · cases hr
    rintro _ ⟨⟩
    rfl
  · cases hr
    rintro _ ⟨⟩

theorem isProperties_of_detailIfAny {found : Detail} {t : State}
    (hr : detailIfAny.run setting inner s = .done found t) :
    ∀ e ∈ found.properties, e.isProperties = true := by
  obtain ⟨opens, u, -, hr⟩ := done_of_bind hr
  split at hr
  · obtain ⟨_, _, -, hr⟩ := done_of_bind hr
    obtain ⟨_, _, -, hr⟩ := done_of_bind hr
    obtain ⟨_, _, -, hr⟩ := done_of_bind hr
    obtain ⟨properties, v, hv, hr⟩ := done_of_bind hr
    obtain ⟨_, _, -, hr⟩ := done_of_bind hr
    cases hr
    exact isProperties_of_properties hv
  · cases hr
    rintro _ ⟨⟩

section GoesOn

variable (hi : inner.GoesOn)

include hi

theorem forms_atVariableBefore {kind : TokenKind} :
    Forms setting inner [] 0 (atVariableBefore kind) s :=
  .skip hi forms_atVariable fun _ _ _ => .ite (fun _ => .look (.value _)) fun _ => .value _

theorem forms_binder : Forms setting inner [] 0 (optionally atVariable variableName) s :=
  forms_optionally hi forms_atVariable fun _ _ => forms_variableName

theorem forms_namePart {what : String} (hk : s.cursor.kind = .sign .dot) :
    Forms setting inner [] 0 (namePart what) s :=
  .gather (.forget hi (forms_behindDot hk) fun _ _ => .value _)

theorem forms_qualifiedName (what : String) : Forms setting inner [] 0 (qualifiedName what) s := by
  refine .forget hi (forms_symbolicName what) fun first t => ?_
  refine .skip hi (forms_manyFrom hi (fun u => forms_optionally hi forms_atNamePart
    fun v hv => ?_) [first.value]) fun parts u _ => .look (.close rfl trivial rfl fun _ => .rfl)
  obtain ⟨rfl, hk⟩ := of_atNamePart hv
  exact forms_namePart hi hk

theorem forms_labels : Forms setting inner [] 0 labels s :=
  .bind hi (forms_many hi fun _ => forms_optionally hi (forms_takeSign rfl)
    fun _ _ => forms_symbolicName _) fun _ _ _ => .ite (fun _ => .fail _) fun _ =>
      .pure fun _ => .rfl

/-- A name and a sign that has been seen behind it. -/
theorem forms_pathName {kind : TokenKind} (hv : s.cursor.kind.isVariable = true)
    (hk : s.cursor.peek 1 = kind) (hl : kind.isLevel = true) :
    Forms setting inner [] 0 pathName s := by
  refine .assuming fun hs => .bind hi forms_variableName fun name t ht => ?_
  have hne := TokenKind.ne_endOfInput (not_isStop_of_isVariable hv)
  obtain rfl := step_of_variableName ht
  exact .move (.advance ((kind_step hs hne).trans hk) hl (.pure fun _ => .rfl))

end GoesOn

section Elements

variable (h : inner.Forms setting)

include h

/-! ### Maps and properties -/

theorem forms_expression : Forms setting inner [] 0 expression s := h.expression _ s

/-- An expression behind a sign or word. -/
theorem forms_behind {kind : TokenKind} (hl : kind.isLevel = true) :
    Forms setting inner [] 0 (optionally (consume kind) expression) s :=
  forms_optionally h.goesOn (forms_consume hl) fun _ _ => forms_expression h

theorem forms_mapEntry : Forms setting inner [] 0 mapEntry s :=
  .bind h.goesOn (forms_symbolicName _) fun _ _ _ => .expect fun hk => .advance hk rfl <|
    .bind h.goesOn (forms_expression h) fun _ _ _ => .pure fun _ => .rfl

theorem forms_mapLiteral : Forms setting inner [] 0 mapLiteral s := by
  refine .expect fun hk => .opening hk rfl ?_
  refine .bind h.goesOn (forms_listUntil h.goesOn fun _ => forms_mapEntry h) fun entries t _ => ?_
  exact .expect fun hk => .closing hk rfl (.look (.close rfl trivial rfl fun _ => .rfl))

theorem forms_properties : Forms setting inner [] 0 properties s := by
  refine .look ?_
  split
  · exact .bind h.goesOn (forms_mapLiteral h) fun map t _ => .pure (by simp [elements])
  · next hk => exact .advance hk rfl (.close rfl trivial rfl fun _ => .rfl)
  · exact .pure fun _ => .rfl

/-! ### Relationships -/

omit h in
theorem forms_lengthBound : Forms setting inner [] 0 lengthBound s := by
  refine .look ?_
  split
  · next hk =>
    split
    · exact .move (.advance hk rfl (.value _))
    · exact .fail _
  · exact .value _

theorem forms_pathLength : Forms setting inner [] 0 pathLength s :=
  .skip h.goesOn forms_lengthBound fun _ _ _ => .skip h.goesOn (forms_takeSign rfl) fun _ _ _ =>
    .ite (fun _ => .skip h.goesOn forms_lengthBound fun _ _ _ => .value _) fun _ => .value _

theorem forms_relationshipTypes : Forms setting inner [] 0 relationshipTypes s := by
  refine .skip h.goesOn (forms_takeSign rfl) fun _ _ _ => .ite (fun _ => ?_) fun _ =>
    .pure fun _ => .rfl
  refine .bind h.goesOn (forms_symbolicName _) fun first t _ => ?_
  exact forms_manyFrom h.goesOn (fun _ => forms_optionally h.goesOn (forms_takeSign rfl)
    fun _ _ => .skip h.goesOn (forms_takeSign rfl) fun _ _ _ => forms_symbolicName _) [first]

/-- The detail of a relationship shuts the bracket before it. -/
theorem forms_detail : Forms setting inner [] 1 detail s := by
  refine .bind h.goesOn (forms_binder h.goesOn) fun binder t _ => ?_
  refine .bind h.goesOn (forms_relationshipTypes h) fun types u _ => ?_
  refine .skip h.goesOn (forms_optionally h.goesOn (forms_takeSign rfl)
    fun _ _ => forms_pathLength h) fun length v _ => ?_
  refine .bind h.goesOn (forms_properties h) fun properties w _ => ?_
  exact .expect fun hk => .closing hk rfl (.pure fun _ => .rfl)

theorem forms_detailIfAny : Forms setting inner [] 0 detailIfAny s :=
  .consume (fun hk => .opening hk rfl (forms_detail h)) fun _ => .pure fun _ => .rfl

theorem forms_relationship : Forms setting inner [] 0 relationship s := by
  refine .startHere (.skip h.goesOn (forms_takeSign rfl) fun left t _ => ?_)
  refine .expect fun hk => .advance hk rfl ?_
  refine .bind h.goesOn (forms_detailIfAny h) fun detail u hdetail => ?_
  refine .expect fun hk => .advance hk rfl ?_
  refine .skip h.goesOn (forms_takeSign rfl) fun right v _ => .look ?_
  exact .close rfl (isProperties_of_detailIfAny hdetail) rfl fun _ => .rfl

/-! ### Nodes -/

theorem forms_nodeLabels : Forms setting inner [] 0 nodeLabels s :=
  .isAt (.ite (fun _ => forms_labels h.goesOn) fun _ => .pure fun _ => .rfl)

theorem forms_pathNode : Forms setting inner [] 0 pathNode s := by
  refine .expect fun hk => .opening hk rfl ?_
  refine .bind h.goesOn (forms_binder h.goesOn) fun binder t _ => ?_
  refine .bind h.goesOn (forms_nodeLabels h) fun labels u _ => ?_
  refine .bind h.goesOn (forms_properties h) fun properties v hproperties => ?_
  refine .expect fun hk => .closing hk rfl (.look ?_)
  exact .close rfl (isProperties_of_properties hproperties) rfl fun _ => .rfl

/-- **A node ends where its parenthesis is closed**, if there is no stand-in inside it. -/
theorem beyond_of_pathNode {node : NodePattern Expression} {t : State} (hs : s.cursor.Closed)
    (hr : pathNode.run setting inner s = .done node t) (hclear : All Clear [.pathNode node]) :
    s.cursor.beyond 0 = some (t.cursor.current :: t.cursor.ahead) := by
  obtain ⟨_, u, hu, hr⟩ := done_of_bind hr
  obtain ⟨hopen, rfl⟩ := of_expect hu
  obtain ⟨binder, v, hv, hr⟩ := done_of_bind hr
  obtain ⟨labels, w, hw, hr⟩ := done_of_bind hr
  obtain ⟨properties, x, hx, hr⟩ := done_of_bind hr
  obtain ⟨_, y, hy, hr⟩ := done_of_bind hr
  obtain ⟨hclose, rfl⟩ := of_expect hy
  cases hr
  obtain ⟨hnames, hproperties⟩ := Element.all_append.1 (Element.all_singleton.1 hclear).2
  obtain ⟨hbinder, hlabels⟩ := Element.all_append.1 hnames
  -- what is between the parentheses passes brackets in pairs
  have hsv := ((forms_binder h.goesOn) hs.advance binder v hv).2 hbinder
  have hcv := hs.advance.onward (onward_of_done h.goesOn hv).cursor
  have hvw := (forms_nodeLabels h hcv labels w hw).2 hlabels
  have hcw := hcv.onward (onward_of_done h.goesOn hw).cursor
  have hwx := (forms_properties h hcw properties x hx).2 hproperties
  have hcx := hcw.onward (onward_of_done h.goesOn hx).cursor
  have hshuts := (hsv.2.trans hvw.2).trans hwx.2
  rw [Cursor.beyond_of_isOpening (hs.ahead_ne_nil (hopen ▸ nofun)) (hopen ▸ rfl)]
  refine (hshuts.beyond_eq 0).trans ?_
  exact Cursor.beyond_one_of_isClosing (hcx.ahead_ne_nil (hclose ▸ nofun)) (hclose ▸ rfl)

theorem forms_step : Forms setting inner [] 0 step s :=
  .bind h.goesOn (forms_relationship h) fun _ _ _ =>
    .bind h.goesOn (forms_pathNode h) fun _ _ _ => .pure fun _ => .rfl

/-! ### Paths -/

theorem forms_patternPart : Forms setting inner [] 0 patternPart s := by
  refine .startHere (.bind h.goesOn (forms_optionally h.goesOn (forms_atVariableBefore h.goesOn)
    fun t ht => ?_) fun binder t _ => ?_)
  · obtain ⟨rfl, hv, hk⟩ := of_atVariableBefore ht
    exact forms_pathName h.goesOn hv hk rfl
  · refine .bind h.goesOn (forms_pathNode h) fun node u _ => ?_
    refine .bind h.goesOn (forms_many h.goesOn fun _ => forms_optionally h.goesOn
      forms_atRelationship fun _ _ => forms_step h) fun chain v _ => .look ?_
    exact .close rfl trivial rfl fun _ => .rfl

theorem forms_pattern : Forms setting inner [] 0 pattern s :=
  .startHere (.bind h.goesOn (forms_separated h.goesOn fun _ => forms_patternPart h)
    fun _ _ hparts => .look (.close rfl (ne_nil_of_separated hparts) rfl fun _ => .rfl))

omit h in
/-- Where a relationship starts, the test for one says so. -/
theorem run_atRelationship_of_starts
    (hr : Cursor.startsWithRelationship (s.cursor.current :: s.cursor.ahead) = true) :
    atRelationship.run setting inner s = .done true s := by
  rw [run_atRelationship]
  rw [Cursor.startsWithRelationship, Cursor.skipMaybe, Cursor.skip?,
    show s.cursor.current.kind = s.cursor.kind from rfl] at hr
  by_cases hlt : s.cursor.kind = .sign .lt
  · rw [if_pos hlt, Option.getD_some] at hr
    cases ha : s.cursor.ahead with
    | nil =>
      rw [ha] at hr
      cases hr
    | cons t ts =>
      have hminus : t.kind = .sign .minus := by
        rw [ha, Cursor.skip?] at hr
        refine Decidable.byContradiction fun hn => ?_
        rw [if_neg hn] at hr
        cases hr
      rw [hlt, peek_one_of_ahead_eq_cons ha, hminus]
      rfl
  · have hminus : s.cursor.kind = .sign .minus := by
      refine Decidable.byContradiction fun hn => ?_
      rw [if_neg hlt, Option.getD_none, Cursor.skip?,
        show s.cursor.current.kind = s.cursor.kind from rfl, if_neg hn] at hr
      cases hr
    rw [hminus]
    rfl

/-- **A path that stands for a test has a step**, unless there is a stand-in inside its first node:
a relationship has been seen behind the parenthesis that is closed. -/
theorem formed_of_opensPattern {part : PatternPart Expression} {t : State} (hs : s.cursor.Closed)
    (hopens : s.cursor.opensPattern = true)
    (hr : patternPart.run setting inner s = .done part t) : (Expression.pattern part).Formed := by
  obtain ⟨hlike, hbehind⟩ := Bool.and_eq_true_iff.1 hopens
  have hparen : s.cursor.kind = .sign .leftParen :=
    of_decide_eq_true (Bool.and_eq_true_iff.1 hlike).1
  obtain ⟨_, u, hu, hr⟩ := done_of_bind hr
  cases hu
  obtain ⟨binder, u, hu, hr⟩ := done_of_bind hr
  obtain ⟨named, v, hv, hu⟩ := done_of_bind hu
  rw [run_atVariableBefore, hparen] at hv
  cases hv
  cases hu
  obtain ⟨node, v, hv, hr⟩ := done_of_bind hr
  obtain ⟨chain, w, hw, hr⟩ := done_of_bind hr
  cases hr
  refine ⟨rfl, fun hnil => Element.exists_isStandIn_of_not_all fun hclear => ?_⟩
  -- what follows the node is what has been seen behind its parenthesis
  have hbeyond := beyond_of_pathNode h hs hv hclear
  rw [Cursor.beyond] at hbeyond
  rw [hbeyond, Option.any_some] at hbehind
  have hcv := hs.onward (onward_of_done h.goesOn hv).cursor
  rw [run_many h.goesOn hcv fun x _ => movesOn_furtherStep h.goesOn x] at hw
  rw [optionally, run_bind_done (run_atRelationship_of_starts hbehind), if_pos rfl, run_bind] at hw
  cases hstep : step.run setting inner v with
  | done one x =>
    rw [hstep] at hw
    obtain ⟨rest, hall⟩ := prefix_of_many hw
    exact List.cons_ne_nil _ _ (hall.trans hnil)
  | failed d x =>
    rw [hstep] at hw
    cases hw

/-! ### Lists and cases -/

theorem forms_expressionList (close : Sign) :
    Forms setting inner [] 0 (expressionList close) s :=
  forms_listUntil h.goesOn fun _ => forms_expression h

theorem forms_elementProjection (projects : Bool) :
    Forms setting inner [] 0 (elementProjection projects) s :=
  .ite (fun _ => forms_behind h rfl) fun _ => .pure fun _ => .rfl

/-- A comprehension shuts the bracket before it. -/
theorem forms_comprehension (start : Nat) {close : Sign} (projects : Bool)
    (hc : (TokenKind.sign close).isClosing = true) :
    Forms setting inner [] 1 (comprehension start close projects) s := by
  refine .bind h.goesOn forms_variableName fun binder t _ => .expect fun hk => .advance hk rfl ?_
  refine .bind h.goesOn (forms_expression h) fun list u _ => ?_
  refine .bind h.goesOn (forms_behind h rfl) fun predicate v _ => ?_
  refine .bind h.goesOn (forms_elementProjection h projects) fun projection w _ => ?_
  exact .expect fun hk => .closing hk hc (.look (.close rfl trivial rfl fun _ => .rfl))

omit h in
/-- A comprehension that may not compute anything does not. -/
theorem projection_of_comprehension {start : Nat} {close : Sign} {body : Comprehension Expression}
    {t : State} (hr : (comprehension start close false).run setting inner s = .done body t) :
    body.projection = none := by
  obtain ⟨_, _, -, hr⟩ := done_of_bind hr
  obtain ⟨_, _, -, hr⟩ := done_of_bind hr
  obtain ⟨_, _, -, hr⟩ := done_of_bind hr
  obtain ⟨_, _, -, hr⟩ := done_of_bind hr
  obtain ⟨projection, u, hu, hr⟩ := done_of_bind hr
  cases hu
  obtain ⟨_, _, -, hr⟩ := done_of_bind hr
  cases hr
  rfl

theorem forms_listLiteral : Forms setting inner [] 0 listLiteral s := by
  refine .expect fun hk => .opening hk rfl ?_
  refine .skip h.goesOn (forms_atVariableBefore h.goesOn) fun binds t _ =>
    .ite (fun _ => ?_) fun _ => ?_
  · exact .part h.goesOn (forms_comprehension h _ _ rfl) fun body u _ => .pure fun _ => .rfl
  · refine .bind h.goesOn (forms_expressionList h _) fun items u _ => ?_
    exact .expect fun hk => .closing hk rfl (.look (.close rfl trivial rfl fun _ => .rfl))

theorem forms_caseAlternative : Forms setting inner [] 0 caseAlternative s :=
  .bind h.goesOn (forms_expression h) fun _ _ _ => .expect fun hk => .advance hk rfl <|
    .bind h.goesOn (forms_expression h) fun _ _ _ => .pure fun _ => .rfl

theorem forms_caseDistinction (hk : s.cursor.kind = .keyword .CASE) :
    Forms setting inner [] 0 caseDistinction s := by
  refine .advance hk rfl (.bind h.goesOn (forms_skipIf h.goesOn forms_isAt
    fun _ => forms_expression h) fun operand t _ => ?_)
  refine .bind h.goesOn (forms_many h.goesOn fun _ => forms_optionally h.goesOn
    (forms_takeWord _) fun _ _ => forms_caseAlternative h) fun alternatives u _ =>
    .ite (fun _ => .fail _) fun hsome => ?_
  refine .bind h.goesOn (forms_behind h rfl) fun otherwise v _ => ?_
  refine .expect fun hk => .advance hk rfl (.look (.close rfl ?_ rfl fun _ => .rfl))
  exact fun hnil => hsome (List.isEmpty_iff.2 hnil)

/-! ### Calls -/

theorem forms_callArguments (name : String) (start : Nat) :
    Forms setting inner [] 1 (callArguments name start) s := by
  refine .skip h.goesOn (forms_takeWord _) fun distinct t _ => ?_
  refine .bind h.goesOn (forms_expressionList h _) fun arguments u _ => ?_
  exact .expect fun hk => .closing hk rfl (.look (.close rfl trivial rfl fun _ => .rfl))

/-- A call shuts the parenthesis before its arguments. -/
theorem forms_plainCall (name : Ident) : Forms setting inner [] 1 (plainCall name) s := by
  refine .ite (fun _ => ?_) fun _ => forms_callArguments h _ _
  refine .skip h.goesOn forms_atLoneStar fun star t hstar => .ite (fun hb => ?_)
    fun _ => forms_callArguments h _ _
  subst hb
  obtain ⟨rfl, hk, hnext⟩ := of_atLoneStar hstar
  refine .assuming fun hs => .move (.advance hk rfl (.move ?_))
  have hclose := (kind_step hs (hk ▸ nofun)).trans hnext
  exact .closing hclose rfl (.look (.close rfl trivial rfl fun _ => .rfl))

theorem forms_functionCall : Forms setting inner [] 0 functionCall s := by
  refine .forget h.goesOn (forms_qualifiedName h.goesOn _) fun name t => ?_
  refine .expect fun hk => .opening hk rfl ?_
  split
  · refine .skip h.goesOn (forms_atVariableBefore h.goesOn) fun binds u _ => .ite (fun _ => ?_)
      fun _ => forms_plainCall h name
    exact .part h.goesOn (forms_comprehension h _ _ rfl) fun body v hbody =>
      .recast rfl (projection_of_comprehension hbody) rfl rfl rfl
  · exact forms_plainCall h name

/-! ### Operands -/

theorem forms_existence (hk : s.cursor.kind = .keyword .EXISTS) :
    Forms setting inner [] 0 existence s := by
  refine .look ?_
  split
  · exact forms_functionCall h
  · next hnext =>
    refine .assuming fun hs => .requireSubqueries (.advance hk rfl ?_)
    refine .move (.opening ((kind_step hs (hk ▸ nofun)).trans hnext) rfl ?_)
    refine .bind h.goesOn (h.existsBody _) fun body t _ => ?_
    exact .expect fun hk => .closing hk rfl (.look (.close rfl trivial rfl fun _ => .rfl))
  · exact .move (.advance hk rfl (.fail _))

theorem forms_group (hk : s.cursor.kind = .sign .leftParen) :
    Forms setting inner [] 0 group s :=
  .move (.opening hk rfl (.bind h.goesOn (forms_expression h) fun _ _ _ =>
    .expect fun hk => .closing hk rfl (.pure fun _ => .rfl)))

omit h in
/-- An expression that is the token at the cursor. -/
theorem forms_here {kind : TokenKind} {make : Span → Expression} (hk : s.cursor.kind = kind)
    (hl : kind.isLevel = true) (hformed : ∀ span, (make span).Formed)
    (hc : ∀ span, Element.ofExpression (make span) = []) :
    Forms setting inner [] 0 (do return make (← advance)) s :=
  .advance hk hl (.close rfl (hformed _) rfl fun _ => by rw [Element.children, hc])

theorem forms_named {name : String} {kind : TokenKind} (hk : s.cursor.kind = kind)
    (hl : kind.isLevel = true) : Forms setting inner [] 0 (named name) s := by
  have hvariable : Forms setting inner [] 0 (variableHere name) s :=
    forms_here hk hl (fun _ => trivial) fun _ => rfl
  refine .look (.ite (fun _ => forms_functionCall h) fun _ => .ite (fun _ => ?_) fun _ => hvariable)
  exact .look (.ite (fun _ => .fail _) fun _ => hvariable)

theorem forms_operand : Forms setting inner [] 0 operand s := by
  have hhere : ∀ {kind : TokenKind} {make : Span → Expression}, s.cursor.kind = kind →
      kind.isLevel = true → (∀ span, (make span).Formed) →
      (∀ span, Element.ofExpression (make span) = []) →
      Forms setting inner [] 0 (do return make (← advance)) s := forms_here
  refine .look ?_
  split
  · next hk =>
    split
    · exact hhere hk rfl (fun _ => .inl (Int.natCast_nonneg _)) fun _ => rfl
    · exact .fail _
  · next hk => exact hhere hk rfl (fun _ => trivial) fun _ => rfl
  · next hk => exact hhere hk rfl (fun _ => trivial) fun _ => rfl
  · next hk => exact hhere hk rfl (fun _ => trivial) fun _ => rfl
  · next hk => exact hhere hk rfl (fun _ => trivial) fun _ => rfl
  · next hk => exact hhere hk rfl (fun _ => trivial) fun _ => rfl
  · next hk => exact hhere hk rfl (fun _ => trivial) fun _ => rfl
  · next hk =>
    refine .look (.ite (fun hopens => ?_) fun _ => forms_group h hk)
    refine .assuming fun hs => .part h.goesOn (forms_patternPart h) fun part t hpart => ?_
    exact .close rfl (formed_of_opensPattern h hs (h.opensPattern hopens) hpart) rfl fun _ => .rfl
  · exact forms_listLiteral h
  · exact forms_mapLiteral h
  · next hk => exact forms_caseDistinction h hk
  · next hk => exact forms_existence h hk
  · exact .look (.ite (fun _ => forms_functionCall h) fun _ => .fail _)
  · next hk => exact forms_named h hk rfl
  · next hk => exact hhere hk rfl (fun _ => trivial) fun _ => rfl
  · exact .fail _

omit h in
theorem isLevel_of_unaryOperator? {kind : TokenKind} {operator : UnaryOperator}
    (h : unaryOperator? kind = some operator) : kind.isLevel = true := by
  unfold unaryOperator? at h
  split at h <;> first | rfl | cases h

omit h in
theorem isLevel_of_isLeastMagnitude {kind : TokenKind} (h : isLeastMagnitude kind = true) :
    kind.isLevel = true := by
  unfold isLeastMagnitude at h
  split at h
  · rfl
  · cases h

theorem forms_leading : Forms setting inner [] 0 leading s := by
  refine .look ?_
  split
  · exact forms_operand h
  · next operator hop =>
    refine .move (.advance rfl (isLevel_of_unaryOperator? hop) (.look (.ite (fun hleast => ?_)
      fun _ => ?_)))
    · have hdigits := isLevel_of_isLeastMagnitude (Bool.and_eq_true_iff.1 hleast).2
      exact .advance rfl hdigits (.close rfl (.inr rfl) rfl fun _ => .rfl)
    · exact .part h.goesOn (h.expression _ _) fun _ _ _ => .close rfl trivial rfl fun _ => .rfl

/-! ### What goes on with an operand -/

theorem forms_bracketed (base : Expression) :
    Forms setting inner [.expression base] 0 (bracketed base) s := by
  have hindex : ∀ {sign : Sign} {t : State}, Forms setting inner [] 0
      (skipIf (atSign sign) expression) t :=
    fun {_ _} => forms_skipIf h.goesOn forms_isAt fun _ => forms_expression h
  refine .expect fun hk => .opening hk rfl (.bind h.goesOn hindex fun lower t _ => ?_)
  refine .skip h.goesOn (forms_takeSign rfl) fun dots u _ => .ite (fun _ => ?_) fun _ => ?_
  · refine .bind h.goesOn hindex fun upper v _ => ?_
    exact .expect fun hk => .closing hk rfl (.look (.close rfl trivial rfl fun _ => .rfl))
  · refine .expect fun hk => .closing hk rfl ?_
    cases lower with
    | none => exact .fail _
    | some index => exact .look (.close rfl trivial rfl fun _ => .rfl)

theorem forms_suffix (base : Expression) :
    Forms setting inner [.expression base] 0 (suffix base) s := by
  refine .look ?_
  split
  · next hk =>
    exact .gather (.bind h.goesOn (forms_behindDot hk) fun _ _ _ =>
      .close rfl trivial rfl fun _ => .rfl)
  · exact .bind h.goesOn (forms_labels h.goesOn) fun _ _ hlabels =>
      .look (.close rfl (ne_nil_of_labels hlabels) rfl fun _ => .rfl)
  · exact forms_bracketed h base

theorem forms_nullTest (base : Expression) (hk : s.cursor.kind = .keyword .IS) :
    Forms setting inner [.expression base] 0 (nullTest base) s :=
  .move (.advance hk rfl (.skip h.goesOn (forms_takeWord _) fun _ _ _ =>
    .expect fun hk => .advance hk rfl (.look (.close rfl trivial rfl fun _ => .rfl))))

/-! ### Chains of operators -/

omit h in
theorem isLevel_of_binaryOperator? {kind next : TokenKind} {operator : BinaryOperator} {width : Nat}
    (hop : binaryOperator? kind next = some (operator, width)) : kind.isLevel = true := by
  unfold binaryOperator? at hop
  split at hop <;> first | rfl | cases hop

omit h in
/-- The tokens of an operator have been seen before. -/
theorem forms_moveOver {operator : BinaryOperator} {width : Nat}
    (hop : binaryOperator? s.cursor.kind (s.cursor.peek 1) = some (operator, width)) :
    Forms setting inner [] 0 (moveOver width) s := by
  have hl := isLevel_of_binaryOperator? hop
  rcases width_of_binaryOperator? hop with rfl | ⟨rfl, hnext⟩
  · exact .move (.advance rfl hl (.value _))
  · refine .assuming fun hs => ?_
    have hkind := (kind_step hs (TokenKind.ne_endOfInput_of_isLevel hl)).trans hnext
    exact .move (.advance rfl hl (.move (.advance hkind rfl (.value _))))

/-- **What becomes of a chain.** It stays well formed, and if there is no stand-in in its tree then
there was none before and brackets have been passed in pairs. -/
def Becomes (s : State) (chain : Chain) (t : State) (chain' : Chain) : Prop :=
  (All Formed (elements chain) → All Formed (elements chain')) ∧
    (All Clear [.expression chain'.tree] →
      All Clear [.expression chain.tree] ∧ s.cursor.Shuts 0 t.cursor)

omit h in
theorem becomes_refl (s : State) (chain : Chain) : Becomes s chain s chain :=
  ⟨id, fun hc => ⟨hc, .refl _⟩⟩

omit h in
theorem Becomes.trans {t u : State} {chain chain' chain'' : Chain} (hst : Becomes s chain t chain')
    (htu : Becomes t chain' u chain'') : Becomes s chain u chain'' := by
  refine ⟨fun hc => htu.1 (hst.1 hc), fun hc => ?_⟩
  obtain ⟨hc, hshuts⟩ := htu.2 hc
  exact ⟨(hst.2 hc).1, (hst.2 hc).2.trans hshuts⟩

omit h in
/-- An operator with its operands asks nothing of itself. -/
theorem all_join (demand : Element → Prop) {operator : BinaryOperator} {l r : Expression}
    (hd : demand (.expression (join operator l r))) :
    All demand [.expression (join operator l r)] ↔
      All demand [.expression l] ∧ All demand [.expression r] := by
  rw [Element.all_singleton, and_iff_right hd]
  exact Element.all_append (a := [.expression l])

omit h in
theorem all_chain {demand : Element → Prop} {tree : Expression} {last : Option Expression} :
    All demand (elements (Chain.mk tree last)) ↔
      All demand [.expression tree] ∧ All demand (elements last) :=
  Element.all_append (a := [.expression tree])

omit h in
/-- An operator joins a chain with its right operand. -/
theorem becomes_extend {t : State} (chain : Chain) (operator : BinaryOperator) {right : Expression}
    (hf : All Formed [.expression right])
    (hs : All Clear [.expression right] → s.cursor.Shuts 0 t.cursor) :
    Becomes s chain t (chain.extend operator right) := by
  obtain ⟨tree, last⟩ := chain
  have hjoin : ∀ {last' : Option Expression}, All Formed (elements last') →
      Becomes s ⟨tree, last⟩ t ⟨join operator tree right, last'⟩ := by
    intro last' hlast'
    refine ⟨fun hc => all_chain.2 ⟨(all_join Formed trivial).2 ⟨(all_chain.1 hc).1, hf⟩, hlast'⟩, ?_⟩
    intro hc
    obtain ⟨htree, hright⟩ := (all_join Clear rfl).1 hc
    exact ⟨htree, hs hright⟩
  unfold Chain.extend
  split
  · split
    · next left hlast =>
      cases hlast
      -- the operand that has been kept becomes that of one more comparison
      refine ⟨fun hc => ?_, fun hc => ?_⟩
      · obtain ⟨htree, hleft⟩ := all_chain.1 hc
        exact all_chain.2 ⟨(all_join Formed trivial).2 ⟨htree, (all_join Formed trivial).2 ⟨hleft, hf⟩⟩, hf⟩
      · obtain ⟨htree, hcompared⟩ := (all_join Clear rfl).1 hc
        exact ⟨htree, hs ((all_join Clear rfl).1 hcompared).2⟩
    · exact hjoin hf
  · exact hjoin Element.all_nil

omit h in
/-- A chain that goes on with a tree alone. -/
theorem becomes_single {chain : Chain} {t : State} {rule : Rule Expression} {next : Option Chain}
    (hs : s.cursor.Closed) (hf : Forms setting inner [.expression chain.tree] 0 rule s)
    (hr : (do return some ⟨← rule, none⟩ : Rule (Option Chain)).run setting inner s =
      .done next t) : Becomes s chain t (next.getD chain) := by
  obtain ⟨tree, u, hu, hr⟩ := done_of_bind hr
  cases hr
  obtain ⟨hformed, hclear⟩ := hf hs tree t hu
  exact ⟨fun hc => hformed (all_chain.1 hc).1, hclear⟩

theorem becomes_operation {chain : Chain} {t : State} (strength : Nat) {next : Option Chain}
    (hs : s.cursor.Closed)
    (hr : (operation strength chain).run setting inner s = .done next t) :
    Becomes s chain t (next.getD chain) := by
  obtain ⟨token, u, hu, hr⟩ := done_of_bind hr
  cases hu
  obtain ⟨kind, u, hu, hr⟩ := done_of_bind hr
  cases hu
  split at hr
  · cases hr
    exact becomes_refl s chain
  · next operator width hop =>
    split at hr
    · cases hr
      exact becomes_refl s chain
    · obtain ⟨_, u, hu, hr⟩ := done_of_bind hr
      obtain ⟨right, v, hv, hr⟩ := done_of_bind hr
      cases hr
      have hsu := ((forms_moveOver hop) hs _ u hu).2 Element.all_nil
      have hcu := hs.onward (onward_of_done h.goesOn hu).cursor
      obtain ⟨hformed, hclear⟩ := h.expression operator.rightStrength u hcu right _ hv
      exact becomes_extend chain operator (hformed Element.all_nil) fun hc =>
        hsu.2.trans (hclear hc).2

theorem becomes_continuation {chain : Chain} {t : State} (strength : Nat) {next : Option Chain}
    (hs : s.cursor.Closed)
    (hr : (continuation strength chain).run setting inner s = .done next t) :
    Becomes s chain t (next.getD chain) := by
  obtain ⟨token, u, hu, hr⟩ := done_of_bind hr
  cases hu
  dsimp only at hr
  split at hr
  · split at hr
    · cases hr
      exact becomes_refl s chain
    · exact becomes_single hs (forms_suffix h _) hr
  · split at hr
    · next hk =>
      split at hr
      · cases hr
        exact becomes_refl s chain
      · exact becomes_single hs (forms_nullTest h _ hk) hr
    · exact becomes_operation h strength hs hr

/-- **Expressions are formed.** -/
theorem forms_expressionOf (strength : Nat) :
    Forms setting inner [] 0 (expressionOf strength) s := by
  refine .part h.goesOn (forms_leading h) fun first t _ => ?_
  intro hs e v hr
  obtain ⟨chain, u, hu, hr⟩ := done_of_bind hr
  cases hr
  -- the invariant of the loop: the chain so far has come of the first operand
  have hchain := loop_induct (p := fun chain u => t.Onward u ∧ Becomes t ⟨first, none⟩ u chain)
    (fun chain u next w hw hr => ?_) ⟨.refl t, becomes_refl t _⟩ hu
  · exact ⟨fun hf => (all_chain.1 (hchain.2.1 (all_chain.2 ⟨hf, Element.all_nil⟩))).1, hchain.2.2⟩
  · obtain ⟨honward, hbecomes⟩ := hw
    exact ⟨honward.trans (onward_of_done h.goesOn hr),
      hbecomes.trans (becomes_continuation h strength (hs.onward honward.cursor) hr)⟩

end Elements

end Cypher.Grammar
