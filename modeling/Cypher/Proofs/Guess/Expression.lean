import Cypher.Proofs.Guess.Basic

/-!
# Rules for expressions follow one another

One lemma for each rule of the grammar, up to the operands of expressions and what stands behind
them: with the lookahead for paths the rule follows itself without it. A rule goes by few of the
values that it reads. It goes by names, by whether a list is empty or something is missing, and by
whether the target of a change is a property (`Cypher.Expression.Replaces`).

An operand is the one place where something is guessed, and it follows itself where no path is
(`Cypher.Grammar.followsFrom_operand`).
-/

namespace Cypher

/-- **An expression that may stand in for another**: it is a property if that is one. -/
def Expression.Replaces (e e' : Expression) : Prop := e.isProperty = true → e'.isProperty = true

/-- **Nested rules that follow one another**, and the target of a change. -/
structure Rivals.Nests (r : Rivals) : Prop where
  /-- Expressions do. -/
  expression : r.Follows Expression.Replaces (.nested (.expression 0)) (.nested (.expression 0))
  /-- The target of a change does. -/
  target : r.Follows (fun _ _ => True) Grammar.propertyTarget Grammar.propertyTarget
  /-- So do the bodies of subqueries. -/
  subquery : r.Follows (fun _ _ => True) (.nested .subquery) (.nested .subquery)
  /-- So do the bodies of existence tests. -/
  existsBody : r.Follows (fun _ _ => True) (.nested .existsBody) (.nested .existsBody)

namespace Grammar

open Rule hiding pure bind
open Rivals

variable {r : Rivals} {s s' : State}

/-! ### Names and labels -/

theorem follows_move : r.Follows (fun _ _ => True) move move := .skip .advance fun _ _ => .value

theorem follows_variableName : r.Follows Eq variableName variableName := by
  refine .same .here fun token => ?_
  split
  · exact .same .advance fun _ => .pure rfl
  · exact .same .advance fun _ => .pure rfl
  · exact .fail _

theorem follows_symbolicName (what : String) :
    r.Follows Eq (symbolicName what) (symbolicName what) := by
  refine .same .here fun token => ?_
  split
  · exact .same .advance fun _ => .pure rfl
  · exact .same .advance fun _ => .pure rfl
  · exact .same .advance fun _ => .pure rfl
  · exact .fail _

theorem follows_atNamePart : r.Follows Eq atNamePart atNamePart :=
  .same (follows_isAt _) fun _ => .ite (.same .next fun _ => .pure rfl) (.pure rfl)

theorem follows_namePart (what : String) : r.Follows Eq (namePart what) (namePart what) :=
  .skip follows_move fun _ _ => .same (follows_symbolicName what) fun _ => .pure rfl

/-- The text of a name is the same. -/
theorem follows_qualifiedName (what : String) :
    r.Follows (fun a b => a.value = b.value) (qualifiedName what) (qualifiedName what) := by
  refine .same (follows_symbolicName what) fun first => ?_
  refine .bind (Follows.many ((follows_namePart what).optionally follows_atNamePart)
    (.cons rfl .nil)) fun parts parts' hparts => .glance fun _ _ => .pure ?_
  rw [List.forall₂_eq_eq_eq] at hparts
  rw [hparts]

theorem follows_labels : r.Follows (fun _ _ => True) labels labels := by
  refine .bind (Follows.many ((follows_symbolicName _).behind _) .nil) fun found found' h => ?_
  rw [List.forall₂_eq_eq_eq] at h
  subst h
  exact .ite (.fail _) .value

/-! ### Relationships and nodes -/

theorem follows_lengthBound : r.Follows (fun _ _ => True) lengthBound lengthBound := by
  refine .same .here fun token => ?_
  split
  · split
    · exact .skip follows_move fun _ _ => .value
    · exact .fail _
  · exact .value

theorem follows_pathLength : r.Follows (fun _ _ => True) pathLength pathLength :=
  .skip follows_lengthBound fun _ _ => .same (follows_consume _) fun _ =>
    .ite (.skip follows_lengthBound fun _ _ => .value) .value

theorem follows_furtherType : r.Follows Eq furtherType furtherType :=
  .same (follows_consume _) fun _ => follows_symbolicName _

theorem follows_relationshipTypes :
    r.Follows (fun _ _ => True) relationshipTypes relationshipTypes := by
  refine .same (follows_consume _) fun _ => .ite (.same (follows_symbolicName _) fun first => ?_)
    .value
  exact (Follows.many (follows_furtherType.behind _) (.cons rfl .nil)).mono fun _ _ _ => trivial

theorem follows_binder : r.Follows (Option.Rel Eq) (optionally atVariable variableName)
    (optionally atVariable variableName) :=
  follows_variableName.optionally follows_atVariable

theorem follows_nodeLabels : r.Follows (fun _ _ => True) nodeLabels nodeLabels :=
  .same (follows_isAt _) fun _ => .ite follows_labels .value

theorem follows_atRelationship : r.Follows Eq atRelationship atRelationship := by
  refine .same .here fun token => ?_
  split
  · exact .pure rfl
  · exact .same .next fun _ => .pure rfl
  · exact .pure rfl

section Nests

variable (h : r.Nests)

include h

theorem follows_expression : r.Follows Expression.Replaces expression expression := h.expression

theorem follows_mapEntry : r.Follows (fun _ _ => True) mapEntry mapEntry :=
  .same (follows_symbolicName _) fun _ => .same (follows_expect _) fun _ =>
    .skip (follows_expression h) fun _ _ => .value

theorem follows_mapLiteral : r.Follows Expression.Replaces mapLiteral mapLiteral :=
  .same (follows_expect _) fun _ => .skip ((follows_mapEntry h).listUntil _) fun _ _ =>
    .same (follows_expect _) fun _ => .glance fun _ _ => .pure nofun

theorem follows_properties : r.Follows (fun _ _ => True) properties properties := by
  refine .same .here fun token => ?_
  split
  · exact .skip (follows_mapLiteral h) fun _ _ => .value
  · exact .same .advance fun _ => .value
  · exact .value

theorem follows_detail : r.Follows (fun _ _ => True) detail detail :=
  .skip follows_binder fun _ _ => .skip follows_relationshipTypes fun _ _ =>
    .skip (follows_pathLength.behind _) fun _ _ => .skip (follows_properties h) fun _ _ =>
      .same (follows_expect _) fun _ => .value

theorem follows_detailIfAny : r.Follows (fun _ _ => True) detailIfAny detailIfAny :=
  .same (follows_consume _) fun _ => .ite (follows_detail h) .value

theorem follows_relationship : r.Follows (fun _ _ => True) relationship relationship :=
  .startHere fun _ _ => .same (follows_consume _) fun _ => .same (follows_expect _) fun _ =>
    .skip (follows_detailIfAny h) fun _ _ => .same (follows_expect _) fun _ =>
      .same (follows_consume _) fun _ => .glance fun _ _ => .value

theorem follows_pathNode : r.Follows (fun _ _ => True) pathNode pathNode :=
  .same (follows_expect _) fun _ => .skip follows_binder fun _ _ =>
    .skip follows_nodeLabels fun _ _ => .skip (follows_properties h) fun _ _ =>
      .same (follows_expect _) fun _ => .glance fun _ _ => .value

theorem follows_step : r.Follows (fun _ _ => True) step step :=
  .skip (follows_relationship h) fun _ _ => .skip (follows_pathNode h) fun _ _ => .value

/-! ### Paths -/

omit h in
theorem follows_pathName : r.Follows (fun _ _ => True) pathName pathName :=
  .same follows_variableName fun _ => .skip follows_move fun _ _ => .value

theorem follows_patternPart : r.Follows (fun _ _ => True) patternPart patternPart :=
  .startHere fun _ _ => .skip (follows_pathName.optionally (follows_atVariableBefore _))
    fun _ _ => .skip (follows_pathNode h) fun _ _ =>
      .skip (Follows.many ((follows_step h).optionally follows_atRelationship) .nil) fun _ _ =>
        .glance fun _ _ => .value

theorem follows_pattern : r.Follows (fun _ _ => True) pattern pattern :=
  .startHere fun _ _ => .skip (follows_patternPart h).separated fun _ _ =>
    .glance fun _ _ => .value

/-! ### Lists and case distinctions -/

theorem follows_expressionList (close : Sign) :
    r.Follows (List.Forall₂ Expression.Replaces) (expressionList close) (expressionList close) :=
  (follows_expression h).listUntil close

theorem follows_elementProjection (projects : Bool) :
    r.Follows (fun _ _ => True) (elementProjection projects) (elementProjection projects) :=
  .ite (((follows_expression h).behind _).mono fun _ _ _ => trivial) .value

theorem follows_comprehension (start start' : Nat) (close : Sign) (projects : Bool) :
    r.Follows (fun _ _ => True) (comprehension start close projects)
      (comprehension start' close projects) :=
  .same follows_variableName fun _ => .same (follows_expect _) fun _ =>
    .skip (follows_expression h) fun _ _ => .skip ((follows_expression h).behind _) fun _ _ =>
      .skip (follows_elementProjection h projects) fun _ _ => .same (follows_expect _) fun _ =>
        .glance fun _ _ => .value

theorem follows_listLiteral : r.Follows Expression.Replaces listLiteral listLiteral := by
  refine .same (follows_expect _) fun opening => .same (follows_atVariableBefore _) fun _ =>
    .ite (.skip (follows_comprehension h _ _ _ _) fun _ _ => .pure nofun) ?_
  exact .skip (follows_expressionList h _) fun _ _ => .same (follows_expect _) fun _ =>
    .glance fun _ _ => .pure nofun

theorem follows_caseAlternative : r.Follows (fun _ _ => True) caseAlternative caseAlternative :=
  .skip (follows_expression h) fun _ _ => .same (follows_expect _) fun _ =>
    .skip (follows_expression h) fun _ _ => .value

theorem follows_caseDistinction :
    r.Follows Expression.Replaces caseDistinction caseDistinction := by
  refine .same .advance fun _ =>
    .skip ((follows_expression h).skipIf (follows_isAt _)) fun _ _ =>
      .bind (Follows.many ((follows_caseAlternative h).behind _) .nil) fun found found' hall => ?_
  have hempty : found.isEmpty = found'.isEmpty := by cases hall <;> rfl
  rw [hempty]
  exact .ite (.fail _) (.skip ((follows_expression h).behind _) fun _ _ =>
    .same (follows_expect _) fun _ => .glance fun _ _ => .pure nofun)

/-! ### Calls -/

theorem follows_callArguments (name : String) (start start' : Nat) :
    r.Follows Expression.Replaces (callArguments name start) (callArguments name start') :=
  .same (follows_consume _) fun _ => .skip (follows_expressionList h _) fun _ _ =>
    .same (follows_expect _) fun _ => .glance fun _ _ => .pure nofun

omit h in
theorem follows_atLoneStar : r.Follows Eq atLoneStar atLoneStar :=
  .same (follows_isAt _) fun _ => .ite (.same .next fun _ => .pure rfl) (.pure rfl)

theorem follows_plainCall {name name' : Ident} (hname : name.value = name'.value) :
    r.Follows Expression.Replaces (plainCall name) (plainCall name') := by
  rw [plainCall, plainCall, hname]
  refine .ite (.same follows_atLoneStar fun _ => .ite ?_ (follows_callArguments h _ _ _))
    (follows_callArguments h _ _ _)
  exact .skip follows_move fun _ _ => .skip follows_move fun _ _ =>
    .glance fun _ _ => .pure nofun

theorem follows_functionCall : r.Follows Expression.Replaces functionCall functionCall := by
  refine .bind (follows_qualifiedName _) fun name name' hname =>
    .same (follows_expect _) fun _ => ?_
  rw [hname]
  split
  · exact .same (follows_atVariableBefore _) fun _ =>
      .ite (.skip (follows_comprehension h _ _ _ _) fun _ _ => .pure nofun)
        (follows_plainCall h hname)
  · exact follows_plainCall h hname

/-! ### Operands -/

theorem follows_existence : r.Follows Expression.Replaces existence existence := by
  refine .same .next fun kind => ?_
  split
  · exact follows_functionCall h
  · exact .same (.requireSubqueries _) fun _ => .same .advance fun _ =>
      .skip follows_move fun _ _ => .skip h.existsBody fun _ _ =>
        .same (follows_expect _) fun _ => .glance fun _ _ => .pure nofun
  · exact .skip follows_move fun _ _ => .fail _

omit h in
theorem follows_literalHere (value : Literal) :
    r.Follows Expression.Replaces (literalHere value) (literalHere value) :=
  .same .advance fun _ => .pure nofun

omit h in
theorem follows_variableHere (name : String) :
    r.Follows Expression.Replaces (variableHere name) (variableHere name) :=
  .same .advance fun _ => .pure nofun

/-- What is between parentheses may be a property. -/
theorem follows_group : r.Follows Expression.Replaces group group :=
  .skip follows_move fun _ _ => .bind (follows_expression h) fun _ _ hinner =>
    .same (follows_expect _) fun _ => .pure hinner

theorem follows_named (name : String) :
    r.Follows Expression.Replaces (named name) (named name) := by
  refine .same .opensCall fun _ => .ite (follows_functionCall h) (.ite ?_ (follows_variableHere _))
  exact .same .next fun _ => .ite (.fail _) (follows_variableHere _)

/-- **An operand follows itself** where no path is guessed. -/
theorem followsFrom_operand (hs : r.Beside s s') (hguess : s.cursor.opensPattern = false) :
    r.FollowsFrom Expression.Replaces operand operand s s' := by
  refine .look ?_
  rw [show View.token.read r.setting s' = View.token.read r.setting.grouping s from hs.current_eq]
  split
  · split
    · exact follows_literalHere _ s s' hs
    · exact Follows.fail _ s s' hs
  · exact follows_literalHere _ s s' hs
  · exact follows_literalHere _ s s' hs
  · exact follows_literalHere _ s s' hs
  · exact follows_literalHere _ s s' hs
  · exact follows_literalHere _ s s' hs
  · exact Follows.same .advance (fun _ => .pure nofun) s s' hs
  · refine .look ?_
    rw [show View.opensPattern.read r.setting s' = false by
      rw [View.read, r.lookahead, hs.cursor, hguess]]
    exact follows_group h s s' hs
  · exact follows_listLiteral h s s' hs
  · exact follows_mapLiteral h s s' hs
  · exact follows_caseDistinction h s s' hs
  · exact follows_existence h s s' hs
  · exact Follows.same .opensCall (fun _ => .ite (follows_functionCall h) (.fail _)) s s' hs
  · exact follows_named h _ s s' hs
  · exact follows_variableHere _ s s' hs
  · exact Follows.fail _ s s' hs

/-! ### What stands behind an operand -/

theorem follows_bracketed (base base' : Expression) :
    r.Follows Expression.Replaces (bracketed base) (bracketed base') := by
  have hindex (sign : Sign) : r.Follows (Option.Rel Expression.Replaces)
      (skipIf (atSign sign) expression) (skipIf (atSign sign) expression) :=
    (follows_expression h).skipIf (follows_isAt _)
  refine .same (follows_expect _) fun _ => .bind (hindex .dotDot) fun lower lower' hlower => ?_
  refine .same (follows_consume _) fun _ => .ite (.skip (hindex .rightBracket) fun _ _ =>
    .same (follows_expect _) fun _ => .glance fun _ _ => .pure nofun) ?_
  refine .same (follows_expect _) fun _ => ?_
  cases hlower with
  | none => exact .fail _
  | some _ => exact .glance fun _ _ => .pure nofun

theorem follows_suffix (base base' : Expression) :
    r.Follows Expression.Replaces (suffix base) (suffix base') := by
  refine .same .here fun token => ?_
  split
  · exact .skip follows_move fun _ _ => .same (follows_symbolicName _) fun _ => .pure fun _ => rfl
  · exact .skip follows_labels fun _ _ => .glance fun _ _ => .pure nofun
  · exact follows_bracketed h base base'

omit h in
theorem follows_nullTest (base base' : Expression) :
    r.Follows (fun _ _ => True) (nullTest base) (nullTest base') :=
  .skip follows_move fun _ _ => .same (follows_consume _) fun _ =>
    .same (follows_expect _) fun _ => .glance fun _ _ => .value

end Nests

end Grammar

end Cypher
