import Cypher.Proofs.Recovery

/-!
# Rules whose repetitions all move on

A repetition is run with as many steps at hand as there are tokens left, and that is no restriction
if its steps move on. Whether they do can be asked of all the repetitions in a rule at once, without
looking at a run: `Cypher.Rule.Lively` says so, by going through the steps the rule is built from.
Every rule that nests is lively (`Cypher.Grammar.lively_body`), so how many tokens are left makes no
difference to what is read.
-/

namespace Cypher

variable {setting : Setting} {inner : Inner} {α β : Type}

/-- **A rule all of whose repetitions move on**, wherever they are run. -/
def Rule.Lively (setting : Setting) (inner : Inner) : {α : Type} → Rule α → Prop
  | _, pure _ => True
  | _, bind rule next => Lively setting inner rule ∧ ∀ b, Lively setting inner (next b)
  | _, look _ => True
  | _, advance => True
  | _, fail _ => True
  | _, complain _ => True
  | _, requireSubqueries _ => True
  | _, mend rule remedy => Lively setting inner rule ∧ Lively setting inner remedy
  | _, resume => True
  | _, loop step _ => (∀ a, Lively setting inner (step a)) ∧
      ∀ a s, MovesOn setting inner (fun b => b.isSome) (step a) s
  | _, inScope _ rule => Lively setting inner rule
  | _, record _ => True
  | _, nested _ => True

namespace Rule.Lively

/-! ### Steps -/

theorem pure (a : α) : Lively setting inner (Pure.pure a : Rule α) := trivial

theorem fail (problem : Problem) : Lively setting inner (.fail problem : Rule α) := trivial

theorem bind {rule : Rule β} {next : β → Rule α} (h : Lively setting inner rule)
    (hn : ∀ b, Lively setting inner (next b)) : Lively setting inner (rule >>= next) := ⟨h, hn⟩

/-- A step in which nothing is repeated makes no difference. -/
theorem look {view : View β} {next : β → Rule α} (h : ∀ b, Lively setting inner (next b)) :
    Lively setting inner (.look view >>= next) := bind trivial h

theorem advance {next : Span → Rule α} (h : ∀ b, Lively setting inner (next b)) :
    Lively setting inner (.advance >>= next) := bind trivial h

theorem ite {condition : Prop} [Decidable condition] {rule other : Rule α}
    (h : Lively setting inner rule) (ho : Lively setting inner other) :
    Lively setting inner (if condition then rule else other) := by
  split
  · exact h
  · exact ho

theorem isAt (kind : TokenKind) : Lively setting inner (Rule.isAt kind) := look fun _ => pure _

theorem atVariable : Lively setting inner Rule.atVariable := look fun _ => pure _

theorem atVariableBefore (kind : TokenKind) : Lively setting inner (Rule.atVariableBefore kind) :=
  bind atVariable fun _ => ite (look fun _ => pure _) (pure false)

theorem consume (kind : TokenKind) : Lively setting inner (Rule.consume kind) :=
  bind (isAt kind) fun _ => ite (advance fun _ => pure true) (pure false)

theorem expect (kind : TokenKind) : Lively setting inner (Rule.expect kind) :=
  bind (isAt kind) fun _ => ite trivial (fail _)

/-- What has to be there is passed before something else. -/
theorem past {kind : TokenKind} {next : Span → Rule α} (h : ∀ b, Lively setting inner (next b)) :
    Lively setting inner (Rule.expect kind >>= next) := bind (expect kind) h

theorem optionally {condition : Rule Bool} {rule : Rule α} (hc : Lively setting inner condition)
    (h : Lively setting inner rule) : Lively setting inner (Rule.optionally condition rule) :=
  bind hc fun _ => ite (bind h fun _ => pure _) (pure none)

theorem skipIf {condition : Rule Bool} {rule : Rule α} (hc : Lively setting inner condition)
    (h : Lively setting inner rule) : Lively setting inner (Rule.skipIf condition rule) :=
  bind hc fun _ => ite (pure none) (bind h fun _ => pure _)

/-- Something behind a token that introduces it. -/
theorem behind (kind : TokenKind) {rule : Rule α} (h : Lively setting inner rule) :
    Lively setting inner (Rule.optionally (Rule.consume kind) rule) := optionally (consume kind) h

/-! ### Repetitions -/

section Repetitions

variable (hi : inner.GoesOn)

include hi

theorem many {rule : Rule (Option α)} (h : Lively setting inner rule)
    (hm : ∀ s, MovesOn setting inner (fun a => a.isSome) rule s) (items : List α) :
    Lively setting inner (Rule.many rule items) :=
  ⟨fun _ => bind h fun _ => pure _, fun _ s => movesOn_manyStep hi (hm s)⟩

/-- Repeating what a token introduces. -/
theorem manyBehind {kind : TokenKind} (hk : kind ≠ .endOfInput) {rule : Rule α}
    (h : Lively setting inner rule) (items : List α) :
    Lively setting inner (Rule.many (Rule.optionally (Rule.consume kind) rule) items) :=
  many hi (behind kind h) (fun s => movesOn_optionally hi (movesOn_consume hi hk s)) items

theorem separated {rule : Rule α} (h : Lively setting inner rule) :
    Lively setting inner (Rule.separated rule) :=
  bind h fun first => manyBehind hi TokenKind.noConfusion h [first]

theorem listUntil {rule : Rule α} (close : Sign) (h : Lively setting inner rule) :
    Lively setting inner (Rule.listUntil close rule) :=
  bind (isAt _) fun _ => ite (pure []) (separated hi h)

end Repetitions

end Rule.Lively

namespace Grammar

open Rule hiding pure bind

/-! ### Names, labels and maps -/

theorem lively_move : Lively setting inner move := .advance fun _ => .pure ()

theorem lively_expression : Lively setting inner expression := trivial

theorem lively_variableName : Lively setting inner variableName := by
  refine .look fun token => ?_
  split
  · exact .advance fun _ => .pure _
  · exact .advance fun _ => .pure _
  · exact .fail _

theorem lively_symbolicName (what : String) : Lively setting inner (symbolicName what) := by
  refine .look fun token => ?_
  split
  · exact .advance fun _ => .pure _
  · exact .advance fun _ => .pure _
  · exact .advance fun _ => .pure _
  · exact .fail _

section Nested

variable (hi : inner.GoesOn)

include hi

theorem lively_qualifiedName (what : String) : Lively setting inner (qualifiedName what) := by
  refine .bind (lively_symbolicName what) fun first => ?_
  have hat : Lively setting inner atNamePart :=
    .bind (.isAt _) fun _ => .ite (.look fun _ => .pure _) (.pure false)
  refine .bind (.many hi (.optionally hat ?_) (movesOn_furtherPart hi what) _) fun parts => ?_
  · exact .bind lively_move fun _ => .bind (lively_symbolicName what) fun _ => .pure _
  · exact .look fun _ => .pure _

theorem lively_labels : Lively setting inner labels :=
  .bind (.manyBehind hi TokenKind.noConfusion (lively_symbolicName _) []) fun _ =>
    .ite (.fail _) (.pure _)

omit hi in
theorem lively_mapEntry : Lively setting inner mapEntry :=
  .bind (lively_symbolicName _) fun _ => .past fun _ => .bind lively_expression fun _ => .pure _

theorem lively_mapLiteral : Lively setting inner mapLiteral :=
  .past fun _ => .bind (.listUntil hi _ lively_mapEntry) fun _ => .past fun _ =>
    .look fun _ => .pure _

theorem lively_properties : Lively setting inner properties := by
  refine .look fun token => ?_
  split
  · exact .bind (lively_mapLiteral hi) fun _ => .pure _
  · exact .advance fun _ => .pure _
  · exact .pure none

/-! ### Patterns -/

omit hi in
theorem lively_lengthBound : Lively setting inner lengthBound := by
  refine .look fun token => ?_
  split
  · split
    · exact .bind lively_move fun _ => .pure _
    · exact .fail _
  · exact .pure none

omit hi in
theorem lively_pathLength : Lively setting inner pathLength :=
  .bind lively_lengthBound fun _ => .bind (.consume _) fun _ =>
    .ite (.bind lively_lengthBound fun _ => .pure _) (.pure _)

theorem lively_relationshipTypes : Lively setting inner relationshipTypes := by
  refine .bind (.consume _) fun _ => .ite (.bind (lively_symbolicName _) fun first => ?_) (.pure [])
  exact .manyBehind hi TokenKind.noConfusion
    (.bind (.consume _) fun _ => lively_symbolicName _) [first]

omit hi in
theorem lively_binder : Lively setting inner (optionally atVariable variableName) :=
  .optionally .atVariable lively_variableName

theorem lively_detailIfAny : Lively setting inner detailIfAny := by
  refine .bind (.consume _) fun _ => .ite ?_ (.pure _)
  refine .bind lively_binder fun _ => .bind (lively_relationshipTypes hi) fun _ => ?_
  refine .bind (.behind _ lively_pathLength) fun _ => .bind (lively_properties hi) fun _ => ?_
  exact .past fun _ => .pure _

theorem lively_relationship : Lively setting inner relationship := by
  refine .bind (.look fun _ => .pure _) fun start => .bind (.consume _) fun left => ?_
  refine .past fun _ => .bind (lively_detailIfAny hi) fun detail => .past fun _ => ?_
  exact .bind (.consume _) fun right => .look fun _ => .pure _

theorem lively_pathNode : Lively setting inner pathNode := by
  refine .past fun opening => .bind lively_binder fun binder => ?_
  refine .bind (.bind (.isAt _) fun _ => .ite (lively_labels hi) (.pure [])) fun labels => ?_
  exact .bind (lively_properties hi) fun properties => .past fun _ => .look fun _ => .pure _

omit hi in
theorem lively_atRelationship : Lively setting inner atRelationship := by
  refine .look fun token => ?_
  split
  · exact .pure true
  · exact .look fun _ => .pure _
  · exact .pure false

theorem lively_patternPart : Lively setting inner patternPart := by
  refine .bind (.look fun _ => .pure _) fun start => ?_
  refine .bind (.optionally (.atVariableBefore _) (.bind lively_variableName fun name =>
    .bind lively_move fun _ => .pure name)) fun binder => ?_
  refine .bind (lively_pathNode hi) fun node => .bind ?_ fun chain => .look fun _ => .pure _
  exact .many hi (.optionally lively_atRelationship (.bind (lively_relationship hi) fun _ =>
    .bind (lively_pathNode hi) fun _ => .pure _)) (movesOn_furtherStep hi) []

theorem lively_pattern : Lively setting inner pattern :=
  .bind (.look fun _ => .pure _) fun _ => .bind (.separated hi (lively_patternPart hi)) fun _ =>
    .look fun _ => .pure _

/-! ### Operands -/

theorem lively_expressionList (close : Sign) : Lively setting inner (expressionList close) :=
  .listUntil hi close lively_expression

omit hi in
theorem lively_comprehension (start : Nat) (close : Sign) (projects : Bool) :
    Lively setting inner (comprehension start close projects) := by
  refine .bind lively_variableName fun binder => .past fun _ => ?_
  refine .bind lively_expression fun list => ?_
  refine .bind (.behind _ lively_expression) fun predicate => ?_
  refine .bind (.ite (.behind _ lively_expression) (.pure none)) fun projection => ?_
  exact .past fun _ => .look fun _ => .pure _

theorem lively_listLiteral : Lively setting inner listLiteral := by
  refine .past fun opening => .bind (.atVariableBefore _) fun binds => .ite ?_ ?_
  · exact .bind (lively_comprehension _ _ _) fun _ => .pure _
  · exact .bind (lively_expressionList hi _) fun _ => .past fun _ => .look fun _ => .pure _

theorem lively_caseDistinction : Lively setting inner caseDistinction := by
  refine .advance fun opening => .bind (.skipIf (.isAt _) lively_expression) fun operand => ?_
  refine .bind (.manyBehind hi TokenKind.noConfusion ?_ []) fun alternatives => .ite (.fail _) ?_
  · exact .bind lively_expression fun _ => .past fun _ => .bind lively_expression fun _ => .pure _
  · exact .bind (.behind _ lively_expression) fun _ => .past fun _ => .look fun _ => .pure _

theorem lively_plainCall (name : Ident) : Lively setting inner (plainCall name) := by
  have hargs : Lively setting inner (callArguments name.value name.span.start) :=
    .bind (.consume _) fun _ => .bind (lively_expressionList hi _) fun _ => .past fun _ =>
      .look fun _ => .pure _
  refine .ite (.bind ?_ fun star => .ite ?_ hargs) hargs
  · exact .bind (.isAt _) fun _ => .ite (.look fun _ => .pure _) (.pure false)
  · exact .bind lively_move fun _ => .bind lively_move fun _ => .look fun _ => .pure _

theorem lively_functionCall : Lively setting inner functionCall := by
  refine .bind (lively_qualifiedName hi _) fun name => .past fun _ => ?_
  split
  · refine .bind (.atVariableBefore _) fun binds => .ite ?_ (lively_plainCall hi name)
    exact .bind (lively_comprehension _ _ _) fun _ => .pure _
  · exact lively_plainCall hi name

theorem lively_existence : Lively setting inner existence := by
  refine .look fun next => ?_
  split
  · exact lively_functionCall hi
  · refine .bind trivial fun _ => .advance fun opening => .bind lively_move fun _ => ?_
    exact .bind trivial fun body => .past fun _ => .look fun _ => .pure _
  · exact .bind lively_move fun _ => .fail _

theorem lively_named (name : String) : Lively setting inner (named name) := by
  have hvariable : Lively setting inner (variableHere name) := .advance fun _ => .pure _
  refine .look fun called => .ite (lively_functionCall hi) (.ite ?_ hvariable)
  exact .look fun next => .ite (.fail _) hvariable

theorem lively_operand : Lively setting inner operand := by
  have hliteral (value : Literal) : Lively setting inner (literalHere value) :=
    .advance fun _ => .pure _
  refine .look fun token => ?_
  split
  · split
    · exact hliteral _
    · exact .fail _
  · exact hliteral _
  · exact hliteral _
  · exact hliteral _
  · exact hliteral _
  · exact hliteral _
  · exact .advance fun _ => .pure _
  · refine .look fun opens => .ite (.bind (lively_patternPart hi) fun _ => .pure _) ?_
    exact .bind lively_move fun _ => .bind lively_expression fun inner => .past fun _ => .pure inner
  · exact lively_listLiteral hi
  · exact lively_mapLiteral hi
  · exact lively_caseDistinction hi
  · exact lively_existence hi
  · exact .look fun called => .ite (lively_functionCall hi) (.fail _)
  · exact lively_named hi _
  · exact .advance fun _ => .pure _
  · exact .fail _

theorem lively_leading : Lively setting inner leading := by
  refine .look fun token => ?_
  split
  · exact lively_operand hi
  · refine .bind lively_move fun _ => .look fun next => .ite (.advance fun _ => .pure _) ?_
    exact .bind trivial fun _ => .pure _

/-! ### What follows an operand -/

omit hi in
theorem lively_bracketed (base : Expression) : Lively setting inner (bracketed base) := by
  refine .past fun _ => .bind (.skipIf (.isAt _) lively_expression) fun lower => ?_
  refine .bind (.consume _) fun dots => .ite ?_ (.past fun _ => ?_)
  · exact .bind (.skipIf (.isAt _) lively_expression) fun _ => .past fun _ => .look fun _ => .pure _
  · split
    · exact .look fun _ => .pure _
    · exact .fail _

theorem lively_suffix (base : Expression) : Lively setting inner (suffix base) := by
  refine .look fun token => ?_
  split
  · exact .bind lively_move fun _ => .bind (lively_symbolicName _) fun _ => .pure _
  · exact .bind (lively_labels hi) fun _ => .look fun _ => .pure _
  · exact lively_bracketed base

omit hi in
theorem lively_moveOver (width : Nat) : Lively setting inner (moveOver width) := by
  induction width with
  | zero => exact .pure ()
  | succ width ih => exact .bind lively_move fun _ => ih

omit hi in
theorem lively_operation (strength : Nat) (chain : Chain) :
    Lively setting inner (operation strength chain) := by
  refine .look fun token => .look fun next => ?_
  split
  · exact .pure none
  · exact .ite (.pure none) (.bind (lively_moveOver _) fun _ => .bind trivial fun _ => .pure _)

theorem lively_continuation (strength : Nat) (chain : Chain) :
    Lively setting inner (continuation strength chain) := by
  refine .look fun token => .ite (.ite (.pure none) ?_) (.ite (.ite (.pure none) ?_) ?_)
  · exact .bind (lively_suffix hi _) fun _ => .pure _
  · refine .bind (.bind lively_move fun _ => .bind (.consume _) fun _ => .past fun _ => ?_)
      fun _ => .pure _
    exact .look fun _ => .pure _
  · exact lively_operation strength chain

theorem lively_expressionOf (strength : Nat) : Lively setting inner (expressionOf strength) :=
  .bind (lively_leading hi) fun _ => .bind
    ⟨lively_continuation hi strength, movesOn_continuation hi strength⟩ fun _ => .pure _

/-! ### Clauses -/

theorem lively_matchClause : Lively setting inner matchClause :=
  .bind (.look fun _ => .pure _) fun _ => .bind (.consume _) fun _ => .past fun _ =>
    .bind (lively_pattern hi) fun _ => .look fun _ => .pure _

omit hi in
theorem lively_whereClause : Lively setting inner whereClause :=
  .advance fun _ => .bind lively_expression fun _ => .look fun _ => .pure _

omit hi in
theorem lively_unwindClause : Lively setting inner unwindClause :=
  .advance fun _ => .bind lively_expression fun _ => .past fun _ =>
    .bind lively_variableName fun _ => .look fun _ => .pure _

omit hi in
theorem lively_newName : Lively setting inner newName := .behind _ lively_variableName

theorem lively_procedureCall : Lively setting inner procedureCall := by
  refine .bind (lively_qualifiedName hi _) fun name => .bind (.behind _ ?_) fun arguments => ?_
  · exact .bind (lively_expressionList hi _) fun _ => .past fun _ => .pure _
  refine .bind (.consume _) fun yields => .ite (.bind (.consume _) fun star => ?_) (.pure _)
  refine .ite (.pure _) (.bind (.separated hi ?_) fun _ => .pure _)
  exact .bind (lively_symbolicName _) fun _ => .bind lively_newName fun _ => .pure _

theorem lively_callClause : Lively setting inner callClause := by
  refine .advance fun word => .bind (.isAt _) fun brace => .ite ?_ ?_
  · refine .bind trivial fun _ => .bind lively_move fun _ => .bind trivial fun body => ?_
    exact .past fun _ => .look fun _ => .pure _
  · exact .bind (lively_procedureCall hi) fun _ => .look fun _ => .pure _

omit hi in
theorem lively_projectionItem : Lively setting inner projectionItem :=
  .bind (.look fun _ => .pure _) fun _ => .bind lively_expression fun _ =>
    .bind lively_newName fun _ => .look fun _ => .pure _

omit hi in
theorem lively_sortItem : Lively setting inner sortItem := by
  refine .bind (.look fun _ => .pure _) fun start => .bind lively_expression fun value => ?_
  refine .bind (.look fun token => ?_) fun descending => .look fun _ => .pure _
  split
  · exact .bind lively_move fun _ => .pure _
  · exact .bind lively_move fun _ => .pure _
  · exact .bind lively_move fun _ => .pure _
  · exact .bind lively_move fun _ => .pure _
  · exact .pure false

theorem lively_projection : Lively setting inner projection := by
  have hitems : Lively setting inner (separated projectionItem) :=
    .separated hi lively_projectionItem
  refine .bind (.consume _) fun distinct => .bind ?_ fun columns => .bind ?_ fun orderBy => ?_
  · refine .bind (.consume _) fun star => .ite (.bind (.consume _) fun comma => ?_) ?_
    · exact .ite (.bind hitems fun _ => .pure _) (.pure _)
    · exact .bind hitems fun _ => .pure _
  · refine .bind (.consume _) fun order => .ite (.past fun _ => ?_) (.pure [])
    exact .separated hi lively_sortItem
  · exact .bind (.behind _ lively_expression) fun _ => .bind (.behind _ lively_expression) fun _ =>
      .pure _

theorem lively_withClause : Lively setting inner withClause :=
  .advance fun _ => .bind (lively_projection hi) fun _ => .look fun _ => .pure _

theorem lively_returnClause : Lively setting inner returnClause :=
  .advance fun _ => .bind (lively_projection hi) fun _ => .look fun _ => .pure _

omit hi in
theorem lively_propertyTarget : Lively setting inner propertyTarget :=
  .bind (.look fun _ => .pure _) fun _ => .bind trivial fun _ => .ite (.pure _) (.fail _)

theorem lively_setItem : Lively setting inner setItem := by
  have hproperty (start : Nat) : Lively setting inner (propertyAssignment start) :=
    .bind lively_propertyTarget fun _ => .past fun _ => .bind lively_expression fun _ =>
      .look fun _ => .pure _
  have hassigned : Lively setting inner assigned :=
    .bind lively_variableName fun _ => .bind lively_move fun _ => .pure _
  refine .look fun token => .ite (.look fun next => ?_) (hproperty _)
  split
  · exact .bind hassigned fun _ => .bind lively_expression fun _ => .look fun _ => .pure _
  · exact .bind hassigned fun _ => .bind lively_expression fun _ => .look fun _ => .pure _
  · exact .bind lively_variableName fun _ => .bind (lively_labels hi) fun _ =>
      .look fun _ => .pure _
  · exact hproperty _

theorem lively_removeItem : Lively setting inner removeItem := by
  refine .bind (.look fun _ => .pure _) fun start => .bind (.atVariableBefore _) fun labelled => ?_
  refine .ite ?_ (.bind lively_propertyTarget fun _ => .pure _)
  exact .bind lively_variableName fun _ => .bind (lively_labels hi) fun _ => .look fun _ => .pure _

theorem lively_createClause : Lively setting inner createClause :=
  .advance fun _ => .bind (lively_pattern hi) fun _ => .look fun _ => .pure _

theorem lively_mergeAction : Lively setting inner mergeAction := by
  refine .advance fun word => .bind (.bind (.consume _) fun _ => .ite (.pure _) ?_) fun event => ?_
  · exact .bind (.consume _) fun _ => .ite (.pure _) (.fail _)
  · exact .past fun _ => .bind (.separated hi (lively_setItem hi)) fun _ => .look fun _ => .pure _

theorem lively_mergeClause : Lively setting inner mergeClause := by
  refine .advance fun word => .bind (lively_patternPart hi) fun part => ?_
  exact .bind (.many hi (.optionally (.isAt _) (lively_mergeAction hi))
    (movesOn_furtherAction hi) []) fun _ => .look fun _ => .pure _

theorem lively_deleteClause : Lively setting inner deleteClause :=
  .bind (.look fun _ => .pure _) fun _ => .bind (.consume _) fun _ => .past fun _ =>
    .bind (.separated hi lively_expression) fun _ => .look fun _ => .pure _

theorem lively_setClause : Lively setting inner setClause :=
  .advance fun _ => .bind (.separated hi (lively_setItem hi)) fun _ => .look fun _ => .pure _

theorem lively_removeClause : Lively setting inner removeClause :=
  .advance fun _ => .bind (.separated hi (lively_removeItem hi)) fun _ => .look fun _ => .pure _

theorem lively_clause : Lively setting inner clause := by
  refine .look fun token => ?_
  dsimp only
  split
  · split
    · exact lively_matchClause hi
    · exact lively_matchClause hi
    · exact lively_whereClause
    · exact lively_withClause hi
    · exact lively_returnClause hi
    · exact lively_unwindClause
    · exact lively_createClause hi
    · exact lively_mergeClause hi
    · exact lively_deleteClause hi
    · exact lively_deleteClause hi
    · exact lively_setClause hi
    · exact lively_removeClause hi
    · exact lively_callClause hi
    · exact .fail _
  · exact .fail _

/-! ### Queries -/

omit hi in
theorem lively_atClausesEnd : Lively setting inner atClausesEnd :=
  .look fun _ => .look fun _ => .pure _

theorem lively_nextClause : Lively setting inner nextClause := by
  refine .bind lively_atClausesEnd fun ends => .ite (.pure none) (.bind ?_ fun _ => .pure _)
  refine .bind (.look fun _ => .pure _) fun start => .look fun position => ?_
  refine .bind ⟨lively_clause hi, ?_⟩ fun clause => .bind trivial fun _ => .pure clause
  refine .bind (.look fun here => .ite ?_ (.pure ())) fun _ => .bind trivial fun _ =>
    .look fun _ => .pure _
  exact .bind lively_atClausesEnd fun _ => .ite (.pure ()) lively_move

theorem lively_branchIn (kind : ScopeKind) (context : String) :
    Lively setting inner (branchIn kind context) := by
  have hbranch : Lively setting inner (branch kind) :=
    .many hi (lively_nextClause hi) (movesOn_nextClause hi) []
  exact .bind hbranch fun clauses => .bind (.ite trivial (.pure ())) fun _ => .pure clauses

theorem lively_query (kind : ScopeKind) : Lively setting inner (query kind) := by
  refine .bind (.look fun _ => .pure _) fun start => .bind (lively_branchIn hi kind _) fun _ => ?_
  refine .bind (.many hi (.optionally (.isAt _) ?_) (movesOn_furtherUnion hi kind) []) fun _ =>
    .look fun _ => .pure _
  exact .advance fun word => .bind (.consume _) fun all => .bind (lively_branchIn hi kind _)
    fun _ => .look fun _ => .pure _

omit hi in
theorem lively_recordAll (clauses : List Clause) : Lively setting inner (recordAll clauses) := by
  induction clauses with
  | nil => exact .pure ()
  | cons clause clauses ih => exact .bind trivial fun _ => ih

theorem lively_existsBody : Lively setting inner existsBody := by
  have hpattern : Lively setting inner patternBody :=
    .bind (.look fun _ => .pure _) fun _ => .bind (lively_pattern hi) fun _ =>
      .bind (.optionally (.isAt _) lively_whereClause) fun _ => .bind (lively_recordAll _) fun _ =>
        .look fun _ => .pure _
  exact .look fun token => .ite (lively_query hi .subquery) hpattern

/-- **Whatever nests is lively.** -/
theorem lively_body (rule : Nested α) : Lively setting inner (body rule) := by
  cases rule with
  | expression strength => exact lively_expressionOf hi strength
  | subquery => exact lively_query hi .subquery
  | existsBody => exact lively_existsBody hi

end Nested

end Grammar

end Cypher
