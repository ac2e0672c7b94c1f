import Cypher.Proofs.Stripped.Rule

/-!
# Rules for expressions do not see where things are

One lemma for each rule of the grammar, up to expressions: the rule is alike to itself. Rules that
are handed an offset or a tree are alike when they are handed different offsets, or trees that are
the same but for their spans.
-/

namespace Cypher.Grammar

open Rule hiding pure bind

/-! ### Names, labels and maps -/

theorem alike_move : Alike move move := .advanceThen fun _ _ => .pure rfl

theorem alike_expression : Alike expression expression := .expression 0

theorem alike_variableName : Alike variableName variableName := by
  refine .here fun t t' hkind _ => ?_
  rw [hkind]
  split
  · exact .advanceThen fun _ _ => .pure rfl
  · exact .advanceThen fun _ _ => .pure rfl
  · exact .fail trivial

theorem alike_symbolicName (what : String) : Alike (symbolicName what) (symbolicName what) := by
  refine .here fun t t' hkind hlexeme => ?_
  rw [hkind, hlexeme]
  split
  · exact .advanceThen fun _ _ => .pure rfl
  · exact .advanceThen fun _ _ => .pure rfl
  · exact .advanceThen fun _ _ => .pure rfl
  · exact .fail trivial

theorem alike_atNamePart : Alike atNamePart atNamePart :=
  .andThen (.isAt _) fun _ => .ite (.andThen (.look View.alike_next) fun _ => .pure rfl)
    (.pure rfl)

theorem alike_namePart (what : String) : Alike (namePart what) (namePart what) :=
  .andThen alike_move fun _ => .bind (alike_symbolicName what) fun _ _ h => .pure (Strip.value_eq h)

theorem alike_qualifiedName (what : String) :
    Alike (qualifiedName what) (qualifiedName what) := by
  refine .bind (alike_symbolicName what) fun first first' hfirst => ?_
  rw [Strip.value_eq hfirst]
  exact .andThen (.many (.optionally alike_atNamePart (alike_namePart what)) rfl) fun parts =>
    .spanFrom _ _ fun _ _ => .pure rfl

theorem alike_labels : Alike labels labels := by
  refine .bind (.many (.optionally (.consume _) (alike_symbolicName _)) rfl)
    fun labels labels' h => ?_
  rw [Strip.isEmpty_eq h]
  exact .ite (.fail trivial) (.pure h)

theorem alike_mapEntry : Alike mapEntry mapEntry :=
  .bind (alike_symbolicName _) fun key key' hkey => .expectThen fun _ _ =>
    .bind alike_expression fun value value' hvalue => .pure (by simp [hkey, hvalue])

theorem alike_mapLiteral : Alike mapLiteral mapLiteral :=
  .expectThen fun _ _ => .bind (.listUntil _ alike_mapEntry) fun entries entries' h =>
    .expectThen fun _ _ => .spanFrom _ _ fun _ _ => .pure (by simp [h])

theorem alike_properties : Alike properties properties := by
  refine .here fun t t' hkind _ => ?_
  rw [hkind]
  split
  · exact .bind alike_mapLiteral fun _ _ h => .pure (congrArg some h)
  · exact .advanceThen fun _ _ => .pure (by simp)
  · exact .pure rfl

/-! ### Patterns -/

theorem alike_lengthBound : Alike lengthBound lengthBound := by
  refine .here fun t t' hkind _ => ?_
  rw [hkind]
  split
  · split
    · exact .andThen alike_move fun _ => .pure rfl
    · exact .fail trivial
  · exact .pure rfl

theorem alike_pathLength : Alike pathLength pathLength :=
  .andThen alike_lengthBound fun _ => .andThen (.consume _) fun _ =>
    .ite (.andThen alike_lengthBound fun _ => .pure rfl) (.pure rfl)

theorem alike_relationshipType : Alike relationshipType relationshipType := alike_symbolicName _

theorem alike_furtherType : Alike furtherType furtherType :=
  .andThen (.consume _) fun _ => alike_relationshipType

theorem alike_relationshipTypes : Alike relationshipTypes relationshipTypes := by
  refine .andThen (.consume _) fun _ => .ite ?_ (.pure rfl)
  exact .bind alike_relationshipType fun first first' h =>
    .many (.optionally (.consume _) alike_furtherType) (by simp [h])

instance : Strip Detail :=
  ⟨fun d => ⟨strip d.binder, strip d.types, d.length, strip d.properties⟩⟩

/-- Details that are the same but for spans. -/
theorem strip_detail_iff {d e : Detail} : strip d = strip e ↔
    strip d.binder = strip e.binder ∧ strip d.types = strip e.types ∧ d.length = e.length ∧
      strip d.properties = strip e.properties := Detail.mk.injEq .. ▸ Iff.rfl

theorem alike_detail : Alike detail detail := by
  refine .bind (.optionally .atVariable alike_variableName) fun binder binder' hbinder => ?_
  refine .bind alike_relationshipTypes fun types types' htypes => ?_
  refine .andThen (.optionally (.consume _) alike_pathLength) fun length => ?_
  refine .bind alike_properties fun properties properties' hproperties => .expectThen fun _ _ => ?_
  exact .pure (strip_detail_iff.2 ⟨hbinder, htypes, rfl, hproperties⟩)

theorem alike_detailIfAny : Alike detailIfAny detailIfAny :=
  .andThen (.consume _) fun _ => .ite alike_detail (.pure rfl)

theorem alike_relationship : Alike relationship relationship := by
  refine .startHere fun _ _ => .andThen (.consume _) fun left => .expectThen fun _ _ => ?_
  refine .bind alike_detailIfAny fun detail detail' h => .expectThen fun _ _ => ?_
  refine .andThen (.consume _) fun right => .spanFrom _ _ fun _ _ => .pure ?_
  obtain ⟨hbinder, htypes, hlength, hproperties⟩ := strip_detail_iff.1 h
  simp [hbinder, htypes, hlength, hproperties]

theorem alike_nodeLabels : Alike nodeLabels nodeLabels :=
  .andThen (.isAt _) fun _ => .ite alike_labels (.pure rfl)

theorem alike_pathNode : Alike pathNode pathNode := by
  refine .expectThen fun _ _ => ?_
  refine .bind (.optionally .atVariable alike_variableName) fun binder binder' hbinder => ?_
  refine .bind alike_nodeLabels fun labels labels' hlabels => ?_
  refine .bind alike_properties fun properties properties' hproperties => .expectThen fun _ _ => ?_
  exact .spanFrom _ _ fun _ _ => .pure (by simp [hbinder, hlabels, hproperties])

theorem alike_atRelationship : Alike atRelationship atRelationship := by
  refine .here fun t t' hkind _ => ?_
  rw [hkind]
  split
  · exact .pure rfl
  · exact .andThen (.look View.alike_next) fun _ => .pure rfl
  · exact .pure rfl

theorem alike_step : Alike step step :=
  .bind alike_relationship fun arrow arrow' harrow => .bind alike_pathNode fun node node' hnode =>
    .pure (by simp [harrow, hnode])

theorem alike_pathName : Alike pathName pathName :=
  .bind alike_variableName fun _ _ h => .andThen alike_move fun _ => .pure h

theorem alike_patternPart : Alike patternPart patternPart := by
  refine .startHere fun _ _ => ?_
  refine .bind (.optionally (.atVariableBefore _) alike_pathName) fun binder binder' hbinder => ?_
  refine .bind alike_pathNode fun node node' hnode => ?_
  refine .bind (.many (.optionally alike_atRelationship alike_step) rfl)
    fun chain chain' hchain => ?_
  exact .spanFrom _ _ fun _ _ => .pure (by simp [hbinder, hnode, hchain])

theorem alike_pattern : Alike pattern pattern :=
  .startHere fun _ _ => .bind (.separated alike_patternPart) fun parts parts' h =>
    .spanFrom _ _ fun _ _ => .pure (by simp [h])

/-! ### Lists, cases and calls -/

theorem alike_expressionList (close : Sign) : Alike (expressionList close) (expressionList close) :=
  .listUntil close alike_expression

theorem alike_elementProjection (projects : Bool) :
    Alike (elementProjection projects) (elementProjection projects) :=
  .ite (.optionally (.consume _) alike_expression) (.pure rfl)

theorem alike_comprehension (start start' : Nat) (close : Sign) (projects : Bool) :
    Alike (comprehension start close projects) (comprehension start' close projects) := by
  refine .bind alike_variableName fun binder binder' hbinder => .expectThen fun _ _ => ?_
  refine .bind alike_expression fun list list' hlist => ?_
  refine .bind (.optionally (.consume _) alike_expression) fun predicate predicate' hpredicate => ?_
  refine .bind (alike_elementProjection projects) fun projection projection' hprojection => ?_
  exact .expectThen fun _ _ => .spanFrom _ _ fun _ _ =>
    .pure (by simp [hbinder, hlist, hpredicate, hprojection])

theorem alike_listLiteral : Alike listLiteral listLiteral := by
  refine .expectThen fun _ _ => .andThen (.atVariableBefore _) fun _ => .ite ?_ ?_
  · exact .bind (alike_comprehension _ _ _ _) fun body body' h => .pure (by simp [h])
  · exact .bind (alike_expressionList _) fun items items' h => .expectThen fun _ _ =>
      .spanFrom _ _ fun _ _ => .pure (by simp [h])

theorem alike_caseAlternative : Alike caseAlternative caseAlternative :=
  .bind alike_expression fun condition condition' hcondition => .expectThen fun _ _ =>
    .bind alike_expression fun result result' hresult => .pure (by simp [hcondition, hresult])

theorem alike_caseDistinction : Alike caseDistinction caseDistinction := by
  refine .advanceThen fun _ _ => ?_
  refine .bind (.skipIf (.isAt _) alike_expression) fun operand operand' hoperand => ?_
  refine .bind (.many (.optionally (.consume _) alike_caseAlternative) rfl)
    fun alternatives alternatives' halternatives => ?_
  rw [Strip.isEmpty_eq halternatives]
  refine .ite (.fail trivial) ?_
  refine .bind (.optionally (.consume _) alike_expression) fun otherwise otherwise' hotherwise => ?_
  exact .expectThen fun _ _ => .spanFrom _ _ fun _ _ =>
    .pure (by simp [hoperand, halternatives, hotherwise])

theorem alike_atLoneStar : Alike atLoneStar atLoneStar :=
  .andThen (.isAt _) fun _ => .ite (.andThen (.look View.alike_next) fun _ => .pure rfl)
    (.pure rfl)

theorem alike_callArguments (name : String) (start start' : Nat) :
    Alike (callArguments name start) (callArguments name start') :=
  .andThen (.consume _) fun distinct => .bind (alike_expressionList _) fun arguments arguments' h =>
    .expectThen fun _ _ => .spanFrom _ _ fun _ _ => .pure (by simp [h])

theorem alike_plainCall {name name' : Ident} (h : strip name = strip name') :
    Alike (plainCall name) (plainCall name') := by
  unfold plainCall
  rw [Strip.value_eq h]
  refine .ite (.andThen alike_atLoneStar fun _ => .ite ?_ ?_) (alike_callArguments _ _ _)
  · exact .andThen alike_move fun _ => .andThen alike_move fun _ =>
      .spanFrom _ _ fun _ _ => .pure (by simp)
  · exact alike_callArguments _ _ _

theorem alike_functionCall : Alike functionCall functionCall := by
  refine .bind (alike_qualifiedName _) fun name name' h => .expectThen fun _ _ => ?_
  have hplain := alike_plainCall h
  rw [Strip.value_eq h]
  split
  · refine .andThen (.atVariableBefore _) fun _ => .ite ?_ hplain
    exact .bind (alike_comprehension _ _ _ _) fun body body' hbody => .pure (by simp [hbody])
  · exact hplain

theorem alike_existence : Alike existence existence := by
  refine .andThen (.look View.alike_next) fun kind => ?_
  split
  · exact alike_functionCall
  · refine .andThen (.requireSubqueries _) fun _ => .advanceThen fun _ _ => ?_
    refine .andThen alike_move fun _ => .bind .existsBody fun body body' h => ?_
    exact .expectThen fun _ _ => .spanFrom _ _ fun _ _ => .pure (by simp [h])
  · exact .andThen alike_move fun _ => .fail trivial

/-! ### Operands -/

theorem alike_literalHere (value : Literal) : Alike (literalHere value) (literalHere value) :=
  .advanceThen fun _ _ => .pure (by simp)

theorem alike_variableHere (name : String) : Alike (variableHere name) (variableHere name) :=
  .advanceThen fun _ _ => .pure (by simp)

theorem alike_group : Alike group group :=
  .andThen alike_move fun _ => .bind alike_expression fun _ _ h => .expectThen fun _ _ => .pure h

theorem alike_named (name : String) : Alike (named name) (named name) := by
  refine .andThen (.look View.alike_opensCall) fun _ => .ite alike_functionCall (.ite ?_ ?_)
  · exact .andThen (.look View.alike_next) fun _ => .ite (.fail trivial) (alike_variableHere name)
  · exact alike_variableHere name

theorem alike_operand : Alike operand operand := by
  refine .here fun t t' hkind _ => ?_
  rw [hkind]
  split
  · split
    · exact alike_literalHere _
    · exact .fail trivial
  · exact alike_literalHere _
  · exact alike_literalHere _
  · exact alike_literalHere _
  · exact alike_literalHere _
  · exact alike_literalHere _
  · exact .advanceThen fun _ _ => .pure (by simp)
  · refine .andThen (.look View.alike_opensPattern) fun _ => .ite ?_ alike_group
    exact .bind alike_patternPart fun path path' h => .pure (by simp [h])
  · exact alike_listLiteral
  · exact alike_mapLiteral
  · exact alike_caseDistinction
  · exact alike_existence
  · exact .andThen (.look View.alike_opensCall) fun _ => .ite alike_functionCall (.fail trivial)
  · exact alike_named _
  · exact alike_variableHere _
  · exact .fail trivial

/-! ### Operators and what follows an operand -/

theorem alike_leading : Alike leading leading := by
  refine .here fun t t' hkind _ => ?_
  rw [hkind]
  split
  · exact alike_operand
  · refine .andThen alike_move fun _ => .here fun u u' hkind' _ => ?_
    rw [hkind']
    refine .ite (.advanceThen fun _ _ => .pure (by simp)) ?_
    exact .bind (.expression _) fun inner inner' h => .pure (by simp [h])

theorem alike_bracketed {base base' : Expression} (h : strip base = strip base') :
    Alike (bracketed base) (bracketed base') := by
  refine .expectThen fun _ _ => ?_
  refine .bind (.skipIf (.isAt _) alike_expression) fun lower lower' hlower => ?_
  refine .andThen (.consume _) fun _ => .ite ?_ (.expectThen fun _ _ => ?_)
  · refine .bind (.skipIf (.isAt _) alike_expression) fun upper upper' hupper => ?_
    exact .expectThen fun _ _ => .spanFrom _ _ fun _ _ => .pure (by simp [h, hlower, hupper])
  · cases lower with
    | none =>
      obtain rfl := Strip.eq_none hlower
      exact .fail trivial
    | some index =>
      obtain ⟨index', rfl, hindex⟩ := Strip.exists_eq_some hlower
      exact .spanFrom _ _ fun _ _ => .pure (by simp [h, hindex])

theorem alike_suffix {base base' : Expression} (h : strip base = strip base') :
    Alike (suffix base) (suffix base') := by
  refine .here fun t t' hkind _ => ?_
  rw [hkind]
  split
  · refine .andThen alike_move fun _ => .bind (alike_symbolicName _) fun key key' hkey => ?_
    exact .pure (by simp [h, hkey])
  · exact .bind alike_labels fun labels labels' hlabels => .spanFrom _ _ fun _ _ =>
      .pure (by simp [h, hlabels])
  · exact alike_bracketed h

theorem alike_nullTest {base base' : Expression} (h : strip base = strip base') :
    Alike (nullTest base) (nullTest base') :=
  .andThen alike_move fun _ => .andThen (.consume _) fun negated => .expectThen fun _ _ =>
    .bind (.look View.alike_previousSpan) fun _ _ _ => .pure (by simp [h])

theorem alike_moveOver (n : Nat) : Alike (moveOver n) (moveOver n) := by
  induction n with
  | zero => exact .pure rfl
  | succ n ih => exact .andThen alike_move fun _ => ih

instance : Strip Chain := ⟨fun c => ⟨strip c.tree, strip c.last⟩⟩

/-- Chains that are the same but for spans. -/
theorem strip_chain_iff {c d : Chain} :
    strip c = strip d ↔ strip c.tree = strip d.tree ∧ strip c.last = strip d.last :=
  Chain.mk.injEq .. ▸ Iff.rfl

theorem strip_join (operator : BinaryOperator) {left left' right right' : Expression}
    (hleft : strip left = strip left') (hright : strip right = strip right') :
    strip (join operator left right) = strip (join operator left' right') := by
  simp [join, hleft, hright]

/-- Chains are extended alike. -/
theorem strip_extend {chain chain' : Chain} (operator : BinaryOperator) {right right' : Expression}
    (h : strip chain = strip chain') (hright : strip right = strip right') :
    strip (chain.extend operator right) = strip (chain'.extend operator right') := by
  obtain ⟨htree, hlast⟩ := strip_chain_iff.1 h
  rcases chain with ⟨tree, _ | last⟩ <;> rcases chain' with ⟨tree', _ | last'⟩
  · simp only [Chain.extend]
    split
    · exact strip_chain_iff.2 ⟨strip_join _ htree hright, congrArg some hright⟩
    · exact strip_chain_iff.2 ⟨strip_join _ htree hright, rfl⟩
  · cases hlast
  · cases hlast
  · have hleft : strip last = strip last' := Option.some.inj hlast
    simp only [Chain.extend]
    split
    · exact strip_chain_iff.2
        ⟨strip_join _ htree (strip_join _ hleft hright), congrArg some hright⟩
    · exact strip_chain_iff.2 ⟨strip_join _ htree hright, rfl⟩

theorem alike_operation (strength : Nat) {chain chain' : Chain} (h : strip chain = strip chain') :
    Alike (operation strength chain) (operation strength chain') := by
  refine .here fun t t' hkind _ => .andThen (.look View.alike_next) fun next => ?_
  rw [hkind]
  split
  · exact .pure rfl
  · refine .ite (.pure rfl) (.andThen (alike_moveOver _) fun _ => ?_)
    exact .bind (.expression _) fun right right' hright =>
      .pure (congrArg some (strip_extend _ h hright))

theorem alike_continuation (strength : Nat) {chain chain' : Chain}
    (h : strip chain = strip chain') :
    Alike (continuation strength chain) (continuation strength chain') := by
  have htree := (strip_chain_iff.1 h).1
  refine .here fun t t' hkind _ => ?_
  rw [hkind]
  refine .ite (.ite (.pure rfl) ?_) (.ite (.ite (.pure rfl) ?_) (alike_operation strength h))
  · exact .bind (alike_suffix htree) fun _ _ hnext =>
      .pure (congrArg some (strip_chain_iff.2 ⟨hnext, rfl⟩))
  · exact .bind (alike_nullTest htree) fun _ _ hnext =>
      .pure (congrArg some (strip_chain_iff.2 ⟨hnext, rfl⟩))

/-- **Expressions are read alike** wherever they stand. -/
theorem alike_expressionOf (strength : Nat) :
    Alike (expressionOf strength) (expressionOf strength) :=
  .bind alike_leading fun _ _ hfirst =>
    .bind (.loop (fun _ _ h => alike_continuation strength h) (strip_chain_iff.2 ⟨hfirst, rfl⟩))
      fun _ _ h => .pure (strip_chain_iff.1 h).1

end Cypher.Grammar
