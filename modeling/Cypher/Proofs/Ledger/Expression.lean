import Cypher.Proofs.Layout.Expression
import Cypher.Proofs.Ledger.Basic

/-!
# Ledgers of expressions

One lemma for each rule of the grammar, up to expressions: the elements it reads are accounted for
in every ledger. Names, and whatever else has no expressions in it, are read without noting
anything. A call is the one expression that a ledger has to be asked about.
-/

namespace Cypher.Grammar

open Rule hiding pure bind
open Composed (elements)

variable {setting : Setting} {inner : Inner} {L : Ledger setting}

/-! ### Rules without expressions -/

section Quiet

theorem quiet_move : move.Quiet setting inner := .bind .advance fun _ => .pure _

theorem quiet_variableName : variableName.Quiet setting inner := by
  refine .bind (.look _) fun token => ?_
  split
  · exact .bind .advance fun _ => .pure _
  · exact .bind .advance fun _ => .pure _
  · exact .fail _

theorem quiet_symbolicName (what : String) : (symbolicName what).Quiet setting inner := by
  refine .bind (.look _) fun token => ?_
  split
  · exact .bind .advance fun _ => .pure _
  · exact .bind .advance fun _ => .pure _
  · exact .bind .advance fun _ => .pure _
  · exact .fail _

theorem quiet_atNamePart : atNamePart.Quiet setting inner :=
  .bind (.isAt _) fun _ => .ite (.bind (.look _) fun _ => .pure _) (.pure _)

theorem quiet_qualifiedName (what : String) : (qualifiedName what).Quiet setting inner := by
  refine .bind (quiet_symbolicName what) fun first => .bind (.many ?_ _) fun parts => ?_
  · refine .optionally quiet_atNamePart (.bind quiet_move fun _ => ?_)
    exact .bind (quiet_symbolicName what) fun _ => .pure _
  · exact .bind (.look _) fun _ => .pure _

theorem quiet_labels : labels.Quiet setting inner := by
  refine .bind (.many (.optionally (.consume _) (quiet_symbolicName _)) _) fun labels => ?_
  exact .ite (.fail _) (.pure _)

theorem quiet_lengthBound : lengthBound.Quiet setting inner := by
  refine .bind (.look _) fun token => ?_
  split
  · split
    · exact .bind quiet_move fun _ => .pure _
    · exact .fail _
  · exact .pure _

theorem quiet_pathLength : pathLength.Quiet setting inner := by
  refine .bind quiet_lengthBound fun least => .bind (.consume _) fun dots => ?_
  exact .ite (.bind quiet_lengthBound fun _ => .pure _) (.pure _)

theorem quiet_furtherType : furtherType.Quiet setting inner :=
  .bind (.consume _) fun _ => quiet_symbolicName _

theorem quiet_relationshipTypes : relationshipTypes.Quiet setting inner := by
  refine .bind (.consume _) fun colon => .ite ?_ (.pure _)
  refine .bind (quiet_symbolicName _) fun first => ?_
  exact .many (.optionally (.consume _) quiet_furtherType) _

theorem quiet_nodeLabels : nodeLabels.Quiet setting inner :=
  .bind (.isAt _) fun _ => .ite quiet_labels (.pure _)

theorem quiet_atRelationship : atRelationship.Quiet setting inner := by
  refine .bind (.look _) fun token => ?_
  split
  · exact .pure _
  · exact .bind (.look _) fun _ => .pure _
  · exact .pure _

theorem quiet_pathName : pathName.Quiet setting inner :=
  .bind quiet_variableName fun _ => .bind quiet_move fun _ => .pure _

theorem quiet_atLoneStar : atLoneStar.Quiet setting inner :=
  .bind (.isAt _) fun _ => .ite (.bind (.look _) fun _ => .pure _) (.pure _)

theorem quiet_moveOver (n : Nat) : (moveOver n).Quiet setting inner := by
  induction n with
  | zero => exact .pure _
  | succ n ih => exact .bind quiet_move fun _ => ih

end Quiet

section Rules

variable (h : inner.Accounts L) {s : State}

include h

/-! ### Names, labels and maps -/

theorem accounts_expression : Accounts L inner [] expression s := h.expression _ s

omit h in
theorem accounts_variableName : Accounts L inner [] variableName s :=
  .names quiet_variableName fun name _ he => ⟨name, List.mem_singleton.1 he⟩

omit h in
theorem accounts_symbolicName (what : String) : Accounts L inner [] (symbolicName what) s :=
  .names (quiet_symbolicName what) fun name _ he => ⟨name, List.mem_singleton.1 he⟩

omit h in
theorem exists_name_of_mem {names : List Ident} {e : Element} (he : e ∈ elements names) :
    ∃ name, e = .name name := by
  obtain ⟨name, -, he⟩ := List.mem_flatMap.1 he
  exact ⟨name, List.mem_singleton.1 he⟩

omit h in
theorem accounts_labels : Accounts L inner [] labels s :=
  .names quiet_labels fun _ _ => exists_name_of_mem

theorem accounts_mapEntry : Accounts L inner [] mapEntry s := by
  refine .bind h.steady (accounts_symbolicName _) fun key t => .skip h.steady (.expect _) ?_
  intro colon u _
  exact .bind h.steady (accounts_expression h) fun value v => .pure fun _ => .rfl

theorem accounts_mapLiteral : Accounts L inner [] mapLiteral s := by
  refine .skip h.steady (.expect _) fun opening t _ => ?_
  refine .bind h.steady (accounts_listUntil h.steady fun _ => accounts_mapEntry h)
    fun entries u => ?_
  exact .skip h.steady (.expect _) fun _ v _ => .look (.close rfl rfl fun _ => .rfl)

theorem accounts_properties : Accounts L inner [] properties s := by
  refine .look ?_
  split
  · exact .bind h.steady (accounts_mapLiteral h) fun map t => .pure (by simp [elements])
  · exact .skip h.steady .advance fun span t _ => .close rfl rfl fun _ => .rfl
  · exact .pure fun _ => .rfl

/-! ### Patterns -/

theorem accounts_detail : Accounts L inner [] detail s := by
  refine .bind h.steady (accounts_optionally h.steady .atVariable fun _ _ => accounts_variableName)
    fun binder t => ?_
  refine .bind h.steady (.names quiet_relationshipTypes fun _ _ => exists_name_of_mem)
    fun types u => ?_
  refine .skip h.steady (.optionally (.consume _) quiet_pathLength) fun length v _ => ?_
  refine .bind h.steady (accounts_properties h) fun properties w => ?_
  exact .skip h.steady (.expect _) fun _ x _ => .pure fun _ => .rfl

theorem accounts_detailIfAny : Accounts L inner [] detailIfAny s :=
  .skip h.steady (.consume _) fun _ _ _ => .ite (fun _ => accounts_detail h) fun _ =>
    .pure fun _ => .rfl

theorem accounts_relationship : Accounts L inner [] relationship s := by
  refine .assuming fun hs => ?_
  refine .startHere (.skip h.steady (.consume _) fun left t hleft => ?_)
  refine .skip h.steady (.expect _) fun _ u hopening => ?_
  refine .bindDone h.steady (accounts_detailIfAny h) fun detail v hdetail => ?_
  refine .skip h.steady (.expect _) fun _ w hclosing => ?_
  refine .skip h.steady (.consume _) fun right x hright => ?_
  refine .look (.closed rfl (L.relationship (t := x) hs h.steady ?_) fun _ => .rfl)
  -- the runs of the parts make up the run of the whole
  have hstart : startHere.run setting inner s = .done s.cursor.front s := rfl
  rw [relationship, run_bind_done hstart, run_bind_done hleft, run_bind_done hopening,
    run_bind_done hdetail, run_bind_done hclosing, run_bind_done hright]
  rfl

theorem accounts_pathNode : Accounts L inner [] pathNode s := by
  refine .skip h.steady (.expect _) fun opening t _ => ?_
  refine .bind h.steady (accounts_optionally h.steady .atVariable fun _ _ => accounts_variableName)
    fun binder u => ?_
  refine .bind h.steady (.names quiet_nodeLabels fun _ _ => exists_name_of_mem) fun labels v => ?_
  refine .bind h.steady (accounts_properties h) fun properties w => ?_
  exact .skip h.steady (.expect _) fun _ x _ => .look (.close rfl rfl fun _ => .rfl)

theorem accounts_step : Accounts L inner [] step s := by
  refine .bind h.steady (accounts_relationship h) fun relationship t => ?_
  exact .bind h.steady (accounts_pathNode h) fun node u => .pure fun _ => .rfl

theorem accounts_patternPart : Accounts L inner [] patternPart s := by
  refine .startHere (.bind h.steady (accounts_optionally h.steady (.atVariableBefore _) fun _ _ =>
    .names quiet_pathName fun name _ he => ⟨name, List.mem_singleton.1 he⟩) fun binder t => ?_)
  refine .bind h.steady (accounts_pathNode h) fun node u => ?_
  refine .bind h.steady (accounts_many h.steady fun _ =>
    accounts_optionally h.steady quiet_atRelationship fun _ _ => accounts_step h) fun chain v => ?_
  exact .look (.close rfl rfl fun _ => .rfl)

theorem accounts_pattern : Accounts L inner [] pattern s := by
  refine .startHere (.bind h.steady (accounts_separated h.steady fun _ => accounts_patternPart h)
    fun parts t => ?_)
  exact .look (.close rfl rfl fun _ => .rfl)

/-! ### Lists, cases and calls -/

theorem accounts_expressionList (close : Sign) : Accounts L inner [] (expressionList close) s :=
  accounts_listUntil h.steady fun _ => accounts_expression h

theorem accounts_elementProjection (projects : Bool) :
    Accounts L inner [] (elementProjection projects) s :=
  .ite (fun _ => accounts_optionally h.steady (.consume _) fun _ _ => accounts_expression h)
    fun _ => .pure fun _ => .rfl

theorem accounts_comprehension (start : Nat) (close : Sign) (projects : Bool) :
    Accounts L inner [] (comprehension start close projects) s := by
  refine .bind h.steady accounts_variableName fun binder t => ?_
  refine .skip h.steady (.expect _) fun _ u _ => ?_
  refine .bind h.steady (accounts_expression h) fun list v => ?_
  refine .bind h.steady (accounts_optionally h.steady (.consume _) fun _ _ => accounts_expression h)
    fun predicate w => ?_
  refine .bind h.steady (accounts_elementProjection h projects) fun projection x => ?_
  exact .skip h.steady (.expect _) fun _ y _ => .look (.close rfl rfl fun _ => .rfl)

theorem accounts_listLiteral : Accounts L inner [] listLiteral s := by
  refine .skip h.steady (.expect _) fun opening t _ => ?_
  refine .skip h.steady (.atVariableBefore _) fun binds u _ => .ite (fun _ => ?_) fun _ => ?_
  · exact .part h.steady (accounts_comprehension h _ _ _) fun body v => .pure fun _ => .rfl
  · refine .bind h.steady (accounts_expressionList h _) fun items v => ?_
    exact .skip h.steady (.expect _) fun _ w _ => .look (.close rfl rfl fun _ => .rfl)

theorem accounts_caseAlternative : Accounts L inner [] caseAlternative s := by
  refine .bind h.steady (accounts_expression h) fun condition t => ?_
  refine .skip h.steady (.expect _) fun _ u _ => ?_
  exact .bind h.steady (accounts_expression h) fun result v => .pure fun _ => .rfl

theorem accounts_caseDistinction : Accounts L inner [] caseDistinction s := by
  refine .skip h.steady .advance fun opening t _ => ?_
  refine .bind h.steady (accounts_skipIf h.steady (.isAt _) fun _ => accounts_expression h)
    fun operand u => ?_
  refine .bind h.steady (accounts_many h.steady fun _ =>
    accounts_optionally h.steady (.consume _) fun _ _ => accounts_caseAlternative h)
    fun alternatives v => .ite (fun _ => .fail _) fun _ => ?_
  refine .bind h.steady (accounts_optionally h.steady (.consume _) fun _ _ => accounts_expression h)
    fun otherwise w => ?_
  exact .skip h.steady (.expect _) fun _ x _ => .look (.close rfl rfl fun _ => .rfl)

/-- A call whose name is accounted for. -/
theorem accounts_callArguments {name : String} (start : Nat)
    (hname : ∀ distinct arguments span,
      L.demand (.expression (.call name distinct arguments span))) :
    Accounts L inner [] (callArguments name start) s := by
  refine .skip h.steady (.consume _) fun distinct t _ => ?_
  refine .bind h.steady (accounts_expressionList h _) fun arguments u => ?_
  exact .skip h.steady (.expect _) fun _ v _ => .look (.closed rfl (hname _ _ _) fun _ => .rfl)

theorem accounts_plainCall {name : Ident}
    (hname : ∀ distinct arguments span,
      L.demand (.expression (.call name.value distinct arguments span))) :
    Accounts L inner [] (plainCall name) s := by
  refine .ite (fun _ => .skip h.steady quiet_atLoneStar fun star t _ => .ite (fun _ => ?_) fun _ =>
    accounts_callArguments h _ hname) fun _ => accounts_callArguments h _ hname
  refine .skip h.steady quiet_move fun _ u _ => .skip h.steady quiet_move fun _ v _ => .look ?_
  exact .close rfl rfl fun _ => .rfl

theorem accounts_functionCall (hk : s.cursor.kind.isNamePart = true) :
    Accounts L inner [] functionCall s := by
  refine .assuming fun hs => .skip h.steady (quiet_qualifiedName _) fun name t hname => ?_
  have hcall := L.call hs hk hname
  refine .skip h.steady (.expect _) fun _ u _ => ?_
  split
  · refine .skip h.steady (.atVariableBefore _) fun binds v _ => .ite (fun _ => ?_) fun _ =>
      accounts_plainCall h hcall
    exact .part h.steady (accounts_comprehension h _ _ _) fun body w => .recast rfl rfl rfl rfl
  · exact accounts_plainCall h hcall

/-! ### Operands -/

theorem accounts_existence (hk : s.cursor.kind = .keyword .EXISTS) :
    Accounts L inner [] existence s := by
  refine .look ?_
  split
  · exact accounts_functionCall h (hk ▸ rfl)
  · refine .requireSubqueries (.skip h.steady .advance fun opening t _ => ?_)
    refine .skip h.steady quiet_move fun _ u _ => .bind h.steady (h.existsBody u) fun body v => ?_
    exact .skip h.steady (.expect _) fun _ w _ => .look (.close rfl rfl fun _ => .rfl)
  · exact .skip h.steady quiet_move fun _ _ _ => .fail _

theorem accounts_group : Accounts L inner [] group s := by
  refine .skip h.steady quiet_move fun _ t _ => .bind h.steady (accounts_expression h) fun e u => ?_
  exact .skip h.steady (.expect _) fun _ v _ => .pure fun _ => .rfl

theorem accounts_variableHere (name : String) : Accounts L inner [] (variableHere name) s :=
  .skip h.steady .advance fun _ _ _ => .close rfl rfl fun _ => .rfl

theorem accounts_literalHere {value : Literal}
    (hd : L.demand (.expression (.literal value s.cursor.current.span))) :
    Accounts L inner [] (literalHere value) s := by
  refine .skip h.steady .advance fun span t hr => ?_
  cases hr
  exact .closed rfl hd fun _ => .rfl

theorem accounts_named {name : String} (hk : s.cursor.kind = .identifier name) :
    Accounts L inner [] (named name) s := by
  refine .look (.ite (fun _ => accounts_functionCall h (hk ▸ rfl)) fun _ => .ite (fun _ => ?_)
    fun _ => accounts_variableHere h name)
  exact .look (.ite (fun _ => .fail _) fun _ => accounts_variableHere h name)

theorem accounts_operand : Accounts L inner [] operand s := by
  refine .look (.assuming fun hs => ?_)
  split
  · next hk =>
    split
    · next hn => exact accounts_literalHere h (L.integer hs hk hn)
    · exact .fail _
  · exact accounts_literalHere h (L.plain rfl)
  · exact accounts_literalHere h (L.plain rfl)
  · exact accounts_literalHere h (L.plain rfl)
  · exact accounts_literalHere h (L.plain rfl)
  · exact accounts_literalHere h (L.plain rfl)
  · exact .skip h.steady .advance fun _ _ _ => .close rfl rfl fun _ => .rfl
  · refine .look (.ite (fun _ => ?_) fun _ => accounts_group h)
    exact .part h.steady (accounts_patternPart h) fun part t => .close rfl rfl fun _ => .rfl
  · exact accounts_listLiteral h
  · exact accounts_mapLiteral h
  · exact accounts_caseDistinction h
  · next hk => exact accounts_existence h hk
  · next hk =>
    exact .look (.ite (fun _ => accounts_functionCall h (show s.cursor.kind.isNamePart = true from
      (show s.cursor.kind = _ from hk) ▸ rfl)) fun _ => .fail _)
  · next hk => exact accounts_named h hk
  · exact accounts_variableHere h _
  · exact .fail _

/-! ### Operators and suffixes -/

omit h in
theorem minus_of_negate {kind : TokenKind} (h : unaryOperator? kind = some .negate) :
    kind = .sign .minus := by
  unfold unaryOperator? at h
  split at h
  all_goals first
    | rfl
    | cases h

theorem accounts_leading : Accounts L inner [] leading s := by
  refine .look (.assuming fun hs => ?_)
  split
  · exact accounts_operand h
  · next hk =>
    refine .skip h.steady quiet_move fun _ t ht => .look (.ite (fun hleast => ?_) fun _ => ?_)
    · cases ht
      refine .skip h.steady .advance fun digits u hu => ?_
      cases hu
      obtain ⟨hoperator, hdigits⟩ := Bool.and_eq_true_iff.1 hleast
      exact .closed rfl (L.least hs (minus_of_negate ((of_decide_eq_true hoperator) ▸ hk)) hdigits)
        fun _ => .rfl
    · exact .part h.steady (h.expression _ t) fun operand u => .close rfl rfl fun _ => .rfl

theorem accounts_bracketed {base : Expression}
    (hd : ∀ e : Expression, e.base? = some base → L.demand (.expression e)) :
    Accounts L inner [.expression base] (bracketed base) s := by
  refine .skip h.steady (.expect _) fun _ t _ => ?_
  refine .bind h.steady (accounts_skipIf h.steady (.isAt _) fun _ => accounts_expression h)
    fun lower u => .skip h.steady (.consume _) fun dots v _ => .ite (fun _ => ?_) fun _ => ?_
  · refine .bind h.steady (accounts_skipIf h.steady (.isAt _) fun _ => accounts_expression h)
      fun upper w => ?_
    exact .skip h.steady (.expect _) fun _ x _ => .look (.closed rfl (hd _ rfl) fun _ => .rfl)
  · refine .skip h.steady (.expect _) fun _ w _ => ?_
    cases lower with
    | none => exact .fail _
    | some index => exact .look (.closed rfl (hd _ rfl) fun _ => .rfl)

theorem accounts_suffix {base : Expression}
    (hd : ∀ e : Expression, e.base? = some base → L.demand (.expression e)) :
    Accounts L inner [.expression base] (suffix base) s := by
  refine .look ?_
  split
  · refine .skip h.steady quiet_move fun _ t _ => .bind h.steady (accounts_symbolicName _) ?_
    exact fun key u => .closed rfl (hd _ rfl) fun _ => .rfl
  · refine .bind h.steady accounts_labels fun labels t => ?_
    exact .look (.closed rfl (hd _ rfl) fun _ => .rfl)
  · exact accounts_bracketed h hd

theorem accounts_nullTest {base : Expression}
    (hd : ∀ negated span, L.demand (.expression (.isNull base negated span))) :
    Accounts L inner [.expression base] (nullTest base) s := by
  refine .skip h.steady quiet_move fun _ t _ => .skip h.steady (.consume _) fun negated u _ => ?_
  exact .skip h.steady (.expect _) fun _ v _ => .look (.closed rfl (hd _ _) fun _ => .rfl)

/-! ### Chains of operators -/

/-- **A chain that takes no operand from elsewhere**: where its tree meets the demand, so does the
operand that a further comparison takes up. -/
def Chain.Consistent (L : Ledger setting) (chain : Chain) : Prop :=
  L.Met [.expression chain.tree] → L.Met (elements chain.last)

/-- **What becomes of a chain.** It stays consistent, and its tree is accounted for. -/
def Grows (L : Ledger setting) (s : State) (chain : Chain) (t : State) (chain' : Chain) : Prop :=
  chain'.Consistent L ∧
    (L.Met [.expression chain'.tree] ↔ L.Met [.expression chain.tree] ∧ L.Still s t)

omit h in
theorem grows_refl {chain : Chain} (hc : chain.Consistent L) : Grows L s chain s chain :=
  ⟨hc, fun hm => ⟨hm, Ledger.still_of_eq rfl⟩, And.left⟩

omit h in
theorem met_join {operator : BinaryOperator} {l r : Expression}
    (hd : L.demand (.expression (join operator l r))) :
    L.Met [.expression (join operator l r)] ↔ L.Met [.expression l] ∧ L.Met [.expression r] := by
  rw [Ledger.met_singleton, and_iff_right hd]
  exact Ledger.met_append (a := [.expression l])

omit h in
/-- An operator joins a chain with its right operand. -/
theorem met_extend {chain : Chain} (hc : chain.Consistent L) {operator : BinaryOperator}
    {right : Expression} (hd : ∀ e ∈ chain.joined operator right, L.demand (.expression e)) :
    L.Met [.expression (chain.extend operator right).tree] ↔
      L.Met [.expression chain.tree] ∧ L.Met [.expression right] := by
  unfold Chain.joined at hd
  unfold Chain.extend
  split
  · next hop =>
    rw [if_pos hop] at hd
    split
    · next left hlast =>
      -- the operand taken up is inside the tree already
      have hleft : L.Met [.expression chain.tree] → L.Met [.expression left] := fun hm => by
        have := hc hm
        rwa [hlast] at this
      rw [hlast] at hd
      obtain ⟨hand, hjoin⟩ := List.forall_mem_cons.1 hd
      rw [met_join hand, met_join (hjoin _ List.mem_cons_self)]
      exact ⟨fun hm => ⟨hm.1, hm.2.2⟩, fun hm => ⟨hm.1, hleft hm.1, hm.2⟩⟩
    · next hlast =>
      rw [hlast] at hd
      exact met_join (hd _ List.mem_cons_self)
  · next hop =>
    rw [if_neg hop] at hd
    exact met_join (hd _ List.mem_cons_self)

omit h in
theorem consistent_extend {chain : Chain} (hc : chain.Consistent L) {operator : BinaryOperator}
    {right : Expression} (hd : ∀ e ∈ chain.joined operator right, L.demand (.expression e)) :
    (chain.extend operator right).Consistent L := by
  intro hm
  have hright := ((met_extend hc hd).1 hm).2
  unfold Chain.extend
  split
  · split <;> exact hright
  · exact Ledger.met_nil

end Rules

/-! ### Expressions -/

section Chains

variable {room strength : Nat} (h : Inner.Accounts L (runNested setting body room)) {s₀ s t : State}

include h

/-- **What goes on with a chain on its way is accounted for.** -/
theorem grows_continuation {chain : Chain} {next : Option Chain} (hs : L.known s₀.cursor)
    (part : Partway setting (runNested setting body room) strength s₀ chain s)
    (hc : chain.Consistent L)
    (hr : (continuation strength chain).run setting (runNested setting body room) s =
      .done next t) : Grows L s chain t (next.getD chain) := by
  have hknown := L.onward hs (part.onward h.steady.goesOn).cursor
  cases continues_of_done hr with
  | stop => exact grows_refl hc
  | suffix opens _ run =>
    have hd : ∀ e : Expression, e.base? = some chain.tree → L.demand (.expression e) :=
      fun _ => L.suffix hs part opens
    exact ⟨fun _ => Ledger.met_nil, accounts_suffix h hd hknown _ t run⟩
  | nullTest opens _ run =>
    have hd : ∀ negated span, L.demand (.expression (.isNull chain.tree negated span)) :=
      L.nullTest hs part opens
    exact ⟨fun _ => Ledger.met_nil, accounts_nullTest h hd hknown _ t run⟩
  | @operation operator width right u _ opens _ past run =>
    have hjoined : ∀ e ∈ chain.joined operator right, L.demand (.expression e) :=
      fun e he => L.operation hs part opens he
    have hright := h.expression operator.rightStrength u
      (L.onward hknown (onward_of_done h.steady.goesOn past).cursor) right t run
    refine ⟨consistent_extend hc hjoined, ?_⟩
    rw [Option.getD_some, met_extend hc hjoined]
    change _ ∧ L.Met (elements right) ↔ _
    rw [hright, and_iff_right Ledger.met_nil, Ledger.Still, quiet_moveOver width s _ u past]
    rfl

/-- **Expressions are accounted for.** -/
theorem accounts_expressionOf (s : State) :
    Accounts L (runNested setting body room) [] (expressionOf strength) s := by
  intro hs e v hr
  obtain ⟨first, t, ht, hr⟩ := done_of_bind hr
  obtain ⟨chain, u, hu, hr⟩ := done_of_bind hr
  cases hr
  refine (loop_induct (p := fun chain u => s.problems <+: u.problems ∧
    Partway setting (runNested setting body room) strength s chain u ∧ chain.Consistent L ∧
    (L.Met [.expression chain.tree] ↔ L.Met [] ∧ L.Still s u)) (fun chain u next w hw hr => ?_)
    ⟨h.steady.prefix_of_done ht, .operand ht, fun _ => Ledger.met_nil,
      accounts_leading h hs first t ht⟩ hu).2.2.2
  obtain ⟨hkept, hpart, hc, hmet⟩ := hw
  have hnotes := h.steady.prefix_of_done hr
  obtain ⟨hc', hmet'⟩ := grows_continuation h hs hpart hc hr
  refine ⟨hkept.trans hnotes, ?_, hc', ?_⟩
  · cases next with
    | none =>
      cases continues_of_done hr
      exact hpart
    | some next => exact hpart.step hr
  · rw [hmet', hmet, Ledger.still_trans hkept hnotes, and_assoc]

end Chains

end Cypher.Grammar
