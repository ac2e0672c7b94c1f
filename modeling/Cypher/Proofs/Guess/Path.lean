import Cypher.Proofs.Guess.Row

/-!
# A path is a stretch of a row

What can be read as a path, and begins at a parenthesis of a row, ends in a place of the row again:
the nodes are operands and the arrows are operators between and before operands
(`Cypher.Grammar.behind_of_patternPart`). Nothing has to be known about what is inside the brackets,
since both readings end where the bracket is closed.
-/

namespace Cypher

/-- **A place where no expression goes on.** -/
structure Cursor.Halts (c : Cursor) : Prop where
  /-- No suffix comes next. -/
  suffix : ¬Grammar.opensSuffix c.kind = true
  /-- No test for a missing value does. -/
  test : c.kind ≠ .keyword .IS
  /-- Nor does an operator. -/
  operator : Grammar.binaryOperator? c.kind (c.peek 1) = none

namespace Grammar

open Rule hiding pure bind
open Trial

variable {setting : Setting} {inner : Inner} {s t : State}

/-- An expression of which any operator may be part halts. -/
theorem halts_of_stops (h : Stops 0 s.kinds) : s.cursor.Halts := by
  obtain ⟨hsuffix, htest, hoperator⟩ := stops_kinds_iff.1 h
  refine ⟨fun hk => Nat.not_lt_zero _ (hsuffix hk), fun hk => Nat.not_lt_zero _ (htest hk), ?_⟩
  cases hop : binaryOperator? s.cursor.kind (s.cursor.peek 1) with
  | none => rfl
  | some found => exact absurd (hoperator found.1 found.2 hop) (Nat.not_lt_zero _)

/-- To see whether a relationship comes next is not to move. -/
theorem eq_of_atRelationship {found : Bool}
    (hr : atRelationship.run setting inner s = .done found t) : t = s :=
  (Outcome.done.inj ((run_atRelationship s).symm.trans hr)).2.symm

theorem kind_of_opensPattern {c : Cursor} (h : c.opensPattern = true) :
    c.kind = .sign .leftParen :=
  of_decide_eq_true (Bool.and_eq_true_iff.1 (Bool.and_eq_true_iff.1 h).1).1

/-- An operand that begins with a parenthesis is a path or a group, whichever is guessed. -/
theorem run_operand_of_leftParen (hk : s.cursor.kind = .sign .leftParen) :
    operand.run setting inner s =
      if setting.opensPattern s.cursor then
        (patternPart.run setting inner s).andThen fun part t => .done (.pattern part) t
      else group.run setting inner s := by
  rw [operand, here, run_bind, run_look, Outcome.andThen_done, View.read,
    show s.cursor.current.kind = .sign .leftParen from hk]
  change run setting inner (if setting.opensPattern s.cursor = true then _ else _) s = _
  split
  · exact run_bind ..
  · rfl

theorem run_operand_of_leftBracket (hk : s.cursor.kind = .sign .leftBracket) :
    operand.run setting inner s = listLiteral.run setting inner s := by
  rw [operand, here, run_bind, run_look, Outcome.andThen_done, View.read,
    show s.cursor.current.kind = .sign .leftBracket from hk]

theorem run_operand_of_leftBrace (hk : s.cursor.kind = .sign .leftBrace) :
    operand.run setting inner s = mapLiteral.run setting inner s := by
  rw [operand, here, run_bind, run_look, Outcome.andThen_done, View.read,
    show s.cursor.current.kind = .sign .leftBrace from hk]

theorem run_operand_of_parameter {name : String} (hk : s.cursor.kind = .parameter name) :
    operand.run setting inner s = .done (.parameter name s.cursor.current.span) s.step := by
  rw [operand, here, run_bind, run_look, Outcome.andThen_done, View.read,
    show s.cursor.current.kind = .parameter name from hk]
  rfl

/-- No operand begins with any sign but an opening one. -/
theorem run_operand_of_sign {sign : Sign} (hk : s.cursor.kind = .sign sign)
    (hopens : (TokenKind.sign sign).isOpening = false) :
    operand.run setting inner s =
      .failed (s.diagnostic setting (.expected "an expression")) s := by
  rw [operand, here, run_bind, run_look, Outcome.andThen_done, View.read,
    show s.cursor.current.kind = .sign sign from hk]
  cases sign <;> first | rfl | cases hopens

/-- A path that begins at a parenthesis is a node and the steps behind it. -/
theorem of_patternPart {part : PatternPart Expression} (hk : s.cursor.kind = .sign .leftParen)
    (hr : patternPart.run setting inner s = .done part t) :
    ∃ node u chain, pathNode.run setting inner s = .done node u ∧
      (many (optionally atRelationship step) []).run setting inner u = .done chain t := by
  obtain ⟨_, _, ⟨⟩, hr⟩ := done_of_bind hr
  obtain ⟨binder, u, hu, hr⟩ := done_of_bind hr
  obtain ⟨named, v, hv, hu⟩ := done_of_bind hu
  rw [run_atVariableBefore, hk] at hv
  cases hv
  cases hu
  obtain ⟨node, v, hv, hr⟩ := done_of_bind hr
  obtain ⟨chain, w, hw, hr⟩ := done_of_bind hr
  cases hr
  exact ⟨node, v, chain, hv, hw⟩

/-! ### Places in a row -/

section Row

variable {T : Trial} {room depth : Nat} {stop c d : Cursor} {keyed : Bool}

/-- Where an operand begins, one has been read. -/
theorem exists_reads_of_before (hrow : T.Row room depth stop keyed .before c)
    (hk : unaryOperator? c.kind = none) :
    ∃ c', T.Reads room depth operand c c' ∧ T.Row room depth stop keyed .behind c' := by
  cases hrow with
  | sign opens => cases hk.symm.trans opens
  | least opens => rw [opens] at hk; cases hk
  | operand _ reads rest => exact ⟨_, reads, rest⟩

/-- Behind a sign that belongs to no number, an operand comes. -/
theorem before_of_minus (hrow : T.Row room depth stop keyed .before c)
    (hk : c.kind = .sign .minus) (hdigits : isLeastMagnitude c.advance.kind = false) :
    T.Row room depth stop keyed .before c.advance := by
  cases hrow with
  | sign _ _ _ rest => exact rest
  | least _ digits => cases hdigits.symm.trans digits
  | operand opens => rw [hk] at opens; cases opens

/-- Behind an operator between operands, an operand comes. -/
theorem before_of_sign (hstop : stop.Halts) {operator : BinaryOperator}
    (hrow : T.Row room depth stop keyed .behind c)
    (hop : binaryOperator? c.kind (c.peek 1) = some (operator, 1)) :
    T.Row room depth stop keyed .before c.advance := by
  cases hrow with
  | stop => cases hstop.operator.symm.trans hop
  | suffix opens => cases (binaryOperator?_of_opensSuffix opens).symm.trans hop
  | nullTest opens => rw [opens] at hop; cases hop
  | keys opens => rw [opens] at hop; cases hop
  | operation opens _ rest =>
    cases opens.symm.trans hop
    exact rest

section Brackets

variable (hc : c.Closed) (hcd : c.Onward d) (hbeyond : c.beyond 0 = some d.rest)

include hc hcd hbeyond

/-- **A group has been passed** where its parenthesis is closed. -/
theorem behind_of_leftParen (hrow : T.Row room depth stop keyed .before c)
    (hk : c.kind = .sign .leftParen) : T.Row room depth stop keyed .behind d := by
  obtain ⟨c', ⟨j, s, e, t, -, rfl, -, hr, rfl⟩, hrow'⟩ :=
    exists_reads_of_before hrow (by rw [hk]; rfl)
  have hi : Inner.GoesOn (T.grouped j) := goesOn_runNested T.setting.grouping body j
  rw [run_operand_of_leftParen hk] at hr
  have hgroup : group.run T.setting.grouping (T.grouped j) s = .done e t := hr
  have hend := beyond_of_group T.strict_grouping nofun hc hk hgroup
  rw [hcd.eq_of_rest (onward_of_done hi hgroup).cursor (Option.some.inj (hbeyond.symm.trans hend))]
  exact hrow'

/-- **A list has been passed** where its bracket is closed. -/
theorem behind_of_leftBracket (hrow : T.Row room depth stop keyed .before c)
    (hk : c.kind = .sign .leftBracket) : T.Row room depth stop keyed .behind d := by
  obtain ⟨c', ⟨j, s, e, t, -, rfl, -, hr, rfl⟩, hrow'⟩ :=
    exists_reads_of_before hrow (by rw [hk]; rfl)
  have hi : Inner.GoesOn (T.grouped j) := goesOn_runNested T.setting.grouping body j
  rw [run_operand_of_leftBracket hk] at hr
  have hend := beyond_of_listLiteral T.strict_grouping nofun hc hr
  rw [hcd.eq_of_rest (onward_of_done hi hr).cursor (Option.some.inj (hbeyond.symm.trans hend))]
  exact hrow'

end Brackets

/-! ### Paths are read -/

variable {n : Nat}

/-- The arrow goes on behind its detail, or without one. -/
theorem kind_of_detailIfAny {found : Detail} (hr : detailIfAny.run setting inner s = .done found t)
    (hdash : t.cursor.kind = .sign .minus) :
    s.cursor.kind = .sign .leftBracket ∨ s.cursor.kind = .sign .minus := by
  obtain ⟨taken, u, hu, hrest⟩ := done_of_bind hr
  obtain ⟨rfl, hk, rfl⟩ | ⟨rfl, -, rfl⟩ := of_consume hu
  · exact .inl hk
  · cases hrest
    exact .inr hdash

section Steps

variable (hc : s.cursor.Closed)

include hc

/-- A node that stands where an operand begins. -/
theorem behind_of_pathNode {node : NodePattern Expression}
    (hrow : T.Row room depth stop keyed .before s.cursor)
    (hr : pathNode.run T.setting (T.guessed n) s = .done node t) :
    T.Row room depth stop keyed .behind t.cursor := by
  have hi : Inner.GoesOn (T.guessed n) := goesOn_runNested T.setting body n
  have hbeyond := beyond_of_node T.strict (fun _ h => T.lookahead ▸ h) hc hr
  have hst := onward_of_done hi hr
  obtain ⟨_, u, hu, -⟩ := done_of_bind hr
  exact behind_of_leftParen hc hst.cursor hbeyond hrow (of_expect hu).1

variable (hstop : stop.Halts)

include hstop

/-- The detail of a relationship and the dash behind it. -/
theorem before_of_detailIfAny {found : Detail}
    (hrow : T.Row room depth stop keyed .before s.cursor)
    (hr : detailIfAny.run T.setting (T.guessed n) s = .done found t)
    (hdash : t.cursor.kind = .sign .minus)
    (hdigits : isLeastMagnitude t.cursor.advance.kind = false) :
    T.Row room depth stop keyed .before t.cursor.advance := by
  have hi : Inner.GoesOn (T.guessed n) := goesOn_runNested T.setting body n
  have hst := onward_of_done hi hr
  obtain ⟨taken, u, hu, hrest⟩ := done_of_bind hr
  obtain ⟨rfl, hk, rfl⟩ | ⟨rfl, -, rfl⟩ := of_consume hu
  · have hbeyond := beyond_of_detail T.strict (fun _ h => T.lookahead ▸ h) hc hk hrest
    have hbehind := behind_of_leftBracket hc hst.cursor hbeyond hrow hk
    exact before_of_sign hstop hbehind (by rw [hdash]; rfl)
  · cases hrest
    exact before_of_minus hrow hdash hdigits

/-- **A relationship** that a node follows: operators, and perhaps a list between them. -/
theorem before_of_relationship {found : RelationshipPattern Expression}
    (hrow : T.Row room depth stop keyed .behind s.cursor)
    (hr : relationship.run T.setting (T.guessed n) s = .done found t)
    (hnode : t.cursor.kind = .sign .leftParen) :
    T.Row room depth stop keyed .before t.cursor := by
  have hi : Inner.GoesOn (T.guessed n) := goesOn_runNested T.setting body n
  obtain ⟨_, _, ⟨⟩, hr⟩ := done_of_bind hr
  obtain ⟨left, u, hu, hr⟩ := done_of_bind hr
  obtain ⟨_, v, hv, hr⟩ := done_of_bind hr
  obtain ⟨hdash, rfl⟩ := of_expect hv
  obtain ⟨detail, w, hw, hr⟩ := done_of_bind hr
  obtain ⟨_, x, hx, hr⟩ := done_of_bind hr
  obtain ⟨hdash', rfl⟩ := of_expect hx
  obtain ⟨right, y, hy, hr⟩ := done_of_bind hr
  cases hr
  have hsu := onward_of_done hi hu
  have hcu : u.step.cursor.Closed := (hsu.closed hc).advance
  -- behind the first dash
  have hbefore : T.Row room depth stop keyed .before u.step.cursor := by
    obtain ⟨rfl, hk, rfl⟩ | ⟨rfl, -, rfl⟩ := of_consume hu
    · refine before_of_minus (before_of_sign hstop hrow (by rw [hk]; rfl)) hdash ?_
      obtain hk' | hk' := kind_of_detailIfAny hw hdash'
      · exact hk' ▸ rfl
      · exact hk' ▸ rfl
    · exact before_of_sign hstop hrow (by rw [hdash]; rfl)
  -- behind the second, where no operand begins with an arrowhead
  obtain ⟨rfl, hk, rfl⟩ | ⟨rfl, -, rfl⟩ := of_consume hy
  · have hrow' := before_of_detailIfAny hcu hstop hbefore hw hdash' (hk ▸ rfl)
    obtain ⟨_, ⟨j, z, _, _, -, hz, -, hrun, -⟩, -⟩ :=
      exists_reads_of_before hrow' (by rw [show w.cursor.advance.kind = _ from hk]; rfl)
    have hgt : z.cursor.kind = .sign .gt := hz ▸ hk
    rw [run_operand_of_sign hgt rfl] at hrun
    cases hrun
  · exact before_of_detailIfAny hcu hstop hbefore hw hdash' (hnode ▸ rfl)

theorem behind_of_step {one : PatternStep Expression}
    (hrow : T.Row room depth stop keyed .behind s.cursor)
    (hr : step.run T.setting (T.guessed n) s = .done one t) :
    T.Row room depth stop keyed .behind t.cursor := by
  have hi : Inner.GoesOn (T.guessed n) := goesOn_runNested T.setting body n
  obtain ⟨found, u, hu, hr⟩ := done_of_bind hr
  obtain ⟨node, v, hv, hr⟩ := done_of_bind hr
  cases hr
  have hcu := (onward_of_done hi hu).closed hc
  obtain ⟨_, w, hw, -⟩ := done_of_bind hv
  exact behind_of_pathNode hcu (before_of_relationship hc hstop hrow hu (of_expect hw).1) hv

/-- **A path that begins at a parenthesis of a row** ends in a place of the row. -/
theorem behind_of_patternPart {part : PatternPart Expression}
    (hrow : T.Row room depth stop keyed .before s.cursor) (hk : s.cursor.kind = .sign .leftParen)
    (hr : patternPart.run T.setting (T.guessed n) s = .done part t) :
    T.Row room depth stop keyed .behind t.cursor := by
  have hi : Inner.GoesOn (T.guessed n) := goesOn_runNested T.setting body n
  obtain ⟨node, v, chain, hv, hw⟩ := of_patternPart hk hr
  have hcv := (onward_of_done hi hv).closed hc
  refine (loop_induct (p := fun _ x => x.cursor.Closed ∧
    T.Row room depth stop keyed .behind x.cursor) (fun items x next y hx hy => ?_)
      ⟨hcv, behind_of_pathNode hc hrow hv⟩ hw).2
  obtain ⟨one, z, hz, hy⟩ := done_of_bind hy
  cases hy
  obtain ⟨found, x', hx', hz⟩ := done_of_bind hz
  obtain rfl := eq_of_atRelationship hx'
  cases found with
  | false =>
    cases hz
    exact hx
  | true =>
    obtain ⟨one, _, hstep, hz⟩ := done_of_bind hz
    cases hz
    exact ⟨(onward_of_done hi hstep).closed hx.1, behind_of_step hx.1 hstop hx.2 hstep⟩

end Steps

end Row

end Grammar

end Cypher
