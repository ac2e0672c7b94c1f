import Cypher.Proofs.Border
import Cypher.Proofs.Guess.Reading
import Cypher.Proofs.LeftOperands

/-!
# Properties are read as properties

The target of a change has to be a property, so it is not enough that an expression is read up to
the same place with the lookahead. What is a property without it is one with it
(`Cypher.Grammar.ends_property`): the keys at the end of a keyed row, or behind a sole operand, are
taken by what has been read before them.

The one thing in the way is a sole operand in parentheses. It is a property if the expression inside
is one, while a node in its place would not be. But the two can never be read from the same tokens
(`Cypher.Grammar.not_propertyAt_of_pathNode`): behind its name, a node has labels, properties or its
end, and there is no key in any of these.
-/

namespace Cypher

namespace Grammar

open Rule hiding pure bind
open Trial

variable {T : Trial} {room depth : Nat} {stop c c' : Cursor} {s t : State}

section

variable (T room depth stop c)

/-- **A property begins here**, at the front of a keyed row or as a sole operand. -/
def PropertyAt : Prop := T.Row room depth stop true .before c ∨ T.Sole room depth stop c

/-- **A key is still to come.** -/
def Awaits : Prop := T.Row room depth stop true .behind c ∨ T.Keys room depth stop c

end

/-! ### Keys to come -/

/-- None is where no expression goes on. -/
theorem not_awaits_of_halts (hc : c.Halts) : ¬Awaits T room depth stop c := by
  rintro (hrow | hkeys)
  · cases (eq_stop_of_halts hrow hc).2
  · exact hc.suffix (opensSuffix_of_keys hkeys)

/-- Labels may come before it. -/
theorem awaits_of_labels (h : Awaits T room depth stop c) (hk : c.kind = .sign .colon) :
    ∃ base c', T.Reads room depth (suffix base) c c' ∧ Awaits T room depth stop c' := by
  rcases h with hrow | hkeys
  · cases hrow with
    | suffix _ reads rest => exact ⟨_, _, reads, .inl rest⟩
    | nullTest opens => cases hk.symm.trans opens
    | keys opens => cases hk.symm.trans opens
    | operation opens => rw [hk] at opens; cases opens
  · cases hkeys with
    | last opens => cases hk.symm.trans opens
    | more _ reads rest => exact ⟨_, _, reads, .inr rest⟩

/-- **A property begins with an operand** and has its key to come, unless there is an operator or a
parenthesis before it. -/
theorem exists_reads_of_propertyAt (h : PropertyAt T room depth stop c)
    (hk : unaryOperator? c.kind = none) (hparen : c.kind ≠ .sign .leftParen) :
    ∃ c', T.Reads room depth operand c c' ∧ Awaits T room depth stop c' := by
  rcases h with hrow | hsole
  · obtain ⟨c', reads, rest⟩ := exists_reads_of_before hrow hk
    exact ⟨c', reads, .inl rest⟩
  · cases hsole with
    | operand _ reads rest => exact ⟨_, reads, .inr rest⟩
    | least opens => rw [opens] at hk; cases hk
    | @bare j s t e hj hs hd hr he =>
      cases hprop : e with
      | property base key span =>
        have hnone := strength?_of_operand (hs ▸ hparen) hr
        rw [hprop] at hnone
        cases hnone
      | _ => rw [hprop] at he; cases he

/-! ### Inside a node -/

section Node

variable {setting : Setting} {inner : Inner}

theorem eq_of_properties {found : Option Expression}
    (hr : properties.run setting inner s = .done found t) (ht : t.cursor.kind = .sign .rightParen) :
    s.cursor.kind = .sign .rightParen ∧ t = s ∨
      (∃ name, s.cursor.kind = .parameter name) ∧ t = s.step ∨
      s.cursor.kind = .sign .leftBrace ∧ ∃ e, mapLiteral.run setting inner s = .done e t := by
  obtain ⟨_, _, ⟨⟩, hr⟩ := done_of_bind hr
  split at hr
  · next hk =>
    obtain ⟨e, u, hu, hr⟩ := done_of_bind hr
    cases hr
    exact .inr (.inr ⟨hk, e, hu⟩)
  · next name hk =>
    cases hr
    exact .inr (.inl ⟨⟨name, hk⟩, rfl⟩)
  · cases hr
    exact .inl ⟨ht, rfl⟩

theorem of_nodeLabels {names : List Ident} (hr : nodeLabels.run setting inner s = .done names t) :
    s.cursor.kind = .sign .colon ∧ labels.run setting inner s = .done names t ∨
      s.cursor.kind ≠ .sign .colon ∧ t = s := by
  by_cases hk : s.cursor.kind = .sign .colon
  · exact .inl ⟨hk, run_nodeLabels_of_eq hk ▸ hr⟩
  · rw [nodeLabels, run_bind, run_isAt, Outcome.andThen_done, decide_eq_false hk] at hr
    cases hr
    exact .inr ⟨hk, rfl⟩

/-- Where a node has its properties or its end, no label comes next. -/
theorem opensDetail_of_properties {found : Option Expression}
    (hr : properties.run setting inner s = .done found t) (ht : t.cursor.kind = .sign .rightParen) :
    Cursor.opensDetail s.cursor.kind = true ∧ s.cursor.kind ≠ .sign .colon := by
  obtain ⟨hk, -⟩ | ⟨⟨name, hk⟩, -⟩ | ⟨hk, -⟩ := eq_of_properties hr ht
  all_goals
    rw [hk]
    exact ⟨rfl, nofun⟩

theorem not_opens_of_opensDetail {kind next : TokenKind} (h : Cursor.opensDetail kind = true)
    (hk : kind ≠ .sign .colon) :
    ¬opensSuffix kind = true ∧ kind ≠ .keyword .IS ∧ binaryOperator? kind next = none := by
  unfold Cursor.opensDetail at h
  split at h
  · exact ⟨nofun, nofun, rfl⟩
  · exact absurd rfl hk
  · exact ⟨nofun, nofun, rfl⟩
  · exact ⟨nofun, nofun, rfl⟩
  · cases h

/-- No expression goes on there. -/
theorem halts_of_opensDetail (h : Cursor.opensDetail c.kind = true) (hk : c.kind ≠ .sign .colon) :
    c.Halts :=
  let ⟨hsuffix, htest, hoperator⟩ := not_opens_of_opensDetail h hk
  ⟨hsuffix, htest, hoperator⟩

/-- No argument list follows a name before it. -/
theorem opensCall_of_opensDetail (hc : s.cursor.Closed) (hk : s.cursor.kind ≠ .endOfInput)
    (h : Cursor.opensDetail s.cursor.advance.kind = true) : s.cursor.opensCall = false := by
  obtain ⟨u, us, ha⟩ := List.exists_cons_of_ne_nil (hc.ahead_ne_nil hk)
  rw [Cursor.advance_of_ahead_eq_cons ha] at h
  have hdot : u.kind ≠ .sign .dot := fun he => by rw [Cursor.kind, he] at h; cases h
  have hparen : u.kind ≠ .sign .leftParen := fun he => by rw [Cursor.kind, he] at h; cases h
  rw [Cursor.opensCall, ha, Cursor.argumentsFollow_cons hdot, decide_eq_false hparen]

/-- A variable that nothing calls. -/
theorem eq_step_of_operand {e : Expression} (hv : s.cursor.kind.isVariable = true)
    (hcall : s.cursor.opensCall = false) (hr : operand.run setting inner s = .done e t) :
    t = s.step := by
  rw [operand, here, run_bind, run_look, Outcome.andThen_done, View.read] at hr
  cases hk : s.cursor.current.kind with
  | identifier name =>
    rw [hk] at hr
    change (named name).run setting inner s = _ at hr
    obtain ⟨called, _, ⟨⟩, hr⟩ := done_of_bind hr
    rw [View.read, hcall, if_neg Bool.false_ne_true] at hr
    split at hr
    · obtain ⟨_, _, ⟨⟩, hr⟩ := done_of_bind hr
      split at hr
      · cases hr
      · cases hr
        rfl
    · cases hr
      rfl
  | quotedIdentifier name =>
    rw [hk] at hr
    cases hr
    rfl
  | _ => rw [Cursor.kind, hk] at hv; cases hv

/-- A node has a name if a variable comes first in it. -/
theorem of_binder {binder : Option Ident}
    (hr : (optionally atVariable variableName).run setting inner s = .done binder t) :
    s.cursor.kind.isVariable = true ∧ t = s.step ∨ s.cursor.kind.isVariable = false ∧ t = s := by
  obtain ⟨named, u, hu, hr⟩ := done_of_bind hr
  rw [run_atVariable] at hu
  cases hu
  split at hr
  · next hv =>
    obtain ⟨name, v, hname, hr⟩ := done_of_bind hr
    cases hr
    obtain ⟨_, _, ⟨⟩, hname⟩ := done_of_bind hname
    split at hname
    · cases hname
      exact .inl ⟨hv, rfl⟩
    · cases hname
      exact .inl ⟨hv, rfl⟩
    · cases hname
  · next hv =>
    cases hr
    exact .inr ⟨Bool.eq_false_iff.2 hv, rfl⟩

end Node

/-- A variable that nothing calls is no property, so its key is to come. -/
theorem awaits_of_variable (h : PropertyAt T room depth stop c)
    (hv : c.kind.isVariable = true) (hcall : c.opensCall = false) :
    Awaits T room depth stop c.advance := by
  have hop : unaryOperator? c.kind = none := by
    cases hk : c.kind <;> first | rfl | (rw [hk] at hv; cases hv)
  obtain ⟨_, ⟨j, g, _, _, -, rfl, -, hrun, rfl⟩, hrest⟩ :=
    exists_reads_of_propertyAt h hop fun he => by rw [he] at hv; cases hv
  rw [eq_step_of_operand hv hcall hrun] at hrest
  exact hrest

/-- No property begins with a sign that opens nothing and is no operator. -/
theorem not_propertyAt_of_sign {sign : Sign} (hk : c.kind = .sign sign)
    (hopens : (TokenKind.sign sign).isOpening = false)
    (hop : unaryOperator? (.sign sign) = none) : ¬PropertyAt T room depth stop c := by
  intro h
  have hparen : c.kind ≠ .sign .leftParen := fun he => by
    rw [← hk, he] at hopens
    cases hopens
  obtain ⟨_, ⟨j, g, _, _, -, rfl, -, hrun, -⟩, -⟩ :=
    exists_reads_of_propertyAt h (hk ▸ hop) hparen
  rw [run_operand_of_sign hk hopens] at hrun
  cases hrun

section Guessing

variable {n : Nat} (hnests : ∀ j < room, (T.rivals j n).Nests)

include hnests

/-- Behind a variable, labels may be read, and a node has no key then. -/
theorem not_awaits_of_nodeLabels {names : List Ident} (hs : T.Inside depth s)
    (hr : nodeLabels.run T.setting (T.guessed n) s = .done names t) (ht : t.cursor.Halts) :
    ¬Awaits T room depth stop s.cursor := by
  intro hawaits
  obtain ⟨hk, hr⟩ | ⟨-, rfl⟩ := of_nodeLabels hr
  · obtain ⟨base, c', hreads, hrest⟩ := awaits_of_labels hawaits hk
    have hends := ends_of_reads hs hreads hrest fun j hj u hu =>
      follows_suffix (hnests j hj) _ base u s hu
    rw [run_suffix_colon hk, hr] at hends
    exact not_awaits_of_halts ht hends
  · exact not_awaits_of_halts ht hawaits

/-- Nor has it one behind what may be its properties. -/
theorem not_propertyAt_of_properties {found : Option Expression} (hs : T.Inside depth s)
    (hr : properties.run T.setting (T.guessed n) s = .done found t)
    (ht : t.cursor.kind = .sign .rightParen) : ¬PropertyAt T room depth stop s.cursor := by
  intro h
  have hhalts : t.cursor.Halts := halts_of_opensDetail (ht ▸ rfl) (ht ▸ nofun)
  obtain ⟨hk, rfl⟩ | ⟨⟨name, hk⟩, rfl⟩ | ⟨hk, e, hmap⟩ := eq_of_properties hr ht
  · exact not_propertyAt_of_sign hk rfl rfl h
  · obtain ⟨_, ⟨j, g, _, _, -, hg, -, hrun, rfl⟩, hrest⟩ :=
      exists_reads_of_propertyAt h (hk ▸ rfl) (hk ▸ nofun)
    rw [run_operand_of_parameter (hg ▸ hk)] at hrun
    cases hrun
    have hplace : g.step.cursor = s.step.cursor := congrArg Cursor.advance hg
    exact not_awaits_of_halts hhalts (hplace ▸ hrest)
  · obtain ⟨c', hreads, hrest⟩ := exists_reads_of_propertyAt h (hk ▸ rfl) (hk ▸ nofun)
    have hends := ends_of_reads hs hreads hrest fun j hj u hu e x hrun =>
      follows_mapLiteral (hnests j hj) u s hu e x
        ((run_operand_of_leftBrace (hu.kind_eq ▸ hk)).symm.trans hrun)
    rw [hmap] at hends
    exact not_awaits_of_halts hhalts hends

/-- **No node is a property between parentheses.** -/
theorem not_propertyAt_of_pathNode {node : NodePattern Expression} (hs : T.Inside depth s)
    (hr : pathNode.run T.setting (T.guessed n) s = .done node t) :
    ¬PropertyAt T room depth stop s.cursor.advance := by
  intro h
  have hi : Inner.GoesOn (T.guessed n) := goesOn_runNested T.setting body n
  obtain ⟨_, u, hu, hr⟩ := done_of_bind hr
  obtain ⟨hopen, rfl⟩ := of_expect hu
  obtain ⟨binder, v, hv, hr⟩ := done_of_bind hr
  obtain ⟨names, w, hw, hr⟩ := done_of_bind hr
  obtain ⟨found, x, hx, hr⟩ := done_of_bind hr
  obtain ⟨_, y, hy, -⟩ := done_of_bind hr
  obtain ⟨hclose, rfl⟩ := of_expect hy
  obtain ⟨hdetail, hlabel⟩ := opensDetail_of_properties hx hclose
  have hhalts := halts_of_opensDetail hdetail hlabel
  have hin : T.Inside depth s.step := hs.place s.cursor.onward_advance
  have hinv : T.Inside depth v := hin.trans (onward_of_done hi hv)
  obtain ⟨hvar, rfl⟩ | ⟨-, rfl⟩ := of_binder hv
  · have hnext : Cursor.opensDetail s.step.step.cursor.kind = true := by
      obtain ⟨hk, -⟩ | ⟨-, rfl⟩ := of_nodeLabels hw
      · rw [hk]; rfl
      · exact hdetail
    have hcall : s.step.cursor.opensCall = false :=
      opensCall_of_opensDetail hin.closed (fun he => by rw [he] at hvar; cases hvar) hnext
    exact not_awaits_of_nodeLabels hnests hinv hw hhalts (awaits_of_variable h hvar hcall)
  · obtain ⟨hk, -⟩ | ⟨-, rfl⟩ := of_nodeLabels hw
    · exact not_propertyAt_of_sign hk rfl rfl h
    · exact not_propertyAt_of_properties hnests hin hx hclose h

/-! ### Keys are read -/

/-- Suffixes up to the last, which makes a property of them. -/
theorem ends_continuation_of_keys {strength : Nat} (hle : strength ≤ suffixStrength)
    (hs : T.Inside depth s) (hkeys : T.Keys room depth stop s.cursor) (chain : Chain) :
    T.Ends (fun next t => ∃ e, next = some ⟨e, none⟩ ∧
        (T.Keys room depth stop t.cursor ∨ t.cursor = stop ∧ e.isProperty = true))
      ((continuation strength chain).run T.setting (T.guessed n) s) := by
  rw [run_continuation_of_opensSuffix (opensSuffix_of_keys hkeys) hle]
  cases hkeys with
  | @last _ base opens reads =>
    have hends := ends_of_reads (p := (· = stop)) hs reads rfl fun j hj u hu =>
      follows_suffix (hnests j hj) base chain.tree u s hu
    rw [run_suffix_dot opens] at hends ⊢
    cases hr : (symbolicName "a property name").run T.setting (T.guessed n) s.step with
    | failed d t => rw [hr] at hends; exact hends
    | done key t => rw [hr] at hends; exact ⟨_, rfl, .inr ⟨hends, rfl⟩⟩
  | @more _ _ base opens reads rest =>
    exact (ends_of_reads hs reads rest fun j hj u hu =>
      follows_suffix (hnests j hj) base chain.tree u s hu).andThen fun e _ ht => ⟨e, rfl, .inl ht⟩

omit hnests in
/-- No path is guessed where a suffix follows a group. -/
theorem opensPattern_of_opensSuffix {c d : Cursor} (hbeyond : c.beyond 0 = some d.rest)
    (hk : opensSuffix d.kind = true) : c.opensPattern = false := by
  have hlt : d.current.kind ≠ .sign .lt := fun he => by rw [Cursor.kind, he] at hk; cases hk
  have hminus : d.current.kind ≠ .sign .minus := fun he => by rw [Cursor.kind, he] at hk; cases hk
  have hbeyond : Cursor.afterClose 0 (c.current :: c.ahead) = some (d.current :: d.ahead) := hbeyond
  have hstart : Cursor.startsWithRelationship (d.current :: d.ahead) = false := by
    rw [Cursor.startsWithRelationship, Cursor.skipMaybe, Cursor.skip?, if_neg hlt,
      Option.getD_none, Cursor.skip?, if_neg hminus]
    rfl
  rw [Cursor.opensPattern, hbeyond, Option.any_some, hstart, Bool.and_false]

omit hnests in
theorem opensPattern_of_reads (hc : c.Closed) (hreads : T.Reads room depth operand c c')
    (hk : opensSuffix c'.kind = true) : c.opensPattern = false := by
  refine Bool.eq_false_iff.2 fun hguess => ?_
  obtain ⟨j, s, e, t, -, rfl, -, hr, rfl⟩ := hreads
  have hparen := kind_of_opensPattern hguess
  rw [run_operand_of_leftParen hparen] at hr
  have hgroup : group.run T.setting.grouping (T.grouped j) s = .done e t := hr
  have hbeyond := beyond_of_group T.strict_grouping nofun hc hparen hgroup
  cases hguess.symm.trans (opensPattern_of_opensSuffix hbeyond hk)

omit hnests in
/-- A group that is a property has one inside. -/
theorem exists_propertyAt_of_group {j : Nat} {e : Expression} (hc : s.cursor.Closed)
    (hk : s.cursor.kind = .sign .leftParen)
    (hr : operand.run T.setting.grouping (T.grouped j) s = .done e t) (he : e.isProperty = true) :
    ∃ stop, PropertyAt T j s.scopes.depth stop s.cursor.advance := by
  rw [run_operand_of_leftParen hk] at hr
  have hgroup : group.run T.setting.grouping (T.grouped j) s = .done e t := hr
  obtain ⟨_, _, ⟨⟩, hgroup⟩ := done_of_bind hgroup
  obtain ⟨inner, u, hu, hgroup⟩ := done_of_bind hgroup
  obtain ⟨_, v, -, hgroup⟩ := done_of_bind hgroup
  cases hgroup
  have hc' : s.step.cursor.Closed := hc.advance
  exact ⟨_, (keyed_or_sole_of_run (Nat.le_refl j) hc' rfl hu he rfl).imp_left And.right⟩

/-- **An operand that is a property or has keys behind it.** -/
theorem ends_leading_of_sole (hs : T.Inside depth s) (hsole : T.Sole room depth stop s.cursor) :
    T.Ends (fun e t => T.Keys room depth stop t.cursor ∨ t.cursor = stop ∧ e.isProperty = true)
      (leading.run T.setting (T.guessed n) s) := by
  cases hsole with
  | operand opens reads rest =>
    have hguess := opensPattern_of_reads hs.closed reads (opensSuffix_of_keys rest)
    rw [run_leading_of_none opens]
    exact (ends_of_reads hs reads rest fun j hj u hu =>
      followsFrom_operand (hnests j hj) hu (hu.cursor ▸ hguess)).mono fun _ _ ht => .inl ht
  | least opens digits rest =>
    rw [run_leading_of_some (by rw [opens]; rfl), if_pos (by rw [digits]; rfl)]
    exact .inl rest
  | @bare j u v e hj place scopes run property opens ends =>
    rw [run_leading_of_none opens]
    by_cases hguess : s.cursor.opensPattern = true
    · have hk := kind_of_opensPattern hguess
      rw [run_operand_of_leftParen hk, T.lookahead, if_pos hguess]
      cases hr : patternPart.run T.setting (T.guessed n) s with
      | failed d t => exact .path hs.onward (T.lookahead ▸ hguess) hr
      | done part t =>
        obtain ⟨node, w, _, hnode, -⟩ := of_patternPart hk hr
        obtain ⟨_, h⟩ := exists_propertyAt_of_group (place ▸ hs.closed) (place ▸ hk) run property
        rw [place, scopes] at h
        exact absurd h (not_propertyAt_of_pathNode (fun i hi => hnests i (hi.trans hj)) hs hnode)
    · have hbeside : T.Beside u s := ⟨place.symm, hs.depth.trans scopes.symm, place ▸ hs.onward⟩
      refine (followsFrom_operand (hnests j hj) hbeside
        (place ▸ Bool.eq_false_iff.2 hguess) e v run).mono fun e' t ⟨he, ht⟩ =>
          .inr ⟨ht.cursor.trans ends, he property⟩

end Guessing

/-- **A property is read as a property**, up to the same place. -/
theorem ends_property (hnests : ∀ j < room, ∀ n, (T.rivals j n).Nests) {strength : Nat}
    (hle : strength ≤ suffixStrength)
    (hstops : ∀ t : State, t.cursor = stop → Stops strength t.kinds) (hs : T.Inside depth s)
    (h : strength = 0 ∧ T.Row room depth stop true .before s.cursor ∨
      T.Sole room depth stop s.cursor) (n : Nat) :
    T.Ends (fun e t => t.cursor = stop ∧ e.isProperty = true)
      (T.guessed n (.expression strength) s) := by
  cases n with
  | zero => exact .deep rfl
  | succ n =>
    have hn := fun j hj => hnests j hj n
    have hdeeper : T.Inside depth { s with depth := s.depth + 1 } := ⟨hs.depth, hs.onward⟩
    have hhalts : strength = 0 → stop.Halts := fun hk =>
      halts_of_stops (s := ⟨stop, .outside, [], 0⟩) (hk ▸ hstops _ rfl)
    refine ends_of_parts (p := fun e u =>
      (strength = 0 ∧ T.Row room depth stop true .behind u.cursor) ∨
        T.Keys room depth stop u.cursor ∨ u.cursor = stop ∧ e.isProperty = true) hs ?_
        fun chain u hu hp => ?_
    · obtain ⟨hk, hrow⟩ | hsole := h
      · exact (ends_leading hn (passes hnests (hhalts hk) n) (hhalts hk) hdeeper hrow).mono
          fun _ _ ht => .inl ⟨hk, ht⟩
      · exact (ends_leading_of_sole hn hdeeper hsole).mono fun _ _ ht => .inr ht
    · obtain ⟨hk, hrow⟩ | hkeys | ⟨hplace, hproperty⟩ := hp
      · refine (ends_continuation hn (passes hnests (hhalts hk) n) (hhalts hk) hu hrow chain).mono
          fun next v hv => ?_
        cases next with
        | none => cases (eq_stop_of_halts hv.1 (halts_of_stops (hk ▸ hv.2))).2
        | some next => exact hv.imp (fun hv => ⟨hk, hv⟩) fun hv => .inl hv.2
      · refine (ends_continuation_of_keys hn hle hu hkeys chain).mono fun next v ⟨e, he, hv⟩ => ?_
        subst he
        exact .inr hv
      · rw [run_of_continues (.stop (hstops u hplace))]
        exact ⟨hplace, hproperty⟩

end Grammar

end Cypher
