import Cypher.Proofs.Balance

/-!
# Repetitions move on

A repetition is run with as many steps at hand as there are tokens left. That is no restriction,
because every step that hands something on has moved past a token: a repetition is what it looks
like, a step and then the repetition again (`Cypher.Rule.run_loop`, `Cypher.Rule.run_many`).

The judgement is `Cypher.Rule.MovesOn`: whenever a rule run from a state reads a value with some
property, fewer tokens are ahead than before. It is local to a state, since whether a rule moves on
often hangs on what it has seen at the cursor.
-/

namespace Cypher

variable {setting : Setting} {inner : Inner} {α β : Type}

/-! ### Tokens left -/

/-- The number of tokens ahead. -/
def State.left (s : State) : Nat := s.cursor.ahead.length

theorem State.Onward.left_le {s t : State} (h : s.Onward t) : t.left ≤ s.left :=
  h.cursor.length_ahead_le

theorem State.Onward.closed {s t : State} (h : s.Onward t) (hc : s.cursor.Closed) :
    t.cursor.Closed := hc.onward h.cursor

/-- The tokens behind and ahead are as many as before. -/
theorem Cursor.Onward.position_add_left {c c' : Cursor} (h : c.Onward c') :
    c'.position + c'.ahead.length = c.position + c.ahead.length := by
  refine h.induct (p := fun x => x.position + x.ahead.length = c.position + c.ahead.length)
    (fun x hx => ?_) rfl
  unfold Cursor.advance
  split
  · exact hx
  · next hs =>
    rw [← hx, hs]
    simp only [Cursor.position, List.length_cons]
    omega

theorem State.Onward.behind_ne_nil {s t : State} (h : s.Onward t) (hb : s.cursor.behind ≠ []) :
    t.cursor.behind ≠ [] := by
  refine h.cursor.induct (p := fun c => c.behind ≠ []) (fun c hc => ?_) hb
  unfold Cursor.advance
  split
  · exact hc
  · exact List.cons_ne_nil _ _

/-- There is a token behind once a token has been passed. -/
theorem State.Onward.behind_ne_nil_of_left_lt {s t : State} (h : s.Onward t)
    (hlt : t.left < s.left) : t.cursor.behind ≠ [] := by
  intro hb
  have hadd := h.cursor.position_add_left
  have hzero : t.cursor.position = 0 := by rw [Cursor.position, hb, List.length_nil]
  unfold State.left at hlt
  omega

/-- **Nested rules that go on.** -/
def Inner.GoesOn (inner : Inner) : Prop :=
  ∀ {β : Type} (rule : Nested β) (s : State), (inner rule s).Respects (fun _ => True) State.Onward s

theorem Rule.goesOn_runNested (setting : Setting) (body : {β : Type} → Nested β → Rule β)
    (room : Nat) : Inner.GoesOn (Rule.runNested setting body room) :=
  Rule.upkeep_runNested (upkeep_onward setting) body room

namespace Rule

theorem onward_run (setting : Setting) (hi : inner.GoesOn) (rule : Rule α) (s : State) :
    s.Onward (rule.run setting inner s).state :=
  (upkeep_run (upkeep_onward setting) hi rule s).state

theorem onward_of_done (hi : inner.GoesOn) {rule : Rule α} {s t : State} {a : α}
    (h : rule.run setting inner s = .done a t) : s.Onward t := by
  have := onward_run setting hi rule s
  rwa [h] at this

/-! ### Moving on -/

/-- **A rule that moves on** from a state whenever it reads a value with a property. -/
def MovesOn (setting : Setting) (inner : Inner) (p : α → Prop) (rule : Rule α) (s : State) : Prop :=
  s.cursor.Closed → ∀ a t, rule.run setting inner s = .done a t → p a → t.left < s.left

namespace MovesOn

variable {p : α → Prop} {s : State}

theorem pure {a : α} (h : ¬p a) : MovesOn setting inner p (Pure.pure a) s := by
  intro _ b t hr hb
  cases hr
  exact absurd hb h

theorem fail (problem : Problem) : MovesOn setting inner p (.fail problem) s := by
  intro _ _ _ hr
  cases hr

/-- There is a token behind every token that is not the end of the text. -/
theorem advance {p : Span → Prop} (h : s.cursor.kind ≠ .endOfInput) :
    MovesOn setting inner p .advance s := by
  intro hc a t hr _
  cases hr
  obtain ⟨u, us, ha⟩ := List.exists_cons_of_ne_nil (hc.ahead_ne_nil h)
  simp only [State.left, Cursor.advance_of_ahead_eq_cons ha, ha, List.length_cons, Nat.lt_add_one]

/-- Of two rules in a row, one has to move on. -/
theorem bind (hi : inner.GoesOn) {rule : Rule β} {next : β → Rule α}
    (h : ∀ b t, rule.run setting inner s = .done b t →
      (s.cursor.Closed → t.left < s.left) ∨ MovesOn setting inner p (next b) t) :
    MovesOn setting inner p (rule >>= next) s := by
  intro hc a u hr ha
  obtain ⟨b, t, hb, hu⟩ := done_of_bind hr
  have hst := onward_of_done hi hb
  rcases h b t hb with hlt | hn
  · exact Nat.lt_of_le_of_lt (onward_of_done hi hu).left_le (hlt hc)
  · exact Nat.lt_of_lt_of_le (hn (hst.closed hc) a u hu ha) hst.left_le

theorem bind_left (hi : inner.GoesOn) {rule : Rule β} {next : β → Rule α}
    (h : MovesOn setting inner (fun _ => True) rule s) :
    MovesOn setting inner p (rule >>= next) s :=
  bind hi fun b t hb => Or.inl fun hc => h hc b t hb trivial

theorem bind_right (hi : inner.GoesOn) {rule : Rule β} {next : β → Rule α}
    (h : ∀ b t, rule.run setting inner s = .done b t → MovesOn setting inner p (next b) t) :
    MovesOn setting inner p (rule >>= next) s :=
  bind hi fun b t hb => Or.inr (h b t hb)

/-- To look at something is not to move. -/
theorem look (hi : inner.GoesOn) {view : View β} {next : β → Rule α}
    (h : MovesOn setting inner p (next (view.read setting s)) s) :
    MovesOn setting inner p (.look view >>= next) s := by
  refine bind_right hi fun b t hb => ?_
  cases hb
  exact h

theorem ite {condition : Prop} [Decidable condition] {rule other : Rule α}
    (h : condition → MovesOn setting inner p rule s)
    (ho : ¬condition → MovesOn setting inner p other s) :
    MovesOn setting inner p (if condition then rule else other) s := by
  split
  · exact h ‹_›
  · exact ho ‹_›

end MovesOn

/-! ### Steps that move on -/

theorem run_isAt (kind : TokenKind) (s : State) :
    (isAt kind).run setting inner s = .done (decide (s.cursor.kind = kind)) s := rfl

theorem run_atVariable (s : State) :
    atVariable.run setting inner s = .done s.cursor.kind.isVariable s := rfl

theorem run_atVariableBefore (kind : TokenKind) (s : State) :
    (atVariableBefore kind).run setting inner s =
      .done (s.cursor.kind.isVariable && decide (s.cursor.peek 1 = kind)) s := by
  rw [atVariableBefore, run_bind, run_atVariable, Outcome.andThen_done]
  cases s.cursor.kind.isVariable <;> rfl

theorem kind_of_isAt {kind : TokenKind} {s t : State}
    (h : (isAt kind).run setting inner s = .done true t) : t = s ∧ s.cursor.kind = kind := by
  rw [run_isAt] at h
  obtain ⟨hk, rfl⟩ := Outcome.done.inj h
  exact ⟨rfl, of_decide_eq_true hk⟩

section Steps

variable (hi : inner.GoesOn)

include hi

theorem movesOn_consume {kind : TokenKind} (hk : kind ≠ .endOfInput) (s : State) :
    MovesOn setting inner (· = true) (consume kind) s := by
  refine .bind_right hi fun b t hb => ?_
  cases hb
  refine .ite (fun h => .bind_left hi (.advance fun he => hk ?_)) fun _ => .pure Bool.false_ne_true
  exact (of_decide_eq_true h).symm.trans he

theorem movesOn_takeSign (sign : Sign) (s : State) :
    MovesOn setting inner (· = true) (takeSign sign) s := movesOn_consume hi TokenKind.noConfusion s

theorem movesOn_takeWord (word : Keyword) (s : State) :
    MovesOn setting inner (· = true) (takeWord word) s := movesOn_consume hi TokenKind.noConfusion s

theorem movesOn_expect {p : Span → Prop} {kind : TokenKind} (hk : kind ≠ .endOfInput) (s : State) :
    MovesOn setting inner p (expect kind) s := by
  refine .bind_right hi fun b t hb => ?_
  cases hb
  refine .ite (fun h => .advance fun he => hk ?_) fun _ => .fail _
  exact (of_decide_eq_true h).symm.trans he

theorem movesOn_expectSign {p : Span → Prop} (sign : Sign) (s : State) :
    MovesOn setting inner p (expectSign sign) s := movesOn_expect hi TokenKind.noConfusion s

theorem movesOn_expectWord {p : Span → Prop} (word : Keyword) (s : State) :
    MovesOn setting inner p (expectWord word) s := movesOn_expect hi TokenKind.noConfusion s

/-- Something optional moves on if its condition does. -/
theorem movesOn_optionally {condition : Rule Bool} {rule : Rule α} {s : State}
    (h : MovesOn setting inner (· = true) condition s) :
    MovesOn setting inner (fun a => a.isSome) (optionally condition rule) s := by
  refine .bind hi fun b t hb => ?_
  cases b with
  | true => exact Or.inl fun hc => h hc true t hb rfl
  | false => exact Or.inr (.pure Bool.false_ne_true)

/-- Something optional moves on if it does so where the condition holds. -/
theorem movesOn_optionally_of {condition : Rule Bool} {rule : Rule α} {s : State}
    (h : ∀ t, condition.run setting inner s = .done true t →
      MovesOn setting inner (fun _ => True) rule t) :
    MovesOn setting inner (fun a => a.isSome) (optionally condition rule) s := by
  refine .bind_right hi fun b t hb => ?_
  cases b with
  | true => exact .bind_left hi (h t hb)
  | false => exact .pure Bool.false_ne_true

/-- Something that comes behind a word or a sign moves on if the word or sign is part of it. -/
theorem movesOn_optionally_isAt {kind : TokenKind} {rule : Rule α} {s : State}
    (h : s.cursor.kind = kind → MovesOn setting inner (fun _ => True) rule s) :
    MovesOn setting inner (fun a => a.isSome) (optionally (isAt kind) rule) s := by
  refine movesOn_optionally_of hi fun t ht => ?_
  obtain ⟨rfl, hk⟩ := kind_of_isAt ht
  exact h hk

end Steps

end Rule

/-! ### Repetitions -/

/-- Repetitions with enough steps at hand are all alike. -/
theorem Action.iterate_eq_of_left_lt {step : α → Action (Option α)} (s₀ : State)
    (hs : ∀ a s b t, s₀.Onward s → step a s = .done (some b) t → s₀.Onward t ∧ t.left < s.left)
    {n m : Nat} (a : α) {s : State} (ho : s₀.Onward s) (hn : s.left < n) (hm : s.left < m) :
    Action.iterate step n a s = Action.iterate step m a s := by
  induction n generalizing m a s with
  | zero => exact absurd hn (Nat.not_lt_zero _)
  | succ n ih =>
    cases m with
    | zero => exact absurd hm (Nat.not_lt_zero _)
    | succ m =>
      rw [Action.iterate, Action.iterate]
      cases hstep : step a s with
      | failed d t => rfl
      | done next t =>
        cases next with
        | none => rfl
        | some b =>
          obtain ⟨hot, hlt⟩ := hs a s b t ho hstep
          exact ih b hot (by omega) (by omega)

namespace Rule

/-- **A repetition is a step and then the repetition again**, if its steps move on from wherever it
gets. -/
theorem run_loop (hi : inner.GoesOn) {step : α → Rule (Option α)} {s : State}
    (hc : s.cursor.Closed)
    (hs : ∀ a t, s.Onward t → MovesOn setting inner (fun b => b.isSome) (step a) t) (a : α) :
    (loop step a).run setting inner s =
      ((step a).run setting inner s).andThen fun next t =>
        match next with
        | none => .done a t
        | some b => (loop step b).run setting inner t := by
  have hstep : ∀ a t b u, s.Onward t → (step a).run setting inner t = .done (some b) u →
      s.Onward u ∧ u.left < t.left := fun a t b u ht hu =>
    ⟨ht.trans (onward_of_done hi hu), hs a t ht (ht.closed hc) _ u hu rfl⟩
  change Action.iterate _ (s.left + 1) a s = _
  rw [Action.iterate]
  cases hr : (step a).run setting inner s with
  | failed d t => rfl
  | done next t =>
    cases next with
    | none => rfl
    | some b =>
      obtain ⟨hot, hlt⟩ := hstep a s b t (.refl s) hr
      exact Action.iterate_eq_of_left_lt s hstep b hot hlt (Nat.lt_succ_self t.left)

/-- A repetition ends where there is nothing to hand on. -/
theorem run_loop_none {step : α → Rule (Option α)} {a : α} {s t : State}
    (h : (step a).run setting inner s = .done none t) :
    (loop step a).run setting inner s = .done a t := by
  change Action.iterate _ (s.left + 1) a s = _
  rw [Action.iterate, h]

theorem run_many_none {rule : Rule (Option α)} {items : List α} {s t : State}
    (h : rule.run setting inner s = .done none t) :
    (many rule items).run setting inner s = .done items t := by
  refine run_loop_none ?_
  rw [run_bind_done h]
  rfl

section Many

variable (hi : inner.GoesOn)

include hi

theorem movesOn_manyStep {rule : Rule (Option α)} {items : List α} {s : State}
    (h : MovesOn setting inner (fun a => a.isSome) rule s) :
    MovesOn setting inner (fun b => b.isSome)
      (do return (← rule).map fun item => items ++ [item]) s := by
  refine .bind hi fun b t hb => ?_
  cases b with
  | none => exact Or.inr (.pure Bool.false_ne_true)
  | some item => exact Or.inl fun hc => h hc (some item) t hb rfl

/-- **Reading many is reading one and then many again.** -/
theorem run_many {rule : Rule (Option α)} {s : State} (hc : s.cursor.Closed)
    (hs : ∀ t, s.Onward t → MovesOn setting inner (fun a => a.isSome) rule t) (items : List α) :
    (many rule items).run setting inner s =
      (rule.run setting inner s).andThen fun next t =>
        match next with
        | none => .done items t
        | some item => (many rule (items ++ [item])).run setting inner t := by
  refine (run_loop hi hc (fun _ t ht => movesOn_manyStep hi (hs t ht)) items).trans ?_
  rw [run_bind]
  rcases rule.run setting inner s with ⟨_ | item, t⟩ | ⟨d, t⟩ <;> rfl

/-- Reading many moves on if something is read. -/
theorem movesOn_many {rule : Rule (Option α)} {items : List α} {s : State}
    (hs : ∀ t, s.Onward t → MovesOn setting inner (fun a => a.isSome) rule t) :
    MovesOn setting inner (· ≠ items) (many rule items) s := by
  intro hc all t hr hne
  rw [run_many hi hc hs] at hr
  rcases hone : rule.run setting inner s with ⟨_ | item, u⟩ | ⟨d, u⟩
  · rw [hone] at hr
    cases hr
    exact absurd rfl hne
  · rw [hone] at hr
    exact Nat.lt_of_le_of_lt (onward_of_done hi hr).left_le (hs s (.refl s) hc _ u hone rfl)
  · rw [hone] at hr
    cases hr

end Many

end Rule

/-! ### The repetitions of the grammar -/

namespace Grammar

open Rule hiding pure bind

theorem run_atClausesEnd (s : State) :
    atClausesEnd.run setting inner s =
      .done (s.cursor.kind.endsClauses s.scopes.isNested) s := rfl

/-- A relationship comes next if its dash does, or the head before that. -/
theorem run_atRelationship (s : State) :
    atRelationship.run setting inner s =
      .done (decide (s.cursor.kind = .sign .minus) ||
        decide (s.cursor.kind = .sign .lt) && decide (s.cursor.peek 1 = .sign .minus)) s := by
  rw [atRelationship, here, run_bind, run_look, Outcome.andThen_done, View.read,
    show s.cursor.current.kind = s.cursor.kind from rfl]
  split
  · next hk => rw [hk, decide_eq_true rfl]; rfl
  · next hk => rw [hk]; rfl
  · next hminus hlt => rw [decide_eq_false hminus, decide_eq_false hlt]; rfl

variable (hi : inner.GoesOn)

include hi

theorem movesOn_move {p : Unit → Prop} {s : State} (h : s.cursor.kind ≠ .endOfInput) :
    MovesOn setting inner p move s := .bind_left hi (.advance h)

theorem movesOn_furtherPart (what : String) (s : State) :
    MovesOn setting inner (fun a => a.isSome) (optionally atNamePart (namePart what)) s := by
  refine movesOn_optionally_of hi fun t ht => .bind_left hi (movesOn_move hi fun he => ?_)
  obtain ⟨b, u, hb, hu⟩ := done_of_bind ht
  rw [atSign, run_isAt] at hb
  obtain ⟨hk, rfl⟩ := Outcome.done.inj hb
  cases b with
  | false => cases hu
  | true =>
    obtain ⟨next, v, hv, hv'⟩ := done_of_bind hu
    cases hv
    cases (Outcome.done.inj hv').2
    rw [he] at hk
    exact absurd (of_decide_eq_true hk) TokenKind.noConfusion

theorem movesOn_relationship {p : RelationshipPattern Expression → Prop} (s : State) :
    MovesOn setting inner p relationship s := by
  refine .bind_right hi fun start t _ => .bind_right hi fun left u _ => ?_
  exact .bind_left hi (movesOn_expectSign hi .minus u)

theorem movesOn_furtherStep (s : State) :
    MovesOn setting inner (fun a => a.isSome) (optionally atRelationship step) s :=
  movesOn_optionally_of hi fun t _ => .bind_left hi (movesOn_relationship hi t)

theorem movesOn_furtherAction (s : State) :
    MovesOn setting inner (fun a => a.isSome) (optionally (atWord .ON) mergeAction) s :=
  movesOn_optionally_isAt hi fun hk =>
    .bind_left hi (.advance (hk ▸ TokenKind.noConfusion))

theorem movesOn_furtherUnion (kind : ScopeKind) (s : State) :
    MovesOn setting inner (fun a => a.isSome) (optionally (atWord .UNION) (unionBranch kind)) s :=
  movesOn_optionally_isAt hi fun hk =>
    .bind_left hi (.advance (hk ▸ TokenKind.noConfusion))

theorem movesOn_labels {p : List Ident → Prop} (s : State) : MovesOn setting inner p labels s := by
  refine .bind hi fun labels t hr => ?_
  by_cases hl : labels = []
  · subst hl
    exact Or.inr (.fail _)
  · refine Or.inl fun hc => movesOn_many hi (fun u _ => ?_) hc labels t hr hl
    exact movesOn_optionally hi (movesOn_takeSign hi .colon u)

/-! ### Operands -/

theorem movesOn_symbolicName {p : Ident → Prop} (what : String) (s : State) :
    MovesOn setting inner p (symbolicName what) s := by
  refine .look hi ?_
  split
  · next hk => exact .bind_left hi (.advance fun he => nomatch hk.symm.trans he)
  · next hk => exact .bind_left hi (.advance fun he => nomatch hk.symm.trans he)
  · next hk => exact .bind_left hi (.advance fun he => nomatch hk.symm.trans he)
  · exact .fail _

theorem movesOn_pathNode {p : NodePattern Expression → Prop} (s : State) :
    MovesOn setting inner p pathNode s := .bind_left hi (movesOn_expectSign hi .leftParen s)

theorem movesOn_patternPart {p : PatternPart Expression → Prop} (s : State) :
    MovesOn setting inner p patternPart s :=
  .bind_right hi fun _ _ _ => .bind_right hi fun _ u _ => .bind_left hi (movesOn_pathNode hi u)

theorem movesOn_functionCall {p : Expression → Prop} (s : State) :
    MovesOn setting inner p functionCall s :=
  .bind_left hi (.bind_left hi (movesOn_symbolicName hi _ s))

omit hi in
/-- What has been seen when a subquery may be read. -/
theorem eq_of_requireSubqueries {feature : String} {s t : State}
    (hr : (requireSubqueries feature).run setting inner s = .done () t) : t = s := by
  by_cases hsub : setting.rules.subqueries = true
  · rw [run_requireSubqueries_done hsub] at hr
    exact (Outcome.done.inj hr).2.symm
  · rw [run_requireSubqueries_failed hsub] at hr
    cases hr

theorem movesOn_existence {p : Expression → Prop} {s : State} (h : s.cursor.kind ≠ .endOfInput) :
    MovesOn setting inner p existence s := by
  refine .look hi ?_
  split
  · exact movesOn_functionCall hi s
  · refine .bind_right hi fun _ t ht => ?_
    cases eq_of_requireSubqueries ht
    exact .bind_left hi (.advance h)
  · exact .bind_left hi (movesOn_move hi h)

theorem movesOn_named {p : Expression → Prop} (name : String) {s : State}
    (h : s.cursor.kind ≠ .endOfInput) : MovesOn setting inner p (named name) s := by
  have hvariable : MovesOn setting inner p (variableHere name) s := .bind_left hi (.advance h)
  refine .look hi (.ite (fun _ => movesOn_functionCall hi s) fun _ => .ite (fun _ => ?_)
    fun _ => hvariable)
  exact .look hi (.ite (fun _ => .fail _) fun _ => hvariable)

/-- **An operand has a token at least.** -/
theorem movesOn_operand {p : Expression → Prop} (s : State) :
    MovesOn setting inner p operand s := by
  by_cases h : s.cursor.kind = .endOfInput
  · refine .look hi ?_
    rw [View.read, show s.cursor.current.kind = .endOfInput from h]
    exact .fail _
  have hleaf {β : Type} {next : Span → Rule β} {q : β → Prop} :
      MovesOn setting inner q (advance >>= next) s := .bind_left hi (.advance h)
  refine .look hi ?_
  split
  · split
    · exact hleaf
    · exact .fail _
  · exact hleaf
  · exact hleaf
  · exact hleaf
  · exact hleaf
  · exact hleaf
  · exact hleaf
  · exact .look hi (.ite (fun _ => .bind_left hi (movesOn_patternPart hi s)) fun _ =>
      .bind_left hi (movesOn_move hi h))
  · exact .bind_left hi (movesOn_expectSign hi .leftBracket s)
  · exact .bind_left hi (movesOn_expectSign hi .leftBrace s)
  · exact hleaf
  · exact movesOn_existence hi h
  · exact .look hi (.ite (fun _ => movesOn_functionCall hi s) fun _ => .fail _)
  · exact movesOn_named hi _ h
  · exact hleaf
  · exact .fail _

theorem movesOn_leading {p : Expression → Prop} (s : State) :
    MovesOn setting inner p leading s := by
  refine .look hi ?_
  split
  · exact movesOn_operand hi s
  · next operator hop =>
    exact .bind_left hi (movesOn_move hi fun he => by
      rw [View.read, show s.cursor.current.kind = .endOfInput from he] at hop
      cases hop)

/-! ### What follows an operand -/

theorem movesOn_suffix {p : Expression → Prop} (base : Expression) {s : State}
    (h : s.cursor.kind ≠ .endOfInput) : MovesOn setting inner p (suffix base) s := by
  refine .look hi ?_
  split
  · exact .bind_left hi (movesOn_move hi h)
  · exact .bind_left hi (movesOn_labels hi s)
  · exact .bind_left hi (movesOn_expectSign hi .leftBracket s)

/-- An operator between operands has a token at least. -/
theorem movesOn_moveOver {p : Unit → Prop} {next : TokenKind} {operator : BinaryOperator}
    {width : Nat} {s : State} (h : binaryOperator? s.cursor.kind next = some (operator, width)) :
    MovesOn setting inner p (moveOver width) s := by
  have hw : width ≠ 0 := by
    rintro rfl
    unfold binaryOperator? at h
    split at h <;> grind
  obtain ⟨n, rfl⟩ := Nat.exists_eq_succ_of_ne_zero hw
  refine .bind_left hi (movesOn_move hi fun he => ?_)
  rw [he] at h
  cases h

theorem movesOn_operation (strength : Nat) (chain : Chain) (s : State) :
    MovesOn setting inner (fun a => a.isSome) (operation strength chain) s := by
  refine .look hi (.look hi ?_)
  split
  · exact .pure Bool.false_ne_true
  · next hop => exact .ite (fun _ => .pure Bool.false_ne_true) fun _ =>
      .bind_left hi (movesOn_moveOver hi hop)

theorem movesOn_continuation (strength : Nat) (chain : Chain) (s : State) :
    MovesOn setting inner (fun a => a.isSome) (continuation strength chain) s := by
  refine .look hi (.ite (fun hk => ?_) fun _ => .ite (fun hk => ?_) fun _ => ?_)
  · refine .ite (fun _ => .pure Bool.false_ne_true) fun _ => ?_
    refine .bind_left hi (movesOn_suffix hi _ fun he => ?_)
    change opensSuffix s.cursor.kind = true at hk
    rw [he] at hk
    cases hk
  · refine .ite (fun _ => .pure Bool.false_ne_true) fun _ => ?_
    refine .bind_left hi (.bind_left hi (movesOn_move hi fun he => ?_))
    change s.cursor.kind = _ at hk
    rw [he] at hk
    cases hk
  · exact movesOn_operation hi strength chain s

end Grammar

end Cypher
