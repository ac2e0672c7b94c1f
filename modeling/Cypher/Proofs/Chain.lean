import Cypher.Proofs.Passage
import Cypher.Grammar.Query

/-!
# How expressions go on

An expression is an operand and what that goes on with: suffixes, tests and operators with their
right operands, for as long as these bind strongly enough. What has been read is held as a chain.
There are four things a chain can come to at the cursor, and `Cypher.Grammar.Continues` lists them
with all that is known in each. Everything that is said about expressions as a whole follows from
these four by induction over the steps that have been taken (`Cypher.Grammar.Partway`), as an
expression is the tree of a chain that nothing goes on with any more
(`Cypher.Grammar.exists_partway`).
-/

namespace Cypher

variable {setting : Setting} {inner : Inner}

/-! ### Tokens behind an expression -/

/-- **Tokens that do not go on with an expression** whose operators bind with a strength. -/
def Stops (strength : Nat) : List TokenKind → Prop
  | [] => True
  | kind :: kinds =>
    (Grammar.opensSuffix kind = true → Grammar.suffixStrength < strength) ∧
    (kind = .keyword .IS → Grammar.testStrength < strength) ∧
    ∀ operator width, Grammar.binaryOperator? kind (kinds.headD kind) = some (operator, width) →
      operator.strength < strength

theorem Stops.mono {strength other : Nat} {kinds : List TokenKind} (h : Stops strength kinds)
    (hle : strength ≤ other) : Stops other kinds := by
  cases kinds with
  | nil => trivial
  | cons kind kinds =>
    exact ⟨fun hk => Nat.lt_of_lt_of_le (h.1 hk) hle, fun hk => Nat.lt_of_lt_of_le (h.2.1 hk) hle,
      fun _ _ ho => Nat.lt_of_lt_of_le (h.2.2 _ _ ho) hle⟩

/-- The kind of the token after the one at the cursor. -/
theorem State.peek_one {s : State} {kind : TokenKind} {kinds : List TokenKind}
    (h : s.kinds = kind :: kinds) : s.cursor.peek 1 = kinds.headD kind := by
  rw [kinds_eq_cons] at h
  obtain ⟨hk, h⟩ := List.cons.inj h
  rw [Cursor.peek]
  cases ha : s.cursor.ahead with
  | nil =>
    rw [ha] at h
    rw [← h]
    exact hk
  | cons t ts =>
    rw [ha] at h
    rw [← h]
    cases ts <;> rfl

namespace Grammar

open Rule hiding pure bind

variable {strength : Nat} {chain : Chain} {s t u : State} {e : Expression}

/-- Whether the tokens ahead stop an expression shows at the cursor. -/
theorem stops_kinds_iff : Stops strength s.kinds ↔
    (opensSuffix s.cursor.kind = true → suffixStrength < strength) ∧
    (s.cursor.kind = .keyword .IS → testStrength < strength) ∧
    ∀ operator width, binaryOperator? s.cursor.kind (s.cursor.peek 1) = some (operator, width) →
      operator.strength < strength := by
  rw [State.peek_one s.kinds_eq_cons]
  rfl

/-- No operator begins like a suffix. -/
theorem binaryOperator?_of_opensSuffix {kind next : TokenKind} (h : opensSuffix kind = true) :
    binaryOperator? kind next = none := by
  unfold opensSuffix at h
  split at h <;> first | rfl | cases h

theorem stops_iff_of_suffix (hk : opensSuffix s.cursor.kind = true) :
    Stops strength s.kinds ↔ suffixStrength < strength := by
  rw [stops_kinds_iff, binaryOperator?_of_opensSuffix hk]
  refine ⟨fun h => h.1 hk, fun h => ⟨fun _ => h, fun htest => ?_, nofun⟩⟩
  rw [htest] at hk
  cases hk

theorem stops_iff_of_test (hk : s.cursor.kind = .keyword .IS) :
    Stops strength s.kinds ↔ testStrength < strength := by
  rw [stops_kinds_iff, hk]
  exact ⟨fun h => h.2.1 rfl, fun h => ⟨nofun, fun _ => h, nofun⟩⟩

theorem stops_iff_of_operator {operator : BinaryOperator} {width : Nat}
    (hop : binaryOperator? s.cursor.kind (s.cursor.peek 1) = some (operator, width)) :
    Stops strength s.kinds ↔ operator.strength < strength := by
  rw [stops_kinds_iff]
  refine ⟨fun h => h.2.2 _ _ hop, fun h => ⟨fun hk => ?_, fun hk => ?_, fun other _ ho => ?_⟩⟩
  · cases (binaryOperator?_of_opensSuffix hk).symm.trans hop
  · rw [hk] at hop
    cases hop
  · cases hop.symm.trans ho
    exact h

/-! ### Operators before an operand -/

theorem run_leading_of_none (h : unaryOperator? s.cursor.kind = none) :
    leading.run setting inner s = operand.run setting inner s := by
  rw [leading, here, run_bind, run_look, Outcome.andThen_done, View.read,
    show unaryOperator? s.cursor.current.kind = none from h]

theorem run_leading_of_some {operator : UnaryOperator}
    (h : unaryOperator? s.cursor.kind = some operator) :
    leading.run setting inner s =
      if decide (operator = .negate) && isLeastMagnitude s.cursor.advance.kind then
        .done (.literal (.integer (-leastMagnitude))
          ⟨s.cursor.current.span.start, s.step.cursor.current.span.stop⟩) s.step.step
      else
        (inner (.expression operator.strength) s.step).andThen fun x t =>
          .done (.unary operator x ⟨s.cursor.current.span.start, x.span.stop⟩) t := by
  rw [leading, here, run_bind, run_look, Outcome.andThen_done, View.read,
    show unaryOperator? s.cursor.current.kind = some operator from h]
  change run setting inner (if (decide (operator = .negate) &&
    isLeastMagnitude s.cursor.advance.kind) = true then _ else _) s.step = _
  split
  · rfl
  · rw [run_bind, run_nested]
    rfl

/-! ### One step -/

/-- **What a chain can come to** at the cursor. -/
inductive Continues (setting : Setting) (inner : Inner) (strength : Nat) (chain : Chain)
    (s : State) : Option Chain → State → Prop
  /-- Nothing goes on with it. -/
  | stop (stops : Stops strength s.kinds) : Continues setting inner strength chain s none s
  /-- A suffix does. -/
  | suffix {e : Expression} {t : State} (opens : opensSuffix s.cursor.kind = true)
    (binds : strength ≤ suffixStrength)
    (run : (suffix chain.tree).run setting inner s = .done e t) :
    Continues setting inner strength chain s (some ⟨e, none⟩) t
  /-- A test does. -/
  | nullTest {e : Expression} {t : State} (opens : s.cursor.kind = .keyword .IS)
    (binds : strength ≤ testStrength)
    (run : (nullTest chain.tree).run setting inner s = .done e t) :
    Continues setting inner strength chain s (some ⟨e, none⟩) t
  /-- An operator does, together with its right operand. -/
  | operation {operator : BinaryOperator} {width : Nat} {right : Expression} {t u : State}
    (opens : binaryOperator? s.cursor.kind (s.cursor.peek 1) = some (operator, width))
    (binds : strength ≤ operator.strength)
    (past : (moveOver width).run setting inner s = .done () t)
    (run : inner (.expression operator.rightStrength) t = .done right u) :
    Continues setting inner strength chain s (some (chain.extend operator right)) u

theorem continues_of_operation {next : Option Chain} (hs : opensSuffix s.cursor.kind = false)
    (hn : s.cursor.kind ≠ .keyword .IS)
    (hr : (operation strength chain).run setting inner s = .done next t) :
    Continues setting inner strength chain s next t := by
  obtain ⟨token, _, hu, hr⟩ := done_of_bind hr
  cases hu
  obtain ⟨kind, _, hu, hr⟩ := done_of_bind hr
  cases hu
  have hstop (h : ∀ operator width,
      binaryOperator? s.cursor.kind (s.cursor.peek 1) = some (operator, width) →
        operator.strength < strength) : Stops strength s.kinds :=
    stops_kinds_iff.2 ⟨fun hk => absurd (hs.symm.trans hk) Bool.false_ne_true,
      fun hk => absurd hk hn, h⟩
  split at hr
  · next hop =>
    cases hr
    exact .stop (hstop fun operator width h => nomatch hop.symm.trans h)
  · next operator width hop =>
    split at hr
    · next hlt =>
      cases hr
      refine .stop (hstop fun other width' h => ?_)
      cases hop.symm.trans h
      exact hlt
    · next hle =>
      obtain ⟨_, u, hu, hr⟩ := done_of_bind hr
      obtain ⟨right, v, hv, hr⟩ := done_of_bind hr
      cases hr
      exact .operation hop (Nat.le_of_not_lt hle) hu hv

/-- **There is nothing else** that a chain can come to. -/
theorem continues_of_done {next : Option Chain}
    (hr : (continuation strength chain).run setting inner s = .done next t) :
    Continues setting inner strength chain s next t := by
  obtain ⟨token, _, hu, hr⟩ := done_of_bind hr
  cases hu
  dsimp only at hr
  split at hr
  · next hk =>
    have hk : opensSuffix s.cursor.kind = true := hk
    split at hr
    · next hlt =>
      cases hr
      refine .stop (stops_kinds_iff.2 ⟨fun _ => hlt, fun hn => ?_, fun operator width hop => ?_⟩)
      · rw [hn] at hk
        cases hk
      · rw [binaryOperator?_of_opensSuffix hk] at hop
        cases hop
    · next hle =>
      obtain ⟨e, u, hu, hr⟩ := done_of_bind hr
      cases hr
      exact .suffix hk (Nat.le_of_not_lt hle) hu
  · next hs =>
    have hs : opensSuffix s.cursor.kind = false := Bool.eq_false_iff.2 hs
    split at hr
    · next hk =>
      have hk : s.cursor.kind = .keyword .IS := hk
      split at hr
      · next hlt =>
        cases hr
        refine .stop (stops_kinds_iff.2 ⟨fun h => absurd (hs.symm.trans h) Bool.false_ne_true,
          fun _ => hlt, fun operator width hop => ?_⟩)
        rw [hk] at hop
        cases hop
      · next hle =>
        obtain ⟨e, u, hu, hr⟩ := done_of_bind hr
        cases hr
        exact .nullTest hk (Nat.le_of_not_lt hle) hu
    · next hn => exact continues_of_operation hs hn hr

/-- **Each of these is what the grammar does.** -/
theorem run_of_continues {next : Option Chain}
    (h : Continues setting inner strength chain s next t) :
    (continuation strength chain).run setting inner s = .done next t := by
  rw [continuation, here, run_bind, run_look, Outcome.andThen_done]
  change run setting inner (if opensSuffix s.cursor.kind = true then _
    else if s.cursor.kind = .keyword .IS then _ else _) s = _
  cases h with
  | stop stops =>
    obtain ⟨hs, his, ho⟩ := stops_kinds_iff.1 stops
    split
    · next hk => rw [if_pos (hs hk)]; rfl
    · split
      · next hk => rw [if_pos (his hk)]; rfl
      · rw [operation, here, run_bind, run_look, Outcome.andThen_done, run_bind, run_look,
          Outcome.andThen_done, View.read, View.read]
        split
        · rfl
        · next operator width hop => rw [if_pos (ho operator width hop)]; rfl
  | suffix opens binds run =>
    rw [if_pos opens, if_neg (Nat.not_lt_of_le binds), run_bind_done run]
    rfl
  | nullTest opens binds run =>
    rw [if_neg (by rw [opens]; decide), if_pos opens, if_neg (Nat.not_lt_of_le binds),
      run_bind_done run]
    rfl
  | operation opens binds past right =>
    have hs : ¬opensSuffix s.cursor.kind = true := fun hs => by
      rw [binaryOperator?_of_opensSuffix hs] at opens
      cases opens
    have his : s.cursor.kind ≠ .keyword .IS := fun hk => by
      rw [hk] at opens
      cases opens
    rw [if_neg hs, if_neg his, operation, here, run_bind, run_look, Outcome.andThen_done, run_bind,
      run_look, Outcome.andThen_done, View.read, View.read,
      show s.cursor.current.kind = s.cursor.kind from rfl, opens]
    change run setting inner (if _ then _ else _) s = _
    rw [if_neg (Nat.not_lt_of_le binds), run_bind_done past, run_bind, run_nested, right]
    rfl

/-- Where a chain goes on, it does so with any lower strength. -/
theorem Continues.mono {other : Nat} {next : Chain}
    (h : Continues setting inner strength chain s (some next) t) (hle : other ≤ strength) :
    Continues setting inner other chain s (some next) t := by
  cases h with
  | suffix opens binds run => exact .suffix opens (Nat.le_trans hle binds) run
  | nullTest opens binds run => exact .nullTest opens (Nat.le_trans hle binds) run
  | operation opens binds past run => exact .operation opens (Nat.le_trans hle binds) past run

/-! ### Many steps -/

/-- **What an expression has become on its way**: the chain that is held in a state, when a rule for
expressions has begun in another. -/
inductive Partway (setting : Setting) (inner : Inner) (strength : Nat) (s : State) :
    Chain → State → Prop
  /-- At first there is an operand. -/
  | operand {first : Expression} {t : State} (run : leading.run setting inner s = .done first t) :
    Partway setting @inner strength s ⟨first, none⟩ t
  /-- Then it is gone on with. -/
  | step {chain next : Chain} {t u : State} (part : Partway setting @inner strength s chain t)
    (run : (continuation strength chain).run setting inner t = .done (some next) u) :
    Partway setting @inner strength s next u

theorem Partway.onward (hi : inner.GoesOn) (h : Partway setting inner strength s chain t) :
    s.Onward t := by
  induction h with
  | operand run => exact onward_of_done hi run
  | step _ run ih => exact ih.trans (onward_of_done hi run)

theorem Partway.mono {other : Nat} (h : Partway setting inner strength s chain t)
    (hle : other ≤ strength) : Partway setting inner other s chain t := by
  induction h with
  | operand run => exact .operand run
  | step _ run ih => exact ih.step (run_of_continues ((continues_of_done run).mono hle))

/-- **From partway on**, the rule does what the repetition does from there. -/
theorem Partway.run_expressionOf (h : Partway setting inner strength s chain t)
    (hi : inner.GoesOn) (hc : s.cursor.Closed) :
    (expressionOf strength).run setting inner s =
      ((loop (continuation strength) chain).run setting inner t).andThen fun chain u =>
        .done chain.tree u := by
  induction h with
  | operand run => exact (run_bind_done run).trans (run_bind ..)
  | @step chain next t u part run ih =>
    rw [ih, run_loop hi ((part.onward hi).closed hc) fun chain w _ =>
      movesOn_continuation hi strength chain w, run]
    rfl

/-- **An expression is the tree of a chain** that nothing goes on with any more. -/
theorem exists_partway (hi : inner.GoesOn) (hc : s.cursor.Closed)
    (hr : (expressionOf strength).run setting inner s = .done e t) :
    ∃ chain, Partway setting inner strength s chain t ∧ chain.tree = e ∧
      Stops strength t.kinds := by
  obtain ⟨first, u, hu, hr⟩ := done_of_bind hr
  obtain ⟨chain, v, hv, hr⟩ := done_of_bind hr
  cases hr
  have hpart : Partway setting inner strength s ⟨first, none⟩ u := .operand hu
  clear hu hr
  generalize (⟨first, none⟩ : Chain) = begun at hpart hv
  -- the induction is on what is left to read, which every step makes less
  induction hn : u.left using Nat.strongRecOn generalizing u begun with
  | ind n ih =>
    have hclosed := (hpart.onward hi).closed hc
    rw [run_loop hi hclosed fun chain w _ => movesOn_continuation hi strength chain w] at hv
    cases hstep : (continuation strength begun).run setting inner u with
    | failed d w =>
      rw [hstep] at hv
      cases hv
    | done next w =>
      rw [hstep] at hv
      cases next with
      | none =>
        cases hv
        cases continues_of_done hstep with
        | stop stops => exact ⟨chain, hpart, rfl, stops⟩
      | some next =>
        have hlt := movesOn_continuation hi strength begun u hclosed _ w hstep rfl
        exact ih w.left (hn ▸ hlt) w next (hpart.step hstep) hv rfl

/-! ### Nested expressions -/

/-- **A nested expression** is that of a chain, and stops behind it. -/
theorem partway_of_run {room : Nat} (hc : s.cursor.Closed)
    (hr : runNested setting body (room + 1) (.expression strength) s = .done e t) :
    ∃ chain u, Partway setting (runNested setting body room) strength
      { s with depth := s.depth + 1 } chain u ∧ chain.tree = e ∧ Stops strength t.kinds ∧
      t = { u with depth := u.depth - 1 } := by
  have hi : Inner.GoesOn (runNested setting body room) := goesOn_runNested setting body room
  have hc' : ({ s with depth := s.depth + 1 } : State).cursor.Closed := hc
  obtain ⟨u, hu, rfl⟩ := done_of_runNested hr
  obtain ⟨chain, hpart, htree, hstops⟩ := exists_partway hi hc' hu
  exact ⟨chain, u, hpart, htree, hstops, rfl⟩

/-- A nested expression stops. -/
theorem stops_of_run {room : Nat} (hc : s.cursor.Closed)
    (hr : runNested setting body room (.expression strength) s = .done e t) :
    Stops strength t.kinds := by
  cases room with
  | zero => cases hr
  | succ room =>
    obtain ⟨_, _, -, -, hstops, -⟩ := partway_of_run hc hr
    exact hstops

end Grammar

end Cypher
