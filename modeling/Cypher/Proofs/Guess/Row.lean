import Cypher.Proofs.Chain
import Cypher.Proofs.Guess.Brackets
import Cypher.Proofs.Guess.Expression
import Mathlib.Logic.Function.Iterate

/-!
# Operands and operators in a row

Without the lookahead, an expression is read as a row: signs and an operand, what stands behind it,
an operator, and so on (`Cypher.Trial.Row`). Which operator takes which operand does not show in
this, and that is the point. Where a path is guessed, operands and operators are passed all at once,
and those behind it are taken by others; but the place behind the path is a place in the row.

An expression is the target of a change if it is a property, and to see this the row is not enough.
There are two ways for it to be one. The key may stand behind the first operand and its other
suffixes (`Cypher.Trial.Sole`). Or it stands behind a test for a missing value; then no operator
that is looser than the test has come before, since the test would belong to what is on the right of
it. Such a row is called keyed.
-/

namespace Cypher

open Grammar

namespace Trial

/-! ### Rows -/

/-- How nested rules are run without the lookahead, given the levels of nesting left. -/
def grouped (T : Trial) (room : Nat) : Inner := Rule.runNested T.setting.grouping body room

theorem strict_grouping (T : Trial) : T.setting.grouping.forgiving = false := T.strict

/-- How they are run with it. -/
def guessed (T : Trial) (room : Nat) : Inner := Rule.runNested T.setting body room

/-- **How nested rules are run without the lookahead and with it**, given the levels of nesting
left. -/
def rivals (T : Trial) (room n : Nat) : Rivals :=
  { T with grouping := T.grouped room, guessing := T.guessed n }

/-- Where one stands in a row of operands. -/
inductive Place
  /-- An operand comes next. -/
  | before
  /-- An operand has been read. -/
  | behind

section Row

variable (T : Trial) (room depth : Nat)

/-- What a rule reads without the lookahead between two places, in a number of scopes and with fewer
than a number of levels of nesting left. -/
def Reads (rule : Rule Expression) (c c' : Cursor) : Prop :=
  ∃ j s e t, j < room ∧ s.cursor = c ∧ s.scopes.depth = depth ∧
    rule.run T.setting.grouping (T.grouped j) s = .done e t ∧ t.cursor = c'

variable {T room depth} in
theorem reads_of_done {rule : Rule Expression} {j : Nat} {s t : State} {e : Expression}
    (hj : j < room) (hd : s.scopes.depth = depth)
    (hr : rule.run T.setting.grouping (T.grouped j) s = .done e t) :
    T.Reads room depth rule s.cursor t.cursor := ⟨j, s, e, t, hj, rfl, hd, hr, rfl⟩

variable (stop : Cursor)

/-- **Suffixes in a row**, the last of which is a key. -/
inductive Keys : Cursor → Prop
  /-- The last suffix. -/
  | last {c : Cursor} {base : Expression} (opens : c.kind = .sign .dot)
    (reads : T.Reads room depth (suffix base) c stop) : Keys c
  /-- A suffix and more of them. -/
  | more {c c' : Cursor} {base : Expression} (opens : opensSuffix c.kind = true)
    (reads : T.Reads room depth (suffix base) c c') (rest : Keys c') : Keys c

/-- **A row of operands and operators** up to a place, as it is read without the lookahead. A keyed
row comes to an end with a test for a missing value and keys behind it, and has no operators looser
than the test. -/
inductive Row : Bool → Place → Cursor → Prop
  /-- The end of the row. -/
  | stop : Row false .behind stop
  /-- An operator before an operand. -/
  | sign {keyed : Bool} {c : Cursor} {operator : UnaryOperator}
    (opens : unaryOperator? c.kind = some operator)
    (plain : ¬(decide (operator = .negate) && isLeastMagnitude c.advance.kind) = true)
    (tight : keyed = true → operator ≠ .not) (rest : Row keyed .before c.advance) :
    Row keyed .before c
  /-- The least integer. -/
  | least {keyed : Bool} {c : Cursor} (opens : c.kind = .sign .minus)
    (digits : isLeastMagnitude c.advance.kind = true)
    (rest : Row keyed .behind c.advance.advance) : Row keyed .before c
  /-- An operand. -/
  | operand {keyed : Bool} {c c' : Cursor} (opens : unaryOperator? c.kind = none)
    (reads : T.Reads room depth operand c c') (rest : Row keyed .behind c') : Row keyed .before c
  /-- A suffix. -/
  | suffix {keyed : Bool} {c c' : Cursor} {base : Expression} (opens : opensSuffix c.kind = true)
    (reads : T.Reads room depth (suffix base) c c') (rest : Row keyed .behind c') :
    Row keyed .behind c
  /-- A test for a missing value. -/
  | nullTest {keyed : Bool} {c c' : Cursor} {base : Expression} (opens : c.kind = .keyword .IS)
    (reads : T.Reads room depth (nullTest base) c c') (rest : Row keyed .behind c') :
    Row keyed .behind c
  /-- The last test of a keyed row. -/
  | keys {c c' : Cursor} {base : Expression} (opens : c.kind = .keyword .IS)
    (reads : T.Reads room depth (nullTest base) c c') (rest : Keys T room depth stop c') :
    Row true .behind c
  /-- An operator between operands. -/
  | operation {keyed : Bool} {c : Cursor} {operator : BinaryOperator} {width : Nat}
    (opens : binaryOperator? c.kind (c.peek 1) = some (operator, width))
    (tight : keyed = true → testStrength ≤ operator.strength)
    (rest : Row keyed .before (Cursor.advance^[width] c)) : Row keyed .behind c

/-- **A sole operand**, which is a property or has keys behind it. -/
inductive Sole (c : Cursor) : Prop
  /-- An operand and keys. -/
  | operand {c' : Cursor} (opens : unaryOperator? c.kind = none)
    (reads : T.Reads room depth operand c c') (rest : Keys T room depth stop c')
  /-- The least integer and keys. -/
  | least (opens : c.kind = .sign .minus) (digits : isLeastMagnitude c.advance.kind = true)
    (rest : Keys T room depth stop c.advance.advance)
  /-- An operand that is a property. -/
  | bare {j : Nat} {s t : State} {e : Expression} (lt : j < room) (place : s.cursor = c)
    (scopes : s.scopes.depth = depth)
    (run : operand.run T.setting.grouping (T.grouped j) s = .done e t) (property : e.isProperty)
    (opens : unaryOperator? c.kind = none) (ends : t.cursor = stop)

end Row

end Trial

namespace Grammar

open Rule hiding pure bind
open Trial

variable {setting : Setting} {inner : Inner} {s t : State}

/-! ### How expressions begin -/

/-- **What an expression can begin with.** -/
inductive Begins (setting : Setting) (inner : Inner) (s : State) : Expression → State → Prop
  /-- An operand without operators before it. -/
  | operand {e : Expression} {t : State} (opens : unaryOperator? s.cursor.kind = none)
    (run : operand.run setting inner s = .done e t) : Begins setting inner s e t
  /-- The least integer. -/
  | least {span : Span} (opens : s.cursor.kind = .sign .minus)
    (digits : isLeastMagnitude s.cursor.advance.kind = true) :
    Begins setting inner s (.literal (.integer (-leastMagnitude)) span) s.step.step
  /-- An operator and its operand. -/
  | sign {operator : UnaryOperator} {x : Expression} {span : Span} {t : State}
    (opens : unaryOperator? s.cursor.kind = some operator)
    (plain : ¬(decide (operator = .negate) && isLeastMagnitude s.cursor.advance.kind) = true)
    (run : inner (.expression operator.strength) s.step = .done x t) :
    Begins setting inner s (.unary operator x span) t

theorem begins_of_done {e : Expression} (hr : leading.run setting inner s = .done e t) :
    Begins setting inner s e t := by
  cases hop : unaryOperator? s.cursor.kind with
  | none => exact .operand hop (run_leading_of_none hop ▸ hr)
  | some operator =>
    rw [run_leading_of_some hop] at hr
    split at hr
    · next hleast =>
      cases hr
      obtain ⟨hnegate, hdigits⟩ := Bool.and_eq_true_iff.1 hleast
      refine .least ?_ hdigits
      rw [of_decide_eq_true hnegate] at hop
      unfold unaryOperator? at hop
      split at hop <;> first | assumption | cases hop
    · next hplain =>
      cases hx : inner (.expression operator.strength) s.step with
      | failed d u =>
        rw [hx] at hr
        cases hr
      | done x u =>
        rw [hx] at hr
        cases hr
        exact .sign hop hplain hx

/-- The tokens of an operator are passed. -/
theorem run_moveOver_eq (width : Nat) (s : State) :
    (moveOver width).run setting inner s =
      .done () { s with cursor := Cursor.advance^[width] s.cursor } := by
  induction width generalizing s with
  | zero => rfl
  | succ width ih => exact ih s.step

/-! ### Rows are read -/

section Reading

variable {T : Trial} {room depth : Nat} {stop : Cursor} {j strength : Nat} {e : Expression}

variable (T room depth stop) in
/-- **Two places that are joined** by a stretch of the row. In a keyed row, what a test belongs to
goes on up to it. -/
def Joins (s t : State) : Prop :=
  ∀ keyed, (keyed = true → ¬Stops testStrength t.kinds) →
    T.Row room depth stop keyed .behind t.cursor → T.Row room depth stop keyed .before s.cursor

section Partway

variable {chain : Chain} (hj : j < room) (hc : s.cursor.Closed) (hd : s.scopes.depth = depth)

include hj hc hd

/-- An expression that is partway has passed a stretch of the row. -/
theorem joins_of_partway
    (hinner : ∀ {strength : Nat} {s t : State} {e : Expression}, s.cursor.Closed →
      s.scopes.depth = depth → T.grouped j (.expression strength) s = .done e t →
        Joins T room depth stop s t)
    (hp : Partway T.setting.grouping (T.grouped j) strength s chain t) :
    Joins T room depth stop s t := by
  have hi : Inner.GoesOn (T.grouped j) := goesOn_runNested T.setting.grouping body j
  induction hp with
  | @operand first t run =>
    intro keyed hkeyed hrow
    cases begins_of_done run with
    | operand opens run => exact .operand opens (reads_of_done hj hd run) hrow
    | least opens digits => exact .least opens digits hrow
    | @sign operator _ _ _ opens plain run =>
      have hc' : s.step.cursor.Closed := hc.advance
      have hd' : s.step.scopes.depth = depth := hd
      refine .sign opens plain (fun hk hnot => hkeyed hk ?_) (hinner hc' hd' run keyed hkeyed hrow)
      have hstops := stops_of_run hc' run
      rw [hnot] at hstops
      exact hstops.mono (by decide)
  | @step chain next u t part run ih =>
    intro keyed hkeyed hrow
    have hsu := part.onward hi
    have hdu : u.scopes.depth = depth := hsu.depth_scopes.trans hd
    cases continues_of_done run with
    | suffix opens binds run =>
      exact ih keyed (fun _ => mt (stops_iff_of_suffix opens).1 (by decide))
        (.suffix opens (reads_of_done hj hdu run) hrow)
    | nullTest opens binds run =>
      exact ih keyed (fun _ => mt (stops_iff_of_test opens).1 (Nat.lt_irrefl _))
        (.nullTest opens (reads_of_done hj hdu run) hrow)
    | @operation operator width right v _ opens binds past run =>
      have huv := onward_of_done hi past
      have hcv : v.cursor.Closed := (hsu.trans huv).closed hc
      rw [run_moveOver_eq] at past
      cases past
      have htight : keyed = true → testStrength ≤ operator.strength := fun hk =>
        Nat.le_of_not_lt fun hlt => hkeyed hk ((stops_of_run hcv run).mono hlt)
      exact ih keyed (fun hk => mt (stops_iff_of_operator opens).1 (Nat.not_lt_of_le (htight hk)))
        (.operation opens htight (hinner hcv hdu run keyed hkeyed hrow))

end Partway

/-- **What a nested expression has passed** is a stretch of the row. -/
theorem joins_of_run (hj : j ≤ room) (hc : s.cursor.Closed) (hd : s.scopes.depth = depth)
    (hr : T.grouped j (.expression strength) s = .done e t) : Joins T room depth stop s t := by
  induction j generalizing strength s e t with
  | zero => cases hr
  | succ j ih =>
    obtain ⟨chain, u, hpart, -, -, rfl⟩ := partway_of_run hc hr
    have hjoins : Joins T room depth stop { s with depth := s.depth + 1 } u :=
      joins_of_partway hj hc hd (fun hc hd hr => ih (Nat.le_of_lt hj) hc hd hr) hpart
    exact hjoins

/-! ### Properties -/

/-- Suffixes of which the last is a key begin like a suffix. -/
theorem opensSuffix_of_keys {c : Cursor} (h : T.Keys room depth stop c) :
    opensSuffix c.kind = true := by
  cases h with
  | last opens => rw [opens]; rfl
  | more opens => exact opens

/-- A suffix that makes a property is a key. -/
theorem kind_of_suffix {base : Expression} (hr : (suffix base).run setting inner s = .done e t)
    (he : e.isProperty = true) : s.cursor.kind = .sign .dot := by
  obtain ⟨token, _, ⟨⟩, hr⟩ := done_of_bind hr
  split at hr
  · assumption
  · obtain ⟨found, u, -, hr⟩ := done_of_bind hr
    cases hr
    cases he
  · obtain ⟨_, u, -, hr⟩ := done_of_bind hr
    obtain ⟨lower, v, -, hr⟩ := done_of_bind hr
    obtain ⟨stretch, w, -, hr⟩ := done_of_bind hr
    cases stretch with
    | true =>
      obtain ⟨upper, x, -, hr⟩ := done_of_bind hr
      obtain ⟨_, y, -, hr⟩ := done_of_bind hr
      cases hr
      cases he
    | false =>
      obtain ⟨_, x, -, hr⟩ := done_of_bind hr
      cases lower with
      | none => cases hr
      | some index =>
        cases hr
        cases he

/-- A test for a missing value is no property. -/
theorem not_isProperty_of_nullTest {base : Expression}
    (hr : (nullTest base).run setting inner s = .done e t) : ¬e.isProperty = true := by
  obtain ⟨_, u, -, hr⟩ := done_of_bind hr
  obtain ⟨negated, v, -, hr⟩ := done_of_bind hr
  obtain ⟨_, w, -, hr⟩ := done_of_bind hr
  cases hr
  exact nofun

/-- Nor is an operator with its operands. -/
theorem not_isProperty_extend (chain : Chain) (operator : BinaryOperator) (right : Expression) :
    ¬(chain.extend operator right).tree.isProperty = true := by
  unfold Chain.extend
  split
  · split <;> exact nofun
  · exact nofun

section Property

variable (hj : j < room) (hc : s.cursor.Closed) (hd : s.scopes.depth = depth)

include hj hc hd

/-- **Where keys stand**: behind a sole operand, or behind a test at the end of a keyed row. -/
theorem keyed_or_sole_of_keys {chain : Chain}
    (hp : Partway T.setting.grouping (T.grouped j) strength s chain t)
    (hkeys : T.Keys room depth stop t.cursor) :
    strength ≤ testStrength ∧ T.Row room depth stop true .before s.cursor ∨
      T.Sole room depth stop s.cursor := by
  have hi : Inner.GoesOn (T.grouped j) := goesOn_runNested T.setting.grouping body j
  induction hp with
  | @operand first t run =>
    cases begins_of_done run with
    | operand opens run => exact .inr (.operand opens (reads_of_done hj hd run) hkeys)
    | least opens digits => exact .inr (.least opens digits hkeys)
    | @sign operator _ _ _ opens plain run =>
      have hc' : s.step.cursor.Closed := hc.advance
      have hstops := (stops_iff_of_suffix (opensSuffix_of_keys hkeys)).1 (stops_of_run hc' run)
      cases operator <;> exact absurd hstops (by decide)
  | @step chain next u t part run ih =>
    have hsu := part.onward hi
    have hdu : u.scopes.depth = depth := hsu.depth_scopes.trans hd
    cases continues_of_done run with
    | suffix opens binds run => exact ih (.more opens (reads_of_done hj hdu run) hkeys)
    | nullTest opens binds run =>
      refine .inl ⟨binds, ?_⟩
      have hjoins : Joins T room depth stop s u := joins_of_partway hj hc hd
        (fun hc hd hr => joins_of_run (Nat.le_of_lt hj) hc hd hr) part
      exact hjoins true (fun _ => mt (stops_iff_of_test opens).1 (Nat.lt_irrefl _))
        (.keys opens (reads_of_done hj hdu run) hkeys)
    | @operation operator width right v _ opens binds past run =>
      have hcv : v.cursor.Closed := (hsu.trans (onward_of_done hi past)).closed hc
      have hstops := (stops_iff_of_suffix (opensSuffix_of_keys hkeys)).1 (stops_of_run hcv run)
      cases operator <;> exact absurd hstops (by decide)

/-- An expression that is a property ends with a key, unless it is an operand alone. -/
theorem keyed_or_sole_of_partway {chain : Chain}
    (hp : Partway T.setting.grouping (T.grouped j) strength s chain t)
    (he : chain.tree.isProperty = true) (ht : t.cursor = stop) :
    strength ≤ testStrength ∧ T.Row room depth stop true .before s.cursor ∨
      T.Sole room depth stop s.cursor := by
  have hi : Inner.GoesOn (T.grouped j) := goesOn_runNested T.setting.grouping body j
  cases hp with
  | operand run =>
    cases begins_of_done run with
    | operand opens run => exact .inr (.bare hj rfl hd run he opens ht)
    | least opens digits => cases he
    | sign opens plain run => cases he
  | @step chain next u t part run =>
    have hdu : u.scopes.depth = depth := (part.onward hi).depth_scopes.trans hd
    cases continues_of_done run with
    | suffix opens binds run =>
      exact keyed_or_sole_of_keys hj hc hd part
        (.last (kind_of_suffix run he) ⟨j, u, _, _, hj, rfl, hdu, run, ht⟩)
    | nullTest opens binds run => exact absurd he (not_isProperty_of_nullTest run)
    | operation opens binds past run => exact absurd he (not_isProperty_extend _ _ _)

end Property

/-- **An expression that is a property** ends a keyed row with a key, or it is a sole operand with
suffixes. -/
theorem keyed_or_sole_of_run (hj : j ≤ room) (hc : s.cursor.Closed) (hd : s.scopes.depth = depth)
    (hr : T.grouped j (.expression strength) s = .done e t) (he : e.isProperty = true)
    (ht : t.cursor = stop) :
    strength ≤ testStrength ∧ T.Row room depth stop true .before s.cursor ∨
      T.Sole room depth stop s.cursor := by
  cases j with
  | zero => cases hr
  | succ j =>
    obtain ⟨chain, u, hpart, rfl, -, rfl⟩ := partway_of_run hc hr
    exact keyed_or_sole_of_partway (s := { s with depth := s.depth + 1 }) hj hc hd hpart he ht

end Reading

end Grammar

end Cypher
