import Cypher.Proofs.Blocks
import Cypher.Proofs.Ledger.Document
import Cypher.Proofs.Nodes
import Cypher.Parse

/-!
# Operands on the left

Without parentheses, no operator is applied to an operand on its left that binds more loosely than
itself, unless that operand is a test for a missing value. The grammar sees to that by reading from
left to right: what has been read is handed on as an operand to whatever comes next, and the right
operands that end with it were read for as long as anything went on with them that binds strongly
enough. So something that comes next and is still to be read is too loose for all of them.

The test for a missing value ends with a word and not with an operand, and it is read as the
suffixes are: how strongly it binds decides about what stands before it, and anything may go on
behind it. So it can be the left operand of a sum, or the base of a key, without parentheses, and
`Cypher.Expression.LeftBinds` does not hold of `a IS NULL + 1`. For every other operand it does,
which is `Cypher.Grammar.leftBinds_or_of_read`. The invariant is `Cypher.Grammar.Settled`: of an
expression behind which the grammar stands, everything too tight for it as a left operand stops it
at the cursor. A chain of comparisons needs more, as it stands for a conjunction that is looser than
the comparisons it goes on with (`Cypher.Grammar.SettledChain`).
-/

namespace Cypher

/-! ### How strongly expressions bind -/

namespace Expression

/-- **How strongly the operator of an expression binds**, if it has one outside of brackets. -/
def strength? : Expression → Option Nat
  | property .. | index .. | slice .. | hasLabels .. => some Grammar.suffixStrength
  | unary operator _ _ => some operator.strength
  | binary operator _ _ _ => some operator.strength
  | isNull .. => some Grammar.testStrength
  | _ => none

/-- Whether an expression is a test for a missing value. -/
def isNullTest : Expression → Bool
  | isNull .. => true
  | _ => false

/-- **The operand on the left** of an operator, of a test for a missing value or of a suffix. -/
def left? : Expression → Option Expression
  | binary _ left _ _ => some left
  | isNull operand _ _ => some operand
  | e => e.base?

/-- **An expression that binds at least with a strength**: it has no operator outside of brackets,
or one that is strong enough. -/
def Binds (e : Expression) (strength : Nat) : Prop := ∀ n ∈ e.strength?, strength ≤ n

instance (e : Expression) (strength : Nat) : Decidable (e.Binds strength) :=
  inferInstanceAs (Decidable (∀ n ∈ e.strength?, strength ≤ n))

/-- **An expression whose left operand**, if there is one, **is not looser than itself.** -/
def LeftBinds (e : Expression) : Prop := ∀ left ∈ e.left?, ∀ n ∈ e.strength?, left.Binds n

instance (e : Expression) : Decidable e.LeftBinds :=
  inferInstanceAs (Decidable (∀ left ∈ e.left?, ∀ n ∈ e.strength?, left.Binds n))

theorem Binds.mono {e : Expression} {n m : Nat} (h : e.Binds n) (hle : m ≤ n) : e.Binds m :=
  fun k hk => Nat.le_trans hle (h k hk)

theorem binds_of_eq_none {e : Expression} (h : e.strength? = none) (n : Nat) : e.Binds n := by
  intro k hk
  rw [h] at hk
  cases hk

theorem binds_iff {e : Expression} {k n : Nat} (h : e.strength? = some k) :
    e.Binds n ↔ n ≤ k := by
  rw [Binds, h]
  exact ⟨fun hb => hb k rfl, fun hle m hm => Option.some.inj hm ▸ hle⟩

theorem strength?_of_base? {e base : Expression} (h : e.base? = some base) :
    e.left? = some base ∧ e.strength? = some Grammar.suffixStrength := by
  unfold base? at h
  split at h
  all_goals cases h
  all_goals exact ⟨rfl, rfl⟩

end Expression

namespace Grammar

open Rule hiding pure bind
open Expression (Binds)

variable {setting : Setting} {inner : Inner} {s t : State} {e left right : Expression}
  {strength n : Nat} {kinds : List TokenKind}

/-! ### Operators at the cursor -/

/-- Nothing binds more strongly than a suffix. -/
theorem stops_of_lt (h : suffixStrength < n) : Stops n s.kinds := by
  refine stops_kinds_iff.2 ⟨fun _ => h, fun _ => Nat.lt_trans (by decide) h, ?_⟩
  intro operator _ _
  refine Nat.lt_trans ?_ h
  cases operator <;> decide

theorem strength_of_isComparison {operator : BinaryOperator} (h : operator.isComparison = true) :
    operator.strength = 9 := by
  cases operator <;> first | rfl | cases h

/-- What is as loose as a comparison is a comparison, or a conjunction at most. -/
theorem strength_le_five {operator : BinaryOperator} (h : operator.isComparison = false)
    (hlt : operator.strength < 10) : operator.strength ≤ 5 := by
  cases operator <;> revert h hlt <;> decide

/-- There is no operator between comparisons and conjunctions that takes a left operand. -/
theorem stops_six (h : Stops 9 s.kinds) : Stops 6 s.kinds := by
  obtain ⟨hs, ht, ho⟩ := stops_kinds_iff.1 h
  refine stops_kinds_iff.2 ⟨fun hk => absurd (hs hk) (by decide),
    fun hk => absurd (ht hk) (by decide), fun operator width hop => ?_⟩
  have hlt := ho operator width hop
  cases hc : operator.isComparison with
  | true =>
    rw [strength_of_isComparison hc] at hlt
    exact absurd hlt (Nat.lt_irrefl 9)
  | false => exact Nat.lt_succ_of_le (strength_le_five hc (Nat.lt_succ_of_lt hlt))

/-! ### Operands have no operator outside of brackets -/

/-- **Rules whose expressions have no operator** outside of brackets. -/
def Atomic (setting : Setting) (inner : Inner) (rule : Rule Expression) : Prop :=
  ∀ s e t, rule.run setting inner s = .done e t → e.strength? = none

namespace Atomic

variable {α : Type} {rule other : Rule Expression}

theorem pure (h : e.strength? = none) : Atomic setting inner (Pure.pure e) := by
  intro s e t hr
  cases hr
  exact h

theorem bind {first : Rule α} {next : α → Rule Expression}
    (h : ∀ a, Atomic setting inner (next a)) : Atomic setting inner (first >>= next) := by
  intro s e u hr
  obtain ⟨a, t, -, hu⟩ := done_of_bind hr
  exact h a t e u hu

theorem fail (problem : Problem) : Atomic setting inner (.fail problem) := by
  intro s e t hr
  cases hr

theorem ite {condition : Prop} [Decidable condition] (h : Atomic setting inner rule)
    (ho : Atomic setting inner other) :
    Atomic setting inner (if condition then rule else other) := by
  split
  · exact h
  · exact ho

end Atomic

theorem atomic_literalHere (value : Literal) : Atomic setting inner (literalHere value) :=
  .bind fun _ => .pure rfl

theorem atomic_variableHere (name : String) : Atomic setting inner (variableHere name) :=
  .bind fun _ => .pure rfl

theorem atomic_listLiteral : Atomic setting inner listLiteral := by
  refine .bind fun _ => .bind fun _ => .ite (.bind fun _ => .pure rfl) ?_
  exact .bind fun _ => .bind fun _ => .bind fun _ => .pure rfl

theorem atomic_mapLiteral : Atomic setting inner mapLiteral :=
  .bind fun _ => .bind fun _ => .bind fun _ => .bind fun _ => .pure rfl

theorem atomic_caseDistinction : Atomic setting inner caseDistinction := by
  refine .bind fun _ => .bind fun _ => .bind fun _ => .ite (.fail _) ?_
  exact .bind fun _ => .bind fun _ => .bind fun _ => .pure rfl

theorem atomic_callArguments (name : String) (start : Nat) :
    Atomic setting inner (callArguments name start) :=
  .bind fun _ => .bind fun _ => .bind fun _ => .bind fun _ => .pure rfl

theorem atomic_plainCall (name : Ident) : Atomic setting inner (plainCall name) := by
  refine .ite (.bind fun _ => .ite ?_ (atomic_callArguments _ _)) (atomic_callArguments _ _)
  exact .bind fun _ => .bind fun _ => .bind fun _ => .pure rfl

theorem atomic_functionCall : Atomic setting inner functionCall := by
  refine .bind fun name => .bind fun _ => ?_
  split
  · exact .bind fun _ => .ite (.bind fun _ => .pure rfl) (atomic_plainCall name)
  · exact atomic_plainCall name

theorem atomic_existence : Atomic setting inner existence := by
  refine .bind fun next => ?_
  split
  · exact atomic_functionCall
  · refine .bind fun _ => .bind fun _ => .bind fun _ => .bind fun _ => .bind fun _ => ?_
    exact .bind fun _ => .pure rfl
  · exact .bind fun _ => .fail _

theorem atomic_named (name : String) : Atomic setting inner (named name) := by
  refine .bind fun _ => .ite atomic_functionCall (.ite ?_ (atomic_variableHere name))
  exact .bind fun _ => .ite (.fail _) (atomic_variableHere name)

/-- **Operands are atomic** where no parenthesis opens a group. -/
theorem strength?_of_operand (hk : s.cursor.kind ≠ .sign .leftParen)
    (hr : operand.run setting inner s = .done e t) : e.strength? = none := by
  obtain ⟨token, _, hu, hr⟩ := done_of_bind hr
  cases hu
  revert hr
  dsimp only [View.read]
  split
  · split
    · exact atomic_literalHere _ _ _ _
    · exact Atomic.fail _ _ _ _
  · exact atomic_literalHere _ _ _ _
  · exact atomic_literalHere _ _ _ _
  · exact atomic_literalHere _ _ _ _
  · exact atomic_literalHere _ _ _ _
  · exact atomic_literalHere _ _ _ _
  · exact Atomic.bind (fun _ => .pure rfl) _ _ _
  · next h => exact absurd h hk
  · exact atomic_listLiteral _ _ _
  · exact atomic_mapLiteral _ _ _
  · exact atomic_caseDistinction _ _ _
  · exact atomic_existence _ _ _
  · exact Atomic.bind (fun _ => .ite atomic_functionCall (.fail _)) _ _ _
  · exact atomic_named _ _ _ _
  · exact atomic_variableHere _ _ _ _
  · exact Atomic.fail _ _ _ _

/-! ### What suffixes and tests stand behind -/

theorem base?_of_suffix {base : Expression} (hr : (suffix base).run setting inner s = .done e t) :
    e.base? = some base := by
  obtain ⟨_, _, hu, hr⟩ := done_of_bind hr
  cases hu
  split at hr
  · obtain ⟨_, _, -, hr⟩ := done_of_bind hr
    obtain ⟨_, _, -, hr⟩ := done_of_bind hr
    cases hr
    rfl
  · obtain ⟨_, _, -, hr⟩ := done_of_bind hr
    obtain ⟨_, _, -, hr⟩ := done_of_bind hr
    cases hr
    rfl
  · obtain ⟨_, _, -, hr⟩ := done_of_bind hr
    obtain ⟨lower, _, -, hr⟩ := done_of_bind hr
    obtain ⟨dots, _, -, hr⟩ := done_of_bind hr
    split at hr
    · obtain ⟨_, _, -, hr⟩ := done_of_bind hr
      obtain ⟨_, _, -, hr⟩ := done_of_bind hr
      obtain ⟨_, _, -, hr⟩ := done_of_bind hr
      cases hr
      rfl
    · obtain ⟨_, _, -, hr⟩ := done_of_bind hr
      cases lower with
      | none => cases hr
      | some index =>
        obtain ⟨_, _, -, hr⟩ := done_of_bind hr
        cases hr
        rfl

theorem isNullTest_of_nullTest {base : Expression}
    (hr : (nullTest base).run setting inner s = .done e t) : e.isNullTest = true := by
  obtain ⟨_, _, -, hr⟩ := done_of_bind hr
  obtain ⟨_, _, -, hr⟩ := done_of_bind hr
  obtain ⟨_, _, -, hr⟩ := done_of_bind hr
  obtain ⟨_, _, -, hr⟩ := done_of_bind hr
  cases hr
  rfl

/-! ### The invariant -/

/-- **An expression that is settled before some tokens**: what is too tight to take it for a left
operand does not come next. A test for a missing value never is. -/
def Settled (e : Expression) (kinds : List TokenKind) : Prop :=
  e.isNullTest = true ∨ ∀ n, ¬e.Binds n → Stops n kinds

theorem settled_of_stops (h : e.strength? = some n) (hs : Stops (n + 1) kinds) :
    Settled e kinds := by
  refine .inr fun m hm => hs.mono ?_
  rw [Expression.binds_iff h] at hm
  exact Nat.lt_of_not_le hm

/-- What comes next may take a settled expression for its left operand. -/
theorem Settled.binds (h : Settled e kinds) (hn : ¬Stops n kinds) :
    e.Binds n ∨ e.isNullTest = true := by
  rcases h with hnull | hstops
  · exact .inr hnull
  · exact .inl (Classical.byContradiction fun hb => hn (hstops n hb))

/-- **A chain that is settled before some tokens.** One that has not ended with a comparison is if
its tree is. Otherwise the last operand is, the tree is a comparison or a conjunction, and nothing
tighter than a comparison comes next. -/
def SettledChain (strength : Nat) (chain : Chain) (kinds : List TokenKind) : Prop :=
  match chain.last with
  | none => Settled chain.tree kinds
  | some right => Settled right kinds ∧ chain.tree.Binds 5 ∧ Stops 10 kinds ∧ strength ≤ 9

/-- What comes next may take a settled chain for its left operand, unless it is a comparison that
goes on with another. -/
theorem SettledChain.binds {chain : Chain} (h : SettledChain strength chain kinds)
    (hn : ¬Stops n kinds) (hlast : chain.last.isSome = true → n < 10 → n ≤ 5) :
    chain.tree.Binds n ∨ chain.tree.isNullTest = true := by
  unfold SettledChain at h
  split at h
  · exact h.binds hn
  · next right hright =>
    obtain ⟨-, hbinds, hstops, -⟩ := h
    have hlt : n < 10 := Nat.lt_of_not_le fun hle => hn (hstops.mono hle)
    exact .inl (hbinds.mono (hlast (hright ▸ rfl) hlt))

/-- Where nothing goes on with a settled chain, its tree is settled. -/
theorem SettledChain.settled {chain : Chain} (h : SettledChain strength chain s.kinds)
    (hs : Stops strength s.kinds) : Settled chain.tree s.kinds := by
  unfold SettledChain at h
  split at h
  · exact h
  · obtain ⟨-, hbinds, -, hle⟩ := h
    refine .inr fun n hn => (stops_six (hs.mono hle)).mono ?_
    exact Nat.lt_of_not_le fun hle => hn (hbinds.mono hle)

theorem settledChain_extend {chain : Chain} {operator : BinaryOperator}
    (hle : strength ≤ operator.strength) (hs : Stops operator.rightStrength kinds)
    (hr : Settled right kinds) : SettledChain strength (chain.extend operator right) kinds := by
  unfold Chain.extend
  split
  · next hc =>
    have hnine := strength_of_isComparison hc
    rw [BinaryOperator.rightStrength, hnine] at hs
    rw [hnine] at hle
    split
    · exact ⟨hr, (Expression.binds_iff rfl).2 (by decide), hs, hle⟩
    · exact ⟨hr, (Expression.binds_iff rfl).2 (hnine ▸ by decide), hs, hle⟩
  · exact settled_of_stops rfl hs

end Grammar

/-- **A cursor ahead of which no parenthesis opens**, with an end token behind the others. -/
structure Cursor.Unparenthesized (c : Cursor) : Prop where
  /-- The last token is the end of the text. -/
  closed : c.Closed
  /-- None opens a parenthesis. -/
  kind_ne : ∀ t ∈ c.rest, t.kind ≠ .sign .leftParen

theorem Cursor.Unparenthesized.advance {c : Cursor} (h : c.Unparenthesized) :
    c.advance.Unparenthesized :=
  ⟨h.closed.advance, fun t ht => h.kind_ne t (mem_rest_of_advance ht)⟩

theorem Cursor.Unparenthesized.onward {c c' : Cursor} (h : c.Unparenthesized)
    (ho : c.Onward c') : c'.Unparenthesized :=
  ho.induct (p := Unparenthesized) (fun _ => .advance) h

/-- **Nested rules whose expressions end** where nothing goes on with them, and are settled
there. -/
structure Inner.Settle (inner : Inner) : Prop where
  /-- They go on. -/
  goesOn : inner.GoesOn
  /-- Where they end, expressions are settled. -/
  expression {strength : Nat} {s t : State} {e : Expression} (h : s.cursor.Unparenthesized)
    (run : inner (.expression strength) s = .done e t) :
    Stops strength t.kinds ∧ Grammar.Settled e t.kinds

namespace Grammar

open Rule hiding pure bind

variable {setting : Setting} {inner : Inner} {s t : State} {e : Expression} {strength : Nat}

/-! ### Expressions are settled where they end -/

section Settle

variable (h : inner.Settle) (hs : s.cursor.Unparenthesized)

include h hs

/-- An operand is settled, with or without an operator before it. -/
theorem settled_of_leading (hr : leading.run setting inner s = .done e t) : Settled e t.kinds := by
  obtain ⟨token, _, hu, hr⟩ := done_of_bind hr
  cases hu
  split at hr
  · have hatom := strength?_of_operand (hs.kind_ne _ List.mem_cons_self) hr
    exact .inr fun n hn => absurd (Expression.binds_of_eq_none hatom n) hn
  · next operator _ =>
    obtain ⟨_, u, hu, hr⟩ := done_of_bind hr
    obtain ⟨_, _, hv, hr⟩ := done_of_bind hr
    cases hv
    split at hr
    · obtain ⟨_, _, -, hr⟩ := done_of_bind hr
      cases hr
      exact .inr fun n hn => absurd (Expression.binds_of_eq_none rfl n) hn
    · obtain ⟨operand, v, hv, hr⟩ := done_of_bind hr
      cases hr
      have hstops := (h.expression (hs.onward (onward_of_done h.goesOn hu).cursor) hv).1
      exact settled_of_stops rfl (hstops.mono (Nat.le_succ _))

/-- **Chains on their way are settled.** -/
theorem settledChain_of_partway {chain : Chain}
    (part : Partway setting inner strength s chain t) : SettledChain strength chain t.kinds := by
  induction part with
  | operand run => exact settled_of_leading h hs run
  | @step chain next t u part run _ =>
    cases continues_of_done run with
    | suffix _ _ run =>
      have hstrength := (Expression.strength?_of_base? (base?_of_suffix run)).2
      exact settled_of_stops hstrength (stops_of_lt (Nat.lt_succ_self _))
    | nullTest _ _ run => exact .inl (isNullTest_of_nullTest run)
    | operation _ binds past run =>
      have hu := hs.onward ((part.onward h.goesOn).trans (onward_of_done h.goesOn past)).cursor
      obtain ⟨hstops, hright⟩ := h.expression hu run
      exact settledChain_extend binds hstops hright

theorem settled_of_expressionOf (hr : (expressionOf strength).run setting inner s = .done e t) :
    Stops strength t.kinds ∧ Settled e t.kinds := by
  obtain ⟨chain, hpart, rfl, hstops⟩ := exists_partway h.goesOn hs.closed hr
  exact ⟨hstops, (settledChain_of_partway h hs hpart).settled hstops⟩

end Settle

/-- **Nested expressions are settled where they end.** -/
theorem settle_runNested (setting : Setting) (room : Nat) :
    Inner.Settle (runNested setting body room) := by
  induction room with
  | zero =>
    refine ⟨goesOn_runNested setting body 0, fun _ hr => ?_⟩
    cases hr
  | succ room ih =>
    refine ⟨goesOn_runNested setting body _, fun {_ s _ _} hs hr => ?_⟩
    obtain ⟨u, hu, rfl⟩ := done_of_runNested hr
    have hdeeper : ({ s with depth := s.depth + 1 } : State).cursor.Unparenthesized := hs
    have hsettled := settled_of_expressionOf ih hdeeper hu
    exact hsettled

/-! ### What is made of an operand -/

section LeftOperands

variable {room : Nat} {chain : Chain} (hs : s.cursor.Unparenthesized)
  (part : Partway setting (runNested setting body room) strength s chain t)

include hs part

theorem leftBinds_of_suffix (opens : opensSuffix t.cursor.kind = true)
    (base : e.base? = some chain.tree) :
    ∀ left ∈ e.left?, ∀ n ∈ e.strength?, left.Binds n ∨ left.isNullTest = true := by
  obtain ⟨hleft, hstrength⟩ := Expression.strength?_of_base? base
  rw [hleft, hstrength]
  rintro _ ⟨⟩ _ ⟨⟩
  exact (settledChain_of_partway (settle_runNested setting room) hs part).binds
    (mt (stops_iff_of_suffix opens).1 (Nat.lt_irrefl _)) fun _ hlt => absurd hlt (by decide)

theorem leftBinds_of_nullTest (opens : t.cursor.kind = .keyword .IS) :
    chain.tree.Binds testStrength ∨ chain.tree.isNullTest = true :=
  (settledChain_of_partway (settle_runNested setting room) hs part).binds
    (mt (stops_iff_of_test opens).1 (Nat.lt_irrefl _)) fun _ hlt => absurd hlt (by decide)

/-- A conjunction of comparisons has comparisons on its left, and a comparison that goes on with
another has the operand of that. -/
theorem leftBinds_of_mem_joined {operator : BinaryOperator} {width : Nat} {right : Expression}
    (opens : binaryOperator? t.cursor.kind (t.cursor.peek 1) = some (operator, width))
    (joined : e ∈ chain.joined operator right) :
    ∀ left ∈ e.left?, ∀ n ∈ e.strength?, left.Binds n ∨ left.isNullTest = true := by
  have hchain := settledChain_of_partway (settle_runNested setting room) hs part
  have hn := mt (stops_iff_of_operator opens).1 (Nat.lt_irrefl _)
  unfold Chain.joined at joined
  split at joined
  · next hc =>
    split at joined
    · next last hlast =>
      unfold SettledChain at hchain
      rw [hlast] at hchain
      obtain ⟨hsettled, hbinds, -, -⟩ := hchain
      rcases List.mem_cons.1 joined with rfl | joined
      · rintro _ ⟨⟩ _ ⟨⟩
        exact .inl hbinds
      · obtain rfl := List.mem_singleton.1 joined
        rintro _ ⟨⟩ _ ⟨⟩
        exact hsettled.binds hn
    · next hlast =>
      obtain rfl := List.mem_singleton.1 joined
      rintro _ ⟨⟩ _ ⟨⟩
      refine hchain.binds hn fun hsome => ?_
      rw [hlast] at hsome
      cases hsome
  · next hc =>
    obtain rfl := List.mem_singleton.1 joined
    rintro _ ⟨⟩ _ ⟨⟩
    exact hchain.binds hn fun _ hlt => strength_le_five (Bool.eq_false_iff.2 hc) hlt

end LeftOperands

end Grammar

/-! ### The ledger of left operands -/

/-- **What is asked of left operands**: they are not looser than what they belong to, or else tests
for a missing value. -/
def Element.AsksLeft : Element → Prop
  | expression e => ∀ left ∈ e.left?, ∀ n ∈ e.strength?, left.Binds n ∨ left.isNullTest = true
  | _ => True

theorem Element.asksLeft_of_isPlain {e : Element} (h : e.isPlain = true) : e.AsksLeft := by
  unfold AsksLeft
  split
  · next e =>
    cases e with
    | property | index | slice | hasLabels | binary | isNull => cases h
    | _ => exact fun _ hl => absurd hl nofun
  · trivial

/-- **The ledger of left operands**, in which problems do not count. All that is known of a cursor
is that no parenthesis opens ahead. -/
def Ledger.leftOperands (setting : Setting) : Ledger setting where
  demand := Element.AsksLeft
  counts := False
  known := Cursor.Unparenthesized
  advance := .advance
  plain := Element.asksLeft_of_isPlain
  relationship _ _ _ := trivial
  integer _ _ _ := fun _ hl => absurd hl nofun
  least _ _ _ := fun _ hl => absurd hl nofun
  call _ _ _ _ _ _ := fun _ hl => absurd hl nofun
  suffix h part opens base := Grammar.leftBinds_of_suffix h part opens base
  nullTest h part opens _ _ := by
    rintro _ ⟨⟩ _ ⟨⟩
    exact Grammar.leftBinds_of_nullTest h part opens
  operation h part opens joined := Grammar.leftBinds_of_mem_joined h part opens joined
  clauseError _ := iff_of_true trivial id
  statementError _ := iff_of_true trivial id
  branch _ := iff_of_true trivial False.elim
  query _ _ := iff_of_true trivial False.elim
  patternBody _ _ := trivial

/-- **Only a test for a missing value is ever a looser left operand.** In every document
that is read from tokens without an opening parenthesis, what a suffix stands behind has no operator
outside of brackets or is another suffix, and the left operand of an operator or of a test for a
missing value has no operator outside of brackets or one that binds at least as strongly, unless it
is such a test itself. -/
theorem Grammar.leftBinds_or_of_read {setting : Setting} {tokens : List Token} {document : Document}
    {e left : Expression} {n : Nat} (hp : ∀ t ∈ tokens, t.kind ≠ .sign .leftParen)
    (hr : (read setting tokens).document = some document)
    (he : (Element.document document).Within (.expression e)) (hl : e.left? = some left)
    (hn : e.strength? = some n) : left.Binds n ∨ left.isNullTest = true := by
  have hk : (Cursor.ofTokens tokens).Unparenthesized := by
    refine ⟨Cursor.closed_ofTokens tokens, fun t ht => ?_⟩
    rcases Cursor.mem_rest_ofTokens ht with ht | hend
    · exact hp t ht
    · rw [hend]
      exact nofun
  exact ((Ledger.leftOperands setting).throughout_document hk hr).2 False.elim _ he left hl n hn

/-- An expression in what is read from a text may be looked for. -/
theorem exists_expression (source : String) (options : Options) (test : Expression → Bool)
    (h : ((parseTokens (tokenize source options.dialect).tokens options).document.any
      fun document => document.nodes.any fun n => n.expression?.any test) = true) :
    ∃ document e, (parseTokens (tokenize source options.dialect).tokens options).document =
      some document ∧ (Element.document document).Within (.expression e) ∧ test e = true := by
  obtain ⟨document, hread, hany⟩ := (Option.any_eq_true _ _).1 h
  obtain ⟨n, hn, hany⟩ := List.any_eq_true.1 hany
  obtain ⟨e, he, htest⟩ := (Option.any_eq_true _ _).1 hany
  refine ⟨document, e, hread, ?_, htest⟩
  have hwithin := Document.within_of_mem_nodes hn
  cases n with
  | expression x =>
    obtain rfl : x = e := Option.some.inj he
    exact hwithin
  | _ => cases he

/-- A product in a sum is not looser than the sum. -/
theorem Grammar.leftBinds_or_of_read_sum :
    let options := Options.standard
    let tokens := (tokenize "RETURN a * b + c" options.dialect).tokens
    (∀ t ∈ tokens, t.kind ≠ .sign .leftParen) ∧
      ∃ document e left, (read (.ofOptions options) tokens).document = some document ∧
        (Element.document document).Within (.expression e) ∧ e.left? = some left ∧
        e.strength? = some 13 ∧ (left.Binds 13 ∨ left.isNullTest = true) := by
  intro options tokens
  have hp : ∀ t ∈ tokens, t.kind ≠ .sign .leftParen := by decide +kernel
  obtain ⟨document, e, hread, hwithin, htest⟩ :=
    exists_expression "RETURN a * b + c" options (fun e => e.strength? = some 13) (by decide +kernel)
  have hn : e.strength? = some 13 := of_decide_eq_true htest
  obtain ⟨left, hl⟩ : ∃ left, e.left? = some left := by
    cases e with
    | unary operator => cases operator <;> cases hn
    | property | index | slice | hasLabels | binary | isNull => exact ⟨_, rfl⟩
    | _ => cases hn
  exact ⟨hp, document, e, left, hread, hwithin, hl, hn,
    leftBinds_or_of_read hp hread hwithin hl hn⟩

/-- **A left operand may be looser**: that of a sum may be a test for a missing value. -/
theorem not_leftBinds :
    ¬∀ (source : String) (options : Options) (document : Document) (e : Expression),
      (∀ t ∈ (tokenize source options.dialect).tokens, t.kind ≠ .sign .leftParen) →
      (parseTokens (tokenize source options.dialect).tokens options).document = some document →
      (Element.document document).Within (.expression e) → e.LeftBinds := by
  intro h
  obtain ⟨document, e, hread, hwithin, htest⟩ := exists_expression "RETURN a IS NULL + 1" .standard
    (fun e => !decide e.LeftBinds) (by decide +kernel)
  have hleft := h "RETURN a IS NULL + 1" .standard document e (by decide +kernel) hread hwithin
  rw [decide_eq_true hleft] at htest
  cases htest

end Cypher
