import Cypher.Proofs.Guess.Path
import Cypher.Proofs.Precedence

/-!
# Rows are read with the lookahead

A nested expression that begins in a row, and is run with the lookahead, passes a stretch of the
row and stops behind it (`Cypher.Grammar.passes`). What stands in the row is read as before. Where a
path is guessed instead, more of the row is passed at once; and as the place behind the path is a
place in the row, the expression goes on there.

It may go on differently. In `x * (a)--(b) ^ c` the power is on the right of the first dash if there
are groups, and on the right of the star if there is a path. So it is not shown that the same
expressions are read, but that any expression gets from one place in the row to another, with
whatever strength it has been begun. The induction is on the levels of nesting that are left with
the lookahead: those without it say nothing about how deep an operand is then.
-/

namespace Cypher

/-- To move over some tokens is to move on. -/
theorem Cursor.onward_iterate (c : Cursor) (width : Nat) :
    c.Onward (Cursor.advance^[width] c) := by
  induction width generalizing c with
  | zero => exact .refl c
  | succ width ih => exact c.onward_advance.trans (ih c.advance)

namespace Grammar

open Rule hiding pure bind
open Trial

variable {T : Trial} {room depth : Nat} {stop c c' : Cursor} {s : State} {keyed : Bool}

/-! ### Expressions go on -/

section Continuation

variable {setting : Setting} {inner : Inner} {strength : Nat} {chain : Chain}

theorem run_continuation_of_test (hk : s.cursor.kind = .keyword .IS)
    (hle : strength ≤ testStrength) :
    (continuation strength chain).run setting inner s =
      ((nullTest chain.tree).run setting inner s).andThen fun x t => .done (some ⟨x, none⟩) t := by
  rw [continuation, here, run_bind, run_look, Outcome.andThen_done, View.read,
    show s.cursor.current.kind = _ from hk, if_neg (by decide), if_pos rfl,
    if_neg (Nat.not_lt_of_le hle)]
  exact run_bind ..

theorem run_continuation_of_operator {operator : BinaryOperator} {width : Nat}
    (hop : binaryOperator? s.cursor.kind (s.cursor.peek 1) = some (operator, width))
    (hle : strength ≤ operator.strength) :
    (continuation strength chain).run setting inner s =
      (inner (.expression operator.rightStrength)
        { s with cursor := Cursor.advance^[width] s.cursor }).andThen fun right t =>
          .done (some (chain.extend operator right)) t := by
  have hsuffix : ¬opensSuffix s.cursor.kind = true := fun hk => by
    rw [binaryOperator?_of_opensSuffix hk] at hop
    cases hop
  have htest : s.cursor.kind ≠ .keyword .IS := fun hk => by
    rw [hk] at hop
    cases hop
  rw [continuation, here, run_bind, run_look, Outcome.andThen_done]
  change run setting inner (if opensSuffix s.cursor.kind = true then _
    else if s.cursor.kind = .keyword .IS then _ else _) s = _
  rw [if_neg hsuffix, if_neg htest, operation, here, run_bind, run_look, Outcome.andThen_done,
    run_bind, run_look, Outcome.andThen_done, View.read, View.read,
    show s.cursor.current.kind = s.cursor.kind from rfl, hop]
  change run setting inner (if operator.strength < strength then _ else _) s = _
  rw [if_neg (Nat.not_lt_of_le hle), run_bind_done (run_moveOver_eq width s), run_bind, run_nested]
  rfl

end Continuation

/-! ### Rows end -/

/-- Where no expression goes on, every expression stops. -/
theorem stops_of_halts {strength : Nat} (h : s.cursor.Halts) : Stops strength s.kinds :=
  stops_kinds_iff.2 ⟨fun hk => absurd hk h.suffix, fun hk => absurd hk h.test, fun _ _ hop =>
    nomatch h.operator.symm.trans hop⟩

/-- Where an expression halts, a row has come to its end. -/
theorem eq_stop_of_halts (hrow : T.Row room depth stop keyed .behind c) (hc : c.Halts) :
    c = stop ∧ keyed = false := by
  cases hrow with
  | stop => exact ⟨rfl, rfl⟩
  | suffix opens => exact absurd opens hc.suffix
  | nullTest opens => exact absurd opens hc.test
  | keys opens => exact absurd opens hc.test
  | operation opens => cases hc.operator.symm.trans opens

/-! ### What is read with the lookahead -/

section Guessing

variable {n strength : Nat} (hnests : ∀ j < room, (T.rivals j n).Nests)

/-- What has been read without the lookahead is read with it, and what is to be said of the place
behind it is said of the same place. -/
theorem ends_of_reads {p : Cursor → Prop} {rel : Expression → Expression → Prop}
    {rule rule' : Rule Expression} (hs : T.Inside depth s)
    (hreads : T.Reads room depth rule s.cursor c') (hp : p c')
    (hfollows : ∀ j < room, ∀ u, T.Beside u s →
      (T.rivals j n).FollowsFrom rel rule rule' u s) :
    T.Ends (fun _ t => p t.cursor) (rule'.run T.setting (T.guessed n) s) := by
  obtain ⟨j, u, e, t, hj, hu, hdu, hr, rfl⟩ := hreads
  have hbeside : T.Beside u s := ⟨hu.symm, hs.depth.trans hdu.symm, hu ▸ hs.onward⟩
  exact (hfollows j hj u hbeside e t hr).mono fun _ _ ⟨_, ht⟩ => ht.cursor ▸ hp

include hnests

/-- **An operand**, where a path may be guessed. -/
theorem ends_operand (hstop : stop.Halts) (hs : T.Inside depth s)
    (hopens : unaryOperator? s.cursor.kind = none)
    (hreads : T.Reads room depth operand s.cursor c')
    (hrow : T.Row room depth stop keyed .behind c') :
    T.Ends (fun _ t => T.Row room depth stop keyed .behind t.cursor)
      (operand.run T.setting (T.guessed n) s) := by
  by_cases hguess : s.cursor.opensPattern = true
  · have hk := kind_of_opensPattern hguess
    rw [run_operand_of_leftParen hk, T.lookahead, if_pos hguess]
    cases hr : patternPart.run T.setting (T.guessed n) s with
    | failed d t => exact .path hs.onward (T.lookahead ▸ hguess) hr
    | done part t =>
      exact behind_of_patternPart hs.closed hstop (.operand hopens hreads hrow) hk hr
  · have hguess : s.cursor.opensPattern = false := Bool.eq_false_iff.2 hguess
    exact ends_of_reads hs hreads hrow fun j hj u hu =>
      followsFrom_operand (hnests j hj) hu (hu.cursor ▸ hguess)

/-- **Nested expressions that pass a stretch of the row** and stop behind it. Those in a keyed row
must not be so loose that they take the test at its end. -/
def Passes (T : Trial) (room depth : Nat) (stop : Cursor) (keyed : Bool) (n : Nat) : Prop :=
  ∀ strength s, T.Inside depth s → T.Row room depth stop keyed .before s.cursor →
    (keyed = true → testStrength < strength) →
    T.Ends (fun _ t => T.Row room depth stop keyed .behind t.cursor ∧ Stops strength t.kinds)
      (T.guessed n (.expression strength) s)

/-- An operand with the operators before it. -/
theorem ends_leading (hpasses : Passes T room depth stop keyed n) (hstop : stop.Halts)
    (hs : T.Inside depth s) (hrow : T.Row room depth stop keyed .before s.cursor) :
    T.Ends (fun _ t => T.Row room depth stop keyed .behind t.cursor)
      (leading.run T.setting (T.guessed n) s) := by
  have hstep : T.Inside depth s.step := hs.place s.cursor.onward_advance
  cases hrow with
  | @sign _ _ operator opens plain tight rest =>
    rw [run_leading_of_some opens, if_neg plain]
    refine (hpasses _ _ hstep rest fun hk => ?_).andThen fun _ _ ht => ht.1
    have hnot := tight hk
    cases operator <;> first | exact absurd rfl hnot | decide
  | least opens digits rest =>
    rw [run_leading_of_some (by rw [opens]; rfl), if_pos (by rw [digits]; rfl)]
    exact rest
  | operand opens reads rest =>
    rw [run_leading_of_none opens]
    exact ends_operand hnests hstop hs opens reads rest

/-- **What goes on with a chain**: a part of the row, or the test at its end. -/
theorem ends_continuation (hpasses : Passes T room depth stop keyed n) (hstop : stop.Halts)
    (hs : T.Inside depth s) (hrow : T.Row room depth stop keyed .behind s.cursor) (chain : Chain) :
    T.Ends (fun next t => next.elim
        (T.Row room depth stop keyed .behind t.cursor ∧ Stops strength t.kinds)
        fun _ => T.Row room depth stop keyed .behind t.cursor ∨
          (keyed = true ∧ strength ≤ testStrength) ∧ T.Keys room depth stop t.cursor)
      ((continuation strength chain).run T.setting (T.guessed n) s) := by
  by_cases hstops : Stops strength s.kinds
  · rw [run_of_continues (.stop hstops)]
    exact ⟨hrow, hstops⟩
  · cases hrow with
    | stop => exact absurd (stops_of_halts hstop) hstops
    | suffix opens reads rest =>
      have hle := Nat.le_of_not_lt (mt (stops_iff_of_suffix opens).2 hstops)
      rw [run_continuation_of_opensSuffix opens hle]
      exact (ends_of_reads hs reads rest fun j hj u hu =>
        follows_suffix (hnests j hj) _ _ u s hu).andThen fun _ _ ht => .inl ht
    | nullTest opens reads rest =>
      have hle := Nat.le_of_not_lt (mt (stops_iff_of_test opens).2 hstops)
      rw [run_continuation_of_test opens hle]
      exact (ends_of_reads hs reads rest fun _ _ u hu =>
        follows_nullTest _ _ u s hu).andThen fun _ _ ht => .inl ht
    | keys opens reads rest =>
      have hle := Nat.le_of_not_lt (mt (stops_iff_of_test opens).2 hstops)
      rw [run_continuation_of_test opens hle]
      exact (ends_of_reads hs reads rest fun _ _ u hu =>
        follows_nullTest _ _ u s hu).andThen fun _ _ ht => .inr ⟨⟨rfl, hle⟩, ht⟩
    | @operation _ _ operator width opens tight rest =>
      have hle := Nat.le_of_not_lt (mt (stops_iff_of_operator opens).2 hstops)
      rw [run_continuation_of_operator opens hle]
      exact (hpasses _ _ (hs.place (s.cursor.onward_iterate width)) rest fun hk =>
        Nat.lt_succ_of_le (tight hk)).andThen fun _ _ ht => .inl ht.1

end Guessing

/-- **A nested expression comes to a good end** if its parts do: an operand, and whatever goes on
with what has been read. -/
theorem ends_of_parts {p q : Expression → State → Prop} {n strength : Nat} (hs : T.Inside depth s)
    (hleading : T.Ends p
      (leading.run T.setting (T.guessed n) { s with depth := s.depth + 1 }))
    (hstep : ∀ (chain : Chain) u, T.Inside depth u → p chain.tree u →
      T.Ends (fun next t => next.elim (q chain.tree { t with depth := t.depth - 1 }) (p ·.tree t))
        ((continuation strength chain).run T.setting (T.guessed n) u)) :
    T.Ends q (T.guessed (n + 1) (.expression strength) s) := by
  have hi : Inner.GoesOn (T.guessed n) := goesOn_runNested T.setting body n
  have hdeeper : T.Inside depth { s with depth := s.depth + 1 } := ⟨hs.depth, hs.onward⟩
  refine Ends.mapState (q := fun e t => q e { t with depth := t.depth - 1 })
    (?_ : T.Ends _ ((expressionOf strength).run T.setting (T.guessed n) _)) fun _ _ ht => ht
  refine (hleading.inside hdeeper (onward_run T.setting hi leading _)).bind
    fun first t ⟨ht, hin⟩ => ?_
  refine Ends.bind (Ends.loop (p := fun (chain : Chain) u => p chain.tree u)
    (q := fun (chain : Chain) u => q chain.tree { u with depth := u.depth - 1 }) hi
    (movesOn_continuation hi strength) hstep hin ht) fun _ _ hu => hu

/-- **All nested expressions do**, however many levels of nesting are left. -/
theorem passes (hnests : ∀ j < room, ∀ n, (T.rivals j n).Nests) (hstop : stop.Halts) (n : Nat) :
    Passes T room depth stop keyed n := by
  induction n with
  | zero =>
    intro strength s hs hrow hk
    exact .deep rfl
  | succ n ih =>
    intro strength s hs hrow hk
    have hn := fun j hj => hnests j hj n
    have hdeeper : T.Inside depth { s with depth := s.depth + 1 } := ⟨hs.depth, hs.onward⟩
    refine ends_of_parts hs (ends_leading hn ih hstop hdeeper hrow) fun chain u hu hrow => ?_
    refine (ends_continuation hn ih hstop hu hrow chain).mono fun next v hv => ?_
    cases next with
    | none => exact hv
    | some chain => exact hv.elim id fun h => absurd (hk h.1.1) (Nat.not_lt_of_le h.1.2)

end Grammar

end Cypher
