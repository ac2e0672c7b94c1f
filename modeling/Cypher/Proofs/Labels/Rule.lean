import Cypher.Proofs.Labels.Piece
import Cypher.Proofs.Stripped.Query

/-!
# Where problems of the grammar point

A rule of the grammar that is alike to itself complains and fails only about the token at the
cursor, and the spans of all tokens fit. So along such a rule all problems are well placed
(`Cypher.Rule.Alike.placed_run`). The one exception is a target of a change that is no property: its
problem is one of the target, from where the target was looked for to where it ends, and this fits
since the target has been laid out well.
-/

namespace Cypher

variable {fit : Nat → Prop} {setting : Setting} {inner : Inner} {α β : Type}

/-- **A state in which all is well placed**: the tokens at and ahead of the cursor, and the
problems met. -/
structure State.Placed (fit : Nat → Prop) (s : State) : Prop where
  /-- The tokens follow one another. -/
  cursor : s.cursor.Laid fit
  /-- The problems are well placed. -/
  problems : ∀ d ∈ s.problems, d.Placed fit

/-- **An end at which all is well placed**, the failure included. -/
def Outcome.Placed (fit : Nat → Prop) : Outcome α → Prop
  | .done _ s => s.Placed fit
  | .failed d s => d.Placed fit ∧ s.Placed fit

/-- The span of the token at the cursor fits. -/
theorem Cursor.Laid.fits {c : Cursor} (h : c.Laid fit) : c.current.span.Fits fit :=
  ⟨h.front_le_stop, h.fit_front, h.fit_stop⟩

/-- **A problem of the token at the cursor is well placed.** -/
theorem Problem.placed_diagnostic (dialect : Dialect) (limit : Nat) {problem : Problem}
    (h : problem.IsHere) {t : Token} (ht : t.span.Fits fit) :
    (problem.diagnostic dialect limit t).Placed fit := by
  cases problem with
  | notAProperty span => exact h.elim
  | expected what =>
    simp only [diagnostic, expectedAt]
    split <;> exact Diagnostic.placed_of_label rfl ht
  | _ => exact Diagnostic.placed_of_label rfl ht

namespace State.Placed

variable {s : State}

/-- Problems met at the cursor are well placed. -/
theorem diagnostic (h : s.Placed fit) {problem : Problem} (hp : problem.IsHere) :
    (s.diagnostic setting problem).Placed fit := problem.placed_diagnostic _ _ hp h.cursor.fits

theorem moved {c : Cursor} (h : s.Placed fit) (hc : s.cursor.Onward c) :
    State.Placed fit { s with cursor := c } := ⟨(h.cursor.onward hc).1, h.problems⟩

theorem note (h : s.Placed fit) {d : Diagnostic} (hd : d.Placed fit) : (s.note d).Placed fit := by
  refine ⟨h.cursor, fun e he => ?_⟩
  rcases List.mem_append.1 he with he | he
  · exact h.problems e he
  · exact List.mem_singleton.1 he ▸ hd

/-- Scopes and depth have no part in it. -/
theorem congr {t : State} (h : s.Placed fit) (hc : t.cursor = s.cursor)
    (hp : t.problems = s.problems) : t.Placed fit := ⟨hc ▸ h.cursor, hp ▸ h.problems⟩

end State.Placed

theorem Outcome.Placed.mapState {f : State → State} {o : Outcome α}
    (hf : ∀ s, s.Placed fit → (f s).Placed fit) (h : o.Placed fit) : (o.mapState f).Placed fit := by
  cases o with
  | done a s => exact hf s h
  | failed d s => exact ⟨h.1, hf s h.2⟩

/-- Repetitions leave all well placed if their steps do. -/
theorem Action.placed_iterate {step : α → Action (Option α)}
    (hstep : ∀ a s, s.Placed fit → (step a s).Placed fit) (n : Nat) (a : α) {s : State}
    (hs : s.Placed fit) : (Action.iterate step n a s).Placed fit := by
  induction n generalizing a s with
  | zero => exact hs
  | succ n ih =>
    have hplaced := hstep a s hs
    rw [Action.iterate]
    cases hrun : step a s with
    | failed d t => rwa [hrun] at hplaced
    | done next t =>
      rw [hrun] at hplaced
      cases next with
      | none => exact hplaced
      | some b => exact ih b hplaced

/-- **Nested rules that leave all well placed.** -/
structure Inner.Places (fit : Nat → Prop) (inner : Inner) : Prop where
  /-- Expressions do. -/
  expression (strength : Nat) {s : State} (hs : s.Placed fit) :
    (inner (.expression strength) s).Placed fit
  /-- So do the bodies of subqueries. -/
  subquery {s : State} (hs : s.Placed fit) : (inner .subquery s).Placed fit
  /-- So do the bodies of existence tests. -/
  existsBody {s : State} (hs : s.Placed fit) : (inner .existsBody s).Placed fit

/-- A target of a change that is no property is marked from where it was looked for to its end. -/
theorem Rule.placed_propertyTarget (hl : inner.Lays fit setting) (hi : inner.Places fit)
    {s : State} (hs : s.Placed fit) :
    (Grammar.propertyTarget.run setting inner s).Placed fit := by
  have hplaced := hi.expression Grammar.suffixStrength hs
  rw [run_propertyTarget]
  cases hrun : inner (.expression Grammar.suffixStrength) s with
  | failed d t => rwa [hrun] at hplaced
  | done target t =>
    rw [hrun] at hplaced
    have hcovers := (hl.expression Grammar.suffixStrength s).covers hs.cursor hrun
    obtain ⟨htarget, hstart, -⟩ := hcovers.between _ List.mem_cons_self
    rw [Outcome.andThen_done]
    split
    · exact hplaced
    · -- from where the cursor was before the target to the end of the target
      refine ⟨Diagnostic.placed_of_label rfl ⟨?_, hs.cursor.fit_front, htarget.fit_stop⟩, hplaced⟩
      exact Nat.le_trans hstart htarget.ordered

/-- **A rule that is alike to itself leaves all well placed.** -/
theorem Rule.Alike.placed_run [Strip α] {rule rule' : Rule α} (h : Alike rule rule')
    (hl : inner.Lays fit setting) (hi : inner.Places fit) {s : State} (hs : s.Placed fit) :
    (rule.run setting inner s).Placed fit := by
  induction h generalizing s with
  | pure => exact hs
  | look => exact hs
  | @bind _ _ _ _ rule rule' next next' _ _ ih ihn =>
    have hrule := ih hs
    rw [run]
    cases hrun : rule.run setting inner s with
    | failed d t => rwa [hrun] at hrule
    | done b t =>
      rw [hrun] at hrule
      exact ihn b b rfl hrule
  | advance => exact hs.moved s.cursor.onward_advance
  | fail hp => exact ⟨hs.diagnostic hp, hs⟩
  | complain hp =>
    rw [run]
    split
    · exact hs.note (hs.diagnostic hp)
    · exact ⟨hs.diagnostic hp, hs⟩
  | requireSubqueries feature =>
    rw [run]
    split
    · exact hs
    · exact ⟨hs.diagnostic trivial, hs⟩
  | @mend _ _ rule rule' remedy remedy' _ _ ih ihr =>
    have hrule := ih hs
    rw [run]
    cases hrun : rule.run setting inner s with
    | done a t => rwa [hrun] at hrule
    | failed d t =>
      rw [hrun] at hrule
      dsimp only
      split
      · exact ihr (hrule.2.note hrule.1)
      · exact hrule
  | resume => exact hs.moved (s.cursor.onward_resume _)
  | loop _ _ ih =>
    rw [run]
    exact Action.placed_iterate (fun a t ht => ih a a rfl ht) _ _ hs
  | inScope kind _ ih =>
    rw [run]
    refine .mapState (fun t ht => ht.congr rfl rfl) (ih ?_)
    exact hs.congr rfl rfl
  | record kind => exact hs.congr rfl rfl
  | expression strength => exact hi.expression strength hs
  | subquery => exact hi.subquery hs
  | existsBody => exact hi.existsBody hs
  | propertyTarget => exact placed_propertyTarget hl hi hs

/-- **Nested rules leave all well placed**, at any depth. -/
theorem Rule.places_runNested (setting : Setting) (room : Nat) :
    Inner.Places fit (Rule.runNested setting Grammar.body room) := by
  induction room with
  | zero =>
    refine ⟨fun strength s hs => ?_, fun hs => ?_, fun hs => ?_⟩
    all_goals exact ⟨hs.diagnostic trivial, hs⟩
  | succ room ih =>
    have hl : Inner.Lays fit setting (runNested setting Grammar.body room) :=
      Grammar.lays_runNested setting room
    have hrun {α : Type} [Strip α] {rule : Rule α} (h : Alike rule rule) {s : State}
        (hs : s.Placed fit) :
        ((rule.run setting (runNested setting Grammar.body room)
          { s with depth := s.depth + 1 }).mapState
            fun t => { t with depth := t.depth - 1 }).Placed fit := by
      refine .mapState (fun t ht => ht.congr rfl rfl) (h.placed_run hl ih ?_)
      exact hs.congr rfl rfl
    exact ⟨fun strength _ hs => hrun (Grammar.alike_expressionOf strength) hs,
      hrun (Grammar.alike_query .subquery), hrun Grammar.alike_existsBody⟩

/-- **Problems of the grammar are well placed.** -/
theorem Grammar.placed_of_mem_problems {tokens : List Token}
    (htokens : (Cursor.ofTokens tokens).Laid fit) {d : Diagnostic}
    (hd : d ∈ (Grammar.read setting tokens).problems) : d.Placed fit := by
  have hstart : (State.start tokens).Placed fit := ⟨htokens, fun _ h => absurd h List.not_mem_nil⟩
  have hrun := Grammar.alike_document.placed_run (lays_runNested setting setting.limit)
    (Rule.places_runNested setting setting.limit) hstart
  rw [Grammar.read, Grammar.start] at hd
  cases ho : document.run setting (Rule.runNested setting body setting.limit) (.start tokens) with
  | done document t =>
    rw [ho] at hd hrun
    exact hrun.problems d hd
  | failed e t =>
    rw [ho] at hd hrun
    rcases List.mem_append.1 hd with hd | hd
    · exact hrun.2.problems d hd
    · exact List.mem_singleton.1 hd ▸ hrun.1

/-- The problems met in reading a text are well placed. -/
theorem placed_of_mem_parseTokens {source : String} {options : Options} {d : Diagnostic}
    (hd : d ∈ (parseTokens (tokenize source options.dialect).tokens options).problems) :
    d.Placed (Text.IsOffset source.toList) := by
  have h0 : Text.IsOffset source.toList 0 := Text.isOffset_append [] source.toList
  have htokens := (follow_tokenize source options.dialect).laid_ofTokens h0
  exact Grammar.placed_of_mem_problems htokens hd

end Cypher
