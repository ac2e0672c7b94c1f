import Cypher.Proofs.Blocks
import Cypher.Proofs.Parallel.Expression
import Cypher.Proofs.Shape.Basic

/-!
# Looking out for a word

A reserved word is also a name where nothing but a name could stand: behind a dot, a colon, a bar or
a comma, and behind a word that calls a procedure or says what it hands on, unless this is a name
itself (`Cypher.Token.awaitsName`). Only the first key of a map stands in no such place, but a colon
comes after it. Anywhere else, the word for a merge begins a clause.

To show this, one such word is looked out for while the text is read (`Cypher.Lookout`). The
judgement is `Cypher.Rule.Finds`: when a rule that has read something has passed the word on its
way, a clause that begins with the word is in what it has read; and no name is awaited behind it, so
that the next rule can rely on this. A rule that reads no elements passes everything but the word
(`Cypher.Rule.Spares`), and most such rules leave no name awaited either (`Cypher.Rule.Clears`).
-/

namespace Cypher

/-! ### Where a name is awaited -/

namespace TokenKind

/-- Whether a token is a sign that a name may come after. -/
def precedesName : TokenKind → Bool
  | .sign .dot | .sign .colon | .sign .pipe | .sign .comma => true
  | _ => false

/-- Whether a token is a word that the name of a procedure or of what it hands on comes after. -/
def isCallWord : TokenKind → Bool
  | .keyword .CALL | .keyword .YIELD => true
  | _ => false

/-- Whether no name is awaited behind a token of a kind, whatever stands before it. The end of a
text has nothing behind it, and the word for a merge is not passed like others. -/
def isOrdinary (kind : TokenKind) : Bool :=
  !kind.precedesName && !kind.isCallWord && kind ≠ .keyword .MERGE && kind ≠ .endOfInput

end TokenKind

/-- **Whether a name is awaited** behind some tokens, the nearest first, so that a reserved word
would stand for one there. -/
def Token.awaitsName : List Token → Bool
  | [] => false
  | t :: behind => t.kind.precedesName || t.kind.isCallWord && !awaitsName behind

namespace TokenKind

variable {kind : TokenKind}

theorem ne_merge_of_isOrdinary (h : kind.isOrdinary = true) : kind ≠ .keyword .MERGE := by
  rintro rfl
  cases h

theorem ne_endOfInput_of_isOrdinary (h : kind.isOrdinary = true) : kind ≠ .endOfInput := by
  rintro rfl
  cases h

theorem isOrdinary_of_isVariable (h : kind.isVariable = true) : kind.isOrdinary = true := by
  cases kind <;> first | rfl | cases h

end TokenKind

namespace Token

variable {t : Token} {behind : List Token}

theorem awaitsName_of_isOrdinary (h : t.kind.isOrdinary = true) :
    awaitsName (t :: behind) = false := by
  simp only [TokenKind.isOrdinary, Bool.and_eq_true, Bool.not_eq_true'] at h
  rw [awaitsName, h.1.1.1, h.1.1.2]
  rfl

/-- A name is awaited no more behind a word that stands for one. -/
theorem awaitsName_of_keyword {word : Keyword} (hk : t.kind = .keyword word)
    (h : awaitsName behind = true) : awaitsName (t :: behind) = false := by
  rw [awaitsName, hk, h, Bool.not_true, Bool.and_false]
  rfl

end Token

/-- Whether a name is awaited where a run stands. -/
def State.awaits (s : State) : Bool := Token.awaitsName s.cursor.behind

/-! ### Lookouts -/

/-- **A lookout for a word for a merge** among the tokens of a text, where mistakes are not
forgiven. The word stands neither where a name is awaited nor before a colon. -/
structure Lookout (setting : Setting) where
  /-- Mistakes are not forgiven. -/
  strict : setting.forgiving = false
  /-- The tokens of the text. -/
  all : List Token
  /-- The word. -/
  word : Token
  /-- It is the word for a merge. -/
  kind_word : word.kind = .keyword .MERGE
  /-- No name is awaited where it stands. -/
  calm {c : Cursor} (hover : c.Over all) (here : c.current = word) :
    Token.awaitsName c.behind = false
  /-- It is not the key of a map. -/
  next {c : Cursor} (hover : c.Over all) (here : c.current = word) : c.peek 1 ≠ .sign .colon

namespace Lookout

variable {setting : Setting} (L : Lookout setting)

/-- **The word lies between two states.** -/
def Between (s t : State) : Prop := L.word ∈ t.cursor.behind ∧ L.word ∉ s.cursor.behind

/-- **A clause that begins with the word** is somewhere in some elements. -/
def Found (elements : List Element) : Prop :=
  ∃ e ∈ elements, ∃ c : Clause, e.Within (.clause c) ∧ c.span.start = L.word.span.start

variable {L} {s t u : State} {a b : List Element} {e : Element}

theorem not_between_refl (s : State) : ¬L.Between s s := fun h => h.2 h.1

theorem between_trans (h : L.Between s u) : L.Between s t ∨ L.Between t u := by
  by_cases ht : L.word ∈ t.cursor.behind
  · exact .inl ⟨ht, h.2⟩
  · exact .inr ⟨h.1, ht⟩

/-- A step passes the token at the cursor only. -/
theorem eq_word_of_between (h : L.Between s s.step) : s.cursor.current = L.word := by
  obtain ⟨hmem, hnot⟩ := h
  cases ha : s.cursor.ahead with
  | nil =>
    rw [State.step, Cursor.advance_of_ahead_eq_nil ha] at hmem
    exact absurd hmem hnot
  | cons u us =>
    rw [State.step, Cursor.advance_of_ahead_eq_cons ha] at hmem
    exact ((List.mem_cons.1 hmem).resolve_right hnot).symm

theorem not_between_step (hk : s.cursor.kind ≠ .keyword .MERGE) : ¬L.Between s s.step :=
  fun h => hk ((congrArg Token.kind (eq_word_of_between h)).trans L.kind_word)

/-- Where a name is awaited, the word does not stand. -/
theorem not_between_of_awaits (hs : s.cursor.Over L.all) (h : s.awaits = true) :
    ¬L.Between s s.step := fun hb => by
  have hcalm := L.calm hs (eq_word_of_between hb)
  rw [State.awaits, hcalm] at h
  cases h

theorem not_found_nil : ¬L.Found [] := fun ⟨_, h, _⟩ => absurd h List.not_mem_nil

theorem found_append : L.Found (a ++ b) ↔ L.Found a ∨ L.Found b := by
  constructor
  · rintro ⟨e, he, hc⟩
    exact (List.mem_append.1 he).imp (fun he => ⟨e, he, hc⟩) fun he => ⟨e, he, hc⟩
  · rintro (⟨e, he, hc⟩ | ⟨e, he, hc⟩)
    · exact ⟨e, List.mem_append_left _ he, hc⟩
    · exact ⟨e, List.mem_append_right _ he, hc⟩

theorem Found.subset (h : L.Found a) (hab : ∀ e ∈ a, e ∈ b) : L.Found b := by
  obtain ⟨e, he, hc⟩ := h
  exact ⟨e, hab e he, hc⟩

/-- What is found in the children of an element is found in it. -/
theorem Found.close (h : L.Found a) (ha : ∀ c ∈ a, c ∈ e.children) : L.Found [e] := by
  obtain ⟨child, hchild, c, hwithin, hstart⟩ := h
  exact ⟨e, List.mem_singleton_self e, c, .head (ha child hchild) hwithin, hstart⟩

end Lookout

/-! ### Steps -/

section Steps

variable {setting : Setting} {L : Lookout setting} {s : State}

/-- Past a token, the state stands behind it. -/
theorem State.behind_step (hs : s.cursor.Closed) (hk : s.cursor.kind ≠ .endOfInput) :
    s.step.cursor.behind = s.cursor.current :: s.cursor.behind := by
  obtain ⟨t, ts, ha⟩ := List.exists_cons_of_ne_nil (hs.ahead_ne_nil hk)
  rw [step, Cursor.advance_of_ahead_eq_cons ha]

theorem State.awaits_step_of_isOrdinary (hs : s.cursor.Closed)
    (hk : s.cursor.kind.isOrdinary = true) : s.step.awaits = false := by
  rw [awaits, behind_step hs (TokenKind.ne_endOfInput_of_isOrdinary hk)]
  exact Token.awaitsName_of_isOrdinary hk

/-- Behind a sign that a name may come after, one is awaited. -/
theorem State.awaits_step_of_precedesName (hs : s.cursor.Closed)
    (hk : s.cursor.kind.precedesName = true) : s.step.awaits = true := by
  have hend : s.cursor.kind ≠ .endOfInput := fun he => by
    rw [he] at hk
    cases hk
  rw [awaits, behind_step hs hend, Token.awaitsName]
  exact Bool.or_eq_true_iff.2 (.inl hk)

/-- So it is behind a word for a call that does not stand for a name itself. -/
theorem State.awaits_step_of_isCallWord (hs : s.cursor.Closed)
    (hk : s.cursor.kind.isCallWord = true) (h : s.awaits = false) : s.step.awaits = true := by
  have hend : s.cursor.kind ≠ .endOfInput := fun he => by
    rw [he] at hk
    cases hk
  rw [awaits] at h
  rw [awaits, behind_step hs hend, Token.awaitsName, h]
  exact Bool.or_eq_true_iff.2 (.inr (Bool.and_eq_true_iff.2 ⟨hk, rfl⟩))

/-- So it is behind a sign that has been taken. -/
theorem State.awaits_of_consume {inner : Inner} {kind : TokenKind} {t : State}
    (hs : s.cursor.Closed) (hk : kind.precedesName = true)
    (hr : (Rule.consume kind).run setting inner s = .done true t) : t.awaits = true := by
  rcases Rule.of_consume hr with ⟨-, rfl, rfl⟩ | ⟨hfalse, -⟩
  · exact awaits_step_of_precedesName hs hk
  · cases hfalse

end Steps

/-! ### What rules pass -/

namespace Rule

section

variable {setting : Setting} (L : Lookout setting) (inner : Inner) {α β γ : Type}

/-- **A rule that does not pass the word.** -/
def Spares (rule : Rule α) (s : State) : Prop :=
  s.cursor.Over L.all → ∀ a t, rule.run setting inner s = .done a t → ¬L.Between s t

/-- **A rule that does not pass the word and leaves no name awaited.** -/
def Clears (rule : Rule α) (s : State) : Prop :=
  s.cursor.Over L.all → ∀ a t, rule.run setting inner s = .done a t →
    ¬L.Between s t ∧ t.awaits = false

/-- **A test** that does not pass the word, and nothing at all if it fails. -/
def Tests (condition : Rule Bool) (s : State) : Prop :=
  ∀ b t, condition.run setting inner s = .done b t → ¬L.Between s t ∧ (b = false → t = s)

/-- **What is found in what a rule reads**, given the elements that have been read before: whatever
was found in those, and the word if it has been passed on the way. No name is awaited in the end. -/
def Finds [Composed α] (before : List Element) (rule : Rule α) (s : State) : Prop :=
  s.cursor.Over L.all → ∀ a t, rule.run setting inner s = .done a t →
    t.awaits = false ∧ (L.Found before ∨ L.Between s t → L.Found (Composed.elements a))

end

open Composed (elements)

variable {setting : Setting} {L : Lookout setting} {inner : Inner} {α β γ : Type} {s : State}

/-! ### Rules without elements -/

theorem Clears.spares {rule : Rule α} (h : Clears L inner rule s) : Spares L inner rule s :=
  fun hs a t hr => (h hs a t hr).1

theorem Tests.spares {condition : Rule Bool} (h : Tests L inner condition s) :
    Spares L inner condition s := fun _ b t hr => (h b t hr).1

namespace Spares

theorem pure (a : α) : Spares L inner (Pure.pure a) s := by
  intro _ b t hr
  cases hr
  exact Lookout.not_between_refl _

theorem fail (problem : Problem) : Spares L inner (.fail problem : Rule α) s := by
  intro _ a t hr
  cases hr

theorem advance (hk : s.cursor.kind ≠ .keyword .MERGE) : Spares L inner .advance s := by
  intro _ a t hr
  cases hr
  exact Lookout.not_between_step hk

theorem expect {kind : TokenKind} (hk : kind ≠ .keyword .MERGE) :
    Spares L inner (expect kind) s := by
  intro _ a t hr
  obtain ⟨rfl, rfl⟩ := of_expect hr
  exact Lookout.not_between_step hk

theorem bind (hi : inner.GoesOn) {rule : Rule β} {next : β → Rule α}
    (h : Spares L inner rule s)
    (hn : ∀ b t, rule.run setting inner s = .done b t → Spares L inner (next b) t) :
    Spares L inner (rule >>= next) s := by
  intro hs a u hr
  obtain ⟨b, t, hb, hu⟩ := done_of_bind hr
  have ht := hs.onward (onward_of_done hi hb).cursor
  exact fun hbetween => (Lookout.between_trans hbetween).elim (h hs b t hb) (hn b t hb ht a u hu)

end Spares

namespace Clears

/-- Where the cursor is over the tokens of the text, this may be used. -/
theorem assuming {rule : Rule α} (h : s.cursor.Over L.all → Clears L inner rule s) :
    Clears L inner rule s := fun hs => h hs hs

theorem pure {a : α} (hs : s.awaits = false) : Clears L inner (Pure.pure a) s := by
  intro _ b t hr
  cases hr
  exact ⟨Lookout.not_between_refl _, hs⟩

theorem fail (problem : Problem) : Clears L inner (.fail problem : Rule α) s := by
  intro _ a t hr
  cases hr

theorem look {view : View γ} {next : γ → Rule α}
    (h : Clears L inner (next (view.read setting s)) s) :
    Clears L inner (.look view >>= next) s := by
  intro hs a u hr
  exact h hs a u hr

theorem advance (hk : s.cursor.kind.isOrdinary = true) : Clears L inner .advance s := by
  intro hs a t hr
  cases hr
  exact ⟨Lookout.not_between_step (TokenKind.ne_merge_of_isOrdinary hk),
    State.awaits_step_of_isOrdinary hs.closed hk⟩

theorem expect {kind : TokenKind} (hk : kind.isOrdinary = true) :
    Clears L inner (expect kind) s := by
  intro hs a t hr
  obtain ⟨rfl, rfl⟩ := of_expect hr
  exact ⟨Lookout.not_between_step (TokenKind.ne_merge_of_isOrdinary hk),
    State.awaits_step_of_isOrdinary hs.closed hk⟩

theorem ite {condition : Prop} [Decidable condition] {rule other : Rule α}
    (h : condition → Clears L inner rule s) (ho : ¬condition → Clears L inner other s) :
    Clears L inner (if condition then rule else other) s := by
  split
  · exact h ‹_›
  · exact ho ‹_›

theorem bind (hi : inner.GoesOn) {rule : Rule β} {next : β → Rule α}
    (h : Spares L inner rule s)
    (hn : ∀ b t, rule.run setting inner s = .done b t → Clears L inner (next b) t) :
    Clears L inner (rule >>= next) s := by
  intro hs a u hr
  obtain ⟨b, t, hb, hu⟩ := done_of_bind hr
  have ht := hs.onward (onward_of_done hi hb).cursor
  obtain ⟨hspared, hawaits⟩ := hn b t hb ht a u hu
  exact ⟨fun hbetween => (Lookout.between_trans hbetween).elim (h hs b t hb) hspared, hawaits⟩

/-- What comes then may rely on no name being awaited. -/
theorem andThen (hi : inner.GoesOn) {rule : Rule β} {next : β → Rule α}
    (h : Clears L inner rule s)
    (hn : ∀ b t, t.awaits = false → Clears L inner (next b) t) :
    Clears L inner (rule >>= next) s := by
  intro hs
  exact bind hi h.spares (fun b t hb => hn b t (h hs b t hb).2) hs

end Clears

/-! ### Tests -/

theorem tests_isAt (kind : TokenKind) : Tests L inner (isAt kind) s := by
  intro b t hr
  cases hr
  exact ⟨Lookout.not_between_refl _, fun _ => rfl⟩

theorem tests_atVariable : Tests L inner atVariable s := by
  intro b t hr
  cases hr
  exact ⟨Lookout.not_between_refl _, fun _ => rfl⟩

theorem tests_atVariableBefore (kind : TokenKind) : Tests L inner (atVariableBefore kind) s := by
  intro b t hr
  rw [run_atVariableBefore] at hr
  cases hr
  exact ⟨Lookout.not_between_refl _, fun _ => rfl⟩

theorem tests_consume {kind : TokenKind} (hk : kind ≠ .keyword .MERGE) :
    Tests L inner (consume kind) s := by
  intro b t hr
  rcases of_consume hr with ⟨rfl, rfl, rfl⟩ | ⟨rfl, -, rfl⟩
  · exact ⟨Lookout.not_between_step hk, nofun⟩
  · exact ⟨Lookout.not_between_refl _, fun _ => rfl⟩

theorem tests_takeSign (sign : Sign) : Tests L inner (takeSign sign) s :=
  tests_consume TokenKind.noConfusion

theorem tests_takeWord {word : Keyword} (hw : word ≠ .MERGE) : Tests L inner (takeWord word) s :=
  tests_consume fun h => hw (TokenKind.keyword.inj h)

/-- Moving past a token of a kind or not, no name is awaited. -/
theorem clears_consume {kind : TokenKind} (hk : kind.isOrdinary = true) (hs : s.awaits = false) :
    Clears L inner (consume kind) s := by
  intro hover b t hr
  rcases of_consume hr with ⟨rfl, rfl, rfl⟩ | ⟨rfl, -, rfl⟩
  · exact ⟨Lookout.not_between_step (TokenKind.ne_merge_of_isOrdinary hk),
      State.awaits_step_of_isOrdinary hover.closed hk⟩
  · exact ⟨Lookout.not_between_refl _, hs⟩

theorem clears_optionally (hi : inner.GoesOn) {condition : Rule Bool} {rule : Rule α}
    (hs : s.awaits = false) (hc : Tests L inner condition s)
    (h : ∀ t, condition.run setting inner s = .done true t → Clears L inner rule t) :
    Clears L inner (optionally condition rule) s := by
  refine .bind hi hc.spares fun b t hb => ?_
  cases b with
  | false =>
    rw [(hc false t hb).2 rfl]
    exact .pure hs
  | true => exact .andThen hi (h t hb) fun a u hu => .pure hu

/-- Behind an ordinary token that has been taken, no name is awaited. -/
theorem clears_ifTaken (hi : inner.GoesOn) {kind : TokenKind} {rule : Rule α}
    (hk : kind.isOrdinary = true) (hs : s.awaits = false)
    (h : ∀ t, t.awaits = false → Clears L inner rule t) :
    Clears L inner (optionally (consume kind) rule) s :=
  .assuming fun hover => clears_optionally hi hs
    (tests_consume (TokenKind.ne_merge_of_isOrdinary hk)) fun t ht =>
      h t (clears_consume (L := L) hk hs hover true t ht).2

theorem clears_loop (hi : inner.GoesOn) {step : α → Rule (Option α)} (hs : s.awaits = false)
    (h : ∀ a t, t.awaits = false → Clears L inner (step a) t) (a : α) :
    Clears L inner (.loop step a) s := by
  intro hover b t hr
  refine (loop_induct (p := fun _ u => s.Onward u ∧ ¬L.Between s u ∧ u.awaits = false)
    (fun a u next v hu hv => ?_) ⟨.refl s, Lookout.not_between_refl _, hs⟩ hr).2
  obtain ⟨hsu, hspared, hawaits⟩ := hu
  obtain ⟨hspared', hawaits'⟩ := h a u hawaits (hover.onward hsu.cursor) next v hv
  exact ⟨hsu.trans (onward_of_done hi hv),
    fun hbetween => (Lookout.between_trans hbetween).elim hspared hspared', hawaits'⟩

theorem clears_many (hi : inner.GoesOn) {rule : Rule (Option α)} (hs : s.awaits = false)
    (h : ∀ t, t.awaits = false → Clears L inner rule t) (items : List α) :
    Clears L inner (many rule items) s :=
  clears_loop hi hs (fun _ t ht => .andThen hi (h t ht) fun _ _ hu => .pure hu) items

/-! ### Rules with elements -/

section Composed

variable [Composed α] [Composed β] {before : List Element}

namespace Finds

/-- Where the cursor is over the tokens of the text, this may be used. -/
theorem assuming {rule : Rule α} (h : s.cursor.Over L.all → Finds L inner before rule s) :
    Finds L inner before rule s := fun hs => h hs hs

theorem pure {a : α} (hs : s.awaits = false) (h : ∀ e ∈ before, e ∈ elements a) :
    Finds L inner before (Pure.pure a) s := by
  intro _ b t hr
  cases hr
  refine ⟨hs, ?_⟩
  rintro (hfound | hbetween)
  · exact hfound.subset h
  · exact absurd hbetween (Lookout.not_between_refl _)

/-- **An element around all that has been read for it.** -/
theorem close {a : α} {e : Element} (hs : s.awaits = false) (ha : elements a = [e])
    (hc : ∀ c ∈ before, c ∈ e.children) : Finds L inner before (Pure.pure a) s := by
  intro _ b t hr
  cases hr
  rw [ha]
  refine ⟨hs, ?_⟩
  rintro (hfound | hbetween)
  · exact hfound.close hc
  · exact absurd hbetween (Lookout.not_between_refl _)

/-- An element with the same children takes the place of another. -/
theorem recast {a : α} {e e' : Element} (hs : s.awaits = false) (ha : elements a = [e'])
    (he : ∀ c, e ≠ .clause c) (hc : e'.children = e.children) :
    Finds L inner [e] (Pure.pure a) s := by
  intro _ b t hr
  cases hr
  rw [ha]
  refine ⟨hs, ?_⟩
  rintro (⟨x, hx, c, hwithin, hstart⟩ | hbetween)
  · obtain rfl := List.mem_singleton.1 hx
    rcases Relation.ReflTransGen.cases_head hwithin with rfl | ⟨child, hchild, hwithin⟩
    · exact absurd rfl (he c)
    · exact ⟨e', List.mem_singleton_self e', c, .head (hc ▸ hchild) hwithin, hstart⟩
  · exact absurd hbetween (Lookout.not_between_refl _)

theorem fail (problem : Problem) : Finds L inner before (.fail problem : Rule α) s := by
  intro _ a t hr
  cases hr

/-- What is found in what is read first counts along with what is read then. -/
theorem bind (hi : inner.GoesOn) {rule : Rule β} {next : β → Rule α}
    (h : Finds L inner [] rule s)
    (hn : ∀ b t, t.awaits = false → Finds L inner (before ++ elements b) (next b) t) :
    Finds L inner before (rule >>= next) s := by
  intro hs a u hr
  obtain ⟨b, t, hb, hu⟩ := done_of_bind hr
  have ht := hs.onward (onward_of_done hi hb).cursor
  obtain ⟨hawaits, hfirst⟩ := h hs b t hb
  obtain ⟨hawaits', hthen⟩ := hn b t hawaits ht a u hu
  refine ⟨hawaits', ?_⟩
  rintro (hfound | hbetween)
  · exact hthen (.inl (Lookout.found_append.2 (.inl hfound)))
  · rcases Lookout.between_trans hbetween with hbetween | hbetween
    · exact hthen (.inl (Lookout.found_append.2 (.inr (hfirst (.inr hbetween)))))
    · exact hthen (.inr hbetween)

/-- A part of the way to the element. -/
theorem part (hi : inner.GoesOn) {rule : Rule β} {next : β → Rule α}
    (h : Finds L inner before rule s)
    (hn : ∀ b t, t.awaits = false → Finds L inner (elements b) (next b) t) :
    Finds L inner before (rule >>= next) s := by
  intro hs a u hr
  obtain ⟨b, t, hb, hu⟩ := done_of_bind hr
  have ht := hs.onward (onward_of_done hi hb).cursor
  obtain ⟨hawaits, hfirst⟩ := h hs b t hb
  obtain ⟨hawaits', hthen⟩ := hn b t hawaits ht a u hu
  refine ⟨hawaits', ?_⟩
  rintro (hfound | hbetween)
  · exact hthen (.inl (hfirst (.inl hfound)))
  · exact hthen ((Lookout.between_trans hbetween).imp (fun h => hfirst (.inr h)) id)

/-- What is read first may have no elements. That it does not pass the word may hang on what is read
then. -/
theorem skipDone (hi : inner.GoesOn) {rule : Rule γ} {next : γ → Rule α}
    (h : s.cursor.Over L.all → ∀ b t a u, rule.run setting inner s = .done b t →
      (next b).run setting inner t = .done a u → ¬L.Between s t)
    (hn : ∀ b t, rule.run setting inner s = .done b t → Finds L inner before (next b) t) :
    Finds L inner before (rule >>= next) s := by
  intro hs a u hr
  obtain ⟨b, t, hb, hu⟩ := done_of_bind hr
  have ht := hs.onward (onward_of_done hi hb).cursor
  obtain ⟨hawaits, hthen⟩ := hn b t hb ht a u hu
  refine ⟨hawaits, ?_⟩
  rintro (hfound | hbetween)
  · exact hthen (.inl hfound)
  · exact hthen (.inr ((Lookout.between_trans hbetween).resolve_left (h hs b t a u hb hu)))

/-- What is read first may have no elements. -/
theorem skip (hi : inner.GoesOn) {rule : Rule γ} {next : γ → Rule α}
    (h : Spares L inner rule s)
    (hn : ∀ b t, rule.run setting inner s = .done b t → Finds L inner before (next b) t) :
    Finds L inner before (rule >>= next) s :=
  skipDone hi (fun hs b t _ _ hb _ => h hs b t hb) hn

/-- What comes then may rely on no name being awaited. -/
theorem past (hi : inner.GoesOn) {rule : Rule γ} {next : γ → Rule α}
    (h : Clears L inner rule s)
    (hn : ∀ b t, t.awaits = false → Finds L inner before (next b) t) :
    Finds L inner before (rule >>= next) s :=
  .assuming fun hs => .skip hi h.spares fun b t hb => hn b t (h hs b t hb).2

theorem look {view : View γ} {next : γ → Rule α}
    (h : Finds L inner before (next (view.read setting s)) s) :
    Finds L inner before (.look view >>= next) s := by
  intro hs a u hr
  exact h hs a u hr

theorem startHere {next : Nat → Rule α} (h : Finds L inner before (next s.cursor.front) s) :
    Finds L inner before (startHere >>= next) s := by
  intro hs a u hr
  exact h hs a u hr

theorem ite {condition : Prop} [Decidable condition] {rule other : Rule α}
    (h : condition → Finds L inner before rule s)
    (ho : ¬condition → Finds L inner before other s) :
    Finds L inner before (if condition then rule else other) s := by
  split
  · exact h ‹_›
  · exact ho ‹_›

/-- Where subqueries are at hand, they are not in the way. -/
theorem requireSubqueries {feature : String} {next : Unit → Rule α}
    (h : Finds L inner before (next ()) s) :
    Finds L inner before (.requireSubqueries feature >>= next) s := by
  intro hs a u hr
  by_cases hsub : setting.rules.subqueries = true
  · rw [run_bind_done (run_requireSubqueries_done hsub)] at hr
    exact h hs a u hr
  · rw [run_bind_failed (run_requireSubqueries_failed hsub)] at hr
    cases hr

/-- In what is read without passing the word, nothing has to be found. -/
theorem ofClears {rule : Rule α} (h : Clears L inner rule s) : Finds L inner [] rule s := by
  intro hs a t hr
  obtain ⟨hspared, hawaits⟩ := h hs a t hr
  exact ⟨hawaits, fun hfound => hfound.elim (absurd · Lookout.not_found_nil) (absurd · hspared)⟩

end Finds

/-! ### Repetitions and scopes -/

section Repetitions

variable (hi : inner.GoesOn)

include hi

theorem finds_optionally {condition : Rule Bool} {rule : Rule α} (hs : s.awaits = false)
    (hc : Tests L inner condition s)
    (h : ∀ t, condition.run setting inner s = .done true t → Finds L inner [] rule t) :
    Finds L inner [] (optionally condition rule) s := by
  refine .skip hi hc.spares fun b t hb => ?_
  cases b with
  | false =>
    rw [(hc false t hb).2 rfl]
    exact .pure hs nofun
  | true => exact .bind hi (h t hb) fun a u hu => .pure hu (by simp [elements])

theorem finds_skipIf {kind : TokenKind} {rule : Rule α} (hs : s.awaits = false)
    (h : Finds L inner [] rule s) : Finds L inner [] (skipIf (isAt kind) rule) s := by
  refine .skip hi (tests_isAt kind).spares fun b t hb => ?_
  cases hb
  exact .ite (fun _ => .pure hs nofun) fun _ =>
    .bind hi h fun a u hu => .pure hu (by simp [elements])

/-- Reading many adds to what has been read. -/
theorem finds_manyFrom {rule : Rule (Option α)} (hs : s.awaits = false)
    (h : ∀ t, t.awaits = false → Finds L inner [] rule t) (items : List α) :
    Finds L inner (elements items) (many rule items) s := by
  intro hover all t hr
  refine (loop_induct (p := fun found u => s.Onward u ∧ u.awaits = false ∧
    (L.Found (elements items) ∨ L.Between s u → L.Found (elements found)))
    (fun found u next w hu hw => ?_) ⟨.refl s, hs, fun hfound => hfound.resolve_right
      (Lookout.not_between_refl _)⟩ hr).2
  -- one more round keeps what has been found and adds what is found in one more item
  obtain ⟨hsu, hawaits, hfound⟩ := hu
  obtain ⟨one, v, hv, hw⟩ := done_of_bind hw
  cases hw
  obtain ⟨hawaits', hone⟩ := h u hawaits (hover.onward hsu.cursor) one w hv
  refine ⟨hsu.trans (onward_of_done hi hv), hawaits', fun hmet => ?_⟩
  have hall : ∀ e ∈ elements found ++ elements one,
      e ∈ elements ((one.map fun item => found ++ [item]).getD found) := by
    cases one <;> simp [elements]
  refine (Lookout.found_append.2 ?_).subset hall
  rcases hmet with hbefore | hbetween
  · exact .inl (hfound (.inl hbefore))
  · exact (Lookout.between_trans hbetween).imp (fun h => hfound (.inr h)) fun h => hone (.inr h)

theorem finds_many {rule : Rule (Option α)} (hs : s.awaits = false)
    (h : ∀ t, t.awaits = false → Finds L inner [] rule t) :
    Finds L inner [] (many rule []) s := finds_manyFrom hi hs h []

/-- Behind a comma a name is awaited, but not by every rule. -/
theorem finds_separated {rule : Rule α} (h : Finds L inner [] rule s)
    (hn : ∀ t, t.awaits = true → Finds L inner [] rule t) :
    Finds L inner [] (separated rule) s := by
  refine .bind hi h fun first t ht => ?_
  have hmany : Finds L inner (elements [first]) (many (optionally (takeSign .comma) rule) [first])
      t := by
    refine finds_manyFrom hi ht (fun u hu => .assuming fun hover => ?_) [first]
    exact finds_optionally hi hu (tests_takeSign _) fun v hv =>
      hn v (State.awaits_of_consume hover.closed rfl hv)
  simpa [elements] using hmany

theorem finds_listUntil {close : Sign} {rule : Rule α} (hs : s.awaits = false)
    (h : ∀ t, Finds L inner [] rule t) : Finds L inner [] (listUntil close rule) s := by
  refine .skip hi (tests_isAt _).spares fun b t hb => ?_
  cases hb
  exact .ite (fun _ => .pure hs nofun) fun _ => finds_separated hi (h s) fun t _ => h t

omit hi in
theorem finds_inScope {kind : ScopeKind} {rule : Rule α}
    (h : Finds L inner before rule { s with scopes := s.scopes.push kind }) :
    Finds L inner before (.inScope kind rule) s := by
  intro hs a t hr
  rw [run] at hr
  cases hrun : rule.run setting inner { s with scopes := s.scopes.push kind } with
  | done b u =>
    rw [hrun] at hr
    cases hr
    exact h hs a u hrun
  | failed d u =>
    rw [hrun] at hr
    cases hr

end Repetitions

end Composed

end Rule

/-- **Nested rules in whose trees the word is found.** -/
structure Inner.Finds {setting : Setting} (L : Lookout setting) (inner : Inner) : Prop where
  /-- They go on. -/
  goesOn : inner.GoesOn
  /-- It is found in expressions. -/
  expression (strength : Nat) (s : State) :
    Rule.Finds L inner [] (.nested (.expression strength)) s
  /-- So it is in the bodies of subqueries. -/
  subquery {s : State} (hs : s.awaits = false) : Rule.Finds L inner [] (.nested .subquery) s
  /-- So it is in the bodies of existence tests. -/
  existsBody {s : State} (hs : s.awaits = false) : Rule.Finds L inner [] (.nested .existsBody) s

end Cypher
