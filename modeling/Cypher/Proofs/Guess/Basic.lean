import Cypher.Proofs.Progress
import Cypher.Proofs.Room
import Mathlib.Data.List.Forall2

/-!
# Reading with and without the lookahead for paths

Whether a parenthesis opens a path or a group is a guess: the first tokens behind it are looked at,
and those behind the bracket that closes it. Here the grammar is run side by side with the one in
which every parenthesis opens a group (`Cypher.Setting.grouping`), when mistakes are not forgiven.
The question is what the guesses can spoil.

A failure is put down to a guess if it is one that reading a path comes to where a path has been
guessed, or if the nesting goes beyond the limit (`Cypher.Misled`). The judgement is
`Cypher.Rivals.Follows`: whenever the one rule, run without the lookahead, reads something, the
other, run with it, comes to the same place or fails because of a guess. The trees that the two read
may differ, as a path is another expression than a group with operators behind it; so a value is
only kept track of where rules go by it.

This file has the judgement for the steps that rules are built from.
-/

namespace Cypher

variable {α β γ : Type}

/-- **The setting in which every parenthesis opens a group.** -/
def Setting.grouping (setting : Setting) : Setting :=
  { setting with opensPattern := fun _ => false }

/-- **A failure that is put down to a guess**, in a run that began at a cursor. -/
inductive Misled (setting : Setting) (start : Cursor) (d : Diagnostic) : Prop
  /-- The nesting goes beyond the limit, as what stands behind a path is nested more deeply than
  behind the last of some operands. -/
  | deep (deep : d.IsTooDeep)
  /-- Reading a path fails like this where a parenthesis is guessed to open one. -/
  | path {room : Nat} {s t : State} (onward : start.Onward s.cursor)
    (opens : setting.opensPattern s.cursor = true)
    (fails : Grammar.patternPart.run setting (Rule.runNested setting Grammar.body room) s =
      .failed d t)

/-- **A run in which paths are guessed**, to be compared with one without. -/
structure Trial where
  /-- How rules are run. -/
  setting : Setting
  /-- Mistakes are not forgiven. -/
  strict : setting.forgiving = false
  /-- A path is guessed by the tokens ahead. -/
  lookahead : setting.opensPattern = Cursor.opensPattern
  /-- Where the run began. -/
  start : Cursor
  /-- There is an end of the text. -/
  closed : start.Closed

namespace Trial

variable (r : Trial)

/-- **States side by side**: at the same place, and in as many scopes. -/
structure Beside (s s' : State) : Prop where
  /-- The place is the same. -/
  cursor : s'.cursor = s.cursor
  /-- The scopes are as many. -/
  depth : s'.scopes.depth = s.scopes.depth
  /-- The place lies ahead of the start. -/
  onward : r.start.Onward s.cursor

/-- **A state of a trial** in a number of scopes. -/
structure Inside (depth : Nat) (s : State) : Prop where
  /-- The scopes are so many. -/
  depth : s.scopes.depth = depth
  /-- The place lies ahead of the start. -/
  onward : r.start.Onward s.cursor

/-- **A good end**, if not one that is put down to a guess. -/
def Ends (p : α → State → Prop) : Outcome α → Prop
  | .done a t => p a t
  | .failed d _ => Misled r.setting r.start d

end Trial

/-- **Two ways of running the same rules**: the first without the lookahead, the second with it. -/
structure Rivals extends Trial where
  /-- How the first runs nested rules. -/
  grouping : {β : Type} → Nested β → Action β
  /-- How the second runs them. -/
  guessing : {β : Type} → Nested β → Action β

namespace Rivals

variable (r : Rivals)

/-- A rule that follows another from two states. -/
def FollowsFrom (rel : α → α → Prop) (rule rule' : Rule α) (s s' : State) : Prop :=
  ∀ a t, rule.run r.setting.grouping r.grouping s = .done a t →
    r.Ends (fun a' t' => rel a a' ∧ r.Beside t t') (rule'.run r.setting r.guessing s')

/-- **A rule that follows another**: whatever the one reads without the lookahead, with it the other
reads something related up to the same place, unless it fails because of a guess. -/
def Follows (rel : α → α → Prop) (rule rule' : Rule α) : Prop :=
  ∀ s s', r.Beside s s' → r.FollowsFrom rel rule rule' s s'

end Rivals

namespace Trial

variable {r : Trial} {s s' : State}

/-! ### Outcomes -/

theorem Ends.mono {p q : α → State → Prop} {o : Outcome α} (h : r.Ends p o)
    (hpq : ∀ a t, p a t → q a t) : r.Ends q o := by
  cases o with
  | done a t => exact hpq a t h
  | failed d t => exact h

/-- A good end is gone on from. -/
theorem Ends.andThen {p : α → State → Prop} {q : β → State → Prop} {o : Outcome β}
    {next : β → Action α} (h : r.Ends q o) (hn : ∀ b t, q b t → r.Ends p (next b t)) :
    r.Ends p (o.andThen next) := by
  cases o with
  | done b t => exact hn b t h
  | failed d t => exact h

theorem Ends.mapState {p q : α → State → Prop} {f : State → State} {o : Outcome α}
    (h : r.Ends q o) (hf : ∀ a t, q a t → p a (f t)) : r.Ends p (o.mapState f) := by
  cases o with
  | done a t => exact hf a t h
  | failed d t => exact h

/-- One rule comes to a good end and then another. -/
theorem Ends.bind {p : α → State → Prop} {q : β → State → Prop} {inner : Inner} {rule : Rule β}
    {next : β → Rule α} (h : r.Ends q (rule.run r.setting inner s))
    (hn : ∀ b t, q b t → r.Ends p ((next b).run r.setting inner t)) :
    r.Ends p ((rule >>= next).run r.setting inner s) := by
  rw [Rule.run_bind]
  exact h.andThen hn

/-! ### States -/

namespace Beside

theorem kind_eq (h : r.Beside s s') : s'.cursor.kind = s.cursor.kind := by rw [h.cursor]

theorem current_eq (h : r.Beside s s') : s'.cursor.current = s.cursor.current := by rw [h.cursor]

theorem closed_of_start (h : r.Beside s s') : s.cursor.Closed := r.closed.onward h.onward

theorem advance (h : r.Beside s s') :
    r.Beside { s with cursor := s.cursor.advance } { s' with cursor := s'.cursor.advance } :=
  ⟨congrArg Cursor.advance h.cursor, h.depth, h.onward.trans s.cursor.onward_advance⟩

/-- The levels of nesting do not matter. -/
theorem deeper (h : r.Beside s s') (n n' : Nat) :
    r.Beside { s with depth := n } { s' with depth := n' } := ⟨h.cursor, h.depth, h.onward⟩

end Beside

/-! ### States of a trial -/

section Inside

variable {t t' : State} {depth : Nat} {inner : Inner}

theorem Inside.closed (h : r.Inside depth s) : s.cursor.Closed := r.closed.onward h.onward

theorem Inside.trans (h : r.Inside depth s) (hst : s.Onward t) : r.Inside depth t :=
  ⟨hst.depth_scopes.trans h.depth, h.onward.trans hst.cursor⟩

theorem Inside.place {c : Cursor} (h : r.Inside depth s) (hc : s.cursor.Onward c) :
    r.Inside depth { s with cursor := c } := ⟨h.depth, h.onward.trans hc⟩

theorem Beside.inside (h : r.Beside s s') : r.Inside s.scopes.depth s' :=
  ⟨h.depth, h.cursor ▸ h.onward⟩

/-- Runs from states side by side that come to the same place end side by side. -/
theorem Beside.of_place (h : r.Beside s s') (hst : s.Onward t) (ht : r.Inside s.scopes.depth t')
    (hplace : t'.cursor = t.cursor) : r.Beside t t' :=
  ⟨hplace, ht.depth.trans hst.depth_scopes.symm, h.onward.trans hst.cursor⟩

/-- What goes on from inside the trial ends there. -/
theorem Ends.inside {p : α → State → Prop} {o : Outcome α} (h : r.Ends p o)
    (hs : r.Inside depth s) (honward : s.Onward o.state) :
    r.Ends (fun a t => p a t ∧ r.Inside depth t) o := by
  cases o with
  | done a t => exact ⟨h, hs.trans honward⟩
  | failed d t => exact h

/-- **A repetition comes to a good end** if each of its steps does. -/
theorem Ends.loop {p q : α → State → Prop} {step : α → Rule (Option α)} (hi : inner.GoesOn)
    (hmoves : ∀ a s, Rule.MovesOn r.setting inner (fun b => b.isSome) (step a) s)
    (hstep : ∀ a s, r.Inside depth s → p a s →
      r.Ends (fun next t => next.elim (q a t) (p · t)) ((step a).run r.setting inner s))
    {a : α} (hs : r.Inside depth s) (h : p a s) :
    r.Ends q ((Rule.loop step a).run r.setting inner s) := by
  induction hn : s.left using Nat.strongRecOn generalizing s a with
  | ind n ih =>
    rw [Rule.run_loop hi hs.closed fun b t _ => hmoves b t]
    have hends := hstep a s hs h
    cases hr : (step a).run r.setting inner s with
    | failed d t =>
      rw [hr] at hends
      exact hends
    | done next t =>
      rw [hr] at hends
      cases next with
      | none => exact hends
      | some b =>
        have hlt := hmoves a s hs.closed _ t hr rfl
        exact ih t.left (hn ▸ hlt) (hs.trans (Rule.onward_of_done hi hr)) hends rfl

end Inside

end Trial

namespace Rivals

variable {r : Rivals} {rel : α → α → Prop} {s s' : State}

/-! ### Rules -/

/-- What each of two rules sees is how it goes on. -/
theorem FollowsFrom.look {view view' : View β} {next next' : β → Rule α}
    (h : r.FollowsFrom rel (next (view.read r.setting.grouping s))
      (next' (view'.read r.setting s')) s s') :
    r.FollowsFrom rel (.look view >>= next) (.look view' >>= next') s s' := h

namespace Follows

theorem mono {rel' : α → α → Prop} {rule rule' : Rule α} (h : r.Follows rel' rule rule')
    (hrel : ∀ a a', rel' a a' → rel a a') : r.Follows rel rule rule' := by
  intro s s' hs a t hr
  exact (h s s' hs a t hr).mono fun a' t' ⟨ha, ht⟩ => ⟨hrel a a' ha, ht⟩

theorem pure {a a' : α} (h : rel a a') : r.Follows rel (Pure.pure a) (Pure.pure a') := by
  rintro s s' hs _ _ ⟨⟩
  exact ⟨h, hs⟩

/-- A value that no rule goes by. -/
theorem value {a a' : α} : r.Follows (fun _ _ => True) (Pure.pure a) (Pure.pure a') := pure trivial

theorem fail {rule' : Rule α} (problem : Problem) : r.Follows rel (.fail problem) rule' := by
  rintro s s' hs _ _ ⟨⟩

theorem bind {rel' : β → β → Prop} {rule rule' : Rule β} {next next' : β → Rule α}
    (h : r.Follows rel' rule rule')
    (hn : ∀ b b', rel' b b' → r.Follows rel (next b) (next' b')) :
    r.Follows rel (rule >>= next) (rule' >>= next') := by
  intro s s' hs a u hr
  obtain ⟨b, t, hb, hu⟩ := Rule.done_of_bind hr
  exact (h s s' hs b t hb).bind fun b' t' ⟨hrel, ht⟩ => hn b b' hrel t t' ht a u hu

/-- What has been read is the same. -/
theorem same {rule rule' : Rule β} {next next' : β → Rule α} (h : r.Follows Eq rule rule')
    (hn : ∀ b, r.Follows rel (next b) (next' b)) :
    r.Follows rel (rule >>= next) (rule' >>= next') :=
  bind h fun b _ hb => hb ▸ hn b

/-- What has been read makes no difference. -/
theorem skip {rel' : β → β → Prop} {rule rule' : Rule β} {next next' : β → Rule α}
    (h : r.Follows rel' rule rule') (hn : ∀ b b', r.Follows rel (next b) (next' b')) :
    r.Follows rel (rule >>= next) (rule' >>= next') :=
  bind h fun b b' _ => hn b b'

theorem ite {condition : Prop} [Decidable condition] {rule rule' other other' : Rule α}
    (h : r.Follows rel rule rule') (ho : r.Follows rel other other') :
    r.Follows rel (if condition then rule else other) (if condition then rule' else other') := by
  split
  · exact h
  · exact ho

/-! #### What is looked at -/

theorem here : r.Follows Eq Rule.here Rule.here := by
  rintro s s' hs _ _ ⟨⟩
  exact ⟨hs.current_eq.symm, hs⟩

theorem next : r.Follows Eq (.look .next) (.look .next) := by
  rintro s s' hs _ _ ⟨⟩
  exact ⟨congrArg (Cursor.peek · 1) hs.cursor.symm, hs⟩

theorem opensCall : r.Follows Eq (.look .opensCall) (.look .opensCall) := by
  rintro s s' hs _ _ ⟨⟩
  exact ⟨congrArg Cursor.opensCall hs.cursor.symm, hs⟩

theorem position : r.Follows Eq (.look .position) (.look .position) := by
  rintro s s' hs _ _ ⟨⟩
  exact ⟨congrArg Cursor.position hs.cursor.symm, hs⟩

theorem nested : r.Follows Eq (.look .nested) (.look .nested) := by
  rintro s s' hs _ _ ⟨⟩
  refine ⟨?_, hs⟩
  change decide (1 < s.scopes.depth) = decide (1 < s'.scopes.depth)
  rw [hs.depth]

/-- To look at something that no rule goes by. -/
theorem glance {view view' : View β} {next next' : β → Rule α}
    (hn : ∀ b b', r.Follows rel (next b) (next' b')) :
    r.Follows rel (.look view >>= next) (.look view' >>= next') :=
  fun s s' hs a t hr => hn _ _ s s' hs a t hr

theorem startHere {next next' : Nat → Rule α} (hn : ∀ b b', r.Follows rel (next b) (next' b')) :
    r.Follows rel (Rule.startHere >>= next) (Rule.startHere >>= next') :=
  fun s s' hs a t hr => hn _ _ s s' hs a t hr

/-! #### Steps -/

theorem advance : r.Follows Eq .advance .advance := by
  rintro s s' hs _ _ ⟨⟩
  exact ⟨congrArg Token.span hs.current_eq.symm, hs.advance⟩

theorem complain {rel : Unit → Unit → Prop} {rule' : Rule Unit} (problem : Problem) :
    r.Follows rel (.complain problem) rule' := by
  intro s s' hs a t hr
  rw [Rule.run, Setting.grouping, r.strict] at hr
  cases hr

theorem requireSubqueries (feature : String) :
    r.Follows Eq (.requireSubqueries feature) (.requireSubqueries feature) := by
  intro s s' hs a t hr
  by_cases hsub : r.setting.rules.subqueries = true
  · have hsub' : r.setting.grouping.rules.subqueries = true := hsub
    rw [Rule.run_requireSubqueries_done hsub'] at hr
    cases hr
    rw [Rule.run_requireSubqueries_done hsub]
    exact ⟨rfl, hs⟩
  · have hsub' : ¬r.setting.grouping.rules.subqueries = true := hsub
    rw [Rule.run_requireSubqueries_failed hsub'] at hr
    cases hr

/-- As mistakes are not forgiven, nothing is made up for. -/
theorem mend {rule rule' remedy remedy' : Rule α} (h : r.Follows rel rule rule') :
    r.Follows rel (.mend rule remedy) (.mend rule' remedy') := by
  intro s s' hs a t hr
  rw [Rule.run] at hr
  cases hrun : rule.run r.setting.grouping r.grouping s with
  | failed d u =>
    rw [hrun, Setting.grouping, r.strict] at hr
    cases hr
  | done b u =>
    rw [hrun] at hr
    cases hr
    have hends := h s s' hs a t hrun
    rw [Rule.run]
    cases hrun' : rule'.run r.setting r.guessing s' with
    | done a' t' =>
      rw [hrun'] at hends
      exact hends
    | failed d t' =>
      rw [hrun'] at hends
      rw [r.strict]
      exact hends

theorem record (kind kind' : ClauseKind) :
    r.Follows Eq (.record kind) (.record kind') := by
  rintro s s' hs _ _ ⟨⟩
  refine ⟨rfl, hs.cursor, ?_, hs.onward⟩
  change (s'.scopes.modify _).depth = (s.scopes.modify _).depth
  rw [Scopes.depth_modify, Scopes.depth_modify, hs.depth]

theorem inScope (kind : ScopeKind) {rule rule' : Rule α} (h : r.Follows rel rule rule') :
    r.Follows rel (.inScope kind rule) (.inScope kind rule') := by
  intro s s' hs a t hr
  rw [Rule.run] at hr
  have hpush : r.Beside { s with scopes := s.scopes.push kind }
      { s' with scopes := s'.scopes.push kind } :=
    ⟨hs.cursor, congrArg (· + 1) hs.depth, hs.onward⟩
  cases hrun : rule.run r.setting.grouping r.grouping
      { s with scopes := s.scopes.push kind } with
  | failed d u =>
    rw [hrun] at hr
    cases hr
  | done b u =>
    rw [hrun] at hr
    cases hr
    refine (h _ _ hpush a u hrun).mapState fun a' t' hrel =>
      ⟨hrel.1, hrel.2.cursor, ?_, hrel.2.onward⟩
    have hdepth : t'.scopes.frames.length = u.scopes.frames.length := hrel.2.depth
    change t'.scopes.frames.tail.length = u.scopes.frames.tail.length
    rw [List.length_tail, List.length_tail, hdepth]

/-- **Steps that follow one another are repeated.** Both repetitions may go on equally often, since
they begin in the same place. -/
theorem loop {step step' : α → Rule (Option α)}
    (h : ∀ a a', rel a a' → r.Follows (Option.Rel rel) (step a) (step' a')) {a a' : α}
    (ha : rel a a') : r.Follows rel (.loop step a) (.loop step' a') := by
  intro s s' hs b u hr
  rw [Rule.run] at hr ⊢
  rw [hs.cursor]
  generalize s.cursor.ahead.length + 1 = n at hr ⊢
  induction n generalizing a a' s s' with
  | zero =>
    cases hr
    exact ⟨ha, hs⟩
  | succ n ih =>
    rw [Action.iterate] at hr ⊢
    cases hstep : (step a).run r.setting.grouping r.grouping s with
    | failed d t =>
      rw [hstep] at hr
      cases hr
    | done next t =>
      rw [hstep] at hr
      have hends := h a a' ha s s' hs next t hstep
      cases hstep' : (step' a').run r.setting r.guessing s' with
      | failed d t' =>
        rw [hstep'] at hends
        exact hends
      | done next' t' =>
        rw [hstep'] at hends
        obtain ⟨hnext, ht⟩ := hends
        cases hnext with
        | none =>
          cases hr
          exact ⟨ha, ht⟩
        | some hb => exact ih hb t t' ht hr

end Follows

/-! ### Tokens and repetitions -/

theorem follows_isAt (kind : TokenKind) : r.Follows Eq (Rule.isAt kind) (Rule.isAt kind) :=
  .same .here fun _ => .pure rfl

theorem follows_consume (kind : TokenKind) : r.Follows Eq (Rule.consume kind) (Rule.consume kind) :=
  .same (follows_isAt kind) fun _ => .ite (.same .advance fun _ => .pure rfl) (.pure rfl)

theorem follows_expect (kind : TokenKind) : r.Follows Eq (Rule.expect kind) (Rule.expect kind) :=
  .same (follows_isAt kind) fun _ => .ite .advance (.fail _)

theorem follows_atVariable : r.Follows Eq Rule.atVariable Rule.atVariable :=
  .same .here fun _ => .pure rfl

theorem follows_atVariableBefore (kind : TokenKind) :
    r.Follows Eq (Rule.atVariableBefore kind) (Rule.atVariableBefore kind) :=
  .same follows_atVariable fun _ => .ite (.same .next fun _ => .pure rfl) (.pure rfl)

section

variable {rule rule' : Rule α} (h : r.Follows rel rule rule')

include h

theorem Follows.optionally {condition : Rule Bool} (hc : r.Follows Eq condition condition) :
    r.Follows (Option.Rel rel) (Rule.optionally condition rule)
      (Rule.optionally condition rule') :=
  .same hc fun _ => .ite (.bind h fun _ _ ha => .pure (.some ha)) (.pure .none)

/-- Something behind a token that introduces it. -/
theorem Follows.behind (kind : TokenKind) :
    r.Follows (Option.Rel rel) (Rule.optionally (Rule.consume kind) rule)
      (Rule.optionally (Rule.consume kind) rule') :=
  h.optionally (follows_consume kind)

theorem Follows.skipIf {condition : Rule Bool} (hc : r.Follows Eq condition condition) :
    r.Follows (Option.Rel rel) (Rule.skipIf condition rule) (Rule.skipIf condition rule') :=
  .same hc fun _ => .ite (.pure .none) (.bind h fun _ _ ha => .pure (.some ha))

end

/-- Reading many, of which there are equally many. -/
theorem Follows.many {rule rule' : Rule (Option α)} (h : r.Follows (Option.Rel rel) rule rule')
    {items items' : List α} (hitems : List.Forall₂ rel items items') :
    r.Follows (List.Forall₂ rel) (Rule.many rule items) (Rule.many rule' items') := by
  refine .loop (fun found found' hfound => .bind h fun one one' hone => .pure ?_) hitems
  cases hone with
  | none => exact .none
  | some ha => exact .some (List.rel_append hfound (.cons ha .nil))

theorem Follows.separated {rule rule' : Rule α} (h : r.Follows rel rule rule') :
    r.Follows (List.Forall₂ rel) (Rule.separated rule) (Rule.separated rule') :=
  .bind h fun _ _ hfirst => .many (h.behind _) (.cons hfirst .nil)

theorem Follows.listUntil {rule rule' : Rule α} (h : r.Follows rel rule rule') (close : Sign) :
    r.Follows (List.Forall₂ rel) (Rule.listUntil close rule) (Rule.listUntil close rule') :=
  .same (follows_isAt _) fun _ => .ite (.pure .nil) h.separated

end Rivals

end Cypher
