import Cypher.Proofs.Progress

/-!
# Reading tokens of known kinds

When the kinds of the tokens ahead are known, so is what the rules do. `Cypher.State.Passes` says
that tokens of given kinds lie between two states and nothing else has changed;
`Cypher.Outcome.ReadsIff` says of a run that it passes to a state with a value as described if a
condition holds, and fails if not. Such runs follow one another like the lists of kinds they pass.
-/

namespace Cypher

variable {setting : Setting} {inner : Inner} {α β : Type}

/-! ### Passing tokens -/

/-- The state after moving on. -/
def State.step (s : State) : State := { s with cursor := s.cursor.advance }

/-- The kinds of the tokens from the cursor on. -/
def State.kinds (s : State) : List TokenKind := (s.cursor.current :: s.cursor.ahead).map Token.kind

/-- **Tokens of given kinds lie between two states**, which are alike in all else. -/
inductive State.Passes : State → List TokenKind → State → Prop
  /-- No token. -/
  | nil (s : State) : Passes s [] s
  /-- A token and then more. -/
  | cons {s t : State} {kind : TokenKind} {kinds : List TokenKind} (hk : s.cursor.kind = kind)
    (ha : s.cursor.ahead ≠ []) (h : Passes s.step kinds t) : Passes s (kind :: kinds) t

namespace State

theorem kinds_eq_cons (s : State) :
    s.kinds = s.cursor.kind :: s.cursor.ahead.map Token.kind := rfl

theorem kinds_of_ahead_ne_nil {s : State} (h : s.cursor.ahead ≠ []) :
    s.kinds = s.cursor.kind :: s.step.kinds := by
  obtain ⟨u, us, ha⟩ := List.exists_cons_of_ne_nil h
  rw [kinds_eq_cons, step, kinds, Cursor.advance_of_ahead_eq_cons ha, ha]

/-- What is ahead begins with the token the cursor moves on to. -/
theorem ahead_eq_cons {s : State} (h : s.cursor.ahead ≠ []) :
    s.cursor.ahead = s.step.cursor.current :: s.step.cursor.ahead := by
  obtain ⟨u, us, ha⟩ := List.exists_cons_of_ne_nil h
  rw [step, Cursor.advance_of_ahead_eq_cons ha, ha]

theorem closed_step {s : State} (h : s.cursor.Closed) : s.step.cursor.Closed := h.advance

namespace Passes

variable {s t u : State} {a b : List TokenKind}

theorem kinds_eq (h : s.Passes a t) : s.kinds = a ++ t.kinds := by
  induction h with
  | nil s => rfl
  | cons hk ha _ ih => rw [kinds_of_ahead_ne_nil ha, hk, ih, List.cons_append]

theorem of_append (h : s.Passes (a ++ b) u) : ∃ t, s.Passes a t ∧ t.Passes b u := by
  induction a generalizing s with
  | nil => exact ⟨s, .nil s, h⟩
  | cons k a ih =>
    cases h with
    | cons hk ha h =>
      obtain ⟨t, hst, htu⟩ := ih h
      exact ⟨t, .cons hk ha hst, htu⟩

theorem closed (h : s.Passes a t) (hc : s.cursor.Closed) : t.cursor.Closed := by
  induction h with
  | nil s => exact hc
  | cons _ _ _ ih => exact ih hc.advance

/-- The state behind some tokens is the state before, moved on. -/
theorem eq_moved (h : s.Passes a t) : t = { s with cursor := t.cursor } := by
  induction h with
  | nil s => rfl
  | cons _ _ _ ih => exact ih

theorem depth_eq (h : s.Passes a t) : t.depth = s.depth := by
  rw [h.eq_moved]

/-- Whether tokens can be passed hangs on the cursor alone. -/
theorem transfer (h : s.Passes a t) (s' : State) (hc : s'.cursor = s.cursor) :
    s'.Passes a { s' with cursor := t.cursor } := by
  induction h generalizing s' with
  | nil s => exact hc ▸ .nil s'
  | cons hk ha _ ih =>
    exact .cons (hc ▸ hk) (hc ▸ ha) (ih s'.step (congrArg Cursor.advance hc))

theorem deeper (h : s.Passes a t) (depth : Nat) :
    State.Passes { s with depth := depth } a { t with depth := depth } := by
  have := h.transfer { s with depth := depth } rfl
  rwa [h.eq_moved]

theorem kind_eq {kind : TokenKind} (h : s.Passes (kind :: a) t) : s.cursor.kind = kind := by
  cases h with
  | cons hk _ _ => exact hk

theorem step {kind : TokenKind} (h : s.Passes (kind :: a) t) : s.step.Passes a t := by
  cases h with
  | cons _ _ h => exact h

theorem ahead_ne_nil {kind : TokenKind} (h : s.Passes (kind :: a) t) : s.cursor.ahead ≠ [] := by
  cases h with
  | cons _ ha _ => exact ha

theorem single {kind : TokenKind} (h : s.Passes [kind] t) : s.step = t := by
  cases h.step
  rfl

end Passes

/-- Tokens that are there can be passed, if others follow. -/
theorem exists_passes {s : State} {a b : List TokenKind} (h : s.kinds = a ++ b) (hb : b ≠ []) :
    ∃ t, s.Passes a t ∧ t.kinds = b := by
  induction a generalizing s with
  | nil => exact ⟨s, .nil s, h⟩
  | cons k a ih =>
    have ha : s.cursor.ahead ≠ [] := by
      intro ha
      rw [kinds_eq_cons, ha] at h
      exact hb (List.append_eq_nil_iff.1 (List.cons.inj h).2.symm).2
    rw [kinds_of_ahead_ne_nil ha] at h
    obtain ⟨hk, h⟩ := List.cons.inj h
    obtain ⟨t, ht, hkinds⟩ := ih h
    exact ⟨t, .cons hk ha ht, hkinds⟩

end State

/-! ### Outcomes known beforehand -/

/-- **A run that reads something if a condition holds**: then it passes to a state with a value as
described, and otherwise it fails. -/
def Outcome.ReadsIff (ok : Prop) (t : State) (post : α → Prop) (o : Outcome α) : Prop :=
  (ok → ∃ a, o = .done a t ∧ post a) ∧ (¬ok → ∃ d u, o = .failed d u)

namespace Outcome.ReadsIff

variable {ok ok' : Prop} {t u : State} {post : α → Prop} {o : Outcome α}

theorem done {a : α} (h : post a) : (Outcome.done a t).ReadsIff True t post :=
  ⟨fun _ => ⟨a, rfl, h⟩, fun hn => absurd trivial hn⟩

theorem failed {d : Diagnostic} (hn : ¬ok) : (Outcome.failed d u).ReadsIff ok t post :=
  ⟨fun h => absurd h hn, fun _ => ⟨d, u, rfl⟩⟩

theorem congr (h : o.ReadsIff ok t post) (hok : ok ↔ ok') : o.ReadsIff ok' t post :=
  propext hok ▸ h

theorem mapState {f : State → State} (h : o.ReadsIff ok t post) :
    (o.mapState f).ReadsIff ok (f t) post := by
  refine ⟨fun hok => ?_, fun hok => ?_⟩
  · obtain ⟨a, rfl, ha⟩ := h.1 hok
    exact ⟨a, rfl, ha⟩
  · obtain ⟨d, u, rfl⟩ := h.2 hok
    exact ⟨d, f u, rfl⟩

theorem bind {rule : Rule β} {next : β → Rule α} {s : State} {mid : β → Prop}
    (h : (rule.run setting inner s).ReadsIff ok t mid)
    (hn : ∀ b, mid b → ((next b).run setting inner t).ReadsIff ok' u post) :
    ((rule >>= next).run setting inner s).ReadsIff (ok ∧ ok') u post := by
  rw [Rule.run_bind]
  refine ⟨fun hok => ?_, fun hok => ?_⟩
  · obtain ⟨b, hr, hb⟩ := h.1 hok.1
    rw [hr]
    exact (hn b hb).1 hok.2
  · by_cases hfirst : ok
    · obtain ⟨b, hr, hb⟩ := h.1 hfirst
      rw [hr]
      exact (hn b hb).2 fun h' => hok ⟨hfirst, h'⟩
    · obtain ⟨d, v, hr⟩ := h.2 hfirst
      rw [hr]
      exact ⟨d, v, rfl⟩

/-- What comes after may be certain. -/
theorem bind_done {rule : Rule β} {next : β → Rule α} {s : State} {mid : β → Prop}
    (h : (rule.run setting inner s).ReadsIff ok t mid)
    (hn : ∀ b, mid b → ∃ a, (next b).run setting inner t = .done a u ∧ post a) :
    ((rule >>= next).run setting inner s).ReadsIff ok u post := by
  suffices hboth : ((rule >>= next).run setting inner s).ReadsIff (ok ∧ True) u post from
    hboth.congr (iff_of_eq (and_true ok))
  refine bind h fun b hb => ?_
  obtain ⟨a, hr, ha⟩ := hn b hb
  rw [hr]
  exact .done ha

/-- The same for a nested rule. -/
theorem nested_done {rule : Nested β} {next : β → Rule α} {s : State} {mid : β → Prop}
    (h : (inner rule s).ReadsIff ok t mid)
    (hn : ∀ b, mid b → ∃ a, (next b).run setting inner t = .done a u ∧ post a) :
    ((Rule.nested rule >>= next).run setting inner s).ReadsIff ok u post := bind_done h hn

end Outcome.ReadsIff

/-! ### Steps at a token of known kind -/

namespace Rule

variable {s : State} {kind : TokenKind}

theorem run_consume_of_eq (h : s.cursor.kind = kind) :
    (consume kind).run setting inner s = .done true s.step := by
  rw [consume, run_bind, run_isAt, Outcome.andThen_done, decide_eq_true h]
  rfl

theorem run_consume_of_ne (h : s.cursor.kind ≠ kind) :
    (consume kind).run setting inner s = .done false s := by
  rw [consume, run_bind, run_isAt, Outcome.andThen_done, decide_eq_false h]
  rfl

theorem run_expect_of_eq (h : s.cursor.kind = kind) :
    (expect kind).run setting inner s = .done s.cursor.current.span s.step := by
  rw [expect, run_bind, run_isAt, Outcome.andThen_done, decide_eq_true h]
  rfl

theorem run_expect_of_ne (h : s.cursor.kind ≠ kind) :
    (expect kind).run setting inner s =
      .failed (s.diagnostic setting (.expected ("`" ++ kind.describe ++ "`"))) s := by
  rw [expect, run_bind, run_isAt, Outcome.andThen_done, decide_eq_false h]
  rfl

theorem run_optionally_false {condition : Rule Bool} {rule : Rule α} {t : State}
    (h : condition.run setting inner s = .done false t) :
    (optionally condition rule).run setting inner s = .done none t := by
  rw [optionally, run_bind_done h]
  rfl

theorem run_optionally_true {condition : Rule Bool} {rule : Rule α} {t : State}
    (h : condition.run setting inner s = .done true t) :
    (optionally condition rule).run setting inner s =
      (rule.run setting inner t).andThen fun a u => .done (some a) u := by
  rw [optionally, run_bind_done h]
  exact run_bind ..

/-- A token that may be there was there or was not. -/
theorem of_consume {taken : Bool} {t : State}
    (hr : (consume kind).run setting inner s = .done taken t) :
    taken = true ∧ s.cursor.kind = kind ∧ t = s.step ∨
      taken = false ∧ s.cursor.kind ≠ kind ∧ t = s := by
  by_cases hk : s.cursor.kind = kind
  · rw [run_consume_of_eq hk] at hr
    cases hr
    exact .inl ⟨rfl, hk, rfl⟩
  · rw [run_consume_of_ne hk] at hr
    cases hr
    exact .inr ⟨rfl, hk, rfl⟩

/-- What is read if a condition holds: it, from where the condition leaves off, or nothing. -/
theorem done_of_optionally {condition : Rule Bool} {rule : Rule α} {t : State} {found : Option α}
    (hr : (optionally condition rule).run setting inner s = .done found t) :
    (∃ a u, condition.run setting inner s = .done true u ∧ rule.run setting inner u = .done a t ∧
      found = some a) ∨ condition.run setting inner s = .done false t ∧ found = none := by
  obtain ⟨holds, u, hu, hr⟩ := done_of_bind hr
  cases holds with
  | true =>
    obtain ⟨a, v, ha, hr⟩ := done_of_bind hr
    cases hr
    exact .inl ⟨a, u, hu, ha, rfl⟩
  | false =>
    cases hr
    exact .inr ⟨hu, rfl⟩

/-- What is read if a token of a kind is at the cursor: it, or nothing. -/
theorem done_of_optionally_isAt {rule : Rule α} {t : State} {found : Option α}
    (hr : (optionally (isAt kind) rule).run setting inner s = .done found t) :
    (∃ a, s.cursor.kind = kind ∧ rule.run setting inner s = .done a t ∧ found = some a) ∨
      found = none ∧ t = s := by
  obtain ⟨a, u, hu, ha, rfl⟩ | ⟨hu, rfl⟩ := done_of_optionally hr
  · obtain ⟨rfl, hk⟩ := kind_of_isAt hu
    exact .inl ⟨a, hk, ha, rfl⟩
  · exact .inr ⟨rfl, (Outcome.done.inj hu).2.symm⟩

/-- Reading many comes to one, where there is one and then no more. -/
theorem reads_many_once {rule : Rule (Option α)} {ok : Prop} {t : State} {post : α → Prop}
    (ha : s.cursor.ahead ≠ [])
    (h : (rule.run setting inner s).ReadsIff ok t fun next => ∃ a, next = some a ∧ post a)
    (ht : rule.run setting inner t = .done none t) :
    ((many rule []).run setting inner s).ReadsIff ok t fun all => ∃ a, all = [a] ∧ post a := by
  obtain ⟨n, hn⟩ := Nat.exists_eq_succ_of_ne_zero (mt List.length_eq_zero_iff.1 ha)
  change (Action.iterate _ (s.cursor.ahead.length + 1) [] s).ReadsIff _ _ _
  rw [hn, Action.iterate, run_bind]
  refine ⟨fun hok => ?_, fun hok => ?_⟩
  · obtain ⟨_, hr, a, rfl, ha⟩ := h.1 hok
    rw [hr]
    change ∃ b, Action.iterate _ (n + 1) [a] t = _ ∧ _
    rw [Action.iterate, run_bind, ht]
    exact ⟨[a], rfl, a, rfl, ha⟩
  · obtain ⟨d, u, hr⟩ := h.2 hok
    rw [hr]
    exact ⟨d, u, rfl⟩

end Rule

/-- A mistake that is not forgiven cannot be mended. -/
theorem Outcome.ReadsIff.mend {rule remedy : Rule α} {s t : State} {ok : Prop} {post : α → Prop}
    (hs : setting.forgiving = false) (h : (rule.run setting inner s).ReadsIff ok t post) :
    ((Rule.mend rule remedy).run setting inner s).ReadsIff ok t post := by
  rw [Rule.run]
  refine ⟨fun hok => ?_, fun hok => ?_⟩
  · obtain ⟨a, hr, ha⟩ := h.1 hok
    rw [hr]
    exact ⟨a, rfl, ha⟩
  · obtain ⟨d, u, hr⟩ := h.2 hok
    rw [hr]
    exact ⟨d, u, if_neg (by rw [hs]; exact Bool.false_ne_true)⟩

theorem Grammar.run_move (s : State) : move.run setting inner s = .done () s.step := rfl

end Cypher
