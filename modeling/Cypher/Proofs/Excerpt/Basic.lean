import Cypher.Proofs.Blocks
import Cypher.Proofs.Chain
import Cypher.Proofs.Parallel.Boundary
import Cypher.Proofs.Parallel.Query

/-!
# Tokens on their own and in their place

What some tokens are read as, with nothing but the end of the text behind them, they are also read
as in a text that goes on, if it goes on with a token behind which nothing of them is looked for.
The two runs cannot be compared step by step up to the last token: a repetition inside of brackets
may end in the one list for want of tokens, and go on with those beyond in the other. Then the first
run fails, as the bracket is not closed.

So the two runs are compared as a correspondence of places as long as two tokens are left, or one
that closes something (`Cypher.Cursor.Amid`, `Cypher.Excerpt.parallel`), and behind that it is
asked of each rule how it comes to its end. A rule is *carried* over (`Cypher.Rule.Carried`) if what
it reads up to the end of the tokens alone it also reads in their place. It is *fenced*
(`Cypher.Rule.Fenced`) if moreover it comes to that end from amid the tokens only. Of rules in a
row, the first may be left to the correspondence where the second is fenced, or does not come to the
end unless it begins there (`Cypher.Rule.Reaches`).
-/

namespace Cypher

/-! ### Places amid some tokens -/

/-- **A place amid some tokens**: two are ahead of the last, or the next to last closes
something. -/
def Cursor.Amid (c : Cursor) : Prop :=
  2 ≤ c.ahead.length ∨ c.ahead.length = 1 ∧ c.kind.isFinal = true

/-- What is before such a place is such a place. -/
theorem Cursor.Onward.amid {c c' : Cursor} (h : c.Onward c') (ha : c'.Amid) : c.Amid := by
  have hle := h.length_ahead_le
  rcases ha with ha | ⟨hone, hfinal⟩
  · exact .inl (Nat.le_trans ha hle)
  · by_cases heq : c.ahead.length = 1
    · obtain ⟨w, hw⟩ := h.exists_across
      have hlength := congrArg List.length hw.1
      rw [Cursor.rest, Cursor.rest, List.length_append, List.length_cons,
        List.length_cons] at hlength
      obtain rfl : w = [] := List.eq_nil_of_length_eq_zero (by omega)
      exact .inr ⟨heq, hw.eq_of_nil ▸ hfinal⟩
    · exact .inl (by omega)

/-- **Tokens that bring something to its end**: they close brackets only that are open before them,
and no dot comes last. -/
structure Concludes (v : List Token) : Prop where
  /-- Brackets are closed. -/
  closes : ∃ depth, Balances depth v
  /-- The text does not end before. -/
  goesOn : ∀ t ∈ v, t.kind ≠ .endOfInput
  /-- No dot comes last. -/
  last : ∀ t ∈ v.getLast?, t.kind ≠ .sign .dot

theorem Concludes.tail {t : Token} {v : List Token} (h : Concludes (t :: v)) : Concludes v where
  closes := h.closes.elim fun _ hd => hd.tail
  goesOn := (List.forall_mem_cons.1 h.goesOn).2
  last u hu := h.last u (by rw [List.getLast?_cons, hu]; rfl)

/-! ### Excerpts -/

/-- **An excerpt from a text**: how its tokens end when they stand alone, and what is behind them in
their place. -/
structure Excerpt (setting : Setting) where
  /-- The end of the text. -/
  stop : Token
  /-- The token behind the excerpt. -/
  edge : Token
  /-- The tokens beyond that. -/
  beyond : List Token
  /-- The end is an end. -/
  ends : stop.kind = .endOfInput
  /-- No test looks through the token behind. -/
  border : edge.kind.isBorder = true
  /-- Mistakes are not forgiven. -/
  strict : setting.forgiving = false
  /-- Parentheses are judged by where they are closed. -/
  lookahead : setting.opensPattern = Cursor.opensPattern

variable {setting : Setting} {inner : Inner} {α β : Type}

namespace Excerpt

variable (x : Excerpt setting)

/-- **The same place in both lists.** -/
structure Beside (c c' : Cursor) : Prop where
  /-- The tokens behind are the same. -/
  behind : c.behind = c'.behind
  /-- There are some. -/
  passed : c.behind ≠ []
  /-- So are those ahead, as far as the excerpt goes. -/
  rest : ∃ v, Concludes v ∧ c.rest = v ++ [x.stop] ∧ c'.rest = v ++ x.edge :: x.beyond

namespace Beside

variable {x} {c c' : Cursor}

theorem previousSpan (h : x.Beside c c') : c.previousSpan = c'.previousSpan := by
  obtain ⟨t, ts, ht⟩ := List.exists_cons_of_ne_nil h.passed
  rw [Cursor.previousSpan, Cursor.previousSpan, ← h.behind, ht]

/-- **Before the end**, both are at the same token. -/
theorem exists_ahead (h : x.Beside c c') (hne : c.ahead ≠ []) :
    ∃ v, Concludes (c.current :: v) ∧ c'.current = c.current ∧ c.ahead = v ++ [x.stop] ∧
      c'.ahead = v ++ x.edge :: x.beyond := by
  obtain ⟨-, -, v, hv, hc, hc'⟩ := h
  cases v with
  | nil => exact absurd (List.cons.inj hc).2 hne
  | cons t v =>
    obtain ⟨rfl, ha⟩ := List.cons.inj hc
    obtain ⟨ht, ha'⟩ := List.cons.inj hc'
    exact ⟨v, hv, ht, ha, ha'⟩

/-- At the end, the token there is what ends the one list, and the other goes on. -/
theorem of_ahead_eq_nil (h : x.Beside c c') (ha : c.ahead = []) :
    c.current = x.stop ∧ c'.current = x.edge ∧ c'.ahead = x.beyond := by
  obtain ⟨-, -, v, -, hc, hc'⟩ := h
  cases v with
  | nil => exact ⟨(List.cons.inj hc).1, List.cons.inj hc'⟩
  | cons t v =>
    have hahead := (List.cons.inj hc).2
    rw [ha] at hahead
    exact absurd hahead.symm (List.append_ne_nil_of_right_ne_nil v (List.cons_ne_nil _ _))

theorem kind_of_ahead_eq_nil (h : x.Beside c c') (ha : c.ahead = []) : c.kind = .endOfInput := by
  rw [Cursor.kind, (h.of_ahead_eq_nil ha).1, x.ends]

theorem ahead_ne_nil (h : x.Beside c c') (hk : c.kind ≠ .endOfInput) : c.ahead ≠ [] :=
  fun ha => hk (h.kind_of_ahead_eq_nil ha)

theorem current_eq (h : x.Beside c c') (hne : c.ahead ≠ []) : c.current = c'.current := by
  obtain ⟨v, -, hcurrent, -⟩ := h.exists_ahead hne
  exact hcurrent.symm

/-- Past a token of the excerpt. -/
theorem advance (h : x.Beside c c') (hne : c.ahead ≠ []) : x.Beside c.advance c'.advance := by
  obtain ⟨v, hv, hcurrent, ha, ha'⟩ := h.exists_ahead hne
  obtain ⟨u, us, hu⟩ := List.exists_cons_of_ne_nil
    (List.append_ne_nil_of_right_ne_nil v (List.cons_ne_nil x.stop []))
  obtain ⟨u', us', hu'⟩ := List.exists_cons_of_ne_nil
    (List.append_ne_nil_of_right_ne_nil v (List.cons_ne_nil x.edge x.beyond))
  rw [Cursor.advance_of_ahead_eq_cons (ha.trans hu),
    Cursor.advance_of_ahead_eq_cons (ha'.trans hu')]
  exact ⟨by rw [h.behind, hcurrent], List.cons_ne_nil _ _, v, hv.tail, hu.symm, hu'.symm⟩

/-- With two tokens ahead, the next one is the same. -/
theorem exists_next (h : x.Beside c c') (htwo : 2 ≤ c.ahead.length) :
    ∃ u us us', c.ahead = u :: us ∧ c'.ahead = u :: us' := by
  have hne : c.ahead ≠ [] := List.ne_nil_of_length_pos (Nat.lt_of_lt_of_le Nat.two_pos htwo)
  obtain ⟨v, -, -, ha, ha'⟩ := h.exists_ahead hne
  cases v with
  | nil =>
    rw [ha, List.nil_append, List.length_singleton] at htwo
    exact absurd htwo (by decide)
  | cons u us => exact ⟨u, _, _, ha, ha'⟩

/-- No kind that the tokens behind may have is next in one list only. -/
theorem peek_eq_iff (h : x.Beside c c') (hne : c.ahead ≠ []) {kind : TokenKind}
    (hk : kind.isBorder = false) : c.peek 1 = kind ↔ c'.peek 1 = kind := by
  obtain ⟨v, -, -, ha, ha'⟩ := h.exists_ahead hne
  cases v with
  | nil =>
    have hend : x.stop.kind.isBorder = true := by rw [x.ends]; rfl
    rw [Grammar.peek_one_of_ahead_eq_cons ha, Grammar.peek_one_of_ahead_eq_cons ha']
    exact iff_of_false (TokenKind.ne_of_isBorder hend hk) (TokenKind.ne_of_isBorder x.border hk)
  | cons u us =>
    rw [Grammar.peek_one_of_ahead_eq_cons ha, Grammar.peek_one_of_ahead_eq_cons ha']

/-- The same name is called. -/
theorem opensCall_eq (h : x.Beside c c') (hne : c.ahead ≠ []) : c.opensCall = c'.opensCall := by
  obtain ⟨v, hv, -, ha, ha'⟩ := h.exists_ahead hne
  have hend : x.stop.kind.isBorder = true := by rw [x.ends]; rfl
  rw [Cursor.opensCall, Cursor.opensCall, ha, ha', Cursor.argumentsFollow_append hend,
    Cursor.argumentsFollow_append x.border]
  · rintro a t rfl hdot
    refine absurd hdot (hv.last t ?_)
    rw [← List.cons_append, List.getLast?_concat]
    exact rfl
  · intro a t _ _
    rw [x.ends]
    rfl

/-- The same parenthesis opens a path. -/
theorem opensPattern_eq (h : x.Beside c c') (hne : c.ahead ≠ []) :
    setting.opensPattern c = setting.opensPattern c' := by
  obtain ⟨v, hv, hcurrent, ha, ha'⟩ := h.exists_ahead hne
  obtain ⟨depth, hdepth⟩ := hv.closes
  have hend : x.stop.kind.isBorder = true := by rw [x.ends]; rfl
  rw [x.lookahead]
  calc c.opensPattern
    _ = Cursor.opensPattern ⟨c.behind, c.current, v ++ [x.stop]⟩ := by rw [← ha]
    _ = Cursor.opensPattern ⟨c.behind, c.current, v⟩ := Cursor.opensPattern_append hend hdepth _
    _ = Cursor.opensPattern ⟨c.behind, c.current, v ++ x.edge :: x.beyond⟩ :=
      (Cursor.opensPattern_append x.border hdepth _).symm
    _ = c'.opensPattern := by rw [h.behind, ← ha', ← hcurrent]

end Beside

theorem ahead_ne_nil_of_amid {c : Cursor} (h : c.Amid) : c.ahead ≠ [] := by
  refine List.ne_nil_of_length_pos ?_
  rcases h with h | ⟨h, -⟩ <;> omega

theorem two_le_of_amid {c : Cursor} (h : c.Amid) (hk : c.kind.isFinal = false) :
    2 ≤ c.ahead.length :=
  h.resolve_right fun h => absurd (hk.symm.trans h.2) Bool.false_ne_true

/-- **Places amid the excerpt** correspond, and those behind are given up. -/
def parallel : Parallel setting where
  cursors c c' := x.Beside c c' ∧ c.Amid
  lost c := ¬c.Amid
  diagnostics := Eq
  problems := Eq
  shift := 0
  current h := .inl (h.1.current_eq (ahead_ne_nil_of_amid h.2))
  lost_onward h ho ha := h (ho.amid ha)
  advance {c c'} h _ := by
    by_cases ha : c.advance.Amid
    · exact .inr ⟨h.1.advance (ahead_ne_nil_of_amid h.2), ha⟩
    · exact .inl ha
  next h _ hk := by
    obtain ⟨u, us, us', ha, ha'⟩ := h.1.exists_next (two_le_of_amid h.2 hk)
    exact .inl ((Grammar.peek_one_of_ahead_eq_cons ha).trans
      (Grammar.peek_one_of_ahead_eq_cons ha').symm)
  opensCall h _ := h.1.opensCall_eq (ahead_ne_nil_of_amid h.2)
  opensPattern h _ := h.1.opensPattern_eq (ahead_ne_nil_of_amid h.2)
  resume _ hf _ := absurd (hf.symm.trans x.strict) Bool.noConfusion
  position h := (congrArg List.length h.1.behind).symm
  previousSpan h _ := h.1.previousSpan
  brace h _ hk := by
    obtain ⟨u, us, us', ha, ha'⟩ := h.1.exists_next (two_le_of_amid h.2 (hk ▸ rfl))
    rw [Cursor.advance_of_ahead_eq_cons ha, Cursor.advance_of_ahead_eq_cons ha']
  diagnostic problem h := by
    rw [State.diagnostic, State.diagnostic, h.1.current_eq (ahead_ne_nil_of_amid h.2)]
  note := by
    rintro ps _ d _ rfl rfl
    rfl

/-- **States in the same place of both lists.** -/
structure Alike (s s' : State) : Prop where
  /-- The places are the same. -/
  cursors : x.Beside s.cursor s'.cursor
  /-- Both are in a scope, or neither is. -/
  scopes : 0 < s.scopes.depth ↔ 0 < s'.scopes.depth
  /-- So are the problems. -/
  problems : s.problems = s'.problems
  /-- The first list is closed by an end token. -/
  closed : s.cursor.Closed
  /-- So is the second. -/
  closed' : s'.cursor.Closed

variable {x} {s s' : State}

namespace Alike

theorem inside (h : x.Alike s s') (ha : s.cursor.Amid) : x.parallel.Inside s s' :=
  ⟨⟨⟨h.cursors, ha⟩, h.scopes, h.problems, h.closed, h.closed'⟩, h.cursors.passed⟩

theorem of_states (h : x.parallel.States s s') : x.Alike s s' :=
  ⟨h.cursors.1, h.scopes, h.problems, h.closed, h.closed'⟩

theorem step (h : x.Alike s s') (hne : s.cursor.ahead ≠ []) : x.Alike s.step s'.step :=
  ⟨h.cursors.advance hne, h.scopes, h.problems, h.closed.advance, h.closed'.advance⟩

theorem deeper (h : x.Alike s s') (depth depth' : Nat) :
    x.Alike { s with depth := depth } { s' with depth := depth' } :=
  ⟨h.cursors, h.scopes, h.problems, h.closed, h.closed'⟩

/-- What is read amid the tokens alone is read in their place. -/
theorem exists_of_agree {rule : Rule α} {a : α} {t : State} (hi : inner.GoesOn)
    (h : x.Alike s s')
    (hA : x.parallel.Inside s s' → x.parallel.Agree inner rule s s')
    (hr : rule.run setting inner s = .done a t) (ht : t.cursor.Amid) :
    ∃ t', rule.run setting inner s' = .done a t' ∧ x.Alike t t' := by
  have hagree := hA (h.inside ((Rule.onward_of_done hi hr).cursor.amid ht))
  unfold Parallel.Agree at hagree
  rw [hr] at hagree
  obtain ⟨t', hr', hstates⟩ := hagree.exists_of_done (not_not_intro ht)
  exact ⟨t', hr', of_states hstates⟩

end Alike

end Excerpt

/-! ### Rules that come to the end -/

namespace Rule

/-- **A rule that is carried over** from the tokens alone to their place: what it reads up to the
end of those, it reads there too. -/
def Carried (x : Excerpt setting) (inner : Inner) (rule : Rule α) (s : State) : Prop :=
  ∀ a t, rule.run setting inner s = .done a t → t.cursor.ahead = [] →
    ∀ s', x.Alike s s' → ∃ t', rule.run setting inner s' = .done a t' ∧ x.Alike t t'

/-- **A rule that comes to the end from amid the tokens** only, unless it begins there. -/
def Reaches (setting : Setting) (inner : Inner) (rule : Rule α) (s : State) : Prop :=
  s.cursor.Closed → ∀ a t, rule.run setting inner s = .done a t → t.cursor.ahead = [] →
    s.cursor.ahead = [] ∨ s.cursor.Amid

/-- **A rule with a fence at its end**: it is carried over, and comes to the end from amid the
tokens only. -/
def Fenced (x : Excerpt setting) (inner : Inner) (rule : Rule α) (s : State) : Prop :=
  (s.cursor.Closed → ∀ a t, rule.run setting inner s = .done a t → t.cursor.ahead = [] →
    s.cursor.Amid) ∧ Carried x inner rule s

variable {x : Excerpt setting} {s : State}

/-- Two tokens are ahead if there are two that do not end the text. -/
theorem two_le_of_kind (hc : s.cursor.Closed) (hk : s.cursor.kind ≠ .endOfInput)
    (hk' : s.step.cursor.kind ≠ .endOfInput) : 2 ≤ s.cursor.ahead.length := by
  rw [State.ahead_eq_cons (hc.ahead_ne_nil hk), List.length_cons]
  exact Nat.succ_le_succ (List.length_pos_of_ne_nil (hc.advance.ahead_ne_nil hk'))

/-- What stays in place may come last. -/
theorem Reaches.finish {rule : Rule β} {next : β → Rule α}
    (h : Reaches setting inner rule s)
    (hstays : ∀ b t a u, (next b).run setting inner t = .done a u → u = t) :
    Reaches setting inner (rule >>= next) s := by
  intro hc a u hr hu
  obtain ⟨b, t, hb, hr⟩ := done_of_bind hr
  exact h hc b t hb (hstays b t a u hr ▸ hu)

namespace Carried

theorem pure (a : α) : Carried x inner (Pure.pure a) s := by
  rintro b t ⟨⟩ - s' hs
  exact ⟨s', rfl, hs⟩

theorem fail (problem : Problem) : Carried x inner (.fail problem : Rule α) s := by
  intro a t hr
  cases hr

theorem ite {condition : Prop} [Decidable condition] {rule other : Rule α}
    (h : condition → Carried x inner rule s) (ho : ¬condition → Carried x inner other s) :
    Carried x inner (if condition then rule else other) s := by
  split
  · exact h ‹_›
  · exact ho ‹_›

/-- **Rules in a row** are carried over if both are and the second does not come to the end from the
last token alone: then the first is left to the correspondence of places. -/
theorem bind (hi : inner.GoesOn) {rule : Rule β} {next : β → Rule α}
    (h : Carried x inner rule s)
    (hA : ∀ s', x.parallel.Inside s s' → x.parallel.Agree inner rule s s')
    (hn : ∀ b t, rule.run setting inner s = .done b t →
      Carried x inner (next b) t ∧ Reaches setting inner (next b) t) :
    Carried x inner (rule >>= next) s := by
  intro a u hr hu s' hs
  obtain ⟨b, t, hb, hr⟩ := done_of_bind hr
  obtain ⟨hcarried, hreaches⟩ := hn b t hb
  obtain ⟨t', hb', ht⟩ : ∃ t', rule.run setting inner s' = .done b t' ∧ x.Alike t t' := by
    rcases hreaches ((onward_of_done hi hb).closed hs.closed) a u hr hu with hend | hamid
    · exact h b t hb hend s' hs
    · exact hs.exists_of_agree hi (hA s') hb hamid
  obtain ⟨u', hr', hu'⟩ := hcarried a u hr hu t' ht
  exact ⟨u', (run_bind_done hb').trans hr', hu'⟩

/-- What stays in place may come last. -/
theorem finish {rule : Rule β} {next : β → Rule α} (h : Carried x inner rule s)
    (hn : ∀ b t, Carried x inner (next b) t)
    (hstays : ∀ b t a u, (next b).run setting inner t = .done a u → u = t) :
    Carried x inner (rule >>= next) s := by
  intro a u hr hu s' hs
  obtain ⟨b, t, hb, hr⟩ := done_of_bind hr
  obtain ⟨t', hb', ht⟩ := h b t hb (hstays b t a u hr ▸ hu) s' hs
  obtain ⟨u', hr', hu'⟩ := hn b t a u hr hu t' ht
  exact ⟨u', (run_bind_done hb').trans hr', hu'⟩

/-- What is made of something. -/
theorem map {rule : Rule β} {f : β → α} (h : Carried x inner rule s) :
    Carried x inner (rule >>= fun b => Pure.pure (f b)) s :=
  h.finish (fun _ _ => pure _) fun _ _ _ _ hr => (Outcome.done.inj hr).2.symm

/-- Where a rule fails at the end, one is not there. -/
theorem of_refuses {problem : Problem} {rule : Rule α} (hr : Refuses setting inner problem rule)
    (h : s.cursor.kind ≠ .endOfInput → Carried x inner rule s) : Carried x inner rule s := by
  intro a t hdone ht s' hs
  by_cases hk : s.cursor.kind = .endOfInput
  · rw [hr s (by rw [hk]; rfl)] at hdone
    cases hdone
  · exact h hk a t hdone ht s' hs

/-- What is looked at is the same. -/
theorem look {view : View β} {next : β → Rule α}
    (hv : ∀ s', x.Alike s s' → view.read setting s' = view.read setting s)
    (h : Carried x inner (next (view.read setting s)) s) :
    Carried x inner (.look view >>= next) s := by
  intro a u hr hu s' hs
  obtain ⟨u', hr', hu'⟩ := h a u hr hu s' hs
  refine ⟨u', ?_, hu'⟩
  rw [run_bind, run_look, Outcome.andThen_done, hv s' hs]
  exact hr'

/-- Whether a token comes next that the one behind the excerpt cannot be. -/
theorem ifNext {kind : TokenKind} {rule other : Rule α} (hk : s.cursor.kind ≠ .endOfInput)
    (hb : kind.isBorder = false) (h : Carried x inner rule s) (ho : Carried x inner other s) :
    Carried x inner (.look .next >>= fun next => if next = kind then rule else other) s := by
  intro a u hr hu s' hs
  have hiff := hs.cursors.peek_eq_iff (hs.cursors.ahead_ne_nil hk) hb
  rw [run_bind, run_look, Outcome.andThen_done, View.read] at hr ⊢
  by_cases hn : s.cursor.peek 1 = kind
  · rw [if_pos hn] at hr
    rw [if_pos (hiff.1 hn)]
    exact h a u hr hu s' hs
  · rw [if_neg hn] at hr
    rw [if_neg (mt hiff.2 hn)]
    exact ho a u hr hu s' hs

/-- So is what a test comes to. -/
theorem test {rule : Rule β} {next : β → Rule α} {b : State → β}
    (hrun : ∀ t, rule.run setting inner t = .done (b t) t) (hb : ∀ s', x.Alike s s' → b s' = b s)
    (h : Carried x inner (next (b s)) s) : Carried x inner (rule >>= next) s := by
  intro a u hr hu s' hs
  rw [run_bind_done (hrun s)] at hr
  obtain ⟨u', hr', hu'⟩ := h a u hr hu s' hs
  exact ⟨u', by rwa [run_bind_done (hrun s'), hb s' hs], hu'⟩

/-- So is the token at the cursor unless that is at the end. -/
theorem here {next : Token → Rule α} (hk : s.cursor.kind ≠ .endOfInput)
    (h : Carried x inner (next s.cursor.current) s) : Carried x inner (Rule.here >>= next) s :=
  look (fun _ hs => (hs.cursors.current_eq (hs.cursors.ahead_ne_nil hk)).symm) h

/-- An element is done with its span. -/
theorem close {start : Nat} {f : Span → α} :
    Carried x inner (.look (.spanFrom start) >>= fun span => Pure.pure (f span)) s :=
  look (fun s' hs => by
    rw [View.read, View.read, Cursor.spanFrom, Cursor.spanFrom, hs.cursors.previousSpan]) (pure _)

/-- A token is passed. -/
theorem advance {next : Span → Rule α} (hk : s.cursor.kind ≠ .endOfInput)
    (h : Carried x inner (next s.cursor.current.span) s.step) :
    Carried x inner (.advance >>= next) s := by
  intro a u hr hu s' hs
  have hne := hs.cursors.ahead_ne_nil hk
  obtain ⟨u', hr', hu'⟩ := h a u hr hu s'.step (hs.step hne)
  refine ⟨u', ?_, hu'⟩
  rw [hs.cursors.current_eq hne] at hr'
  exact hr'

theorem move {next : Unit → Rule α} (h : Carried x inner (.advance >>= fun _ => next ()) s) :
    Carried x inner (Grammar.move >>= next) s := h

/-- A token has to be there. -/
theorem expect {kind : TokenKind} {next : Span → Rule α} (hk : kind ≠ .endOfInput)
    (h : s.cursor.kind = kind → Carried x inner (next s.cursor.current.span) s.step) :
    Carried x inner (Rule.expect kind >>= next) s := by
  intro a u hr hu s' hs
  by_cases he : s.cursor.kind = kind
  · have hne := hs.cursors.ahead_ne_nil (he ▸ hk)
    have hcurrent := hs.cursors.current_eq hne
    rw [run_bind_done (run_expect_of_eq he)] at hr
    obtain ⟨u', hr', hu'⟩ := h he a u hr hu s'.step (hs.step hne)
    have he' : s'.cursor.kind = kind := by rw [← he, Cursor.kind, ← hcurrent]; rfl
    exact ⟨u', by rwa [run_bind_done (run_expect_of_eq he'), ← hcurrent], hu'⟩
  · rw [run_bind_failed (run_expect_of_ne he)] at hr
    cases hr

/-- A token may be there, if it is not the one behind the excerpt. -/
theorem consume {kind : TokenKind} {next : Bool → Rule α} (hk : kind ≠ .endOfInput)
    (hedge : s.cursor.kind = .endOfInput → x.edge.kind ≠ kind)
    (h : s.cursor.kind = kind → Carried x inner (next true) s.step)
    (hn : s.cursor.kind ≠ kind → Carried x inner (next false) s) :
    Carried x inner (Rule.consume kind >>= next) s := by
  intro a u hr hu s' hs
  by_cases he : s.cursor.kind = kind
  · have hne := hs.cursors.ahead_ne_nil (he ▸ hk)
    have he' : s'.cursor.kind = kind := by
      rw [← he, Cursor.kind, ← hs.cursors.current_eq hne]
      rfl
    rw [run_bind_done (run_consume_of_eq he)] at hr
    obtain ⟨u', hr', hu'⟩ := h he a u hr hu s'.step (hs.step hne)
    exact ⟨u', by rwa [run_bind_done (run_consume_of_eq he')], hu'⟩
  · have he' : s'.cursor.kind ≠ kind := by
      by_cases hne : s.cursor.ahead = []
      · rw [Cursor.kind, (hs.cursors.of_ahead_eq_nil hne).2.1]
        exact hedge (hs.cursors.kind_of_ahead_eq_nil hne)
      · rw [Cursor.kind, ← hs.cursors.current_eq hne]
        exact he
    rw [run_bind_done (run_consume_of_ne he)] at hr
    obtain ⟨u', hr', hu'⟩ := hn he a u hr hu s' hs
    exact ⟨u', by rwa [run_bind_done (run_consume_of_ne he')], hu'⟩

end Carried

namespace Fenced

/-- That the cursor is closed may be used. -/
theorem assuming {rule : Rule α} (h : s.cursor.Closed → Fenced x inner rule s) :
    Fenced x inner rule s :=
  ⟨fun hc => (h hc).1 hc, fun a t hr ht s' hs => (h hs.closed).2 a t hr ht s' hs⟩

theorem fail (problem : Problem) : Fenced x inner (.fail problem : Rule α) s :=
  ⟨fun _ _ _ hr => (nomatch hr), .fail problem⟩

theorem ite {condition : Prop} [Decidable condition] {rule other : Rule α}
    (h : condition → Fenced x inner rule s) (ho : ¬condition → Fenced x inner other s) :
    Fenced x inner (if condition then rule else other) s := by
  split
  · exact h ‹_›
  · exact ho ‹_›

/-- **Before a fence**, all is left to the correspondence of places. -/
theorem after (hi : inner.GoesOn) {rule : Rule β} {next : β → Rule α}
    (hA : ∀ s', x.parallel.Inside s s' → x.parallel.Agree inner rule s s')
    (hn : ∀ b t, rule.run setting inner s = .done b t → Fenced x inner (next b) t) :
    Fenced x inner (rule >>= next) s := by
  constructor
  · intro hc a u hr hu
    obtain ⟨b, t, hb, hr⟩ := done_of_bind hr
    have ho := onward_of_done hi hb
    exact ho.cursor.amid ((hn b t hb).1 (ho.closed hc) a u hr hu)
  · intro a u hr hu s' hs
    obtain ⟨b, t, hb, hr⟩ := done_of_bind hr
    obtain ⟨hamid, hcarried⟩ := hn b t hb
    have hct := (onward_of_done hi hb).closed hs.closed
    obtain ⟨t', hb', ht⟩ := hs.exists_of_agree hi (hA s') hb (hamid hct a u hr hu)
    obtain ⟨u', hr', hu'⟩ := hcarried a u hr hu t' ht
    exact ⟨u', (run_bind_done hb').trans hr', hu'⟩

/-- What is made of something. -/
theorem map {rule : Rule β} {f : β → α} (h : Fenced x inner rule s) :
    Fenced x inner (rule >>= fun b => Pure.pure (f b)) s := by
  refine ⟨fun hc a u hr hu => ?_, h.2.map⟩
  obtain ⟨b, t, hb, ⟨⟩⟩ := done_of_bind hr
  exact h.1 hc b _ hb hu

/-- **What passes a token to a fence** may be followed by more. -/
theorem bind (hi : inner.GoesOn) {rule : Rule β} {next : β → Rule α} (h : Fenced x inner rule s)
    (hm : MovesOn setting inner (fun _ => True) rule s)
    (hA : ∀ s', x.parallel.Inside s s' → x.parallel.Agree inner rule s s')
    (hn : ∀ b t, rule.run setting inner s = .done b t →
      Carried x inner (next b) t ∧ Reaches setting inner (next b) t) :
    Fenced x inner (rule >>= next) s := by
  refine ⟨fun hc a u hr hu => ?_, .bind hi h.2 hA hn⟩
  obtain ⟨b, t, hb, hr⟩ := done_of_bind hr
  by_cases hend : t.cursor.ahead = []
  · exact h.1 hc b t hb hend
  · have hpos := List.length_pos_of_ne_nil hend
    have hlt : t.left < s.left := hm hc b t hb trivial
    unfold State.left at hlt
    exact .inl (by omega)

/-- What is looked at is the same. -/
theorem look {view : View β} {next : β → Rule α}
    (hv : ∀ s', s.cursor.Amid → x.Alike s s' → view.read setting s' = view.read setting s)
    (h : Fenced x inner (next (view.read setting s)) s) :
    Fenced x inner (.look view >>= next) s := by
  refine ⟨h.1, fun a u hr hu s' hs => ?_⟩
  have hamid := h.1 hs.closed a u hr hu
  exact Carried.look (fun s' => hv s' hamid) h.2 a u hr hu s' hs

theorem startHere {next : Nat → Rule α} (h : Fenced x inner (next s.cursor.current.span.start) s) :
    Fenced x inner (Rule.startHere >>= next) s := by
  refine ⟨h.1, fun a u hr hu s' hs => ?_⟩
  have hcurrent := hs.cursors.current_eq (Excerpt.ahead_ne_nil_of_amid (h.1 hs.closed a u hr hu))
  obtain ⟨u', hr', hu'⟩ := h.2 a u hr hu s' hs
  rw [hcurrent] at hr'
  exact ⟨u', hr', hu'⟩

/-- A token is passed before a fence. -/
theorem advance {next : Span → Rule α} (hk : s.cursor.kind ≠ .endOfInput)
    (h : Fenced x inner (next s.cursor.current.span) s.step) :
    Fenced x inner (.advance >>= next) s :=
  ⟨fun hc a u hr hu => (Cursor.onward_advance s.cursor).amid (h.1 hc.advance a u hr hu),
    .advance hk h.2⟩

/-- A token behind which something has to follow. -/
theorem behind {next : Span → Rule α} {problem : Problem} (hk : s.cursor.kind ≠ .endOfInput)
    (hr : ∀ span, Refuses setting inner problem (next span))
    (h : Carried x inner (next s.cursor.current.span) s.step) :
    Fenced x inner (.advance >>= next) s := by
  refine ⟨fun hc a u hdone _ => .inl (two_le_of_kind hc hk fun he => ?_), .advance hk h⟩
  have hfailed := hr s.cursor.current.span s.step (by rw [he]; rfl)
  cases hfailed.symm.trans hdone

/-- **A fence**: a token that closes something. -/
theorem closing {next : Span → Rule α} (hk : s.cursor.kind.isFinal = true)
    (h : Carried x inner (next s.cursor.current.span) s.step) :
    Fenced x inner (.advance >>= next) s := by
  have hne : s.cursor.kind ≠ .endOfInput := by
    intro he
    rw [he] at hk
    cases hk
  refine ⟨fun hc a u hr hu => ?_, .advance hne h⟩
  -- one token at least is ahead of the closing one, and it may be the end
  have hpos := List.length_pos_of_ne_nil (hc.ahead_ne_nil hne)
  by_cases hone : s.cursor.ahead.length = 1
  · exact .inr ⟨hone, hk⟩
  · exact .inl (by omega)

/-- A token has to be there. -/
theorem expect {kind : TokenKind} {next : Span → Rule α}
    (h : s.cursor.kind = kind → Fenced x inner (.advance >>= next) s) (hk : kind ≠ .endOfInput) :
    Fenced x inner (Rule.expect kind >>= next) s := by
  by_cases he : s.cursor.kind = kind
  · obtain ⟨hamid, hcarried⟩ := h he
    refine ⟨fun hc a u hr hu => hamid hc a u ?_ hu, fun a u hr hu s' hs => ?_⟩
    · rwa [run_bind_done (run_expect_of_eq he)] at hr
    · have hne := hs.cursors.ahead_ne_nil (he ▸ hk)
      have he' : s'.cursor.kind = kind := by
        rw [← he, Cursor.kind, ← hs.cursors.current_eq hne]
        rfl
      rw [run_bind_done (run_expect_of_eq he)] at hr
      obtain ⟨u', hr', hu'⟩ := hcarried a u hr hu s' hs
      exact ⟨u', by rwa [run_bind_done (run_expect_of_eq he')], hu'⟩
  · have hfails : ∀ a u, ((Rule.expect kind >>= next).run setting inner s) ≠ .done a u := by
      intro a u hr
      rw [run_bind_failed (run_expect_of_ne he)] at hr
      cases hr
    exact ⟨fun _ a u hr => absurd hr (hfails a u), fun a u hr => absurd hr (hfails a u)⟩

theorem past {kind : TokenKind} {next : Span → Rule α} (hk : kind ≠ .endOfInput)
    (h : Fenced x inner (next s.cursor.current.span) s.step) :
    Fenced x inner (Rule.expect kind >>= next) s := expect (fun he => advance (he ▸ hk) h) hk

theorem move {next : Unit → Rule α} (h : Fenced x inner (.advance >>= fun _ => next ()) s) :
    Fenced x inner (Grammar.move >>= next) s := h

/-- An element is closed and done with its span. -/
theorem close {kind : TokenKind} {start : Nat} {f : Span → α} (hk : kind.isFinal = true) :
    Fenced x inner (Rule.expect kind >>= fun _ => .look (.spanFrom start) >>= fun span =>
      Pure.pure (f span)) s :=
  expect (fun he => closing (he ▸ hk) .close) fun he => nomatch he ▸ hk

end Fenced

/-! ### Repetitions -/

section Repetitions

variable (hi : inner.GoesOn) {step : α → Rule (Option α)}
  (hm : ∀ a t, MovesOn setting inner (fun b => b.isSome) (step a) t)
  (hamid : ∀ a t b u, t.cursor.Closed → (step a).run setting inner t = .done (some b) u →
    u.cursor.ahead = [] → t.cursor.Amid)
  (hrests : ∀ a t u, (step a).run setting inner t = .done none u → u = t)

include hi hm hamid hrests

/-- A repetition comes to the end from amid the tokens only, if its steps do. -/
theorem reaches_loop (a : α) : Reaches setting inner (loop step a) s := by
  intro hc b u hr hu
  rw [run_loop hi hc fun b t _ => hm b t] at hr
  cases hstep : (step a).run setting inner s with
  | failed d t =>
    rw [hstep] at hr
    cases hr
  | done next t =>
    rw [hstep] at hr
    cases next with
    | none =>
      cases hr
      exact .inl (hrests _ s _ hstep ▸ hu)
    | some c =>
      -- more is ahead before the step than behind it
      refine .inr ?_
      by_cases hend : t.cursor.ahead = []
      · exact hamid a s c t hc hstep hend
      · have hlt := hm a s hc _ t hstep rfl
        have hpos := List.length_pos_of_ne_nil hend
        unfold State.left at hlt
        exact .inl (by omega)

/-- **A repetition is carried over** if its steps are. -/
theorem carried_loop (hcarried : ∀ a t, Carried x inner (step a) t)
    (hA : ∀ a t t', x.parallel.Inside t t' → x.parallel.Agree inner (step a) t t') (a : α) :
    Carried x inner (loop step a) s := by
  intro b v hr hv s' hs
  -- the induction is on what is left to read, which every step makes less
  induction hn : s.left using Nat.strongRecOn generalizing a s s' with
  | ind n ih =>
    rw [run_loop hi hs.closed fun b t _ => hm b t] at hr
    cases hstep : (step a).run setting inner s with
    | failed d t =>
      rw [hstep] at hr
      cases hr
    | done next t =>
      rw [hstep] at hr
      cases next with
      | none =>
        cases hr
        obtain ⟨t', hstep', ht⟩ := hcarried _ s none _ hstep hv s' hs
        exact ⟨t', run_loop_none hstep', ht⟩
      | some c =>
        have hct := (onward_of_done hi hstep).closed hs.closed
        obtain ⟨t', hstep', ht⟩ : ∃ t', (step a).run setting inner s' = .done (some c) t' ∧
            x.Alike t t' := by
          rcases reaches_loop hi hm hamid hrests c hct b v hr hv with hend | hamid
          · exact hcarried a s _ t hstep hend s' hs
          · exact hs.exists_of_agree hi (hA a s s') hstep hamid
        obtain ⟨v', hr', hv'⟩ := ih t.left (hn ▸ hm a s hs.closed _ t hstep rfl) c hr t' ht rfl
        refine ⟨v', ?_, hv'⟩
        rw [run_loop hi hs.closed' fun b t _ => hm b t, hstep']
        exact hr'

end Repetitions

section Many

variable (hi : inner.GoesOn) {rule : Rule (Option α)}
  (hm : ∀ t, MovesOn setting inner (fun a => a.isSome) rule t)
  (hamid : ∀ t a u, t.cursor.Closed → rule.run setting inner t = .done (some a) u →
    u.cursor.ahead = [] → t.cursor.Amid)
  (hrests : ∀ t u, rule.run setting inner t = .done none u → u = t)

include hi hm hamid hrests

theorem reaches_many (items : List α) : Reaches setting inner (many rule items) s := by
  refine reaches_loop hi (fun items t => movesOn_manyStep hi (hm t))
    (fun items t b u hc hr hu => ?_)
    (fun items t u hr => ?_) items
  · obtain ⟨next, v, hv, hr⟩ := done_of_bind hr
    cases next with
    | none => cases hr
    | some a =>
      cases hr
      exact hamid t a _ hc hv hu
  · obtain ⟨next, v, hv, hr⟩ := done_of_bind hr
    cases next with
    | none =>
      cases hr
      exact hrests t _ hv
    | some a => cases hr

/-- Reading many is carried over if reading one is. -/
theorem carried_many (hcarried : ∀ t, Carried x inner rule t)
    (hA : ∀ t t', x.parallel.Inside t t' → x.parallel.Agree inner rule t t') (items : List α) :
    Carried x inner (many rule items) s := by
  refine carried_loop hi (fun items t => movesOn_manyStep hi (hm t))
    (fun items t b u hc hr hu => ?_)
    (fun items t u hr => ?_) (fun items t => (hcarried t).map)
    (fun items t t' ht => .andThen hi (hA t t' ht) fun _ _ _ _ hu => .pure hu _) items
  · obtain ⟨next, v, hv, hr⟩ := done_of_bind hr
    cases next with
    | none => cases hr
    | some a =>
      cases hr
      exact hamid t a _ hc hv hu
  · obtain ⟨next, v, hv, hr⟩ := done_of_bind hr
    cases next with
    | none =>
      cases hr
      exact hrests t _ hv
    | some a => cases hr

end Many

end Rule

end Cypher
