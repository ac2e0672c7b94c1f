import Cypher.Proofs.Recovery

/-!
# Two runs side by side

The same rules may be run over two lists of tokens that look alike from where the cursors are: the
tokens agree as far as they matter, up to a token that ends a statement, be it a semicolon in the
one list and the end of the other. `Cypher.Parallel` says what it takes for two cursors to see the
same things. Then two runs go the same way: they read the same values and fail in the same places
(`Cypher.Parallel.Agree`).

The lists may also be alike for a while only. A correspondence can give up the places behind a
certain one, and nothing is said of two runs once the first of them has got there.

Where both cursors are at the end of a statement, the tokens there may differ, and so may the
offsets at which they start. Rules that note such an offset fail there before they make use of it
(`Cypher.Rule.Refuses`). The span of the token behind is the same once a token has been passed
(`Cypher.Parallel.Inside`).
-/

namespace Cypher

/-! ### Ends of statements -/

/-- Whether a token ends a statement. -/
def TokenKind.isStop : TokenKind → Bool
  | endOfInput | sign .semicolon => true
  | _ => false

theorem TokenKind.eq_of_isStop {kind : TokenKind} (h : kind.isStop = true) :
    kind = .endOfInput ∨ kind = .sign .semicolon := by
  unfold isStop at h
  split at h
  · exact Or.inl rfl
  · exact Or.inr rfl
  · cases h

theorem TokenKind.ne_of_isStop {kind kind' : TokenKind} (h : kind.isStop = true)
    (h' : kind'.isStop = false) : kind ≠ kind' := by
  rintro rfl
  rw [h] at h'
  cases h'

theorem TokenKind.ne_endOfInput {kind : TokenKind} (h : kind.isStop = false) :
    kind ≠ .endOfInput := (ne_of_isStop rfl h).symm

/-- What holds for both ends of statements. -/
theorem TokenKind.apply_of_isStop {β : Type*} {f : TokenKind → β} {b : β} {kind : TokenKind}
    (hend : f .endOfInput = b) (hsemi : f (.sign .semicolon) = b) (h : kind.isStop = true) :
    f kind = b := by
  rcases eq_of_isStop h with rfl | rfl
  · exact hend
  · exact hsemi

/-- What is the same for both ends of statements. -/
theorem TokenKind.congr_of_isStop {β : Type*} {f : TokenKind → β} {kind kind' : TokenKind}
    (hf : f .endOfInput = f (.sign .semicolon)) (h : kind.isStop = true)
    (h' : kind'.isStop = true) : f kind = f kind' :=
  (apply_of_isStop rfl hf.symm h).trans (apply_of_isStop rfl hf.symm h').symm

/-! ### Corresponding places -/

variable {setting : Setting} {inner : Inner} {α β : Type}

/-- Whether a token may come last in something that is enclosed. -/
def TokenKind.isFinal : TokenKind → Bool
  | keyword .END => true
  | kind => kind.isClosing

/-- **A correspondence of places** in two lists of tokens, of the diagnostics that arise there, and
of the lists of problems noted so far. -/
structure Parallel (setting : Setting) where
  /-- Which places correspond. -/
  cursors : Cursor → Cursor → Prop
  /-- Which places in the first list are given up. -/
  lost : Cursor → Prop
  /-- Which diagnostics correspond. -/
  diagnostics : Diagnostic → Diagnostic → Prop
  /-- Which problems noted so far correspond. -/
  problems : List Diagnostic → List Diagnostic → Prop
  /-- The number of tokens that are behind in the second list only. -/
  shift : Nat
  /-- The tokens there are the same, unless both end a statement. -/
  current {c c' : Cursor} : cursors c c' →
    c.current = c'.current ∨ c.kind.isStop = true ∧ c'.kind.isStop = true
  /-- What is behind a place that is given up is given up too. -/
  lost_onward {c c' : Cursor} : lost c → c.Onward c' → lost c'
  /-- Past the same token, places still correspond, unless they are given up. -/
  advance {c c' : Cursor} : cursors c c' → c.current = c'.current →
    lost c.advance ∨ cursors c.advance c'.advance
  /-- The tokens behind the same token are of the same kind, unless both end a statement. Nobody
  looks behind a token that comes last in something. -/
  next {c c' : Cursor} : cursors c c' → c.current = c'.current → c.kind.isFinal = false →
    c.peek 1 = c'.peek 1 ∨ (c.peek 1).isStop = true ∧ (c'.peek 1).isStop = true
  /-- The same name is called or not. -/
  opensCall {c c' : Cursor} : cursors c c' → c.current = c'.current → c.opensCall = c'.opensCall
  /-- The same parenthesis opens a path or not. -/
  opensPattern {c c' : Cursor} : cursors c c' → c.current = c'.current →
    setting.opensPattern c = setting.opensPattern c'
  /-- Where mistakes are forgiven, reading is taken up again in corresponding places. -/
  resume {c c' : Cursor} (nested : Bool) : setting.forgiving = true → cursors c c' →
    cursors (c.resume nested) (c'.resume nested)
  /-- There are always as many more tokens behind. -/
  position {c c' : Cursor} : cursors c c' → c'.position = c.position + shift
  /-- The tokens behind have the same span. -/
  previousSpan {c c' : Cursor} : cursors c c' → c.behind ≠ [] → c.previousSpan = c'.previousSpan
  /-- No statement ends behind an opening brace. -/
  brace {c c' : Cursor} : cursors c c' → c.current = c'.current → c.kind = .sign .leftBrace →
    c.advance.current = c'.advance.current
  /-- The same problem leads to corresponding diagnostics. -/
  diagnostic {s s' : State} (problem : Problem) : cursors s.cursor s'.cursor →
    diagnostics (s.diagnostic setting problem) (s'.diagnostic setting problem)
  /-- Corresponding diagnostics may be noted. -/
  note {ps ps' : List Diagnostic} {d d' : Diagnostic} : problems ps ps' → diagnostics d d' →
    problems (ps ++ [d]) (ps' ++ [d'])

namespace Parallel

/-- **States in corresponding places.** -/
structure States (p : Parallel setting) (s s' : State) : Prop where
  /-- The places correspond. -/
  cursors : p.cursors s.cursor s'.cursor
  /-- Both are in a scope, or neither is. -/
  scopes : 0 < s.scopes.depth ↔ 0 < s'.scopes.depth
  /-- The problems correspond. -/
  problems : p.problems s.problems s'.problems
  /-- The first list is closed by an end token. -/
  closed : s.cursor.Closed
  /-- So is the second. -/
  closed' : s'.cursor.Closed

/-- States in corresponding places with a token behind. -/
structure Inside (p : Parallel setting) (s s' : State) : Prop extends p.States s s' where
  /-- There is a token behind. -/
  behind : s.cursor.behind ≠ []

/-- **Outcomes that correspond**: the same value has been read, or both runs have failed, unless the
first run has got to a place that is given up. -/
inductive Corresponds (p : Parallel setting) : Outcome α → Outcome α → Prop
  /-- The first run has got too far. -/
  | lost {o o' : Outcome α} (gone : p.lost o.state.cursor) : Corresponds p o o'
  /-- The same value has been read. -/
  | done {t t' : State} (a : α) (states : p.States t t') : Corresponds p (.done a t) (.done a t')
  /-- Both runs have failed. -/
  | failed {t t' : State} {d d' : Diagnostic} (diagnostics : p.diagnostics d d')
    (states : p.States t t') : Corresponds p (.failed d t) (.failed d' t')

/-- **What the first run has read in a place that is not given up**, the second has read too. -/
theorem Corresponds.exists_of_done {p : Parallel setting} {a : α} {t : State} {o : Outcome α}
    (h : p.Corresponds (.done a t) o) (ht : ¬p.lost t.cursor) :
    ∃ t', o = .done a t' ∧ p.States t t' := by
  cases h with
  | lost gone => exact absurd gone ht
  | done a states => exact ⟨_, rfl, states⟩

/-- Outcomes that correspond may be gone on from in corresponding ways. -/
theorem Corresponds.andThen {p : Parallel setting} {o o' : Outcome β} {next next' : β → Action α}
    (h : p.Corresponds o o') (ho : ∀ b (t : State), t.Onward (next b t).state)
    (hn : ∀ b t t', o = .done b t → o' = .done b t' → p.States t t' →
      p.Corresponds (next b t) (next' b t')) :
    p.Corresponds (o.andThen next) (o'.andThen next') := by
  cases h with
  | lost gone =>
    cases o with
    | done b t => exact .lost (p.lost_onward gone (ho b t).cursor)
    | failed d t => exact .lost gone
  | done b ht => exact hn b _ _ rfl rfl ht
  | failed hd ht => exact .failed hd ht

/-- **A rule on which two runs agree.** -/
def Agree (p : Parallel setting) (inner : Inner) (rule : Rule α) (s s' : State) : Prop :=
  p.Corresponds (rule.run setting inner s) (rule.run setting inner s')

variable {p : Parallel setting} {s s' : State}

/-! ### States -/

namespace States

theorem current_eq (h : p.States s s') (hk : s.cursor.kind.isStop = false) :
    s.cursor.current = s'.cursor.current := by
  rcases p.current h.cursors with he | ⟨hs, -⟩
  · exact he
  · rw [hk] at hs
    cases hs

/-- Kinds that end no statement are the same in both places. -/
theorem kind_eq_iff (h : p.States s s') {kind : TokenKind} (hk : kind.isStop = false) :
    s.cursor.kind = kind ↔ s'.cursor.kind = kind := by
  rcases p.current h.cursors with he | ⟨hs, hs'⟩
  · rw [Cursor.kind, Cursor.kind, he]
  · exact ⟨fun h => absurd h (TokenKind.ne_of_isStop hs hk),
      fun h => absurd h (TokenKind.ne_of_isStop hs' hk)⟩

theorem endsClauses_eq (h : p.States s s') (nested : Bool) :
    s.cursor.kind.endsClauses nested = s'.cursor.kind.endsClauses nested := by
  rcases p.current h.cursors with he | ⟨hs, hs'⟩
  · rw [Cursor.kind, Cursor.kind, he]
  · exact TokenKind.congr_of_isStop (f := TokenKind.endsClauses nested) rfl hs hs'

/-- Where one is outside of all scopes, so is the other. -/
theorem outside (h : p.States s s') (hout : s.scopes = .outside) : s'.scopes = .outside := by
  have hdepth : s'.scopes.frames.length = 0 := Nat.eq_zero_of_not_pos fun hpos => by
    have hlt := h.scopes.2 hpos
    rw [hout] at hlt
    exact Nat.lt_irrefl 0 hlt
  exact congrArg Scopes.mk (List.eq_nil_of_length_eq_zero hdepth)

/-- In scopes of their own, both are nested in others, or neither is. -/
theorem isNested_push (h : p.States s s') (kind : ScopeKind) :
    (s.scopes.push kind).isNested = (s'.scopes.push kind).isNested :=
  decide_eq_decide.2 (Nat.succ_lt_succ_iff.trans (h.scopes.trans Nat.succ_lt_succ_iff.symm))

/-- Past the same token. -/
theorem step (h : p.States s s') (he : s.cursor.current = s'.cursor.current)
    (hk : s.cursor.kind ≠ .endOfInput) : p.lost s.step.cursor ∨ p.Inside s.step s'.step := by
  refine (p.advance h.cursors he).imp_right fun hc => ?_
  refine ⟨⟨hc, h.scopes, h.problems, h.closed.advance, h.closed'.advance⟩, ?_⟩
  obtain ⟨t, ts, ha⟩ := List.exists_cons_of_ne_nil (h.closed.ahead_ne_nil hk)
  rw [State.step, Cursor.advance_of_ahead_eq_cons ha]
  exact List.cons_ne_nil _ _

theorem inside (h : p.States s s') {s₀ : State} (ho : s₀.Onward s)
    (hb : s₀.cursor.behind ≠ []) : p.Inside s s' := ⟨h, ho.behind_ne_nil hb⟩

end States

/-! ### Rules -/

namespace Agree

theorem pure (hs : p.States s s') (a : α) : p.Agree inner (Pure.pure a) s s' := .done a hs

theorem fail (hs : p.States s s') (problem : Problem) :
    p.Agree inner (.fail problem : Rule α) s s' := .failed (p.diagnostic problem hs.cursors) hs

/-- From a place that is given up, runs need not agree. -/
theorem of_lost (hi : inner.GoesOn) (rule : Rule α) (h : p.lost s.cursor) :
    p.Agree inner rule s s' := .lost (p.lost_onward h (Rule.onward_run setting hi rule s).cursor)

/-- One rule after another. -/
theorem andThen (hi : inner.GoesOn) {rule : Rule β} {next : β → Rule α}
    (h : p.Agree inner rule s s')
    (hn : ∀ b t t', rule.run setting inner s = .done b t → p.States t t' →
      p.Agree inner (next b) t t') : p.Agree inner (rule >>= next) s s' := by
  unfold Agree
  rw [Rule.run_bind, Rule.run_bind]
  exact Corresponds.andThen h (fun b t => Rule.onward_run setting hi (next b) t)
    fun b t t' hr _ ht => hn b t t' hr ht

/-- One rule after another, behind some token. -/
theorem bind (hi : inner.GoesOn) (hs : p.Inside s s') {rule : Rule β} {next : β → Rule α}
    (h : p.Agree inner rule s s')
    (hn : ∀ b t t', rule.run setting inner s = .done b t → p.Inside t t' →
      p.Agree inner (next b) t t') : p.Agree inner (rule >>= next) s s' :=
  h.andThen hi fun b t t' hr ht => hn b t t' hr (ht.inside (Rule.onward_of_done hi hr) hs.behind)

/-- One rule after another, where the first passes a token. -/
theorem bind_moving (hi : inner.GoesOn) (hs : p.States s s') {rule : Rule β} {next : β → Rule α}
    (hm : Rule.MovesOn setting inner (fun _ => True) rule s) (h : p.Agree inner rule s s')
    (hn : ∀ b t t', rule.run setting inner s = .done b t → p.Inside t t' →
      p.Agree inner (next b) t t') : p.Agree inner (rule >>= next) s s' :=
  h.andThen hi fun b t t' hr ht => hn b t t' hr
    ⟨ht, (Rule.onward_of_done hi hr).behind_ne_nil_of_left_lt (hm hs.closed b t hr trivial)⟩

/-- What both runs see is the same. -/
theorem look {view : View β} {next : β → Rule α}
    (hv : view.read setting s = view.read setting s')
    (h : p.Agree inner (next (view.read setting s)) s s') :
    p.Agree inner (.look view >>= next) s s' := by
  unfold Agree at h ⊢
  rw [Rule.run_bind, Rule.run_bind, Rule.run_look, Rule.run_look, ← hv]
  exact h

/-- The token at the cursor is the same, or the rule goes on alike for both ends of statements. -/
theorem here {next : Token → Rule α} (rule : Rule α)
    (hend : ∀ t : Token, t.kind = .endOfInput → next t = rule)
    (hsemi : ∀ t : Token, t.kind = .sign .semicolon → next t = rule) (hs : p.States s s')
    (h : s.cursor.current = s'.cursor.current → p.Agree inner (next s.cursor.current) s s')
    (hstop : p.Agree inner rule s s') : p.Agree inner (Rule.here >>= next) s s' := by
  rcases p.current hs.cursors with he | ⟨hk, hk'⟩
  · exact look he (h he)
  · have hall : ∀ t : Token, t.kind.isStop = true → next t = rule := fun t ht =>
      (TokenKind.eq_of_isStop ht).elim (hend t) (hsemi t)
    unfold Agree at hstop ⊢
    rw [Rule.run_bind, Rule.run_bind, Rule.here, Rule.run_look, Rule.run_look,
      Outcome.andThen_done, Outcome.andThen_done, View.read, View.read, hall _ hk, hall _ hk']
    exact hstop

/-- The token after that is of the same kind, or the rule goes on alike for both ends of
statements. -/
theorem next {next : TokenKind → Rule α} (hf : next .endOfInput = next (.sign .semicolon))
    (hs : p.States s s') (he : s.cursor.current = s'.cursor.current)
    (hfinal : s.cursor.kind.isFinal = false) (h : p.Agree inner (next (s.cursor.peek 1)) s s') :
    p.Agree inner (.look .next >>= next) s s' := by
  have hn : next (s.cursor.peek 1) = next (s'.cursor.peek 1) := by
    rcases p.next hs.cursors he hfinal with hk | ⟨hk, hk'⟩
    · rw [hk]
    · exact TokenKind.congr_of_isStop hf hk hk'
  unfold Agree at h ⊢
  rw [Rule.run_bind, Rule.run_bind, Rule.run_look, Rule.run_look, Outcome.andThen_done,
    Outcome.andThen_done, View.read, View.read, ← hn]
  exact h

theorem ite {condition : Prop} [Decidable condition] {rule other : Rule α}
    (h : condition → p.Agree inner rule s s') (ho : ¬condition → p.Agree inner other s s') :
    p.Agree inner (if condition then rule else other) s s' := by
  split
  · exact h ‹_›
  · exact ho ‹_›

/-- Both runs pass the same token. -/
theorem advance (hi : inner.GoesOn) {next : Span → Rule α} (hs : p.States s s')
    (he : s.cursor.current = s'.cursor.current) (hk : s.cursor.kind ≠ .endOfInput)
    (h : p.Inside s.step s'.step → p.Agree inner (next s.cursor.current.span) s.step s'.step) :
    p.Agree inner (.advance >>= next) s s' := by
  have hstep := (hs.step he hk).elim (of_lost hi (next s.cursor.current.span)) h
  unfold Agree at hstep ⊢
  rw [Rule.run_bind, Rule.run_bind, Rule.run_advance, Rule.run_advance, Outcome.andThen_done,
    Outcome.andThen_done, ← he]
  exact hstep

end Agree

/-! ### Rules that fail where a statement ends -/

end Parallel

/-- **A rule that fails at the end of a statement** with a given problem, and before it has done
anything. -/
def Rule.Refuses (setting : Setting) (inner : Inner) (problem : Problem) (rule : Rule α) : Prop :=
  ∀ s, s.cursor.kind.isStop = true →
    rule.run setting inner s = .failed (s.diagnostic setting problem) s

namespace Rule.Refuses

variable {problem : Problem}

theorem fail (problem : Problem) : Refuses setting inner problem (.fail problem : Rule α) :=
  fun _ _ => rfl

theorem bind {rule : Rule β} {next : β → Rule α} (h : Refuses setting inner problem rule) :
    Refuses setting inner problem (rule >>= next) := fun s hs => run_bind_failed (h s hs)

/-- What stays in place comes before the failure. -/
theorem after {rule : Rule β} {next : β → Rule α}
    (h : ∀ s, s.cursor.kind.isStop = true → ∃ b, rule.run setting inner s = .done b s ∧
      Refuses setting inner problem (next b)) : Refuses setting inner problem (rule >>= next) := by
  intro s hs
  obtain ⟨b, hb, hn⟩ := h s hs
  rw [run_bind_done hb]
  exact hn s hs

theorem startHere {next : Nat → Rule α} (h : ∀ start, Refuses setting inner problem (next start)) :
    Refuses setting inner problem (startHere >>= next) := after fun _ _ => ⟨_, rfl, h _⟩

theorem here {next : Token → Rule α}
    (h : ∀ t : Token, t.kind.isStop = true → Refuses setting inner problem (next t)) :
    Refuses setting inner problem (here >>= next) :=
  after fun s hs => ⟨s.cursor.current, rfl, h _ hs⟩

theorem expect {kind : TokenKind} (hk : kind.isStop = false) :
    Refuses setting inner (.expected ("`" ++ kind.describe ++ "`")) (expect kind) :=
  fun _ hs => run_expect_of_ne (TokenKind.ne_of_isStop hs hk)

/-- Something optional that is not there comes before the failure. -/
theorem optionally {condition : Rule Bool} {rule : Rule β} {next : Option β → Rule α}
    (hc : ∀ s, s.cursor.kind.isStop = true → condition.run setting inner s = .done false s)
    (h : Refuses setting inner problem (next none)) :
    Refuses setting inner problem (Rule.optionally condition rule >>= next) :=
  after fun s hs => ⟨none, run_optionally_false (hc s hs), h⟩

theorem consume {kind : TokenKind} {next : Bool → Rule α} (hk : kind.isStop = false)
    (h : Refuses setting inner problem (next false)) :
    Refuses setting inner problem (Rule.consume kind >>= next) :=
  after fun _ hs => ⟨false, run_consume_of_ne (TokenKind.ne_of_isStop hs hk), h⟩

end Rule.Refuses

namespace Parallel

variable {p : Parallel setting} {s s' : State}

namespace Agree

/-- Where a rule fails at the ends of statements, the token may be taken to be the same. -/
theorem of_refuses {problem : Problem} {rule : Rule α}
    (hr : rule.Refuses setting inner problem) (hs : p.States s s')
    (h : s.cursor.current = s'.cursor.current → p.Agree inner rule s s') :
    p.Agree inner rule s s' := by
  rcases p.current hs.cursors with he | ⟨hk, hk'⟩
  · exact h he
  · unfold Agree
    rw [hr s hk, hr s' hk']
    exact .failed (p.diagnostic problem hs.cursors) hs

/-- The same where a rule reads nothing at the ends of statements. -/
theorem of_rests {rule : Rule α} {a : α}
    (hr : ∀ s : State, s.cursor.kind.isStop = true → rule.run setting inner s = .done a s)
    (hs : p.States s s')
    (h : s.cursor.current = s'.cursor.current → p.Agree inner rule s s') :
    p.Agree inner rule s s' := by
  rcases p.current hs.cursors with he | ⟨hk, hk'⟩
  · exact h he
  · unfold Agree
    rw [hr s hk, hr s' hk']
    exact .done a hs

theorem requireSubqueries (hs : p.States s s') (feature : String) :
    p.Agree inner (.requireSubqueries feature) s s' := by
  unfold Agree
  by_cases h : setting.rules.subqueries = true
  · rw [Rule.run_requireSubqueries_done h, Rule.run_requireSubqueries_done h]
    exact .done () hs
  · rw [Rule.run_requireSubqueries_failed h, Rule.run_requireSubqueries_failed h]
    exact .failed (p.diagnostic _ hs.cursors) hs

theorem startHere {next : Nat → Rule α} (he : s.cursor.current = s'.cursor.current)
    (h : p.Agree inner (next s.cursor.current.span.start) s s') :
    p.Agree inner (Rule.startHere >>= next) s s' := by
  unfold Agree at h ⊢
  rw [Rule.run_bind, Rule.run_bind]
  change p.Corresponds ((next s.cursor.current.span.start).run setting inner s)
    ((next s'.cursor.current.span.start).run setting inner s')
  rw [← he]
  exact h

/-- The span up to the token behind. -/
theorem spanFrom (hs : p.Inside s s') {start : Nat} {next : Span → Rule α}
    (h : p.Agree inner (next (s.cursor.spanFrom start)) s s') :
    p.Agree inner (.look (.spanFrom start) >>= next) s s' := by
  refine look ?_ h
  change Span.mk start (max s.cursor.previousSpan.stop start) = Span.mk start _
  rw [p.previousSpan hs.cursors hs.behind]

/-- An element is done with its span. -/
theorem close (hs : p.Inside s s') {start : Nat} {f : Span → α} :
    p.Agree inner (.look (.spanFrom start) >>= fun span => Pure.pure (f span)) s s' :=
  spanFrom hs (pure hs.toStates _)

/-! ### Steps -/

theorem isAt (hs : p.States s s') {kind : TokenKind} (hk : kind.isStop = false) :
    p.Agree inner (Rule.isAt kind) s s' := by
  unfold Agree
  rw [Rule.run_isAt, Rule.run_isAt, decide_eq_decide.2 (hs.kind_eq_iff hk)]
  exact .done _ hs

/-- Both runs pass the same token, or neither does. -/
theorem consume_of_current_eq (hs : p.States s s') (he : s.cursor.current = s'.cursor.current)
    {kind : TokenKind} (hk : kind ≠ .endOfInput) : p.Agree inner (Rule.consume kind) s s' := by
  have hkind : s.cursor.kind = s'.cursor.kind := congrArg Token.kind he
  unfold Agree
  by_cases h : s.cursor.kind = kind
  · rw [Rule.run_consume_of_eq h, Rule.run_consume_of_eq (hkind ▸ h)]
    exact (hs.step he (h ▸ hk)).elim (fun hl => .lost hl) fun ht => .done true ht.toStates
  · rw [Rule.run_consume_of_ne h, Rule.run_consume_of_ne (hkind ▸ h)]
    exact .done false hs

theorem consume (hs : p.States s s') {kind : TokenKind} (hk : kind.isStop = false) :
    p.Agree inner (Rule.consume kind) s s' :=
  of_rests (fun _ ht => Rule.run_consume_of_ne (TokenKind.ne_of_isStop ht hk)) hs fun he =>
    consume_of_current_eq hs he (TokenKind.ne_endOfInput hk)

/-- Both runs pass a token that has to be there, or both fail. -/
theorem expect (hi : inner.GoesOn) (hs : p.States s s') {kind : TokenKind}
    {next : Span → Rule α} (hk : kind.isStop = false)
    (h : s.cursor.kind = kind → p.Inside s.step s'.step →
      p.Agree inner (next s.cursor.current.span) s.step s'.step) :
    p.Agree inner (Rule.expect kind >>= next) s s' := by
  by_cases he : s.cursor.kind = kind
  · have hcur := hs.current_eq (he ▸ hk)
    have hstep := (hs.step hcur (he ▸ TokenKind.ne_endOfInput hk)).elim
      (of_lost hi (next s.cursor.current.span)) (h he)
    unfold Agree at hstep ⊢
    rw [Rule.run_bind_done (Rule.run_expect_of_eq he),
      Rule.run_bind_done (Rule.run_expect_of_eq ((hs.kind_eq_iff hk).1 he)), ← hcur]
    exact hstep
  · unfold Agree
    rw [Rule.run_bind_failed (Rule.run_expect_of_ne he),
      Rule.run_bind_failed (Rule.run_expect_of_ne (mt (hs.kind_eq_iff hk).2 he))]
    exact .failed (p.diagnostic _ hs.cursors) hs

theorem expectSign (hi : inner.GoesOn) (hs : p.States s s') {sign : Sign} {next : Span → Rule α}
    (hk : (TokenKind.sign sign).isStop = false)
    (h : p.Inside s.step s'.step → p.Agree inner (next s.cursor.current.span) s.step s'.step) :
    p.Agree inner (Rule.expectSign sign >>= next) s s' := expect hi hs hk fun _ => h

theorem expectWord (hi : inner.GoesOn) (hs : p.States s s') {word : Keyword}
    {next : Span → Rule α}
    (h : p.Inside s.step s'.step → p.Agree inner (next s.cursor.current.span) s.step s'.step) :
    p.Agree inner (Rule.expectWord word >>= next) s s' := expect hi hs rfl fun _ => h

/-! ### Repetitions -/

section Repetitions

variable (hi : inner.GoesOn)

include hi

theorem optionally (hs : p.Inside s s') {condition : Rule Bool} {rule : Rule α}
    (hc : p.Agree inner condition s s')
    (h : ∀ t t', condition.run setting inner s = .done true t → p.Inside t t' →
      p.Agree inner rule t t') : p.Agree inner (Rule.optionally condition rule) s s' := by
  refine bind hi hs hc fun b t t' hb ht => ?_
  cases b with
  | false => exact pure ht.toStates none
  | true => exact (h t t' hb ht).andThen hi fun a u u' _ hu => pure hu _

theorem skipIf (hs : p.Inside s s') {condition : Rule Bool} {rule : Rule α}
    (hc : p.Agree inner condition s s')
    (h : ∀ t t', p.Inside t t' → p.Agree inner rule t t') :
    p.Agree inner (Rule.skipIf condition rule) s s' := by
  refine bind hi hs hc fun b t t' hb ht => ?_
  cases b with
  | true => exact pure ht.toStates none
  | false => exact (h t t' ht).andThen hi fun a u u' _ hu => pure hu _

/-- **A repetition**, whose steps move on from wherever it gets. -/
theorem loop (hs : p.States s s') {step : α → Rule (Option α)}
    (hm : ∀ a t, s.Onward t ∨ s'.Onward t →
      Rule.MovesOn setting inner (fun b => b.isSome) (step a) t)
    (h : ∀ a t t', s.Onward t → s'.Onward t' → p.States t t' → p.Agree inner (step a) t t')
    (a : α) : p.Agree inner (.loop step a) s s' := by
  suffices hall : ∀ n a t t', t.left < n → s.Onward t → s'.Onward t' → p.States t t' →
      p.Agree inner (.loop step a) t t' from
    hall _ a s s' (Nat.lt_succ_self _) (.refl s) (.refl s') hs
  intro n
  induction n with
  | zero => exact fun _ _ _ hlt => absurd hlt (Nat.not_lt_zero _)
  | succ n ih =>
    intro a t t' hlt ho ho' ht
    have hstep := h a t t' ho ho' ht
    unfold Agree at hstep ⊢
    rw [Rule.run_loop hi ht.closed fun b u hu => hm b u (Or.inl (ho.trans hu)),
      Rule.run_loop hi ht.closed' fun b u hu => hm b u (Or.inr (ho'.trans hu))]
    refine Corresponds.andThen hstep (fun next u => ?_) fun next u u' hr hr' hu => ?_
    · cases next with
      | none => exact .refl u
      | some b => exact Rule.onward_run setting hi (Rule.loop step b) u
    cases next with
    | none => exact .done _ hu
    | some b =>
      have hlt' : u.left < t.left := hm a t (Or.inl ho) ht.closed _ u hr rfl
      exact ih b u u' (by omega) (ho.trans (Rule.onward_of_done hi hr))
        (ho'.trans (Rule.onward_of_done hi hr')) hu

/-- Reading many. -/
theorem many (hs : p.States s s') {rule : Rule (Option α)}
    (hm : ∀ t, s.Onward t ∨ s'.Onward t → Rule.MovesOn setting inner (fun a => a.isSome) rule t)
    (h : ∀ t t', s.Onward t → s'.Onward t' → p.States t t' → p.Agree inner rule t t')
    (items : List α) : p.Agree inner (Rule.many rule items) s s' :=
  loop hi hs (fun _ t ht => Rule.movesOn_manyStep hi (hm t ht))
    (fun _ t t' ho ho' ht => (h t t' ho ho' ht).andThen hi fun _ _ _ _ hu => pure hu _) items

/-- Reading many behind some token. -/
theorem many_inside (hs : p.Inside s s') {rule : Rule (Option α)}
    (hm : ∀ t, Rule.MovesOn setting inner (fun a => a.isSome) rule t)
    (h : ∀ t t', p.Inside t t' → p.Agree inner rule t t') (items : List α) :
    p.Agree inner (Rule.many rule items) s s' :=
  many hi hs.toStates (fun t _ => hm t) (fun t t' ho _ ht => h t t' (ht.inside ho hs.behind)) items

theorem separated (hs : p.Inside s s') {rule : Rule α}
    (h : ∀ t t', p.Inside t t' → p.Agree inner rule t t') :
    p.Agree inner (Rule.separated rule) s s' := by
  refine bind hi hs (h s s' hs) fun first t t' _ ht => ?_
  refine many_inside hi ht (fun u => Rule.movesOn_optionally hi (Rule.movesOn_takeSign hi _ u))
    (fun u u' hu => ?_) [first]
  exact optionally hi hu (consume hu.toStates rfl) fun v v' _ hv => h v v' hv

theorem listUntil (hs : p.Inside s s') {close : Sign} {rule : Rule α}
    (hk : (TokenKind.sign close).isStop = false)
    (h : ∀ t t', p.Inside t t' → p.Agree inner rule t t') :
    p.Agree inner (Rule.listUntil close rule) s s' := by
  refine bind hi hs (isAt hs.toStates hk) fun b t t' _ ht => ?_
  exact .ite (fun _ => pure ht.toStates []) fun _ => separated hi ht h

end Repetitions

end Agree

end Parallel

/-- **Nested rules on which two runs agree.** -/
structure Inner.Parallel (p : Parallel setting) (inner : Inner) : Prop where
  /-- The cursor moves on. -/
  goesOn : inner.GoesOn
  /-- Expressions are read alike. -/
  expression (strength : Nat) {s s' : State} : p.States s s' →
    p.Agree inner (.nested (.expression strength)) s s'
  /-- No expression begins where a statement ends. -/
  refuses (strength : Nat) : ∃ problem,
    Rule.Refuses setting inner problem (.nested (.expression strength))
  /-- So are the bodies of subqueries, which begin with the same token. -/
  subquery {s s' : State} : p.Inside s s' → s.cursor.current = s'.cursor.current →
    p.Agree inner (.nested .subquery) s s'
  /-- So are the bodies of existence tests. -/
  existsBody {s s' : State} : p.Inside s s' → s.cursor.current = s'.cursor.current →
    p.Agree inner (.nested .existsBody) s s'

end Cypher
