import Mathlib.Data.List.Chain
import Cypher.Proofs.Blocks
import Cypher.Proofs.Lively
import Cypher.Proofs.Parallel.Boundary

/-!
# What is read does not hang on what is behind the next token

Rules look at the token at the cursor, at the one behind it, and further ahead in two cases only: to
see whether a name is called, and whether a parenthesis opens a path. The first stops at any token
that is not part of a name. The second may go far, but it only ever says yes where a dash stands
before another dash or before a bracket, so it says no throughout tokens among which there is no
such pair (`Cypher.NoPath`).

So let two lists of tokens agree up to a border token and the token behind that, and go on as they
like from there. A run over the one that comes to its end without passing the border is matched by
the same run over the other (`Cypher.Rule.run_abreast`, `Cypher.Rule.runNested_abreast`). Runs that
pass the border are beyond the reach of this: nothing is said of them.
-/

namespace Cypher

/-! ### Tokens without paths -/

/-- **Tokens among which no path goes on**: no dash has another dash or a bracket behind it. -/
def NoPath (tokens : List Token) : Prop :=
  tokens.IsChain fun t u => t.kind = .sign .minus →
    u.kind ≠ .sign .minus ∧ u.kind ≠ .sign .leftBracket

instance (tokens : List Token) : Decidable (NoPath tokens) :=
  inferInstanceAs (Decidable (List.IsChain _ tokens))

theorem NoPath.of_infix {a b : List Token} (h : NoPath b) (hab : a <:+: b) : NoPath a :=
  List.IsChain.infix h hab

namespace NoPath

variable {a b : List Token} {t : Token}

theorem cons (ht : t.kind ≠ .sign .minus) (h : NoPath b) : NoPath (t :: b) :=
  List.isChain_cons.2 ⟨fun _ _ hk => absurd hk ht, h⟩

/-- Two rows may be joined at a token that no dash goes on with. -/
theorem append_cons (ha : NoPath a) (hb : NoPath (t :: b)) (ht : t.kind ≠ .sign .minus)
    (hbracket : t.kind ≠ .sign .leftBracket) : NoPath (a ++ t :: b) := by
  refine List.isChain_append.2 ⟨ha, hb, fun x _ y hy _ => ?_⟩
  obtain rfl := Option.some.inj hy
  exact ⟨ht, hbracket⟩

theorem append_end {stop : Token} (ha : NoPath a) (hs : stop.kind = .endOfInput) :
    NoPath (a ++ [stop]) :=
  ha.append_cons (List.isChain_singleton stop) (by rw [hs]; decide) (by rw [hs]; decide)

theorem left (h : NoPath (a ++ b)) : NoPath a := h.of_infix (List.prefix_append a b).isInfix

end NoPath

namespace Cursor

variable {ts rest : List Token}

theorem suffix_of_afterClose {depth : Nat} (h : afterClose depth ts = some rest) :
    rest <:+ ts := by
  induction ts generalizing depth with
  | nil => cases h
  | cons t ts ih =>
    rw [afterClose.eq_def] at h
    dsimp only at h
    split at h
    · exact (ih h).trans (List.suffix_cons t ts)
    · split at h
      · split at h
        · cases h
        · cases h
          exact List.suffix_cons t rest
        · exact (ih h).trans (List.suffix_cons t ts)
      · split at h
        · cases h
        · exact (ih h).trans (List.suffix_cons t ts)

theorem eq_cons_of_skip? {kind : TokenKind} (h : skip? kind ts = some rest) :
    ∃ t : Token, ts = t :: rest ∧ t.kind = kind := by
  cases ts with
  | nil => cases h
  | cons t ts =>
    rw [skip?] at h
    split at h
    · next hk =>
      cases h
      exact ⟨t, rfl, hk⟩
    · cases h

theorem skipMaybe_suffix (kind : TokenKind) (ts : List Token) : skipMaybe kind ts <:+ ts := by
  rw [skipMaybe]
  cases h : skip? kind ts with
  | none => exact List.suffix_rfl
  | some rest =>
    obtain ⟨t, rfl, -⟩ := eq_cons_of_skip? h
    exact List.suffix_cons t rest

/-- **A relationship has a pair of tokens** that is not there. -/
theorem startsWithRelationship_eq_false (h : NoPath ts) : startsWithRelationship ts = false := by
  rw [startsWithRelationship]
  cases hminus : skip? (.sign .minus) (skipMaybe (.sign .lt) ts) with
  | none => rfl
  | some rest =>
    obtain ⟨t, ht, hk⟩ := eq_cons_of_skip? hminus
    suffices hdetail : afterDetail? rest = none by rw [Option.bind_some, hdetail]
    cases rest with
    | nil => rfl
    | cons u us =>
      have hpair : NoPath (t :: u :: us) := h.of_infix (ht ▸ (skipMaybe_suffix _ ts).isInfix)
      obtain ⟨hminus, hbracket⟩ := (List.isChain_cons_cons.1 hpair).1 hk
      rw [afterDetail?, if_neg hminus, if_neg hbracket]

/-- **No parenthesis opens a path** where no path goes on. -/
theorem opensPattern_eq_false {c : Cursor} (h : NoPath c.rest) : c.opensPattern = false := by
  have hclose : (afterClose 0 (c.current :: c.ahead)).any startsWithRelationship = false := by
    cases hr : afterClose 0 (c.current :: c.ahead) with
    | none => rfl
    | some ts =>
      exact startsWithRelationship_eq_false (h.of_infix (suffix_of_afterClose hr).isInfix)
  rw [opensPattern, hclose, Bool.and_false]

/-! ### Places up to a border -/

/-- **Places abreast of each other** in two lists of tokens that are the same up to a border and the
token behind it. -/
structure Abreast (border next : Token) (tail tail' : List Token) (c c' : Cursor) : Prop where
  /-- The tokens behind are the same. -/
  behind : c.behind = c'.behind
  /-- So are those ahead, up to the token behind the border. -/
  rest : ∃ w, c.rest = w ++ border :: next :: tail ∧ c'.rest = w ++ border :: next :: tail'

/-- **A place before a border** behind which there are a token and then a tail, or at that
border. -/
def Within (tail : List Token) (c : Cursor) : Prop := tail.length < c.ahead.length

/-- What is ahead behind a place ends in the same tokens. -/
theorem Onward.rest_suffix {c c' : Cursor} (h : c.Onward c') : c'.rest <:+ c.rest := by
  obtain ⟨w, hw⟩ := h.exists_across
  exact ⟨w, hw.1.symm⟩

theorem Onward.within {tail : List Token} {c c' : Cursor} (h : c.Onward c') (hw : c'.Within tail) :
    c.Within tail := Nat.lt_of_lt_of_le hw h.length_ahead_le

variable {border next : Token} {tail tail' : List Token} {c c' : Cursor}

namespace Abreast

/-- One is at the border, or before it at the same token. -/
theorem cases (h : Abreast border next tail tail' c c') :
    (c.current = border ∧ c'.current = border ∧ c.ahead = next :: tail ∧ c'.ahead = next :: tail') ∨
      ∃ w, c.current = c'.current ∧ c.ahead = w ++ border :: next :: tail ∧
        c'.ahead = w ++ border :: next :: tail' := by
  obtain ⟨-, w, hc, hc'⟩ := h
  cases w with
  | nil =>
    obtain ⟨h₁, h₂⟩ := List.cons.inj hc
    obtain ⟨h₁', h₂'⟩ := List.cons.inj hc'
    exact .inl ⟨h₁, h₁', h₂, h₂'⟩
  | cons t w =>
    obtain ⟨h₁, h₂⟩ := List.cons.inj hc
    obtain ⟨h₁', h₂'⟩ := List.cons.inj hc'
    exact .inr ⟨w, h₁.trans h₁'.symm, h₂, h₂'⟩

theorem current (h : Abreast border next tail tail' c c') : c.current = c'.current := by
  rcases h.cases with ⟨h, h', -⟩ | ⟨-, h, -⟩
  · exact h.trans h'.symm
  · exact h

theorem peek_one (h : Abreast border next tail tail' c c') : c.peek 1 = c'.peek 1 := by
  rcases h.cases with ⟨-, -, h, h'⟩ | ⟨w, -, h, h'⟩
  · rw [Grammar.peek_one_of_ahead_eq_cons h, Grammar.peek_one_of_ahead_eq_cons h']
  · cases w with
    | nil => rw [Grammar.peek_one_of_ahead_eq_cons h, Grammar.peek_one_of_ahead_eq_cons h']
    | cons t w => rw [Grammar.peek_one_of_ahead_eq_cons h, Grammar.peek_one_of_ahead_eq_cons h']

theorem previousSpan (h : Abreast border next tail tail' c c') :
    c.previousSpan = c'.previousSpan := by
  rw [Cursor.previousSpan, Cursor.previousSpan, h.behind, h.current]

/-- Both are at the border together. -/
theorem rest_eq (h : Abreast border next tail tail' c c') (hc : c.rest = border :: next :: tail) :
    c'.rest = border :: next :: tail' := by
  obtain ⟨-, w, hw, hw'⟩ := h
  obtain rfl : w = [] := List.self_eq_append_left.1 (hc.symm.trans hw)
  exact hw'

/-- The next token is reached together unless one passes the border. -/
theorem advance (h : Abreast border next tail tail' c c') (hw : c.advance.Within tail) :
    Abreast border next tail tail' c.advance c'.advance := by
  rcases h.cases with ⟨-, -, ha, -⟩ | ⟨w, hcur, ha, ha'⟩
  · rw [Within, advance_of_ahead_eq_cons ha] at hw
    exact absurd hw (Nat.lt_irrefl _)
  · obtain ⟨t, ts, ht⟩ := List.exists_cons_of_ne_nil
      (List.append_ne_nil_of_right_ne_nil w (List.cons_ne_nil border (next :: tail)))
    obtain ⟨t', ts', ht'⟩ := List.exists_cons_of_ne_nil
      (List.append_ne_nil_of_right_ne_nil w (List.cons_ne_nil border (next :: tail')))
    rw [advance_of_ahead_eq_cons (ha.trans ht), advance_of_ahead_eq_cons (ha'.trans ht')]
    exact ⟨by rw [h.behind, hcur], w, ht.symm, ht'.symm⟩

end Abreast

/-- **What is asked of a border** and the token behind it: neither goes on with a name, and the text
does not end. -/
structure Borders (border next : Token) : Prop where
  /-- The border is no dot. -/
  border_ne_dot : border.kind ≠ .sign .dot
  /-- It is not the end of the text. -/
  border_ne_end : border.kind ≠ .endOfInput
  /-- The token behind is no dot. -/
  next_ne_dot : next.kind ≠ .sign .dot

/-- No argument list is found through a token that is neither a dot nor a part of a name. -/
theorem argumentsFollow_cons (hn : next.kind ≠ .sign .dot) (tail : List Token) :
    argumentsFollow (next :: tail) = decide (next.kind = .sign .leftParen) := by
  cases tail with
  | nil => rfl
  | cons u us =>
    rw [argumentsFollow, decide_eq_false hn, Bool.false_and]
    by_cases hk : next.kind = .sign .leftParen
    · rw [if_pos hk, decide_eq_true hk]
    · rw [if_neg hk, decide_eq_false hk]
      rfl

theorem argumentsFollow_border (hb : Borders border next) (w tail tail' : List Token) :
    argumentsFollow (w ++ border :: next :: tail) =
      argumentsFollow (w ++ border :: next :: tail') := by
  fun_induction argumentsFollow w with
  | case1 t u rest hopen =>
    exact (if_pos hopen).trans (if_pos hopen).symm
  | case2 t u rest hopen hpart ih =>
    rw [List.cons_append, List.cons_append, List.cons_append, List.cons_append, argumentsFollow,
      argumentsFollow, if_neg hopen, if_neg hopen, if_pos hpart, if_pos hpart, ih]
  | case3 t u rest hopen hpart =>
    rw [List.cons_append, List.cons_append, List.cons_append, List.cons_append, argumentsFollow,
      argumentsFollow, if_neg hopen, if_neg hopen, if_neg hpart, if_neg hpart]
  | case4 t =>
    rw [List.cons_append, List.nil_append, List.cons_append, List.nil_append, argumentsFollow,
      argumentsFollow, argumentsFollow_cons hb.next_ne_dot, argumentsFollow_cons hb.next_ne_dot]
  | case5 =>
    rw [List.nil_append, List.nil_append, argumentsFollow_cons hb.border_ne_dot,
      argumentsFollow_cons hb.border_ne_dot]

theorem Abreast.opensCall (hb : Borders border next) (h : Abreast border next tail tail' c c') :
    c.opensCall = c'.opensCall := by
  rcases h.cases with ⟨-, -, ha, ha'⟩ | ⟨w, -, ha, ha'⟩
  · rw [Cursor.opensCall, Cursor.opensCall, ha, ha', argumentsFollow_cons hb.next_ne_dot,
      argumentsFollow_cons hb.next_ne_dot]
  · rw [Cursor.opensCall, Cursor.opensCall, ha, ha', argumentsFollow_border hb w tail tail']

/-- Skipping that stops before the border or there stops in the same place. -/
theorem abreast_resumeFrom (hb : Borders border next) (nested : Bool) (w behind : List Token)
    {current current' : Token} {ahead ahead' : List Token} (depth : Nat)
    (hc : current :: ahead = w ++ border :: next :: tail)
    (hc' : current' :: ahead' = w ++ border :: next :: tail')
    (hw : (resumeFrom nested behind current ahead depth).Within tail) :
    Abreast border next tail tail' (resumeFrom nested behind current ahead depth)
      (resumeFrom nested behind current' ahead' depth) := by
  induction w generalizing behind current current' ahead ahead' depth with
  | nil =>
    obtain ⟨rfl, rfl⟩ := List.cons.inj hc
    obtain ⟨rfl, rfl⟩ := List.cons.inj hc'
    unfold resumeFrom at hw ⊢
    rw [if_neg hb.border_ne_end] at hw ⊢
    rw [if_neg hb.border_ne_end]
    split
    · exact ⟨rfl, [], rfl, rfl⟩
    · next hstop =>
      rw [if_neg hstop] at hw
      exact absurd ((onward_resumeFrom nested _ next tail _).within hw) (Nat.lt_irrefl _)
  | cons t w ih =>
    obtain ⟨rfl, ha⟩ := List.cons.inj hc
    obtain ⟨rfl, ha'⟩ := List.cons.inj hc'
    obtain ⟨u, us, hu⟩ := List.exists_cons_of_ne_nil
      (List.append_ne_nil_of_right_ne_nil w (List.cons_ne_nil border (next :: tail)))
    obtain ⟨u', us', hu'⟩ := List.exists_cons_of_ne_nil
      (List.append_ne_nil_of_right_ne_nil w (List.cons_ne_nil border (next :: tail')))
    rw [ha.trans hu] at hw ⊢
    rw [ha'.trans hu']
    unfold resumeFrom at hw ⊢
    split
    · exact ⟨rfl, current' :: w, congrArg _ hu.symm, congrArg _ hu'.symm⟩
    · next hend =>
      rw [if_neg hend] at hw
      split
      · exact ⟨rfl, current' :: w, congrArg _ hu.symm, congrArg _ hu'.symm⟩
      · next hstop =>
        rw [if_neg hstop] at hw
        exact ih _ _ hu.symm hu'.symm hw

end Cursor

/-! ### States and outcomes -/

variable {setting : Setting} {inner : Inner} {α β : Type}
variable {border next : Token} {tail tail' : List Token} {s s' : State}

/-- **States abreast of each other**: in places up to a border, and alike in all else. No path goes
on ahead. -/
structure State.Abreast (border next : Token) (tail tail' : List Token) (s s' : State) : Prop where
  /-- The places are up to the border. -/
  cursors : Cursor.Abreast border next tail tail' s.cursor s'.cursor
  /-- The scopes are the same. -/
  scopes : s.scopes = s'.scopes
  /-- So are the problems. -/
  problems : s.problems = s'.problems
  /-- So is the depth. -/
  depth : s.depth = s'.depth
  /-- The first list is closed. -/
  closed : s.cursor.Closed
  /-- So is the second. -/
  closed' : s'.cursor.Closed
  /-- No path goes on in the first list. -/
  noPath : NoPath s.cursor.rest
  /-- Nor in the second. -/
  noPath' : NoPath s'.cursor.rest

/-- **Outcomes abreast of each other**: the same has been read, or the same is wrong. -/
def Outcome.Abreast (border next : Token) (tail tail' : List Token) : Outcome α → Outcome α → Prop
  | .done a t, .done a' t' => a = a' ∧ State.Abreast border next tail tail' t t'
  | .failed d t, .failed d' t' => d = d' ∧ State.Abreast border next tail tail' t t'
  | _, _ => False

/-- **A run that is matched by another** if it comes to its end without passing the border. -/
def Outcome.Matches (border next : Token) (tail tail' : List Token) (o o' : Outcome α) : Prop :=
  o.state.cursor.Within tail → o.Abreast border next tail tail' o'

/-- **Nested rules of which the runs are matched.** -/
def Inner.Matches (border next : Token) (tail tail' : List Token) (inner : Inner) : Prop :=
  ∀ {β : Type} (rule : Nested β) (s s' : State), State.Abreast border next tail tail' s s' →
    (inner rule s).Matches border next tail tail' (inner rule s')

namespace State.Abreast

/-- Both move on to places that are abreast of each other. -/
theorem moved (h : s.Abreast border next tail tail' s') {c c' : Cursor}
    (hc : Cursor.Abreast border next tail tail' c c') (ho : s.cursor.Onward c)
    (ho' : s'.cursor.Onward c') :
    State.Abreast border next tail tail' { s with cursor := c } { s' with cursor := c' } where
  cursors := hc
  scopes := h.scopes
  problems := h.problems
  depth := h.depth
  closed := h.closed.onward ho
  closed' := h.closed'.onward ho'
  noPath := h.noPath.of_infix ho.rest_suffix.isInfix
  noPath' := h.noPath'.of_infix ho'.rest_suffix.isInfix

theorem diagnostic_eq (h : s.Abreast border next tail tail' s') (problem : Problem) :
    s.diagnostic setting problem = s'.diagnostic setting problem := by
  rw [State.diagnostic, State.diagnostic, h.cursors.current]

theorem note (h : s.Abreast border next tail tail' s') (d : Diagnostic) :
    (s.note d).Abreast border next tail tail' (s'.note d) :=
  { h with problems := by rw [State.note, State.note, h.problems] }

theorem withScopes (h : s.Abreast border next tail tail' s') (f : Scopes → Scopes) :
    State.Abreast border next tail tail' { s with scopes := f s.scopes }
      { s' with scopes := f s'.scopes } :=
  { h with scopes := congrArg f h.scopes }

theorem withDepth (h : s.Abreast border next tail tail' s') (f : Nat → Nat) :
    State.Abreast border next tail tail' { s with depth := f s.depth }
      { s' with depth := f s'.depth } :=
  { h with depth := congrArg f h.depth }

/-- All views show the same. -/
theorem read_eq (hp : setting.opensPattern = Cursor.opensPattern)
    (hb : Cursor.Borders border next) (h : s.Abreast border next tail tail' s') (view : View α) :
    view.read setting s = view.read setting s' := by
  cases view with
  | token => exact h.cursors.current
  | next => exact h.cursors.peek_one
  | spanFrom start => rw [View.read, View.read, Cursor.spanFrom, Cursor.spanFrom,
      h.cursors.previousSpan]
  | previousSpan => exact h.cursors.previousSpan
  | position => rw [View.read, View.read, Cursor.position, Cursor.position, h.cursors.behind]
  | nested => rw [View.read, View.read, h.scopes]
  | opensCall => exact h.cursors.opensCall hb
  | opensPattern =>
    rw [View.read, View.read, hp, Cursor.opensPattern_eq_false h.noPath,
      Cursor.opensPattern_eq_false h.noPath']

end State.Abreast

namespace Outcome

theorem Abreast.mapState {o o' : Outcome α} {f : State → State}
    (hf : ∀ t t', State.Abreast border next tail tail' t t' →
      State.Abreast border next tail tail' (f t) (f t'))
    (h : o.Abreast border next tail tail' o') :
    (o.mapState f).Abreast border next tail tail' (o'.mapState f) := by
  rcases o with ⟨a, t⟩ | ⟨d, t⟩ <;> rcases o' with ⟨a', t'⟩ | ⟨d', t'⟩
  · exact ⟨h.1, hf _ _ h.2⟩
  · exact h.elim
  · exact h.elim
  · exact ⟨h.1, hf _ _ h.2⟩

theorem Matches.mapState {o o' : Outcome α} {f : State → State}
    (hc : ∀ t, (f t).cursor = t.cursor)
    (hf : ∀ t t', State.Abreast border next tail tail' t t' →
      State.Abreast border next tail tail' (f t) (f t'))
    (h : o.Matches border next tail tail' o') :
    (o.mapState f).Matches border next tail tail' (o'.mapState f) := by
  refine fun hw => (h ?_).mapState hf
  rwa [o.state_mapState, hc] at hw

/-- **Runs that follow one another are matched** if each of them is, as the first does not pass the
border if the second does not. -/
theorem Matches.andThen {o o' : Outcome β} {next₁ next₂ : β → Action α}
    (h : o.Matches border next tail tail' o')
    (ho : ∀ b (t : State), t.Onward (next₁ b t).state)
    (hn : ∀ b t t', o = .done b t → State.Abreast border next tail tail' t t' →
      (next₁ b t).Matches border next tail tail' (next₂ b t')) :
    (o.andThen next₁).Matches border next tail tail' (o'.andThen next₂) := by
  intro hw
  rcases o with ⟨b, t⟩ | ⟨d, t⟩
  · have hab := h ((ho b t).cursor.within hw)
    rcases o' with ⟨b', t'⟩ | ⟨d', t'⟩
    · obtain ⟨rfl, ht⟩ := hab
      exact hn b t t' rfl ht hw
    · exact hab.elim
  · have hab := h hw
    rcases o' with ⟨b', t'⟩ | ⟨d', t'⟩
    · exact hab.elim
    · exact hab

end Outcome

/-! ### All runs -/

namespace Rule

/-- **A repetition is matched**, step by step, however many tokens are behind the border. -/
theorem loop_abreast (hg : inner.GoesOn) {step : α → Rule (Option α)}
    (hm : ∀ a t, MovesOn setting inner (fun b => b.isSome) (step a) t)
    (ih : ∀ a (t t' : State), t.Abreast border next tail tail' t' →
      ((step a).run setting inner t).Matches border next tail tail'
        ((step a).run setting inner t')) (a : α) (h : s.Abreast border next tail tail' s') :
    ((loop step a).run setting inner s).Matches border next tail tail'
      ((loop step a).run setting inner s') := by
  -- the induction is on the tokens left to the first run, of which every step leaves fewer
  induction hn : s.left using Nat.strongRecOn generalizing a s s' with
  | ind n ihn =>
    rw [run_loop hg h.closed fun b t _ => hm b t, run_loop hg h.closed' fun b t _ => hm b t]
    refine (ih a s s' h).andThen (fun next t => ?_) fun next t t' hr ht => ?_
    · cases next with
      | none => exact .refl t
      | some b => exact onward_run setting hg (loop step b) t
    · cases next with
      | none => exact fun _ => ⟨rfl, ht⟩
      | some b => exact ihn t.left (hn ▸ hm a s h.closed _ t hr rfl) b ht rfl

/-- **A run up to the border is matched by the run over the other tokens.** -/
theorem run_abreast (hp : setting.opensPattern = Cursor.opensPattern)
    (hb : Cursor.Borders border next) (hg : inner.GoesOn)
    (hi : inner.Matches border next tail tail') {rule : Rule α} (hl : rule.Lively setting inner)
    (h : s.Abreast border next tail tail' s') :
    (rule.run setting inner s).Matches border next tail tail' (rule.run setting inner s') := by
  induction rule generalizing s s' with
  | pure a => exact fun _ => ⟨rfl, h⟩
  | bind rule next ih ihn =>
    change ((rule >>= next).run setting inner s).Matches _ _ _ _
      ((rule >>= next).run setting inner s')
    rw [run_bind, run_bind]
    exact (ih hl.1 h).andThen (fun b t => onward_run setting hg (next b) t)
      fun b t t' _ ht => ihn b (hl.2 b) ht
  | look view => exact fun _ => ⟨h.read_eq hp hb view, h⟩
  | advance =>
    exact fun hw => ⟨congrArg Token.span h.cursors.current, h.moved (h.cursors.advance hw)
      (Cursor.onward_advance _) (Cursor.onward_advance _)⟩
  | fail problem => exact fun _ => ⟨h.diagnostic_eq problem, h⟩
  | complain problem =>
    rw [run, run, h.diagnostic_eq problem]
    split
    · exact fun _ => ⟨rfl, h.note _⟩
    · exact fun _ => ⟨rfl, h⟩
  | requireSubqueries feature =>
    rw [run, run, h.diagnostic_eq (.unsupported feature)]
    split
    · exact fun _ => ⟨rfl, h⟩
    · exact fun _ => ⟨rfl, h⟩
  | mend rule remedy ih ihr =>
    have hrule := ih hl.1 h
    rw [run, run]
    intro hw
    cases hr : rule.run setting inner s with
    | done a t =>
      rw [hr] at hw hrule
      have hab := hrule hw
      cases hr' : rule.run setting inner s' with
      | done a' t' => rwa [hr'] at hab
      | failed d' t' => rw [hr'] at hab; exact hab.elim
    | failed d t =>
      rw [hr] at hw hrule
      dsimp only at hw ⊢
      -- the remedy is run from where the rule has failed, which is not past the border either
      have hwt : t.cursor.Within tail := by
        split at hw
        · exact (onward_run setting hg remedy (t.note d)).cursor.within hw
        · exact hw
      have hab := hrule hwt
      cases hr' : rule.run setting inner s' with
      | done a' t' => rw [hr'] at hab; exact hab.elim
      | failed d' t' =>
        rw [hr'] at hab
        obtain ⟨rfl, ht⟩ := hab
        dsimp only
        split
        · next hf =>
          rw [if_pos hf] at hw
          exact ihr hl.2 (ht.note d) hw
        · exact ⟨rfl, ht⟩
  | resume =>
    intro hw
    obtain ⟨w, hc, hc'⟩ := h.cursors.rest
    have hcur : (s.cursor.resume s.scopes.isNested).Within tail := hw
    have hab := Cursor.abreast_resumeFrom hb s.scopes.isNested w s.cursor.behind 0 hc hc' hcur
    refine ⟨rfl, h.moved ?_ (Cursor.onward_resume _ _) (Cursor.onward_resume _ _)⟩
    rwa [Cursor.resume, Cursor.resume, ← h.scopes, ← h.cursors.behind]
  | loop step a ih => exact loop_abreast hg hl.2 (fun a t t' ht => ih a (hl.1 a) ht) a h
  | inScope kind rule ih =>
    rw [run, run]
    exact (ih hl (h.withScopes (Scopes.push · kind))).mapState (fun _ => rfl) fun t t' ht =>
      ht.withScopes Scopes.pop
  | record kind => exact fun _ => ⟨rfl, h.withScopes (Scopes.record · kind)⟩
  | nested rule => exact hi rule s s' h

end Rule

/-- **Nested rules up to the border are matched.** -/
theorem Grammar.runNested_abreast (hp : setting.opensPattern = Cursor.opensPattern)
    (hb : Cursor.Borders border next) (room : Nat) :
    Inner.Matches border next tail tail' (Rule.runNested setting body room) := by
  induction room with
  | zero => exact fun _ s s' h _ => ⟨h.diagnostic_eq .tooDeep, h⟩
  | succ room ih =>
    intro β rule s s' h
    have hg : Inner.GoesOn (Rule.runNested setting body room) :=
      Rule.goesOn_runNested setting body room
    change (Rule.runNested setting body (room + 1) rule s).Matches border next tail tail'
      (Rule.runNested setting body (room + 1) rule s')
    rw [Rule.runNested_succ, Rule.runNested_succ]
    exact (Rule.run_abreast hp hb hg ih (lively_body hg rule) (h.withDepth (· + 1))).mapState
      (fun _ => rfl) fun t t' ht => ht.withDepth (· - 1)

end Cypher
