import Cypher.Proofs.Lossless
import Cypher.Proofs.Modes
import Cypher.Proofs.Parallel.Boundary

/-!
# Semicolons keep statements apart

When mistakes are forgiven, what is wrong before a semicolon does not matter behind it, as long as
the brackets before it match. The statements of a document are those read from the tokens before the
semicolon alone and then those read from the tokens behind it alone, with the same spans
(`Cypher.isolates_statements`).

The run over all tokens is compared to two others. Up to the semicolon, it goes like the run over
the tokens before, which comes to the end of its tokens there
(`Cypher.Grammar.many_upTo`). It then passes the semicolon and goes like the run over the tokens
behind, with more tokens behind the cursor (`Cypher.Grammar.many_behind`).
-/

namespace Cypher

variable {setting : Setting} {inner : Inner} {s s' : State} {α : Type}

namespace Grammar

open Rule hiding pure bind
open Parallel

/-! ### Between statements -/

section Between

variable (hi : inner.GoesOn)

include hi

theorem run_moveOverSemicolons (hc : s.cursor.Closed) :
    moveOverSemicolons.run setting inner s =
      if s.cursor.kind = .sign .semicolon then moveOverSemicolons.run setting inner s.step
      else .done () s := by
  rw [moveOverSemicolons, run_loop hi hc
    (fun _ t _ => movesOn_optionally hi (movesOn_takeSign hi .semicolon t))]
  split
  · next hk =>
    rw [run_optionally_true (run_consume_of_eq hk)]
    rfl
  · next hk =>
    rw [run_optionally_false (run_consume_of_ne hk)]
    rfl

/-- No semicolon is left. -/
theorem kind_ne_of_moveOverSemicolons {t : State} (hc : s.cursor.Closed)
    (h : moveOverSemicolons.run setting inner s = .done () t) :
    t.cursor.kind ≠ .sign .semicolon := by
  induction hn : s.left using Nat.strongRecOn generalizing s with
  | ind n ih =>
    rw [run_moveOverSemicolons hi hc] at h
    split at h
    · next hk =>
      have hmoves : MovesOn setting inner (fun _ => True) move s :=
        movesOn_move hi (hk ▸ TokenKind.noConfusion)
      exact ih _ (hn ▸ hmoves hc () s.step (run_move s) trivial) hc.advance h rfl
    · next hk =>
      cases h
      exact hk

omit hi in
/-- Outside of all scopes there is nowhere to note a clause. -/
theorem recordAll_outside (kinds : List ClauseKind) :
    Scopes.outside.recordAll kinds = .outside := by
  induction kinds with
  | nil => rfl
  | cons kind kinds ih => exact ih

omit hi in
theorem scopes_of_onward {t : State} (h : s.Onward t) (hout : s.scopes = .outside) :
    t.scopes = .outside := by
  obtain ⟨kinds, hk⟩ := h.scopes
  rw [hk, hout, recordAll_outside]

/-- The next statement where one begins. -/
theorem run_nextStatement (hc : s.cursor.Closed) (hk : s.cursor.kind.isStop = false) :
    nextStatement.run setting inner s =
      (statement.run setting inner s).andThen fun x t => .done (some x) t := by
  have hsemi : s.cursor.kind ≠ .sign .semicolon := (TokenKind.ne_of_isStop rfl hk).symm
  have hmove : moveOverSemicolons.run setting inner s = .done () s :=
    (run_moveOverSemicolons hi hc).trans (if_neg hsemi)
  rw [nextStatement, run_bind_done hmove, run_bind_done (run_isAt _ s),
    decide_eq_false (TokenKind.ne_endOfInput hk)]
  exact run_bind ..

/-- There is none at the end of the text. -/
theorem run_nextStatement_of_end (hc : s.cursor.Closed) (hk : s.cursor.kind = .endOfInput) :
    nextStatement.run setting inner s = .done none s := by
  have hmove : moveOverSemicolons.run setting inner s = .done () s :=
    (run_moveOverSemicolons hi hc).trans (if_neg (by rw [hk]; exact TokenKind.noConfusion))
  rw [nextStatement, run_bind_done hmove, run_bind_done (run_isAt _ s), decide_eq_true hk]
  rfl

/-- A semicolon makes no difference to what comes behind it. -/
theorem run_nextStatement_of_semicolon (hc : s.cursor.Closed)
    (hk : s.cursor.kind = .sign .semicolon) :
    nextStatement.run setting inner s = nextStatement.run setting inner s.step := by
  rw [nextStatement, run_bind, run_moveOverSemicolons hi hc, if_pos hk, run_bind]

theorem movesOn_nextStatement (hout : s.scopes = .outside) :
    MovesOn setting inner (fun x => x.isSome) nextStatement s := by
  intro hc x t hr hx
  obtain ⟨_, u, hu, hr⟩ := done_of_bind hr
  have ho := onward_of_done hi hu
  have hsemi := kind_ne_of_moveOverSemicolons hi hc hu
  obtain ⟨ended, v, hv, hr⟩ := done_of_bind hr
  obtain ⟨rfl, rfl⟩ := Outcome.done.inj ((run_isAt _ u).symm.trans hv)
  split at hr
  · cases hr
    cases hx
  · next hend =>
    have hmoves : MovesOn setting inner (fun _ => True) statement u :=
      movesOn_statement hi (scopes_of_onward ho hout) (fun h => hend (decide_eq_true h)) hsemi
    obtain ⟨y, v, hy, hr⟩ := done_of_bind hr
    cases hr
    exact Nat.lt_of_lt_of_le (hmoves (ho.closed hc) y _ hy trivial) ho.left_le

/-- Wherever reading statements gets, the next one moves on. -/
theorem movesOn_nextStatement_onward (hout : s.scopes = .outside) (t : State) (ht : s.Onward t) :
    MovesOn setting inner (fun x => x.isSome) nextStatement t :=
  movesOn_nextStatement hi (scopes_of_onward ht hout)

/-- A semicolon makes no difference to the statements behind it. -/
theorem run_many_of_semicolon (hc : s.cursor.Closed) (hout : s.scopes = .outside)
    (hk : s.cursor.kind = .sign .semicolon) (items : List Statement) :
    (many nextStatement items).run setting inner s =
      (many nextStatement items).run setting inner s.step := by
  have hout' : s.step.scopes = .outside := hout
  rw [run_many hi hc (movesOn_nextStatement_onward hi hout),
    run_many hi (State.closed_step hc) (movesOn_nextStatement_onward hi hout'),
    run_nextStatement_of_semicolon hi hc hk]

/-- Statements are read behind those that have been read before. -/
theorem run_many_nextStatement (hc : s.cursor.Closed) (hout : s.scopes = .outside)
    (items : List Statement) :
    (many nextStatement items).run setting inner s =
      ((many nextStatement []).run setting inner s).andThen fun more t =>
        .done (items ++ more) t := by
  -- the induction is on what is left to read, which every statement makes less
  induction hn : s.left using Nat.strongRecOn generalizing s items with
  | ind n ih =>
    rw [run_many hi hc (movesOn_nextStatement_onward hi hout),
      run_many hi hc (movesOn_nextStatement_onward hi hout)]
    cases hr : nextStatement.run setting inner s with
    | failed d t => rfl
    | done next t =>
      cases next with
      | none =>
        rw [Outcome.andThen_done, Outcome.andThen_done]
        exact congrArg (Outcome.done · t) (List.append_nil items).symm
      | some x =>
        have hlt : t.left < n :=
          hn ▸ movesOn_nextStatement hi hout hc (some x) t hr rfl
        have ho := onward_of_done hi hr
        rw [Outcome.andThen_done, Outcome.andThen_done]
        dsimp only
        -- both runs go on behind `x`, with and without `items` before it
        rw [ih _ hlt (ho.closed hc) (scopes_of_onward ho hout) (items ++ [x]) rfl,
          ih _ hlt (ho.closed hc) (scopes_of_onward ho hout) ([] ++ [x]) rfl]
        cases (many nextStatement []).run setting inner t with
        | failed d u => rfl
        | done more u => exact congrArg (Outcome.done · u) (List.append_assoc ..)

end Between

/-! ### Up to a semicolon -/

/-- **The run over all tokens goes like the run over those before the semicolon**, up to there. -/
theorem many_upTo {p : Parallel setting} (h : inner.Parallel p) (hs : p.States s s')
    (hlost : ∀ c, ¬p.lost c)
    (hstop : ∀ {c c'}, p.cursors c c' → c.kind.isStop = true → c.kind = .endOfInput)
    (hout : s.scopes = .outside) {items all : List Statement} {t : State}
    (hr : (many nextStatement items).run setting inner s = .done all t) :
    ∃ t', p.States t t' ∧ t.cursor.kind = .endOfInput ∧ t'.scopes = .outside ∧
      (many nextStatement items).run setting inner s' =
        (many nextStatement all).run setting inner t' := by
  induction hn : s.left using Nat.strongRecOn generalizing s s' items with
  | ind n ih =>
    have hi : inner.GoesOn := h.goesOn
    rw [run_many hi hs.closed (movesOn_nextStatement_onward hi hout)] at hr
    cases hk : s.cursor.kind.isStop with
    | true =>
      -- at a stop, the run over the tokens before is at its end and the other at the semicolon
      have hend := hstop hs.cursors hk
      rw [run_nextStatement_of_end hi hs.closed hend] at hr
      cases hr
      exact ⟨s', hs, hend, hs.outside hout, rfl⟩
    | false =>
      -- elsewhere both runs read a statement, which brings them to states that still match
      have hout' : s'.scopes = .outside := hs.outside hout
      have hk' : s'.cursor.kind.isStop = false := by
        rw [Cursor.kind, ← hs.current_eq hk]
        exact hk
      rw [run_many hi hs.closed' (movesOn_nextStatement_onward hi hout'),
        run_nextStatement hi hs.closed' hk']
      rw [run_nextStatement hi hs.closed hk] at hr
      have hagree := agree_statement h hs hout hk
      rw [Agree] at hagree
      cases hu : statement.run setting inner s with
      | failed d u =>
        rw [hu] at hr
        cases hr
      | done x u =>
        rw [hu] at hr hagree
        obtain ⟨u', hu', ht⟩ := hagree.exists_of_done (hlost _)
        rw [hu']
        have ho := onward_of_done hi hu
        have hmoves : MovesOn setting inner (fun _ => True) statement s :=
          movesOn_statement hi hout (TokenKind.ne_endOfInput hk)
            (TokenKind.ne_of_isStop rfl hk).symm
        exact ih _ (hn ▸ hmoves hs.closed x u hu trivial) ht (scopes_of_onward ho hout) hr rfl

/-! ### From a semicolon on -/

section Same

variable {p : Parallel setting} (h : inner.Parallel p)
  (hsame : ∀ {c c'}, p.cursors c c' → c.current = c'.current)

include h hsame

theorem agree_moveOverSemicolons (hs : p.States s s') :
    p.Agree inner moveOverSemicolons s s' := by
  refine .loop h.goesOn hs (fun _ t _ => movesOn_optionally h.goesOn
    (movesOn_takeSign h.goesOn .semicolon t)) (fun _ t t' _ _ ht => ?_) ()
  refine .andThen h.goesOn (.consume_of_current_eq ht (hsame ht.cursors) TokenKind.noConfusion)
    fun b u u' _ hu => .ite (fun _ => ?_) fun _ => .pure hu none
  exact .andThen h.goesOn (.pure hu ()) fun _ _ _ _ hv => .pure hv _

theorem agree_nextStatement (hs : p.States s s') (hout : s.scopes = .outside) :
    p.Agree inner nextStatement s s' := by
  refine .andThen h.goesOn (agree_moveOverSemicolons h hsame hs) fun _ t t' hr ht => ?_
  have hsemi := kind_ne_of_moveOverSemicolons h.goesOn hs.closed hr
  have hout' := scopes_of_onward (onward_of_done h.goesOn hr) hout
  have hend : p.Agree inner (Rule.isAt .endOfInput) t t' :=
    .look (hsame ht.cursors) (.pure ht _)
  refine .andThen h.goesOn hend fun ended u u' hu hu' => ?_
  rw [run_isAt] at hu
  obtain ⟨rfl, rfl⟩ := Outcome.done.inj hu
  refine .ite (fun _ => .pure hu' none) fun hne => ?_
  -- neither the end nor a semicolon: a statement begins
  have hk : t.cursor.kind.isStop = false := Bool.eq_false_iff.2 fun hstop =>
    (TokenKind.eq_of_isStop hstop).elim (fun he => hne (decide_eq_true he)) hsemi
  exact .andThen h.goesOn (agree_statement h hu' hout' hk) fun _ _ _ _ hv => .pure hv _

/-- **The run over all tokens goes like the run over those behind the semicolon**, from there on. -/
theorem many_same (hs : p.States s s') (hout : s.scopes = .outside) (items : List Statement) :
    p.Agree inner (many nextStatement items) s s' := by
  have hout' : s'.scopes = .outside := hs.outside hout
  refine .many h.goesOn hs (fun t ht => ht.elim (movesOn_nextStatement_onward h.goesOn hout t)
    (movesOn_nextStatement_onward h.goesOn hout' t)) (fun t t' ho _ ht => ?_) items
  exact agree_nextStatement h hsame ht (scopes_of_onward ho hout)

end Same

end Grammar

/-! ### Closed lists of tokens -/

namespace Cursor

/-- The tokens from the first of some that do not come last. -/
theorem atFirst_append (a : List Token) (u : Token) (us : List Token) :
    (atFirst (a ++ u :: us)).behind = [] ∧
      (atFirst (a ++ u :: us)).current :: (atFirst (a ++ u :: us)).ahead =
        a ++ u :: closed u us := by
  cases a with
  | nil => exact ⟨rfl, rfl⟩
  | cons x xs => exact ⟨rfl, congrArg (x :: ·) (closed_append x u xs us)⟩

/-- The tokens from the first of some that are not closed by themselves. -/
theorem atFirst_of_ne {a : List Token} (h : ∀ t ∈ a, t.kind ≠ .endOfInput) :
    ∃ e, e.kind = .endOfInput ∧ (atFirst a).behind = [] ∧
      (atFirst a).current :: (atFirst a).ahead = a ++ [e] := by
  cases a with
  | nil => exact ⟨_, rfl, rfl, rfl⟩
  | cons t ts =>
    obtain ⟨e, he, hc⟩ := closed_of_ne h
    exact ⟨e, he, rfl, congrArg (t :: ·) hc⟩

end Cursor

/-! ### Documents -/

namespace Grammar

open Rule hiding pure bind
open Parallel

/-- A document is made of the statements read. -/
theorem read_of_many {tokens : List Token} {all : List Statement} {t : State}
    (h : start setting (many nextStatement []) (.start tokens) = .done all t) :
    read setting tokens = ⟨some ⟨all, ⟨0, t.cursor.current.span.stop⟩⟩, t.problems, t.scopes⟩ := by
  have hrun : (many nextStatement []).run setting (runNested setting body setting.limit)
      (.start tokens) = .done all t := h
  rw [read, start, document, run_bind_done hrun]
  rfl

/-- Statements are always read when mistakes are forgiven. -/
theorem exists_statements (hf : setting.forgiving = true) (s : State) :
    ∃ all t, start setting (many nextStatement []) s = .done all t := by
  have hs : Succeeds setting.lenient (runNested setting body setting.limit)
      (many nextStatement []) := succeeds_nextStatement.many []
  rw [Setting.lenient_of_forgiving hf] at hs
  exact hs s

variable {w v : List Token} {semi u : Token} {us : List Token}

/-- The tokens before a semicolon alone, and all tokens. -/
theorem cursors_upTo (hw : Enclosed 0 (w.filter fun t => t.kind ≠ .invalid))
    (hsemi : semi.kind = .sign .semicolon)
    (hu : v.filter (fun t => t.kind ≠ .invalid) = u :: us) :
    ∃ e, e.kind = .endOfInput ∧
      Cursor.UpTo [e] (semi :: u :: Cursor.closed u us) (.ofTokens w)
        (.ofTokens (w ++ semi :: v)) := by
  have hall : (w ++ semi :: v).filter (fun t => t.kind ≠ .invalid) =
      w.filter (fun t => t.kind ≠ .invalid) ++ semi :: u :: us := by
    rw [List.filter_append, List.filter_cons_of_pos (by rw [hsemi]; rfl), hu]
  obtain ⟨e, he, hb, hc⟩ := Cursor.atFirst_of_ne fun t ht =>
    TokenKind.ne_endOfInput (hw.goesOn t ht)
  obtain ⟨hb', hc'⟩ := Cursor.atFirst_append (w.filter fun t => t.kind ≠ .invalid) semi (u :: us)
  refine ⟨e, he, ?_⟩
  rw [Cursor.ofTokens, Cursor.ofTokens, hall]
  exact ⟨hb.trans hb'.symm, 0, _, hw, hc, hc'⟩

/-- **The run over all tokens gets to the semicolon** with the statements before it. -/
theorem exists_at_semicolon (hp : setting.opensPattern = Cursor.opensPattern)
    (hw : Enclosed 0 (w.filter fun t => t.kind ≠ .invalid)) (hsemi : semi.kind = .sign .semicolon)
    (hu : v.filter (fun t => t.kind ≠ .invalid) = u :: us) {ws : List Statement} {t : State}
    (hws : start setting (many nextStatement []) (.start w) = .done ws t) :
    ∃ t', t'.cursor.Closed ∧ t'.scopes = .outside ∧ t'.cursor.current = semi ∧
      t'.cursor.ahead = u :: Cursor.closed u us ∧ t.problems.length = t'.problems.length ∧
      start setting (many nextStatement []) (.start (w ++ semi :: v)) =
        start setting (many nextStatement ws) t' := by
  obtain ⟨e, he, hcursors⟩ := cursors_upTo hw hsemi hu
  have hne : e ≠ semi := by
    rintro rfl
    rw [he] at hsemi
    cases hsemi
  let p : Parallel setting := .upTo hp [] (u :: Cursor.closed u us) (by rw [he]; rfl)
    (by rw [hsemi]; rfl) hne
  have hstart : p.States (.start w) (.start (w ++ semi :: v)) :=
    ⟨hcursors, .rfl, rfl, Cursor.closed_ofTokens _, Cursor.closed_ofTokens _⟩
  obtain ⟨t', ht, hend, hout, hrun⟩ := many_upTo (parallel_runNested p setting.limit) hstart
    (fun _ => id) (fun hc hk => by rw [Cursor.kind, (hc.of_isStop hk).1, he]) rfl hws
  obtain ⟨-, hcurrent, hahead⟩ := ht.cursors.of_isStop (by rw [hend]; rfl)
  exact ⟨t', ht.closed', hout, hcurrent, hahead, ht.problems, hrun⟩

/-- **The run over all tokens goes on from the semicolon** with the statements behind it. -/
theorem exists_behind_semicolon (hp : setting.opensPattern = Cursor.opensPattern)
    (hsemi : semi.kind = .sign .semicolon) (hu : v.filter (fun t => t.kind ≠ .invalid) = u :: us)
    {s : State} (hc : s.cursor.Closed) (hout : s.scopes = .outside) (hcur : s.cursor.current = semi)
    (hahead : s.cursor.ahead = u :: Cursor.closed u us) {vs : List Statement} {y : State}
    (hvs : start setting (many nextStatement []) (.start v) = .done vs y) (ws : List Statement) :
    ∃ z, start setting (many nextStatement ws) s = .done (ws ++ vs) z ∧
      z.problems = s.problems ++ y.problems := by
  have hi : Inner.GoesOn (runNested setting body setting.limit) :=
    goesOn_runNested setting body setting.limit
  -- the semicolon itself is passed over
  have hpast :
      start setting (many nextStatement ws) s = start setting (many nextStatement ws) s.step :=
    run_many_of_semicolon hi hc hout (by rw [Cursor.kind, hcur, hsemi]) ws
  have honto : s.step.cursor = (Cursor.ofTokens v).onto (semi :: s.cursor.behind) := by
    rw [State.step, Cursor.advance_of_ahead_eq_cons hahead, hcur, Cursor.ofTokens, hu]
    rfl
  have hon : (semi :: s.cursor.behind).head?.map Token.kind ≠ some (.keyword .ON) := by
    rw [List.head?_cons, Option.map_some, hsemi]
    exact fun h => absurd (Option.some.inj h) TokenKind.noConfusion
  let p : Parallel setting := .behind hp (semi :: s.cursor.behind) (fun _ => hon) s.problems
  have hstates : p.States (.start v) s.step :=
    ⟨honto, hout.symm ▸ .rfl, (List.append_nil _).symm, Cursor.closed_ofTokens _, hc.advance⟩
  have hagree := many_same (parallel_runNested p setting.limit) (fun hc => by
    rw [hc, Cursor.onto]) hstates rfl ws
  -- to compare the two runs, let the run over the tokens behind start with `ws` as well
  have hread : (many nextStatement ws).run setting (runNested setting body setting.limit)
      (.start v) = .done (ws ++ vs) y := by
    rw [run_many_nextStatement hi (Cursor.closed_ofTokens _) rfl]
    exact congrArg (Outcome.andThen · _) hvs
  rw [Agree, hread] at hagree
  obtain ⟨z, hz, hyz⟩ := hagree.exists_of_done id
  exact ⟨z, hpast.trans hz, hyz.problems⟩

/-- **What is read before a semicolon and what is read behind it**, put together, is what is read
from all tokens, if the brackets before the semicolon match. -/
theorem read_append (hp : setting.opensPattern = Cursor.opensPattern)
    (hf : setting.forgiving = true) (hw : Enclosed 0 (w.filter fun t => t.kind ≠ .invalid))
    (hsemi : semi.kind = .sign .semicolon) (hv : v.filter (fun t => t.kind ≠ .invalid) ≠ []) :
    ∃ whole first rest : Document,
      (read setting (w ++ semi :: v)).document = some whole ∧
      (read setting w).document = some first ∧ (read setting v).document = some rest ∧
      whole.statements = first.statements ++ rest.statements ∧
      ∃ noted, (read setting (w ++ semi :: v)).problems = noted ++ (read setting v).problems ∧
        noted.length = (read setting w).problems.length := by
  obtain ⟨u, us, hu⟩ := List.exists_cons_of_ne_nil hv
  obtain ⟨ws, t, hws⟩ := exists_statements hf (.start w)
  obtain ⟨vs, y, hvs⟩ := exists_statements hf (.start v)
  obtain ⟨t', hc, hout, hcur, hahead, hlength, hrun⟩ := exists_at_semicolon hp hw hsemi hu hws
  obtain ⟨z, hz, hproblems⟩ := exists_behind_semicolon hp hsemi hu hc hout hcur hahead hvs ws
  rw [read_of_many (hrun.trans hz), read_of_many hws, read_of_many hvs]
  -- what has been noted up to the semicolon is as much as the tokens before it alone give
  exact ⟨_, _, _, rfl, rfl, rfl, rfl, t'.problems, hproblems, hlength.symm⟩

end Grammar

/-! ### Texts -/

/-- Tokens that stand for nothing open and close no brackets. -/
theorem openBehind?_filter (depth : Nat) (ts : List Token) :
    openBehind? depth (ts.filter fun t => t.kind ≠ .invalid) = openBehind? depth ts := by
  induction ts generalizing depth with
  | nil => rfl
  | cons t ts ih =>
    by_cases hk : t.kind = .invalid
    · rw [List.filter_cons_of_neg (by simp [hk]), openBehind?, hk]
      exact ih depth
    · rw [List.filter_cons_of_pos (by simp [hk]), openBehind?, openBehind?, ih, ih, ih]

/-- The end of a text is behind every semicolon in it. -/
theorem end_behind_semicolon {source : String} {dialect : Dialect} {w v : List Token} {semi : Token}
    (hsplit : (tokenize source dialect).tokens = w ++ semi :: v)
    (hsemi : semi.kind = .sign .semicolon) :
    (∀ t ∈ w, t.kind ≠ .endOfInput) ∧ ∃ e ∈ v, e.kind = .endOfInput := by
  obtain ⟨init, e, htokens, he, -, hinit⟩ :=
    (Piece.spell_tokens dialect.rules.reserves [] source.toList).last
  have hall : w ++ semi :: v = init ++ [e] := hsplit.symm.trans htokens
  rcases List.eq_nil_or_concat v with rfl | ⟨v₀, x, hv⟩
  · obtain ⟨-, hlast⟩ := List.append_inj' hall rfl
    -- with nothing behind it, the semicolon would be the end of the text
    rw [(List.cons.inj hlast).1, he] at hsemi
    cases hsemi
  · rw [List.concat_eq_append] at hv
    subst hv
    rw [← List.cons_append, ← List.append_assoc] at hall
    obtain ⟨rfl, hlast⟩ := List.append_inj' hall rfl
    refine ⟨fun t ht => (hinit t (List.mem_append_left _ ht)).1, x, List.mem_concat_self, ?_⟩
    rw [(List.cons.inj hlast).1, he]

/-- **Recovery isolates statements.** When mistakes are forgiven and the brackets before the first
semicolon of a text match, what is found in all tokens is what is found in those before it, whatever
is wrong there, and then what is found in those behind it. -/
theorem isolates_statements {source : String} {dialect : Dialect} {options : Options}
    (hf : options.recoverErrors = true) {w v : List Token} {semi : Token}
    (hsplit : (tokenize source dialect).tokens = w ++ semi :: v)
    (hsemi : semi.kind = .sign .semicolon) (hone : ∀ t ∈ w, t.kind ≠ .sign .semicolon)
    (hbalanced : openBehind? 0 w = some 0) :
    ∃ whole first rest : Document,
      (parseTokens (w ++ semi :: v) options).document = some whole ∧
      (parseTokens w options).document = some first ∧
      (parseTokens v options).document = some rest ∧
      whole.statements = first.statements ++ rest.statements ∧
      ∃ noted, (parseTokens (w ++ semi :: v) options).problems =
          noted ++ (parseTokens v options).problems ∧
        noted.length = (parseTokens w options).problems.length := by
  obtain ⟨hw, e, hmem, he⟩ := end_behind_semicolon hsplit hsemi
  have hp : (Setting.ofOptions options).opensPattern = Cursor.opensPattern := rfl
  refine Grammar.read_append hp hf ⟨(openBehind?_filter 0 w).trans hbalanced, fun t ht => ?_⟩ hsemi
    (List.ne_nil_of_mem (a := e) (List.mem_filter.2 ⟨hmem, by rw [he]; rfl⟩))
  have hmem := (List.mem_filter.1 ht).1
  exact Bool.eq_false_iff.2 fun hstop =>
    (TokenKind.eq_of_isStop hstop).elim (hw t hmem) (hone t hmem)

/-- A projection without columns, and a statement behind it, are a case in point. -/
theorem isolates_statements_return :
    let options := Options.standard.withRecoverErrors true
    let w : List Token := [⟨.keyword .RETURN, "RETURN", ⟨0, 6⟩, 1, 1⟩]
    let semi : Token := ⟨.sign .semicolon, ";", ⟨7, 8⟩, 1, 8⟩
    let v : List Token := [⟨.keyword .RETURN, "RETURN", ⟨9, 15⟩, 1, 10⟩,
      ⟨.integer "1", "1", ⟨16, 17⟩, 1, 17⟩, ⟨.endOfInput, "", ⟨17, 17⟩, 1, 18⟩]
    (tokenize "RETURN ; RETURN 1" .openCypher).tokens = w ++ semi :: v ∧
      (parseTokens w options).problems.length = 1 ∧
      ∃ whole first rest : Document,
        (parseTokens (w ++ semi :: v) options).document = some whole ∧
        (parseTokens w options).document = some first ∧
        (parseTokens v options).document = some rest ∧
        whole.statements = first.statements ++ rest.statements ∧
        ∃ noted, (parseTokens (w ++ semi :: v) options).problems =
            noted ++ (parseTokens v options).problems ∧
          noted.length = (parseTokens w options).problems.length := by
  intro options w semi v
  have hf : options.recoverErrors = true := rfl
  have hsplit : (tokenize "RETURN ; RETURN 1" .openCypher).tokens = w ++ semi :: v := by
    decide +kernel
  have hone : ∀ t ∈ w, t.kind ≠ .sign .semicolon := by decide
  have hnoted : (parseTokens w options).problems.length = 1 := rfl
  exact ⟨hsplit, hnoted, isolates_statements hf hsplit rfl hone rfl⟩

end Cypher
