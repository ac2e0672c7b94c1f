import Cypher.Proofs.Isolation
import Cypher.Proofs.Ledger.Document
import Cypher.Proofs.Tiling.Query

/-!
# No token is lost

Between semicolons every token belongs to a statement, and in every query of the tree, be it a
statement or in an expression, every token belongs to a clause or introduces a branch
(`Cypher.tiled_parse`). This is so whether mistakes are forgiven or not, and wherever they are.

That each query is tiled was seen when it was read. A ledger carries it to the tree that is found in
the end: the demand is on queries only, and it does not matter what has been noted.
-/

namespace Cypher

/-! ### The ledger of tilings -/

/-- **The demand that queries are tiled.** -/
def Element.AsksTiling (all : List Token) : Element → Prop
  | query q => q.Tiled all
  | _ => True

/-- **The ledger of tilings**, in which problems do not count. All that is known of a cursor is
which tokens it is over. -/
def Ledger.tilings (setting : Setting) {all : List Token} (ha : Token.Apart all) :
    Ledger setting where
  demand := Element.AsksTiling all
  counts := False
  known c := c.Over all
  advance h := h.onward (Cursor.onward_advance _)
  plain {e} h := by
    unfold Element.AsksTiling
    split
    · cases h
    · trivial
  relationship _ _ _ := trivial
  integer _ _ _ := trivial
  least _ _ _ := trivial
  call _ _ _ _ _ _ := trivial
  suffix _ _ _ _ := trivial
  nullTest _ _ _ _ _ := trivial
  operation _ _ _ _ := trivial
  clauseError _ := iff_of_true trivial id
  statementError _ := iff_of_true trivial id
  branch _ := iff_of_true trivial False.elim
  query h hr := iff_of_true
    (Grammar.tiled_query (Rule.goesOn_runNested setting Grammar.body _) ha h hr) False.elim
  patternBody h hr :=
    Grammar.tiled_patternBody (Rule.goesOn_runNested setting Grammar.body _) ha h hr

/-! ### Statements -/

namespace Grammar

open Rule hiding pure bind

section Statements

variable {setting : Setting} {inner : Inner} (hi : inner.GoesOn) {all : List Token}
  (ha : Token.Apart all) {s t : State}

/-- A statement goes from where its rule begins to the token passed last. -/
theorem span_of_statement {x : Statement} (hr : statement.run setting inner s = .done x t) :
    x.span = t.cursor.spanFrom s.cursor.front := by
  obtain ⟨_, u, hu, hr⟩ := done_of_bind hr
  cases hu
  obtain ⟨q, u, hu, hr⟩ := done_of_bind hr
  have hspan : q.span = u.cursor.spanFrom s.cursor.front := by
    obtain ⟨_, _, hstart, hu⟩ := done_of_bind hu
    cases hstart
    obtain ⟨_, _, -, hu⟩ := done_of_bind hu
    obtain ⟨_, _, -, hu⟩ := done_of_bind hu
    cases hu
    rfl
  split at hr
  · cases hr
    exact hspan
  · cases hr
    exact hspan

/-- Nothing but semicolons lies between statements. -/
theorem tiles_moveOverSemicolons (hs : s.cursor.Closed)
    (hr : moveOverSemicolons.run setting inner s = .done () t) :
    ∃ gaps, Tiles Statement.span s t gaps [] ∧ ∀ x ∈ gaps, x.kind = .sign .semicolon := by
  refine loop_induct (p := fun _ u => ∃ gaps, Tiles Statement.span s u gaps [] ∧
    ∀ x ∈ gaps, x.kind = .sign .semicolon) ?_ ⟨[], .refl s, by simp⟩ hr
  rintro _ u next v ⟨gaps, hu, hgaps⟩ hv
  by_cases hk : u.cursor.kind = .sign .semicolon
  · rw [run_optionally_true (run_consume_of_eq hk)] at hv
    cases hv
    refine ⟨gaps ++ [u.cursor.current], hu.trans (tiles_step (hs.onward hu.onward.cursor)
      (hk ▸ TokenKind.noConfusion)), ?_⟩
    simpa [or_imp, forall_and] using ⟨hgaps, hk⟩
  · rw [run_optionally_false (run_consume_of_ne hk)] at hv
    cases hv
    exact ⟨gaps, hu, hgaps⟩

include hi ha

theorem tiles_nextStatement (hs : s.cursor.Over all) (hout : s.scopes = .outside)
    {next : Option Statement} (hr : nextStatement.run setting inner s = .done next t) :
    ∃ gaps, Tiles Statement.span s t gaps next.toList ∧ ∀ x ∈ gaps, x.kind = .sign .semicolon := by
  obtain ⟨_, u, hu, hr⟩ := done_of_bind hr
  obtain ⟨gaps, hmove, hgaps⟩ := tiles_moveOverSemicolons hs.closed hu
  have hover := hs.onward hmove.onward.cursor
  obtain ⟨ended, v, hv, hr⟩ := done_of_bind hr
  obtain ⟨rfl, rfl⟩ := Outcome.done.inj ((run_isAt _ u).symm.trans hv)
  split at hr
  · cases hr
    exact ⟨gaps, hmove, hgaps⟩
  · next hend =>
    obtain ⟨x, v, hx, hr⟩ := done_of_bind hr
    cases hr
    have hmoves : MovesOn setting inner (fun _ => True) statement u :=
      movesOn_statement hi (scopes_of_onward hmove.onward hout) (fun h => hend (decide_eq_true h))
        (kind_ne_of_moveOverSemicolons hi hs.closed hu)
    have hone : Tiles Statement.span u _ [] [x] := tiles_single (hover.tokens_eq ▸ ha)
      (onward_of_done hi hx) (hmoves hover.closed x _ hx trivial) (span_of_statement hx)
    exact ⟨gaps, by simpa using hmove.trans hone, hgaps⟩

/-- **Statements and the semicolons between them.** -/
theorem tiles_statements (hs : s.cursor.Over all) (hout : s.scopes = .outside)
    {statements : List Statement}
    (hr : (many nextStatement []).run setting inner s = .done statements t) :
    ∃ gaps, Tiles Statement.span s t gaps statements ∧ ∀ x ∈ gaps, x.kind = .sign .semicolon := by
  refine loop_induct (p := fun found u => ∃ gaps, Tiles Statement.span s u gaps found ∧
    ∀ x ∈ gaps, x.kind = .sign .semicolon) ?_ ⟨[], .refl s, by simp⟩ hr
  rintro found u next v ⟨gaps, hu, hgaps⟩ hv
  obtain ⟨x, w, hw, hv⟩ := done_of_bind hv
  cases hv
  obtain ⟨more, hmore, hsemicolons⟩ := tiles_nextStatement hi ha (hs.onward hu.onward.cursor)
    (scopes_of_onward hu.onward hout) hw
  refine ⟨gaps ++ more, ?_, fun y hy => (List.mem_append.1 hy).elim (hgaps y) (hsemicolons y)⟩
  cases x <;> simpa using hu.trans hmore

omit ha in
/-- **Statements are read up to the end of the text.** -/
theorem kind_of_statements (hc : s.cursor.Closed) (hout : s.scopes = .outside)
    {items statements : List Statement}
    (hr : (many nextStatement items).run setting inner s = .done statements t) :
    t.cursor.kind = .endOfInput := by
  -- the induction is on what is left to read, which every statement makes less
  induction hn : s.left using Nat.strongRecOn generalizing s items with
  | ind n ih =>
    rw [run_many hi hc (movesOn_nextStatement_onward hi hout)] at hr
    cases hnext : nextStatement.run setting inner s with
    | failed d u =>
      rw [hnext] at hr
      cases hr
    | done next u =>
      rw [hnext] at hr
      have ho := onward_of_done hi hnext
      cases next with
      | some x =>
        have hlt : u.left < n := hn ▸ movesOn_nextStatement hi hout hc (some x) u hnext rfl
        exact ih _ hlt (ho.closed hc) (scopes_of_onward ho hout) hr rfl
      | none =>
        cases hr
        -- behind the semicolons, no statement is wanted only at the end
        obtain ⟨_, v, -, hnext⟩ := done_of_bind hnext
        obtain ⟨ended, w, hw, hnext⟩ := done_of_bind hnext
        obtain ⟨rfl, rfl⟩ := Outcome.done.inj ((run_isAt _ v).symm.trans hw)
        split at hnext
        · next hend =>
          cases hnext
          exact of_decide_eq_true hend
        · obtain ⟨_, _, -, hnext⟩ := done_of_bind hnext
          cases hnext

end Statements

end Grammar

/-! ### Documents -/

/-- **A document that is tiled by its statements and queries**, given all tokens. -/
structure Document.Tiled (tokens : List Token) (document : Document) : Prop where
  /-- The statements follow one another. -/
  ordered : document.statements.Pairwise fun x y => x.span.stop ≤ y.span.start
  /-- Every token but a semicolon and the end of the text lies in one statement. -/
  covered : ∀ t ∈ tokens, t.kind ≠ .sign .semicolon → t.kind ≠ .endOfInput →
    (document.statements.countP fun x => t.isIn x.span) = 1
  /-- Queries are tiled at any depth. -/
  queries : ∀ q, (Element.document document).Within (.query q) → q.Tiled tokens

/-- **The tokens of a text that take part in the grammar**: proper ones and the end of the text,
none of which overlap. -/
theorem exists_words (source : String) (dialect : Dialect) :
    ∃ words e, (tokenize source dialect).tokens.filter (fun t => t.kind ≠ .invalid) = words ++ [e] ∧
      e.kind = .endOfInput ∧ (∀ t ∈ words, t.kind ≠ .invalid ∧ t.kind ≠ .endOfInput) ∧
      Token.Apart (words ++ [e]) := by
  have hspell : Token.Spell [] source.toList (tokenize source dialect).tokens :=
    Piece.spell_tokens dialect.rules.reserves [] source.toList
  obtain ⟨words, e, hsplit, he, -, hwords⟩ := hspell.last
  have hfilter : (tokenize source dialect).tokens.filter (fun t => t.kind ≠ .invalid) =
      words.filter (fun t => t.kind ≠ .invalid) ++ [e] := by
    rw [hsplit, List.filter_append]
    simp [he]
  refine ⟨_, e, hfilter, he, fun t ht => ?_, hfilter ▸ hspell.ordered.2.filter _⟩
  exact ⟨of_decide_eq_true (List.mem_filter.1 ht).2, (hwords t (List.mem_filter.1 ht).1).1⟩

namespace Cursor

variable {words : List Token} {e : Token}

/-- Tokens of which the last is the end of the text are those around the first cursor, and none of
them is behind it. -/
theorem over_ofTokens {tokens : List Token}
    (h : tokens.filter (fun t => t.kind ≠ .invalid) = words ++ [e]) (he : e.kind = .endOfInput) :
    (ofTokens tokens).Over (words ++ [e]) ∧ (ofTokens tokens).behind = [] := by
  obtain ⟨hbehind, hrest⟩ := atFirst_append words e []
  rw [closed, if_pos he] at hrest
  refine ⟨⟨?_, closed_ofTokens tokens⟩, ?_⟩
  · rw [ofTokens, h, Cursor.tokens, hbehind, rest, hrest]
    rfl
  · rw [ofTokens, h, hbehind]

/-- If the end of the text is found in no other place, it has nothing ahead. -/
theorem Over.ahead_eq_nil {c : Cursor} (h : c.Over (words ++ [e]))
    (hwords : ∀ t ∈ words, t.kind ≠ .endOfInput) (hk : c.kind = .endOfInput) : c.ahead = [] := by
  rcases List.eq_nil_or_concat c.ahead with hnil | ⟨ts, t, hconcat⟩
  · exact hnil
  · have heq := h.tokens_eq
    rw [tokens, rest, hconcat, List.concat_eq_append, ← List.cons_append,
      ← List.append_assoc] at heq
    obtain ⟨rfl, -⟩ := List.append_inj' heq rfl
    exact absurd hk (hwords _ (List.mem_append_right _ List.mem_cons_self))

end Cursor

namespace Grammar

open Rule hiding pure bind

/-- The statements of a document have been read one by one. -/
theorem exists_statements_of_read {setting : Setting} {tokens : List Token} {document : Document}
    (h : (read setting tokens).document = some document) :
    ∃ t, start setting (many nextStatement []) (.start tokens) = .done document.statements t := by
  unfold read at h
  cases hrun : start setting Grammar.document (.start tokens) with
  | failed d t =>
    rw [hrun] at h
    cases h
  | done a t =>
    rw [hrun] at h
    cases h
    obtain ⟨statements, u, hu, hlast⟩ := done_of_bind hrun
    cases hlast
    exact ⟨_, hu⟩

/-- **A document is tiled** if it is read from tokens that do not overlap. -/
theorem tiled_read {setting : Setting} {tokens words : List Token} {e : Token}
    {document : Document} (hsplit : tokens.filter (fun t => t.kind ≠ .invalid) = words ++ [e])
    (he : e.kind = .endOfInput) (hwords : ∀ t ∈ words, t.kind ≠ .endOfInput)
    (ha : Token.Apart (words ++ [e])) (h : (read setting tokens).document = some document) :
    document.Tiled (words ++ [e]) := by
  obtain ⟨hover, hbehind⟩ := Cursor.over_ofTokens hsplit he
  have hqueries := ((Ledger.tilings setting ha).throughout_document hover h).2 False.elim
  obtain ⟨t, hrun⟩ := exists_statements_of_read h
  have hi : Inner.GoesOn (runNested setting body setting.limit) :=
    goesOn_runNested setting body setting.limit
  obtain ⟨gaps, ⟨ho, w, hw, hblocks⟩, hgaps⟩ := tiles_statements hi ha hover rfl hrun
  have htokens := hw.tokens_eq.symm.trans hover.tokens_eq
  have hapart : Token.Apart (_ ++ w ++ t.cursor.rest) := htokens ▸ ha
  refine ⟨(hblocks.ordered hapart t.cursor.rest_ne_nil).2, fun x hx hsemi hend => ?_,
    fun q hq => hqueries _ hq⟩
  have hcount := hblocks.count hapart t.cursor.rest_ne_nil (htokens ▸ hx)
  have hgap : x ∉ gaps := fun hmem => hsemi (hgaps x hmem)
  -- behind the statements, there is only the end of the text
  have hkind := kind_of_statements hi hover.closed rfl hrun
  have hahead := (hover.onward ho.cursor).ahead_eq_nil hwords hkind
  have hmem : x ∈ w := by
    rw [← htokens, State.start, hbehind, Cursor.rest, hahead, List.mem_append] at hx
    rcases hx with hx | hx
    · exact hx
    · obtain rfl := List.mem_singleton.1 hx
      exact absurd hkind hend
  have hnodup := hapart.nodup_middle
  rw [List.count_eq_one_of_mem hnodup hmem, List.count_eq_zero_of_not_mem hgap] at hcount
  omega

end Grammar

/-- **No token is lost.** In a document that is found in a text, every token that takes part in the
grammar belongs to a statement unless it is a semicolon, and wherever there is a query in the
document, every token in it belongs to a clause of it or introduces a branch. -/
theorem tiled_parse {source : String} {options : Options} {document : Document}
    (h : (parse source options).document = some document) :
    document.Tiled
      ((tokenize source options.dialect).tokens.filter fun t => t.kind ≠ .invalid) := by
  rw [document_parse] at h
  have hspell : Token.Spell [] source.toList (tokenize source options.dialect).tokens :=
    Piece.spell_tokens options.dialect.rules.reserves [] source.toList
  obtain ⟨words, e, hsplit, he, -, hwords⟩ := hspell.last
  have hfilter : (tokenize source options.dialect).tokens.filter (fun t => t.kind ≠ .invalid) =
      words.filter (fun t => t.kind ≠ .invalid) ++ [e] := by
    rw [hsplit, List.filter_append]
    simp [he]
  have ha : Token.Apart ((tokenize source options.dialect).tokens.filter fun t =>
      t.kind ≠ .invalid) := hspell.ordered.2.filter _
  rw [hfilter] at ha ⊢
  exact Grammar.tiled_read hfilter he (fun t ht => (hwords t (List.mem_filter.1 ht).1).1) ha h

/-- A union of two projections is a case in point. -/
theorem tiled_parse_union :
    let value (n : Nat) (span : Span) : Expression := .literal (.integer n) span
    let columns (n : Nat) (span : Span) : Projection Expression :=
      ⟨false, false, [⟨value n span, none, span⟩], [], none, none⟩
    let query : Query := ⟨[.returnColumns (columns 1 ⟨7, 8⟩) ⟨0, 8⟩],
      [⟨true, [.returnColumns (columns 2 ⟨26, 27⟩) ⟨19, 27⟩], ⟨9, 27⟩⟩], ⟨0, 27⟩⟩
    let document : Document := ⟨[.query query], ⟨0, 27⟩⟩
    (parse "RETURN 1 UNION ALL RETURN 2" .standard).document = some document ∧
      document.Tiled ((tokenize "RETURN 1 UNION ALL RETURN 2" .openCypher).tokens.filter fun t =>
        t.kind ≠ .invalid) := by
  intro value columns query document
  have htokens : (tokenize "RETURN 1 UNION ALL RETURN 2" .openCypher).tokens =
      [⟨.keyword .RETURN, "RETURN", ⟨0, 6⟩, 1, 1⟩, ⟨.integer "1", "1", ⟨7, 8⟩, 1, 8⟩,
        ⟨.keyword .UNION, "UNION", ⟨9, 14⟩, 1, 10⟩, ⟨.keyword .ALL, "ALL", ⟨15, 18⟩, 1, 16⟩,
        ⟨.keyword .RETURN, "RETURN", ⟨19, 25⟩, 1, 20⟩, ⟨.integer "2", "2", ⟨26, 27⟩, 1, 27⟩,
        ⟨.endOfInput, "", ⟨27, 27⟩, 1, 28⟩] := by decide +kernel
  have hparse : (parse "RETURN 1 UNION ALL RETURN 2" .standard).document = some document := by
    rw [document_parse, show Options.standard.dialect = .openCypher from rfl, htokens]
    rfl
  exact ⟨hparse, tiled_parse hparse⟩

end Cypher
