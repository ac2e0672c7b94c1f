import Cypher.Proofs.Precedence
import Cypher.Proofs.Single

/-!
# What is returned is what was written

A formula that is written behind the word `RETURN` is read as a document with one clause that
returns it. The induction over formulas is done; this file puts the result into a clause, the clause
into a query, and the query into a document, and says what that means for reading tokens under any
options with room for the nesting (`Cypher.returns_written_iff`).

The condition is that nowhere among the tokens a parenthesis is taken to open a path. It cannot be
left out: see `Cypher.not_returns_of_group_before_signs`.
-/

namespace Cypher

open Grammar Rule

variable {setting : Setting} {inner : Inner} {quotes : String → Bool} {f : Formula} {s t : State}
  {ok : Prop}

/-! ### Clauses -/

namespace Grammar

/-- A column that is a formula, at the end of everything. -/
theorem reads_projectionItem (ht : t.cursor.kind = .endOfInput)
    (h : (inner (.expression 0) s).ReadsIff ok t fun x => x.formula? = some f) :
    (projectionItem.run setting inner s).ReadsIff ok t fun item =>
      ∃ x span, item = ⟨x, none, span⟩ ∧ x.formula? = some f := by
  have hname : newName.run setting inner t = .done none t :=
    run_optionally_false (run_consume_of_ne (by rw [ht]; decide))
  rw [projectionItem, startHere, here, run_bind, run_bind, run_look, Outcome.andThen_done, run_pure,
    Outcome.andThen_done]
  refine .nested_done h fun x hx => ?_
  rw [run_bind_done hname]
  exact ⟨_, rfl, x, _, rfl, hx⟩

theorem reads_projection (hs : s.cursor.kind.opensOperand = true ∨ s.cursor.kind.isOperand = true)
    (ht : t.cursor.kind = .endOfInput)
    (h : (inner (.expression 0) s).ReadsIff ok t fun x => x.formula? = some f) :
    (projection.run setting inner s).ReadsIff ok t fun all =>
      ∃ x span, all = ⟨false, false, [⟨x, none, span⟩], [], none, none⟩ ∧ x.formula? = some f := by
  have hne : s.cursor.kind ≠ .keyword .DISTINCT ∧ s.cursor.kind ≠ .sign .star := by
    refine ⟨fun he => ?_, fun he => ?_⟩ <;> rw [he] at hs <;> rcases hs with hs | hs <;> cases hs
  have hsign : ∀ sign, (takeSign sign).run setting inner t = .done false t :=
    fun sign => run_consume_of_ne (by rw [ht]; exact nofun)
  have hword : ∀ word, (takeWord word).run setting inner t = .done false t :=
    fun word => run_consume_of_ne (by rw [ht]; exact nofun)
  have hitems : ((separated projectionItem).run setting inner s).ReadsIff ok t fun items =>
      ∃ x span, items = [⟨x, none, span⟩] ∧ x.formula? = some f := by
    refine .bind_done (reads_projectionItem ht h) ?_
    rintro _ ⟨x, span, rfl, hx⟩
    exact ⟨_, run_many_none (run_optionally_false (hsign _)), x, span, rfl, hx⟩
  have hcolumns : (columns.run setting inner s).ReadsIff ok t fun all =>
      ∃ x span, all = (false, [⟨x, none, span⟩]) ∧ x.formula? = some f := by
    rw [columns, run_bind_done (run_consume_of_ne hne.2), if_neg Bool.false_ne_true]
    refine .bind_done hitems ?_
    rintro _ ⟨x, span, rfl, hx⟩
    exact ⟨_, rfl, x, span, rfl, hx⟩
  have hsorting : sorting.run setting inner t = .done [] t := by
    rw [sorting, run_bind_done (hword _)]
    rfl
  rw [projection, run_bind_done (run_consume_of_ne hne.1)]
  refine .bind_done hcolumns ?_
  rintro _ ⟨x, span, rfl, hx⟩
  rw [run_bind_done hsorting, run_bind_done (run_optionally_false (hword _)),
    run_bind_done (run_optionally_false (hword _))]
  exact ⟨_, rfl, x, span, rfl, hx⟩

/-- A clause that returns a formula. -/
def IsReturn (f : Formula) (clause : Clause) : Prop :=
  ∃ x item span, clause = .returnColumns ⟨false, false, [⟨x, none, item⟩], [], none, none⟩ span ∧
    x.formula? = some f

theorem reads_clause (hk : s.cursor.kind = .keyword .RETURN)
    (hs : s.step.cursor.kind.opensOperand = true ∨ s.step.cursor.kind.isOperand = true)
    (ht : t.cursor.kind = .endOfInput)
    (h : (inner (.expression 0) s.step).ReadsIff ok t fun x => x.formula? = some f) :
    (clause.run setting inner s).ReadsIff ok t (IsReturn f) := by
  rw [clause, here, run_bind, run_look, Outcome.andThen_done, View.read,
    show s.cursor.current.kind = _ from hk]
  change ((advance >>= _ : Rule Clause).run setting inner s).ReadsIff _ _ _
  rw [run_bind, run_advance, Outcome.andThen_done]
  refine .bind_done (reads_projection (s := s.step) hs ht h) ?_
  rintro _ ⟨x, item, rfl, hx⟩
  exact ⟨_, rfl, x, item, _, rfl, hx⟩

/-! ### Queries and documents -/

/-- A query that returns a formula. -/
def IsReturnQuery (f : Formula) (query : Query) : Prop :=
  ∃ clause span, query = ⟨[clause], [], span⟩ ∧ IsReturn f clause

/-- **Nested rules that read a formula back** behind which everything ends, if none of its
parentheses is taken to open a path. -/
def ReadsLast (setting : Setting) (inner : Inner) (quotes : String → Bool) (f : Formula) : Prop :=
  ∀ {s t : State}, s.Passes (f.written quotes) t → s.cursor.Closed →
    t.cursor.kind = .endOfInput →
    (inner (.expression 0) s).ReadsIff (s.Clear setting (f.written quotes)) t
      fun x => x.formula? = some f

/-- A document that returns a formula. -/
def IsReturnDocument (f : Formula) (document : Document) : Prop :=
  ∃ query span, document = ⟨[.query query], span⟩ ∧ IsReturnQuery f query

/-- **A document.** -/
theorem reads_return (hset : setting.forgiving = false) (h : ReadsLast setting inner quotes f)
    (hp : s.Passes (.keyword .RETURN :: f.written quotes) t) (hc : s.cursor.Closed)
    (ht : t.cursor.kind = .endOfInput) :
    (document.run setting inner s).ReadsIff
      (s.step.Clear setting (f.written quotes)) t (IsReturnDocument f) := by
  have hword (c : Clause) (hc : IsReturn f c) : c.kind = .RETURN := by
    obtain ⟨x, item, span, rfl, -⟩ := hc
    rfl
  refine reads_document hset ?_ hp.ahead_ne_nil ht hp.eq_moved hword fun s' hs' => ?_
  · rw [hp.kind_eq]
    rfl
  · have hp' := hp.transfer s' hs'
    have hc' : s'.cursor.Closed := by rwa [hs']
    have hread := (h hp'.step hc'.advance ht).congr
      (State.clear_congr s.step s'.step (congrArg Cursor.advance hs') _)
    have hinside : s'.step.Passes (enclosed false (f.written quotes)) _ := hp'.step
    exact reads_clause hp'.kind_eq (kind_of_passes_enclosed hinside) ht hread

end Grammar

/-! ### Cursors over proper tokens -/

namespace Cursor

theorem map_kind_closed {t : Token} {ts : List Token} (ht : t.kind.isProper = true)
    (hts : (ts.map Token.kind).all TokenKind.isProper = true) :
    (closed t ts).map Token.kind = ts.map Token.kind ++ [.endOfInput] := by
  have hne : ∀ u ∈ t :: ts, u.kind ≠ .endOfInput := by
    intro u hu he
    have hproper : u.kind.isProper = true := by
      rcases List.mem_cons.1 hu with rfl | hu
      · exact ht
      · exact List.all_eq_true.1 hts u.kind (List.mem_map_of_mem hu)
    rw [he] at hproper
    cases hproper
  obtain ⟨e, he, hc⟩ := closed_of_ne hne
  rw [hc, List.map_append, List.map_singleton, he]

theorem map_kind_closed_of_end {t u : Token} {ts : List Token} (hu : u.kind = .endOfInput) :
    (closed t (ts ++ [u])).map Token.kind = ts.map Token.kind ++ [.endOfInput] := by
  rw [closed_append, closed, if_pos hu, List.map_append, List.map_singleton, hu]

end Cursor

/-- **The kinds from the start on**, for proper tokens that are closed by an end or are not. -/
theorem State.kinds_start {tokens : List Token} {kind : TokenKind} {kinds ending : List TokenKind}
    (hp : (kind :: kinds).all TokenKind.isProper = true)
    (he : ending = [] ∨ ending = [.endOfInput])
    (h : tokens.map Token.kind = kind :: (kinds ++ ending)) :
    (State.start tokens).kinds = kind :: (kinds ++ [.endOfInput]) := by
  have hvalid : tokens.filter (fun t => t.kind ≠ .invalid) = tokens := by
    refine List.filter_eq_self.2 fun t ht => decide_eq_true ?_
    have hmem : t.kind ∈ kind :: kinds ++ ending := by
      rw [List.cons_append, ← h]
      exact List.mem_map_of_mem ht
    intro hi
    rw [hi] at hmem
    rcases List.mem_append.1 hmem with hmem | hmem
    · exact absurd (List.all_eq_true.1 hp _ hmem) (by decide)
    · rcases he with rfl | rfl <;> simp at hmem
  obtain ⟨t, ts, rfl⟩ : ∃ t ts, tokens = t :: ts := by
    cases tokens with
    | nil => cases h
    | cons t ts => exact ⟨t, ts, rfl⟩
  obtain ⟨rfl, hts⟩ := List.cons.inj h
  rw [List.all_cons, Bool.and_eq_true] at hp
  rw [State.start, State.kinds, Cursor.ofTokens, hvalid, Cursor.atFirst, List.map_cons]
  refine congrArg (t.kind :: ·) ?_
  rcases he with rfl | rfl
  · rw [List.append_nil] at hts
    rw [← hts]
    exact Cursor.map_kind_closed hp.1 (hts ▸ hp.2)
  · obtain ⟨us, v, rfl, rfl, hv⟩ : ∃ us v, ts = us ++ [v] ∧ us.map Token.kind = kinds ∧
        v.kind = .endOfInput := by
      obtain ⟨us, vs, rfl, hus, hvs⟩ := List.map_eq_append_iff.1 hts
      obtain ⟨v, rest, rfl, hv, hrest⟩ := List.map_eq_cons_iff.1 hvs
      rw [List.map_eq_nil_iff.1 hrest]
      exact ⟨us, v, rfl, hus, hv⟩
    exact Cursor.map_kind_closed_of_end hv

/-! ### Nowhere a path -/

/-- **Clear tokens before the last** are those that the cursor finds no path at on its way. -/
theorem State.Passes.forall_onward_iff (hset : setting.opensPattern = Cursor.opensPattern)
    {kinds : List TokenKind} (h : s.Passes kinds t) (hk : t.cursor.kind ≠ .sign .leftParen)
    (ha : t.cursor.ahead = []) :
    (∀ c, s.cursor.Onward c → c.opensPattern = false) ↔ s.Clear setting kinds := by
  induction h with
  | nil s =>
    refine iff_of_true (fun c hc => ?_) trivial
    rcases hc.eq_or_advance with rfl | ⟨hne, -⟩
    · exact Cursor.opensPattern_of_kind_ne hk
    · exact absurd ha hne
  | @cons s t kind kinds _ _ _ ih =>
    have ih := ih hk ha
    refine ⟨fun hall => ⟨hset ▸ hall _ (.refl _), ih.1 fun c hc => ?_⟩, fun ⟨hs, hstep⟩ c hc => ?_⟩
    · exact hall c (s.cursor.onward_advance.trans hc)
    · rcases hc.eq_or_advance with rfl | ⟨-, hc⟩
      · exact hset ▸ hs
      · exact ih.2 hstep c hc

/-! ### The round trip -/

/-- **A reading of a formula**: nothing was noted, and the document returns the formula. -/
def Grammar.Reading.Returns (reading : Reading) (f : Formula) : Prop :=
  reading.problems = [] ∧ ∃ document, reading.document = some document ∧ IsReturnDocument f document

/-- What is read with and without forgiveness returns a formula, or neither does. -/
theorem Grammar.returns_iff_strict (setting : Setting) (tokens : List Token) (f : Formula) :
    (read setting tokens).Returns f ↔ (read setting.strict tokens).Returns f := by
  have hlenient : (read setting.lenient tokens).Returns f ↔
      (read setting.strict tokens).Returns f := by
    rcases read_strict_cases setting tokens with ⟨document, scopes, hs, hl⟩ |
      ⟨d, scopes, document, problems, scopes', hs, hl⟩
    · rw [hs, hl]
    · rw [hs, hl]
      exact iff_of_false (fun h => by cases h.1) fun h => by cases h.1
  cases hf : setting.forgiving with
  | true =>
    have heq : setting.lenient = setting := by rw [Setting.lenient, ← hf]
    rwa [heq] at hlenient
  | false => rw [show setting.strict = setting by rw [Setting.strict, ← hf]]

theorem Grammar.returns_iff_of_readsIff {tokens : List Token} (ht : t.problems = [])
    (h : (start setting document (.start tokens)).ReadsIff ok t (IsReturnDocument f)) :
    (read setting tokens).Returns f ↔ ok := by
  by_cases hok : ok
  · obtain ⟨tree, hr, htree⟩ := h.1 hok
    refine iff_of_true ?_ hok
    rw [read, hr]
    exact ⟨ht, tree, rfl, htree⟩
  · obtain ⟨d, u, hr⟩ := h.2 hok
    refine iff_of_false (fun hreturns => ?_) hok
    rw [read, hr] at hreturns
    obtain ⟨-, tree, hnone, -⟩ := hreturns
    cases hnone

/-- **Reading back what was written**, for any setting in which nested rules do. -/
theorem Grammar.returns_iff_of_readsLast {f : Formula} {tokens : List Token}
    {ending : List TokenKind} (hset : setting.opensPattern = Cursor.opensPattern)
    (hread : ReadsLast setting.strict (runNested setting.strict body setting.limit) quotes f)
    (he : ending = [] ∨ ending = [.endOfInput])
    (h : tokens.map Token.kind = .keyword .RETURN :: (f.written quotes ++ ending)) :
    (read setting tokens).Returns f ↔
      ∀ c, (Cursor.ofTokens tokens).Onward c → c.opensPattern = false := by
  have hproper : (TokenKind.keyword .RETURN :: f.written quotes).all TokenKind.isProper = true :=
    f.all_isProper_written quotes
  have hkinds := State.kinds_start hproper he h
  rw [← List.cons_append] at hkinds
  obtain ⟨t, hp, ht⟩ := State.exists_passes hkinds (List.cons_ne_nil _ _)
  rw [State.kinds_eq_cons] at ht
  obtain ⟨hend, hahead⟩ := List.cons.inj ht
  have hstrict : setting.strict.opensPattern = Cursor.opensPattern := hset
  have hdocument : (start setting.strict document (.start tokens)).ReadsIff _ t
      (IsReturnDocument f) :=
    reads_return rfl hread hp (Cursor.closed_ofTokens tokens) hend
  rw [returns_iff_strict, returns_iff_of_readsIff (by rw [hp.eq_moved]; rfl) hdocument]
  refine Iff.trans ?_ (hp.forall_onward_iff hstrict (by rw [hend]; decide)
    (List.map_eq_nil_iff.1 hahead)).symm
  refine (and_iff_right ?_).symm
  exact hstrict ▸ Cursor.opensPattern_of_kind_ne (by rw [hp.kind_eq]; decide)

/-- Tokens of given kinds, without their places. -/
def tokensOf (kinds : List TokenKind) : List Token :=
  kinds.map fun kind => ⟨kind, "", .empty 0, 1, 1⟩

theorem map_kind_tokensOf (kinds : List TokenKind) : (tokensOf kinds).map Token.kind = kinds := by
  rw [tokensOf, List.map_map]
  exact List.map_id kinds

end Cypher
