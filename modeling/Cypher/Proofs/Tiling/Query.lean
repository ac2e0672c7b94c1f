import Cypher.Proofs.Blocks
import Cypher.Proofs.Recovery

/-!
# Clauses tile their query

The clauses of a query are made of all its tokens but those that introduce its branches
(`Cypher.Query.Tiled`). This is so wherever mistakes are: the stand-in for a clause that could not
be read is as long as what has been skipped for it.

A clause begins at the token where its rule begins, and ends with the token that was passed last
(`Cypher.Grammar.span_of_clause`), so it is a block of tokens in the sense of `Cypher.Blocks`, and
blocks follow one another as the clauses do (`Cypher.Grammar.Tiles`).
-/

namespace Cypher

variable {setting : Setting} {inner : Inner}

/-! ### Tilings -/

/-- **Whether a token introduces a branch**: it is the word `UNION` at the start of the branch, or
the word `ALL` right behind that. -/
def UnionBranch.IsIntroducedBy (tokens : List Token) (b : UnionBranch Clause) (t : Token) : Prop :=
  (t.kind = .keyword .UNION ∧ t.span.start = b.span.start) ∨
    (b.all = true ∧ t.kind = .keyword .ALL ∧
      ∃ u, [u, t] <:+: tokens ∧ u.kind = .keyword .UNION ∧ u.span.start = b.span.start)

/-- **A query that is tiled by its clauses**, given all tokens. -/
structure Query.Tiled (tokens : List Token) (q : Query) : Prop where
  /-- No clause is empty. -/
  nonempty : ∀ c ∈ q.branches.flatten, c.span.start < c.span.stop
  /-- The clauses follow one another. -/
  ordered : q.branches.flatten.Pairwise fun c d => c.span.stop ≤ d.span.start
  /-- A token in the query that introduces none of its branches lies in one of its clauses. -/
  covered : ∀ t ∈ tokens, t.isIn q.span = true →
    (¬∃ b ∈ q.unions, b.IsIntroducedBy tokens t) →
    (q.branches.flatten.countP fun c => t.isIn c.span) = 1
  /-- A token that introduces one lies in none. -/
  introduced : ∀ t ∈ tokens, (∃ b ∈ q.unions, b.IsIntroducedBy tokens t) →
    (q.branches.flatten.countP fun c => t.isIn c.span) = 0

/-! ### The spans of clauses -/

/-- **A rule for a clause that begins at an offset** and ends with the token passed last. -/
def Rule.ClauseFrom (setting : Setting) (inner : Inner) (lo : Nat) (rule : Rule Clause) : Prop :=
  ∀ s c t, rule.run setting inner s = .done c t → c.span = t.cursor.spanFrom lo

namespace Rule.ClauseFrom

variable {lo : Nat} {β : Type}

theorem bind {rule : Rule β} {next : β → Rule Clause}
    (h : ∀ b, ClauseFrom setting inner lo (next b)) :
    ClauseFrom setting inner lo (rule >>= next) := by
  intro s c u hr
  obtain ⟨b, t, -, hu⟩ := done_of_bind hr
  exact h b t c u hu

theorem close {f : Span → Clause} (hf : ∀ span, (f span).span = span) :
    ClauseFrom setting inner lo (.look (.spanFrom lo) >>= fun span => Pure.pure (f span)) := by
  intro s c t hr
  cases hr
  exact hf _

theorem ite {condition : Prop} [Decidable condition] {rule other : Rule Clause}
    (h : ClauseFrom setting inner lo rule) (ho : ClauseFrom setting inner lo other) :
    ClauseFrom setting inner lo (if condition then rule else other) := by
  split
  · exact h
  · exact ho

/-- Where a rule begins with passing a token, the clause begins with that token. -/
theorem ofAdvance {next : Span → Rule Clause}
    (h : ∀ span : Span, ClauseFrom setting inner span.start (next span)) {s t : State} {c : Clause}
    (hr : (Rule.advance >>= next).run setting inner s = .done c t) :
    c.span = t.cursor.spanFrom s.cursor.front := h s.cursor.current.span s.step c t hr

/-- The same where a rule notes at first where it begins. -/
theorem ofStartHere {next : Nat → Rule Clause}
    (h : ∀ start, ClauseFrom setting inner start (next start)) {s t : State} {c : Clause}
    (hr : (Rule.startHere >>= next).run setting inner s = .done c t) :
    c.span = t.cursor.spanFrom s.cursor.front := h s.cursor.front s c t hr

end Rule.ClauseFrom

namespace Grammar

open Rule hiding pure bind

theorem span_of_whereClause {s t : State} {c : Clause}
    (hr : whereClause.run setting inner s = .done c t) :
    c.span = t.cursor.spanFrom s.cursor.front :=
  ClauseFrom.ofAdvance (fun _ => .bind fun _ => .close fun _ => rfl) hr

theorem span_of_matchClause {s t : State} {c : Clause}
    (hr : matchClause.run setting inner s = .done c t) :
    c.span = t.cursor.spanFrom s.cursor.front :=
  ClauseFrom.ofStartHere (fun _ => .bind fun _ => .bind fun _ => .bind fun _ =>
    .close fun _ => rfl) hr

theorem span_of_deleteClause {s t : State} {c : Clause}
    (hr : deleteClause.run setting inner s = .done c t) :
    c.span = t.cursor.spanFrom s.cursor.front :=
  ClauseFrom.ofStartHere (fun _ => .bind fun _ => .bind fun _ => .bind fun _ =>
    .close fun _ => rfl) hr

/-- **A clause begins where its rule begins** and ends with the token passed last. -/
theorem span_of_clause {s t : State} {c : Clause} (hr : clause.run setting inner s = .done c t) :
    c.span = t.cursor.spanFrom s.cursor.front := by
  obtain ⟨token, u, hu, hr⟩ := done_of_bind hr
  cases hu
  dsimp only at hr
  split at hr
  -- every kind of clause passes its first word at once or notes at first where it begins
  · split at hr
    · exact span_of_matchClause hr
    · exact span_of_matchClause hr
    · exact span_of_whereClause hr
    · exact ClauseFrom.ofAdvance (fun _ => .bind fun _ => .close fun _ => rfl) hr
    · exact ClauseFrom.ofAdvance (fun _ => .bind fun _ => .close fun _ => rfl) hr
    · exact ClauseFrom.ofAdvance (fun _ => .bind fun _ => .bind fun _ => .bind fun _ =>
        .close fun _ => rfl) hr
    · exact ClauseFrom.ofAdvance (fun _ => .bind fun _ => .close fun _ => rfl) hr
    · exact ClauseFrom.ofAdvance (fun _ => .bind fun _ => .bind fun _ => .close fun _ => rfl) hr
    · exact span_of_deleteClause hr
    · exact span_of_deleteClause hr
    · exact ClauseFrom.ofAdvance (fun _ => .bind fun _ => .close fun _ => rfl) hr
    · exact ClauseFrom.ofAdvance (fun _ => .bind fun _ => .close fun _ => rfl) hr
    · refine ClauseFrom.ofAdvance (fun _ => .bind fun _ => .ite ?_ (.bind fun _ =>
        .close fun _ => rfl)) hr
      exact .bind fun _ => .bind fun _ => .bind fun _ => .bind fun _ => .close fun _ => rfl
    · cases hr
  · cases hr

/-- **The stand-in for a clause begins where the clause would have begun.** -/
theorem span_of_clauseOrError {s t : State} {c : Clause}
    (hr : clauseOrError.run setting inner s = .done c t) :
    c.span = t.cursor.spanFrom s.cursor.front := by
  obtain ⟨_, u, hu, hr⟩ := done_of_bind hr
  cases hu
  obtain ⟨_, u, hu, hr⟩ := done_of_bind hr
  cases hu
  obtain ⟨c, u, hu, hr⟩ := done_of_bind hr
  cases hr
  rw [run] at hu
  cases hrun : clause.run setting inner s with
  | done b v =>
    rw [hrun] at hu
    cases hu
    have hspan := span_of_clause hrun
    exact hspan
  | failed d v =>
    rw [hrun] at hu
    dsimp only at hu
    split at hu
    · obtain ⟨_, w, -, hu⟩ := done_of_bind hu
      obtain ⟨_, x, -, hu⟩ := done_of_bind hu
      cases hu
      rfl
    · cases hu

/-! ### Between two states -/

/-- **Tokens between two states that fall into the spans of some things** and others in between. -/
structure Tiles {α : Type} (span : α → Span) (s t : State) (gaps : List Token) (xs : List α) :
    Prop where
  /-- The state goes on. -/
  onward : s.Onward t
  /-- The tokens that are passed are those in the spans and those in between. -/
  blocks : ∃ w, s.cursor.Across w t.cursor ∧ Blocks span w gaps xs

section Runs

variable {α : Type} {span : α → Span} {s t u : State} {gaps gaps' : List Token} {xs xs' : List α}

theorem Tiles.refl (s : State) : Tiles span s s [] [] := ⟨.refl s, [], .refl _, .nil⟩

theorem Tiles.trans (h : Tiles span s t gaps xs) (h' : Tiles span t u gaps' xs') :
    Tiles span s u (gaps ++ gaps') (xs ++ xs') := by
  obtain ⟨ho, w, hw, hb⟩ := h
  obtain ⟨ho', w', hw', hb'⟩ := h'
  exact ⟨ho.trans ho', w ++ w', hw.trans hw', hb.append hb'⟩

/-- All that counts are the cursors. -/
theorem Tiles.congr {s' t' : State} (h : Tiles span s t gaps xs) (hs : s'.cursor = s.cursor)
    (ht : t'.cursor = t.cursor) (ho : s'.Onward t') : Tiles span s' t' gaps xs :=
  ⟨ho, hs ▸ ht ▸ h.blocks⟩

/-- **Something that goes from one state to another.** -/
theorem tiles_single (ha : Token.Apart s.cursor.tokens) (ho : s.Onward t) (hlt : t.left < s.left)
    {x : α} (hspan : span x = t.cursor.spanFrom s.cursor.front) : Tiles span s t [] [x] := by
  obtain ⟨w, hw⟩ := ho.cursor.exists_across
  -- with nothing passed, as many tokens would be left as before
  have hne : w ≠ [] := by
    rintro rfl
    rw [State.left, hw.eq_of_nil] at hlt
    exact Nat.lt_irrefl _ hlt
  exact ⟨ho, w, hw, .single hne (hspan.trans (hw.spanFrom_eq ha hne))⟩

/-- A token that is not the end of the text is passed by moving on. -/
theorem tiles_step (hc : s.cursor.Closed) (hk : s.cursor.kind ≠ .endOfInput) :
    Tiles span s s.step [s.cursor.current] [] := by
  obtain ⟨u, us, hahead⟩ := List.exists_cons_of_ne_nil (hc.ahead_ne_nil hk)
  exact ⟨⟨s.cursor.onward_advance, ⟨[], rfl⟩, rfl⟩, _, .advance hahead, .between .nil⟩

end Runs

section Branches

variable (hi : inner.GoesOn) {all : List Token} (ha : Token.Apart all) {s t : State}

include hi ha

theorem tiles_nextClause (hs : s.cursor.Over all) {next : Option Clause}
    (hr : nextClause.run setting inner s = .done next t) :
    Tiles ClauseOf.span s t [] next.toList := by
  have ho := onward_of_done hi hr
  obtain ⟨ends, u, hu, hr⟩ := done_of_bind hr
  rw [run_atClausesEnd s] at hu
  obtain ⟨rfl, rfl⟩ := Outcome.done.inj hu
  split at hr
  · cases hr
    exact .refl s
  · next hends =>
    obtain ⟨c, u, hu, hr⟩ := done_of_bind hr
    cases hr
    have hmoves : MovesOn setting inner (fun _ => True) clauseOrError s :=
      movesOn_clauseOrError hi (Bool.eq_false_iff.2 hends)
    exact tiles_single (hs.tokens_eq ▸ ha) ho (hmoves hs.closed c _ hu trivial)
      (span_of_clauseOrError hu)

omit hi ha in
theorem cursor_of_requireClauses {context : String} {clauses : List Clause} {a : Unit}
    (hr : (requireClauses context clauses).run setting inner s = .done a t) :
    t.cursor = s.cursor := by
  unfold requireClauses at hr
  split at hr
  · rw [run] at hr
    split at hr
    · cases hr
      rfl
    · cases hr
  · cases hr
    rfl

/-- **The clauses of a branch are all its tokens.** -/
theorem tiles_branchIn (hs : s.cursor.Over all) {kind : ScopeKind} {context : String}
    {clauses : List Clause} (hr : (branchIn kind context).run setting inner s = .done clauses t) :
    Tiles ClauseOf.span s t [] clauses := by
  have ho := onward_of_done hi hr
  obtain ⟨clauses, u, hu, hr⟩ := done_of_bind hr
  obtain ⟨_, v, hv, hr⟩ := done_of_bind hr
  cases hr
  rw [branch, run] at hu
  cases hrun : (many nextClause []).run setting inner { s with scopes := s.scopes.push kind } with
  | failed d w =>
    rw [hrun] at hu
    cases hu
  | done found w =>
    rw [hrun] at hu
    cases hu
    -- the clauses found so far tile what has been passed so far
    have htiles := loop_induct
      (p := fun found x => Tiles ClauseOf.span { s with scopes := s.scopes.push kind } x [] found)
      (fun found x next y hx hy => ?_) (.refl _) hrun
    · have hcursor := cursor_of_requireClauses hv
      exact htiles.congr rfl hcursor ho
    · obtain ⟨c, y, hc, hy⟩ := done_of_bind hy
      cases hy
      have hover : x.cursor.Over all := Cursor.Over.onward (c := s.cursor) hs hx.onward.cursor
      have hnext := hx.trans (tiles_nextClause hi ha hover hc)
      cases c <;> simpa using hnext

omit hi in
/-- The words that introduce a branch, where the branch begins at a cursor. -/
theorem isIntroducedBy_iff (hs : s.cursor.Over all) (hk : s.cursor.kind = .keyword .UNION)
    {b : UnionBranch Clause} (hb : b.span.start = s.cursor.front) {x : Token} (hx : x ∈ all) :
    b.IsIntroducedBy all x ↔ x = s.cursor.current ∨
      b.all = true ∧ x.kind = .keyword .ALL ∧ x = s.cursor.advance.current := by
  have hcurrent : s.cursor.current ∈ all := hs.tokens_eq ▸ s.cursor.current_mem_tokens
  have hahead := hs.closed.ahead_ne_nil (hk ▸ TokenKind.noConfusion)
  have hnext : [s.cursor.current, s.cursor.advance.current] <:+: all :=
    hs.tokens_eq ▸ Cursor.infix_tokens hahead
  constructor
  · rintro (⟨-, hstart⟩ | ⟨hall, hkind, u, hux, -, hstart⟩)
    · exact .inl (ha.eq_of_start hx hcurrent (hstart.trans hb))
    · obtain rfl := ha.eq_of_start (hux.subset List.mem_cons_self) hcurrent (hstart.trans hb)
      exact .inr ⟨hall, hkind, ha.eq_of_infix hux hnext⟩
  · rintro (rfl | ⟨hall, hkind, rfl⟩)
    · exact .inl ⟨hk, hb.symm⟩
    · exact .inr ⟨hall, hkind, _, hnext, hk, hb.symm⟩

/-- **A branch behind a union** is made of its clauses and the tokens that introduce it. -/
theorem tiles_unionBranch (hs : s.cursor.Over all) {kind : ScopeKind}
    (hk : s.cursor.kind = .keyword .UNION) {b : UnionBranch Clause}
    (hr : (unionBranch kind).run setting inner s = .done b t) :
    ∃ gaps, Tiles ClauseOf.span s t gaps b.clauses ∧
      ∀ x ∈ all, b.IsIntroducedBy all x ↔ x ∈ gaps := by
  obtain ⟨word, u, hu, hr⟩ := done_of_bind hr
  cases hu
  obtain ⟨every, v, hv, hr⟩ := done_of_bind hr
  obtain ⟨clauses, w, hw, hr⟩ := done_of_bind hr
  cases hr
  have hword : Tiles ClauseOf.span s s.step [s.cursor.current] ([] : List Clause) :=
    tiles_step hs.closed (hk ▸ TokenKind.noConfusion)
  have hstep : s.step.cursor.Over all := hs.onward hword.onward.cursor
  -- the second word is passed if and only if it is there
  by_cases hall : s.step.cursor.kind = .keyword .ALL
  · obtain ⟨rfl, rfl⟩ := Outcome.done.inj ((run_consume_of_eq hall).symm.trans hv)
    have hboth := hword.trans (tiles_step hstep.closed (hall ▸ TokenKind.noConfusion))
    refine ⟨_, hboth.trans (tiles_branchIn hi ha (hs.onward hboth.onward.cursor) hw), ?_⟩
    intro x hx
    have hkind : x = s.cursor.advance.current → x.kind = .keyword .ALL := fun h => h ▸ hall
    rw [isIntroducedBy_iff ha hs hk rfl hx, and_iff_right rfl, and_iff_right_of_imp hkind]
    simp [State.step]
  · obtain ⟨rfl, rfl⟩ := Outcome.done.inj ((run_consume_of_ne hall).symm.trans hv)
    refine ⟨_, hword.trans (tiles_branchIn hi ha hstep hw), fun x hx => ?_⟩
    rw [isIntroducedBy_iff ha hs hk rfl hx]
    simp

/-- **All branches behind unions.** -/
theorem tiles_unions (hs : s.cursor.Over all) {kind : ScopeKind} {bs : List (UnionBranch Clause)}
    (hr : (many (optionally (atWord .UNION) (unionBranch kind)) []).run setting inner s =
      .done bs t) :
    ∃ gaps, Tiles ClauseOf.span s t gaps (bs.map (·.clauses)).flatten ∧
      ∀ x ∈ all, (∃ b ∈ bs, b.IsIntroducedBy all x) ↔ x ∈ gaps := by
  refine loop_induct (p := fun bs u => ∃ gaps,
    Tiles ClauseOf.span s u gaps (bs.map (·.clauses)).flatten ∧
      ∀ x ∈ all, (∃ b ∈ bs, b.IsIntroducedBy all x) ↔ x ∈ gaps) ?_ ⟨[], .refl s, by simp⟩ hr
  rintro bs u next v ⟨gaps, hu, hgaps⟩ hv
  obtain ⟨b, w, hw, hv⟩ := done_of_bind hv
  cases hv
  rcases done_of_optionally_isAt hw with ⟨b, hk, hb, rfl⟩ | ⟨rfl, rfl⟩
  · obtain ⟨more, hmore, hintro⟩ := tiles_unionBranch hi ha (hs.onward hu.onward.cursor) hk hb
    refine ⟨gaps ++ more, ?_, fun x hx => ?_⟩
    · simpa using hu.trans hmore
    · rw [List.mem_append, ← hgaps x hx, ← hintro x hx]
      simp [or_and_right, exists_or]
  · exact ⟨gaps, hu, hgaps⟩

omit hi in
/-- **A query that goes from one state to another** is tiled by the clauses between these. -/
theorem Tiles.tiled {gaps : List Token} {q : Query}
    (h : Tiles ClauseOf.span s t gaps q.branches.flatten) (hs : s.cursor.Over all)
    (hspan : q.span = t.cursor.spanFrom s.cursor.front)
    (hgaps : ∀ x ∈ all, (∃ b ∈ q.unions, b.IsIntroducedBy all x) ↔ x ∈ gaps) : q.Tiled all := by
  obtain ⟨-, w, hw, hblocks⟩ := h
  obtain rfl := hs.tokens_eq
  have hcount : ∀ x ∈ s.cursor.tokens,
      w.count x = gaps.count x + q.branches.flatten.countP fun c => x.isIn c.span := fun x hx =>
    hblocks.count (hw.tokens_eq ▸ ha) t.cursor.rest_ne_nil (hw.tokens_eq ▸ hx)
  have hnodup := Token.Apart.nodup_middle (hw.tokens_eq ▸ ha)
  obtain ⟨hnonempty, hordered⟩ := hblocks.ordered (hw.tokens_eq ▸ ha) t.cursor.rest_ne_nil
  -- a token that is passed once counts once, in a clause or in between
  refine ⟨hnonempty, hordered, fun x hx hin hnone => ?_, fun x hx hsome => ?_⟩
  · rw [hgaps x hx] at hnone
    rw [hspan, hw.isIn_spanFrom ha hx] at hin
    have := hcount x hx
    rw [List.count_eq_one_of_mem hnodup hin, List.count_eq_zero_of_not_mem hnone] at this
    omega
  · rw [hgaps x hx] at hsome
    have := hcount x hx
    have hle := List.nodup_iff_count_le_one.1 hnodup x
    have hpos := List.count_pos_iff.2 hsome
    omega

end Branches

/-! ### Queries -/

section Queries

variable (hi : inner.GoesOn) {all : List Token} (ha : Token.Apart all) {s t : State}

include hi ha

/-- **A query is tiled by its clauses.** -/
theorem tiled_query (hs : s.cursor.Over all) {kind : ScopeKind} {q : Query}
    (hr : (query kind).run setting inner s = .done q t) : q.Tiled all := by
  obtain ⟨_, _, hstart, hr⟩ := done_of_bind hr
  cases hstart
  obtain ⟨clauses, u, hu, hr⟩ := done_of_bind hr
  obtain ⟨unions, v, hv, hr⟩ := done_of_bind hr
  cases hr
  have hfirst := tiles_branchIn hi ha hs hu
  obtain ⟨gaps, hunions, hgaps⟩ := tiles_unions hi ha (hs.onward hfirst.onward.cursor) hv
  exact (hfirst.trans hunions).tiled ha hs rfl hgaps

omit hi ha in
theorem cursor_of_recordAll {clauses : List Clause} {a : Unit}
    (hr : (recordAll clauses).run setting inner s = .done a t) : t.cursor = s.cursor := by
  induction clauses generalizing s with
  | nil =>
    cases hr
    rfl
  | cons clause clauses ih =>
    obtain ⟨_, u, hu, hr⟩ := done_of_bind hr
    cases hu
    have hcursor := ih hr
    exact hcursor

omit ha in
theorem movesOn_pattern {p : Pattern Expression → Prop} : MovesOn setting inner p pattern s := by
  refine .bind_right hi fun start t ht => ?_
  cases ht
  exact .bind_left hi (.bind_left hi (movesOn_patternPart hi s))

omit hi ha in
theorem span_of_pattern {pattern : Pattern Expression}
    (hr : Grammar.pattern.run setting inner s = .done pattern t) :
    pattern.span = t.cursor.spanFrom s.cursor.front := by
  obtain ⟨_, _, hstart, hr⟩ := done_of_bind hr
  cases hstart
  obtain ⟨parts, u, -, hr⟩ := done_of_bind hr
  cases hr
  rfl

/-- The filter of a short form is a clause, if it is there. -/
theorem tiles_filter (hs : s.cursor.Over all) {filter : Option Clause}
    (hr : (optionally (atWord .WHERE) whereClause).run setting inner s = .done filter t) :
    Tiles ClauseOf.span s t [] filter.toList := by
  have ho := onward_of_done hi hr
  rcases done_of_optionally_isAt hr with ⟨c, hk, hc, rfl⟩ | ⟨rfl, rfl⟩
  · have hmoves : MovesOn setting inner (fun _ => True) whereClause s :=
      .bind_left hi (.advance (hk ▸ TokenKind.noConfusion))
    exact tiles_single (hs.tokens_eq ▸ ha) ho (hmoves hs.closed c t hc trivial)
      (span_of_whereClause hc)
  · exact .refl t

/-- The short form of a subquery is tiled by its pattern and its filter. -/
theorem tiled_patternBody (hs : s.cursor.Over all) {q : Query}
    (hr : patternBody.run setting inner s = .done q t) : q.Tiled all := by
  obtain ⟨_, _, hstart, hr⟩ := done_of_bind hr
  cases hstart
  obtain ⟨pattern, u, hu, hr⟩ := done_of_bind hr
  obtain ⟨filter, v, hv, hr⟩ := done_of_bind hr
  obtain ⟨_, w, hw, hr⟩ := done_of_bind hr
  cases hr
  have hpattern : Tiles ClauseOf.span s u [] [.matchPattern false pattern pattern.span] :=
    tiles_single (hs.tokens_eq ▸ ha) (onward_of_done hi hu)
      (movesOn_pattern (p := fun _ => True) hi hs.closed pattern u hu trivial) (span_of_pattern hu)
  have hall := hpattern.trans (tiles_filter hi ha (hs.onward hpattern.onward.cursor) hv)
  have hcursor := cursor_of_recordAll hw
  have ho := (onward_of_done hi hu).trans ((onward_of_done hi hv).trans (onward_of_done hi hw))
  have hflat : (QueryOf.branches ⟨.matchPattern false pattern pattern.span :: filter.toList, [],
      t.cursor.spanFrom s.cursor.front⟩).flatten =
      [.matchPattern false pattern pattern.span] ++ filter.toList := by
    simp [QueryOf.branches]
  refine Tiles.tiled ha (hflat ▸ hall.congr rfl hcursor ho) hs rfl fun x hx => ?_
  simp

end Queries

end Grammar

end Cypher
