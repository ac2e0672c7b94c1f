import Cypher.Proofs.Lookout.Document
import Cypher.Proofs.Merge.Writing
import Cypher.Proofs.Tiling.Document

/-!
# Merges in a document

A merge that is written somewhere in a text is one clause of a query, with all its actions, and none
of their words begins another (`Cypher.merges_kept`). This is so wherever the query is, be it in the
middle of an expression, as long as no mistake is found in the text. All that is asked of the place
is that the word for the merge be none that stands for a name there, such as that of a procedure
behind `CALL`.

In such a place a clause begins with the word, as a lookout for it finds
(`Cypher.Lookout.exists_query`). Where a merge begins, a clause has been read. That is what a ledger
knows of every query (`Cypher.Ledger.merges`), and a clause that begins with the word for a merge
can be nothing else. It may have been read with little room for nesting. But a clause that can be
read in little room is the same with more room (`Cypher.Grammar.eq_of_rooms`), and with all the room
there is a merge is read as it is written.
-/

namespace Cypher

open Token (hull)

variable {setting : Setting}

namespace Grammar

open Rule hiding pure bind
open Rule (ReadsFrom)

/-! ### Any room will do -/

section Room

variable {s t : State} {c : Clause} {room : Nat}

/-- Where mistakes are not forgiven, what has been noted before makes no difference to a clause. -/
theorem exists_run_of_noted (hf : setting.forgiving = false)
    (hp : setting.opensPattern = Cursor.opensPattern) (hc : s.cursor.Closed)
    (hr : clause.run setting (runNested setting body room) s = .done c t) :
    ∃ u, clause.run setting (runNested setting body room) { s with problems := [] } = .done c u ∧
      u.problems = [] := by
  let p : Parallel setting := .behind hp [] (fun hfor => nomatch hf.symm.trans hfor) s.problems
  have hstates : p.States { s with problems := [] } s :=
    ⟨by simp [p, Parallel.behind, Cursor.onto], .rfl, (List.append_nil _).symm, hc, hc⟩
  have hagree := agree_clause (parallel_runNested p room) hstates rfl
  rw [Parallel.Agree, hr] at hagree
  generalize ho : clause.run setting (runNested setting body room) { s with problems := [] } = o
    at hagree
  cases hagree with
  | lost gone => exact gone.elim
  | done c states =>
    have hkept := problems_of_done hf ho
    exact ⟨_, rfl, hkept⟩

/-- **A clause is the same in any room**, if it can be read. -/
theorem eq_of_rooms {other : Nat} {c' : Clause} {t' : State} (hf : setting.forgiving = false)
    (hp : setting.opensPattern = Cursor.opensPattern) (hc : s.cursor.Closed)
    (hr : clause.run setting (runNested setting body room) s = .done c t)
    (hr' : clause.run setting (runNested setting body other) s = .done c' t') : c = c' := by
  have hwide {c : Clause} {t : State} {room more : Nat} (hle : room ≤ more)
      (hr : clause.run setting (runNested setting body room) s = .done c t) :
      ∃ u, clause.run setting (runNested setting body more) { s with problems := [] } =
        .done c u := by
    obtain ⟨u, hu, hnone⟩ := exists_run_of_noted hf hp hc hr
    have hsettles : (clause.run setting (runNested setting body room)
        { s with problems := [] }).Settles
          (clause.run setting (runNested setting body more) { s with problems := [] }) :=
      settles_run (settles_runNested body hle) clause _
    rcases hsettles with hran | heq
    · rw [hu] at hran
      obtain ⟨d, hd, -⟩ := hran
      rw [hnone] at hd
      cases hd
    · exact ⟨u, heq.trans hu⟩
  obtain ⟨u, hu⟩ := hwide (Nat.le_max_left room other) hr
  obtain ⟨u', hu'⟩ := hwide (Nat.le_max_right room other) hr'
  exact (Outcome.done.inj (hu.symm.trans hu')).1

end Room

/-! ### Clauses that have been read -/

/-- **A clause that has been read** in a scope, among given tokens. -/
def HasRead (setting : Setting) (all : List Token) (c : Clause) (s : State) : Prop :=
  s.cursor.Over all ∧ 0 < s.scopes.depth ∧ ∃ room t,
    clause.run setting (runNested setting body room) s = .done c t

section Queries

variable {all : List Token} {s t : State} {room : Nat} (hf : setting.forgiving = false)

include hf

theorem hasRead_of_clauseOrError {c : Clause} (hs : s.cursor.Over all) (hd : 0 < s.scopes.depth)
    (hr : clauseOrError.run setting (runNested setting body room) s = .done c t) :
    HasRead setting all c s := by
  obtain ⟨_, _, ⟨⟩, hr⟩ := done_of_bind hr
  obtain ⟨_, _, ⟨⟩, hr⟩ := done_of_bind hr
  obtain ⟨c, u, hu, hr⟩ := done_of_bind hr
  cases hr
  rw [run] at hu
  split at hu
  · next hrun =>
    cases hu
    exact ⟨hs, hd, room, _, hrun⟩
  · rw [hf, if_neg Bool.false_ne_true] at hu
    cases hu

/-- Every clause of a branch has been read. -/
theorem hasRead_of_branchIn (hs : s.cursor.Over all) {kind : ScopeKind} {context : String}
    {clauses : List Clause}
    (hr : (branchIn kind context).run setting (runNested setting body room) s = .done clauses t) :
    ∀ c ∈ clauses, ∃ u, HasRead setting all c u := by
  have hi : Inner.GoesOn (runNested setting body room) := goesOn_runNested setting body room
  obtain ⟨clauses, u, hu, hr⟩ := done_of_bind hr
  obtain ⟨_, v, hv, hr⟩ := done_of_bind hr
  cases hr
  rw [branch, run] at hu
  cases hrun : (many nextClause []).run setting (runNested setting body room)
    { s with scopes := s.scopes.push kind } with
  | failed d w =>
    rw [hrun] at hu
    cases hu
  | done found w =>
    rw [hrun] at hu
    cases hu
    -- every clause found so far has been read in the scope of the branch
    refine (loop_induct (p := fun found x =>
      State.Onward { s with scopes := s.scopes.push kind } x ∧
        ∀ c ∈ found, ∃ u, HasRead setting all c u)
      (fun found x next y hx hy => ?_) ⟨.refl _, by simp⟩ hrun).2
    obtain ⟨c, y, hc, hy⟩ := done_of_bind hy
    cases hy
    obtain ⟨ho, hfound⟩ := hx
    refine ⟨ho.trans (onward_of_done hi hc), ?_⟩
    obtain ⟨ends, z, hz, hc⟩ := done_of_bind hc
    rw [run_atClausesEnd] at hz
    cases hz
    split at hc
    · cases hc
      exact hfound
    · obtain ⟨c, z, hz, hc⟩ := done_of_bind hc
      cases hc
      exact List.forall_mem_append.2 ⟨hfound, List.forall_mem_singleton.2 ⟨x,
        hasRead_of_clauseOrError hf (hs.onward ho.cursor) (ho.depth_scopes ▸ Nat.succ_pos _) hz⟩⟩

/-- Every clause of a branch behind a union has been read. -/
theorem hasRead_of_unions (hs : s.cursor.Over all) {kind : ScopeKind}
    {branches : List (UnionBranch Clause)}
    (hr : (many (optionally (atWord .UNION) (unionBranch kind)) []).run setting
      (runNested setting body room) s = .done branches t) :
    ∀ c ∈ (branches.map (·.clauses)).flatten, ∃ u, HasRead setting all c u := by
  have hi : Inner.GoesOn (runNested setting body room) := goesOn_runNested setting body room
  refine (loop_induct (p := fun branches x => s.Onward x ∧
    ∀ c ∈ (branches.map (·.clauses)).flatten, ∃ u, HasRead setting all c u)
    (fun branches x next y hx hy => ?_) ⟨.refl s, by simp⟩ hr).2
  obtain ⟨ho, hfound⟩ := hx
  obtain ⟨b, z, hz, hy⟩ := done_of_bind hy
  cases hy
  refine ⟨ho.trans (onward_of_done hi hz), ?_⟩
  rcases done_of_optionally_isAt hz with ⟨b, -, hb, rfl⟩ | ⟨rfl, -⟩
  · have hx : x.cursor.Over all := hs.onward ho.cursor
    obtain ⟨_, v, hv, hb⟩ := done_of_bind hb
    obtain ⟨_, w, hw, hb⟩ := done_of_bind hb
    obtain ⟨clauses, _, hbranch, hb⟩ := done_of_bind hb
    cases hb
    have hclauses := hasRead_of_branchIn hf
      ((hx.onward (onward_of_done hi hv).cursor).onward (onward_of_done hi hw).cursor) hbranch
    rw [Option.map_some, Option.getD_some, List.map_append, List.flatten_append]
    exact List.forall_mem_append.2 ⟨hfound, by simpa using hclauses⟩
  · exact hfound

/-- **Every clause of a query has been read.** -/
theorem hasRead_of_query (hs : s.cursor.Over all) {kind : ScopeKind} {q : Query}
    (hr : (query kind).run setting (runNested setting body room) s = .done q t) :
    ∀ c ∈ q.branches.flatten, ∃ u, HasRead setting all c u := by
  have hi : Inner.GoesOn (runNested setting body room) := goesOn_runNested setting body room
  obtain ⟨_, _, ⟨⟩, hr⟩ := done_of_bind hr
  obtain ⟨clauses, u, hu, hr⟩ := done_of_bind hr
  obtain ⟨unions, v, hv, hr⟩ := done_of_bind hr
  cases hr
  exact List.forall_mem_append.2 ⟨hasRead_of_branchIn hf hs hu,
    hasRead_of_unions hf (hs.onward (onward_of_done hi hu).cursor) hv⟩

omit hf in
/-- No pattern begins with a reserved word. -/
theorem kind_ne_of_pattern {inner : Inner} {pattern : Pattern Expression}
    (hr : Grammar.pattern.run setting inner s = .done pattern t) (word : Keyword) :
    s.cursor.kind ≠ .keyword word := by
  intro hk
  obtain ⟨_, _, ⟨⟩, hr⟩ := done_of_bind hr
  obtain ⟨parts, _, hr, -⟩ := done_of_bind hr
  obtain ⟨part, _, hr, -⟩ := done_of_bind hr
  obtain ⟨_, _, ⟨⟩, hr⟩ := done_of_bind hr
  have hnone : (optionally (atVariableBefore (.sign .eq)) pathName).run setting inner s =
      .done none s := run_optionally_false (by rw [run_atVariableBefore, hk]; rfl)
  rw [run_bind_done hnone] at hr
  obtain ⟨node, _, hr, -⟩ := done_of_bind hr
  obtain ⟨_, _, hr, -⟩ := done_of_bind hr
  cases hk.symm.trans (of_expect hr).1

omit hf in
/-- No clause of the short form of a subquery begins with the word for a merge. -/
theorem front_ne_of_patternBody (ha : Token.Apart all) (hs : s.cursor.Over all) {q : Query}
    (hr : patternBody.run setting (runNested setting body room) s = .done q t) {x : Token}
    (hx : x ∈ all) (hk : x.kind = .keyword .MERGE) :
    ∀ c ∈ q.branches.flatten, c.span.start ≠ x.span.start := by
  have hi : Inner.GoesOn (runNested setting body room) := goesOn_runNested setting body room
  obtain ⟨_, _, ⟨⟩, hr⟩ := done_of_bind hr
  obtain ⟨pattern, u, hu, hr⟩ := done_of_bind hr
  obtain ⟨filter, v, hv, hr⟩ := done_of_bind hr
  obtain ⟨_, _, -, hr⟩ := done_of_bind hr
  cases hr
  have hplace {y : State} (hy : y.cursor.Over all) (hfront : y.cursor.front = x.span.start) :
      y.cursor.kind = .keyword .MERGE := by
    rw [Cursor.kind, ha.eq_of_start (hy.tokens_eq ▸ y.cursor.current_mem_tokens) hx hfront, hk]
  intro c hc hfront
  rw [QueryOf.branches, List.map_nil, List.flatten_cons, List.flatten_nil, List.append_nil] at hc
  rcases List.mem_cons.1 hc with rfl | hc
  · have hstart : s.cursor.front = x.span.start := by
      rw [← hfront]
      exact (congrArg Span.start (span_of_pattern hu)).symm
    exact kind_ne_of_pattern hu .MERGE (hplace hs hstart)
  · rcases done_of_optionally_isAt hv with ⟨d, hwhere, hd, rfl⟩ | ⟨rfl, -⟩
    · obtain rfl := List.mem_singleton.1 hc
      have hstart : u.cursor.front = x.span.start := by
        rw [← hfront, span_of_whereClause hd]
        rfl
      cases hwhere.symm.trans (hplace (hs.onward (onward_of_done hi hu).cursor) hstart)
    · cases hc

end Queries

end Grammar

/-! ### The ledger of merges -/

/-- **The demand that what stands where a merge begins has been read there.** -/
def Element.AsksMerges (setting : Setting) (all : List Token) : Element → Prop
  | query q => ∀ c ∈ q.branches.flatten, ∀ x ∈ all, x.kind = .keyword .MERGE →
      c.span.start = x.span.start → ∃ s, s.cursor.current = x ∧ Grammar.HasRead setting all c s
  | _ => True

section Ledger

variable {all : List Token} {s t : State} {room : Nat} {q : Query}

/-- Nothing is asked of elements other than queries. -/
theorem Element.asksMerges_of_isPlain {e : Element} (h : e.isPlain = true) :
    e.AsksMerges setting all := by
  unfold AsksMerges
  split
  · cases h
  · trivial

theorem Element.asksMerges_of_query (hf : setting.forgiving = false) (ha : Token.Apart all)
    (hs : s.cursor.Over all) {kind : ScopeKind}
    (hr : (Grammar.query kind).run setting (Rule.runNested setting Grammar.body room) s =
      .done q t) : (Element.query q).AsksMerges setting all := by
  intro c hc x hx _ hstart
  obtain ⟨u, hover, hscope, more, v, hrun⟩ := Grammar.hasRead_of_query hf hs hr c hc
  refine ⟨u, ?_, hover, hscope, more, v, hrun⟩
  have hfront : u.cursor.front = x.span.start := by
    rw [← hstart, Grammar.span_of_clause hrun]
    rfl
  exact ha.eq_of_start (hover.tokens_eq ▸ u.cursor.current_mem_tokens) hx hfront

theorem Element.asksMerges_of_patternBody (ha : Token.Apart all) (hs : s.cursor.Over all)
    (hr : Grammar.patternBody.run setting (Rule.runNested setting Grammar.body room) s =
      .done q t) : (Element.query q).AsksMerges setting all :=
  fun c hc _ hx hk hstart => absurd hstart (Grammar.front_ne_of_patternBody ha hs hr hx hk c hc)

end Ledger

/-- **The ledger of merges**, in which problems do not count. -/
def Ledger.merges {setting : Setting} (hf : setting.forgiving = false) {all : List Token}
    (ha : Token.Apart all) : Ledger setting where
  demand := Element.AsksMerges setting all
  counts := False
  known c := c.Over all
  advance := Cursor.Over.advance
  plain := Element.asksMerges_of_isPlain
  relationship _ _ _ := trivial
  integer _ _ _ := trivial
  least _ _ _ := trivial
  call _ _ _ _ _ _ := trivial
  suffix _ _ _ _ := trivial
  nullTest _ _ _ _ _ := trivial
  operation _ _ _ _ := trivial
  clauseError _ := iff_of_true trivial id
  statementError _ := iff_of_true trivial id
  branch _ := iff_of_true trivial False.elim
  query h hr := iff_of_true (Element.asksMerges_of_query hf ha h hr) False.elim
  patternBody h hr := Element.asksMerges_of_patternBody ha h hr

/-! ### One clause for one merge -/

section Merge

variable {all before w after : List Token} {edge : Token} {q : Query} {c : Clause}

/-- What is in the middle is not at the end. -/
theorem mem_dropLast_of_mem {t : Token} (ht : t ∈ w) :
    t ∈ (before ++ w ++ edge :: after).dropLast := by
  rw [List.dropLast_append_of_ne_nil (List.cons_ne_nil _ _)]
  exact List.mem_append_left _ (List.mem_append_right _ ht)

/-- A merge is written with its word in front. -/
theorem MergeWritten.exists_word {part : PatternPart Expression}
    {actions : List (MergeAction Expression)} (h : MergeWritten setting part actions w) :
    ∃ word v, w = word :: v ∧ word.kind = .keyword .MERGE := by
  cases h with
  | intro first _ _ => exact ⟨_, _, rfl, first⟩

/-- A path begins with its name or with a parenthesis, and with no colon. -/
theorem Grammar.ne_colon_of_patternPart {inner : Inner} {part : PatternPart Expression}
    {s t : State} (hr : patternPart.run setting inner s = .done part t) :
    s.cursor.kind ≠ .sign .colon := by
  intro hk
  have hbinder : (Rule.optionally (Rule.atVariableBefore (.sign .eq)) pathName).run setting inner
      s = .done none s := by
    refine Rule.run_optionally_false ?_
    rw [Rule.run_atVariableBefore, hk]
    rfl
  obtain ⟨_, _, ⟨⟩, hr⟩ := Rule.done_of_bind hr
  rw [Rule.run_bind_done hbinder] at hr
  obtain ⟨node, _, hnode, -⟩ := Rule.done_of_bind hr
  obtain ⟨_, _, hopening, -⟩ := Rule.done_of_bind hnode
  rw [Rule.run_expect_of_ne (by rw [hk]; decide)] at hopening
  cases hopening

/-- No colon comes behind the word of a merge. -/
theorem MergeWritten.ne_colon {part : PatternPart Expression}
    {actions : List (MergeAction Expression)} {word : Token} {rest : List Token}
    (h : MergeWritten setting part actions (word :: rest))
    (hrest : ∀ t ∈ rest, t.kind ≠ .invalid ∧ t.kind ≠ .endOfInput)
    (hedge : edge.kind.endsClause = true) :
    Cursor.kindAt word (rest ++ edge :: after) 1 ≠ .sign .colon := by
  cases h with
  | @intro _ v w _ path others =>
    cases v with
    | nil =>
      obtain ⟨x, xs, hxs, hx⟩ := others.exists_edge after (fun _ _ h => h.exists_first)
        (TokenKind.endsAction_of_endsClause hedge)
      have hne : x.kind ≠ .sign .colon := fun hk => by
        rw [hk] at hx
        cases hx
      simpa only [List.nil_append, hxs, Cursor.kindAt] using hne
    | cons u us =>
      obtain ⟨t, hr, -⟩ := path
      obtain ⟨stop, -, hcursor⟩ := Grammar.ofTokens_of_words fun t ht =>
        hrest t (List.mem_append_left _ ht)
      have hkind := Grammar.ne_colon_of_patternPart hr
      rw [State.start, hcursor] at hkind
      simpa only [List.cons_append, Cursor.kindAt, Cursor.kind] using hkind

/-- **The lookout for the word of a merge** that is written where no name is awaited. -/
theorem MergeWritten.exists_lookout (hf : setting.forgiving = false) {part : PatternPart Expression}
    {actions : List (MergeAction Expression)} (ha : Token.Apart (before ++ w ++ edge :: after))
    (hall : ∀ t ∈ (before ++ w ++ edge :: after).dropLast,
      t.kind ≠ .invalid ∧ t.kind ≠ .endOfInput)
    (h : MergeWritten setting part actions w) (hedge : edge.kind.endsClause = true)
    (hname : Token.awaitsName before.reverse = false) :
    ∃ L : Lookout setting, L.all = before ++ w ++ edge :: after ∧ L.word ∈ w ∧
      L.word.span.start = (hull w).start := by
  obtain ⟨word, v, rfl, hk⟩ := h.exists_word
  have hv : ∀ t ∈ v, t.kind ≠ .invalid ∧ t.kind ≠ .endOfInput := fun t ht =>
    hall t (mem_dropLast_of_mem (List.mem_cons_of_mem _ ht))
  refine ⟨⟨hf, before ++ (word :: v) ++ edge :: after, word, hk, fun {c} hover hhere => ?_,
    fun {c} hover hhere => ?_⟩, rfl, List.mem_cons_self, rfl⟩
  · rw [(hover.sides_eq ha hhere).1, hname]
  · rw [Cursor.peek, hhere, (hover.sides_eq ha hhere).2]
    exact h.ne_colon hv hedge

/-- **What begins where a merge is written is that merge.** -/
theorem eq_of_mergeWritten (hf : setting.forgiving = false)
    (hp : setting.opensPattern = Cursor.opensPattern) {part : PatternPart Expression}
    {actions : List (MergeAction Expression)} (ha : Token.Apart (before ++ w ++ edge :: after))
    (hall : ∀ t ∈ (before ++ w ++ edge :: after).dropLast,
      t.kind ≠ .invalid ∧ t.kind ≠ .endOfInput)
    (hw : MergeWritten setting part actions w) (hedge : edge.kind.endsClause = true)
    (hq : Element.AsksMerges setting (before ++ w ++ edge :: after) (.query q))
    (hc : c ∈ q.branches.flatten) (hstart : c.span.start = (hull w).start) :
    c = .mergePart part actions (hull w) := by
  obtain ⟨word, v, rfl, hk⟩ := hw.exists_word
  obtain ⟨s, hword, hover, hscope, room, t, hrun⟩ := hq c hc word (by simp) hk hstart
  -- the word occurs only once, so the clause has been read from it
  have hrest : s.cursor.rest = word :: v ++ edge :: after := by
    rw [Cursor.rest, hword, (hover.sides_eq ha hword).2]
    rfl
  obtain ⟨u, hread, -⟩ := Grammar.readsFrom_clause hf hp ha hall hw hover hscope hrest hedge
  exact Grammar.eq_of_rooms hf hp hover.closed hrun hread

/-- A token is in one clause only. -/
theorem Query.Tiled.filter_eq (h : q.Tiled all) {t : Token} (hc : c ∈ q.branches.flatten)
    (ht : t.isIn c.span = true) : q.branches.flatten.filter (fun c => t.isIn c.span) = [c] := by
  have hmem : c ∈ q.branches.flatten.filter fun c => t.isIn c.span := List.mem_filter.2 ⟨hc, ht⟩
  have hordered := h.ordered.filter fun c => t.isIn c.span
  have hin : ∀ d ∈ q.branches.flatten.filter (fun c => t.isIn c.span), t.isIn d.span = true :=
    fun d hd => (List.mem_filter.1 hd).2
  generalize q.branches.flatten.filter (fun c => t.isIn c.span) = found at hmem hordered hin
  rcases found with - | ⟨d, - | ⟨e, found⟩⟩
  · cases hmem
  · rw [List.mem_singleton.1 hmem]
  · obtain ⟨hchars, -, hstop⟩ := Token.isIn_iff.1 (hin d (by simp))
    obtain ⟨-, hstart, -⟩ := Token.isIn_iff.1 (hin e (by simp))
    have hle := (List.pairwise_cons.1 hordered).1 e List.mem_cons_self
    omega

/-- No clause begins inside another. -/
theorem Query.Tiled.start_ne (h : q.Tiled all) {d : Clause} (hc : c ∈ q.branches.flatten)
    (hd : d ∈ q.branches.flatten) {n : Nat} (hstart : c.span.start < n) (hstop : n < c.span.stop) :
    d.span.start ≠ n := by
  rintro rfl
  have hne : c ≠ d := by
    rintro rfl
    omega
  have hsymm : Std.Symm fun c d : Clause =>
      c.span.stop ≤ d.span.start ∨ d.span.stop ≤ c.span.start := ⟨fun _ _ => Or.symm⟩
  have happart : q.branches.flatten.Pairwise fun c d =>
      c.span.stop ≤ d.span.start ∨ d.span.stop ≤ c.span.start := h.ordered.imp Or.inl
  have hchars := h.nonempty d hd
  rcases happart.forall hc hd hne with hle | hle <;> omega

/-- **A query that has a clause for some tokens**: they are in this clause and no other, and none
but the first of them begins a clause. -/
structure Query.Keeps (q : Query) (clause : Clause) (w : List Token) : Prop where
  /-- This clause is the only one that a token is in. -/
  alone : ∀ t ∈ w, q.branches.flatten.filter (fun c => t.isIn c.span) = [clause]
  /-- No clause begins behind the first token. -/
  whole : ∀ t ∈ w.tail, ∀ c ∈ q.branches.flatten, c.span.start ≠ t.span.start

/-- A query keeps the tokens that one of its clauses goes over. -/
theorem Query.Tiled.keeps (h : q.Tiled (before ++ w ++ edge :: after))
    (ha : Token.Apart (before ++ w ++ edge :: after)) (hne : w ≠ []) (hc : c ∈ q.branches.flatten)
    (hspan : c.span = hull w) : q.Keeps c w := by
  have hpost : edge :: after ≠ [] := List.cons_ne_nil _ _
  have hmem {t : Token} (ht : t ∈ w) : t ∈ before ++ w ++ edge :: after :=
    List.mem_append_left _ (List.mem_append_right _ ht)
  refine ⟨fun t ht => h.filter_eq hc (hspan ▸ (ha.isIn_hull hne hpost (hmem ht)).2 ht),
    fun t ht d hd => h.start_ne hc hd ?_ ?_⟩
  · -- the first token has characters, and others are behind it
    obtain ⟨word, v, rfl⟩ := List.exists_cons_of_ne_nil hne
    have hfirst := (List.pairwise_append.1 (List.pairwise_append.1 ha).1).2.1
    have hbehind := (List.pairwise_cons.1 hfirst).1 t ht
    rw [hspan]
    exact Nat.lt_of_lt_of_le hbehind.1 hbehind.2
  · have htw := List.mem_of_mem_tail ht
    rw [hspan]
    exact Nat.lt_of_lt_of_le (ha.middle hpost htw).1 (ha.hull_bounds hpost htw).2

end Merge

/-- A text in which no mistake is found has the same document when mistakes are not forgiven. -/
theorem document_strict {source : String} {options : Options} {document : Document}
    (h : (parse source options).document = some document)
    (hclean : ∀ d ∈ (parse source options).diagnostics, d.family? ≠ some .grammatical) :
    (Grammar.read (Setting.ofOptions options).strict
      (tokenize source options.dialect).tokens).document = some document := by
  have hnone : (Grammar.read (.ofOptions options)
      (tokenize source options.dialect).tokens).problems = [] :=
    List.eq_nil_iff_forall_not_mem.2 fun d hd =>
      hclean d (mem_diagnostics_of_mem_problems hd) (Grammar.family_of_mem_problems hd)
  obtain ⟨tree, scopes, hread, hstrict⟩ := Grammar.read_of_problems_nil hnone
  rw [document_parse, parseTokens, hread] at h
  rw [hstrict]
  exact h

/-- What stands where a merge begins has been read there, in a text in which no mistake is found. -/
theorem Element.asksMerges_of_parse {source : String} {options : Options} {document : Document}
    {e : Element} (h : (parse source options).document = some document)
    (hclean : ∀ d ∈ (parse source options).diagnostics, d.family? ≠ some .grammatical)
    (he : (Element.document document).Within e) :
    e.AsksMerges (Setting.ofOptions options).strict
      ((tokenize source options.dialect).tokens.filter fun t => t.kind ≠ .invalid) := by
  obtain ⟨words, last, hfilter, hlast, -, ha⟩ := exists_words source options.dialect
  have hf : (Setting.ofOptions options).strict.forgiving = false := rfl
  rw [hfilter]
  exact ((Ledger.merges hf ha).throughout_document (Cursor.over_ofTokens hfilter hlast).1
    (document_strict h hclean)).2 False.elim _ he

/-- **Merges keep their actions.** Let no mistake of the grammar be found in a text, and let a merge
of a path with some actions be written somewhere in it, up to where a clause ends. If its word is
not where a name is awaited, there is a query in the document that has this merge for a clause, with
its actions and all their assignments: all tokens of the merge are in this clause of the query and
no other, and none but the first begins a clause of the query. The same holds of whatever query has
a clause that begins where the merge does. -/
theorem merges_kept {source : String} {options : Options} {document : Document}
    {before w after : List Token} {edge : Token} {part : PatternPart Expression}
    {actions : List (MergeAction Expression)}
    (h : (parse source options).document = some document)
    (hclean : ∀ d ∈ (parse source options).diagnostics, d.family? ≠ some .grammatical)
    (htokens : (tokenize source options.dialect).tokens.filter (fun t => t.kind ≠ .invalid) =
      before ++ w ++ edge :: after)
    (hw : MergeWritten (Setting.ofOptions options).strict part actions w)
    (hedge : edge.kind.endsClause = true) :
    (Token.awaitsName before.reverse = false →
      ∃ q, (Element.document document).Within (.query q) ∧
        q.Keeps (.mergePart part actions (hull w)) w) ∧
    ∀ q, (Element.document document).Within (.query q) →
      (∃ c ∈ q.branches.flatten, c.span.start = (hull w).start) →
      q.Keeps (.mergePart part actions (hull w)) w := by
  have hstrict := document_strict h hclean
  obtain ⟨words, e, hsplit, he, hwords, ha⟩ := exists_words source options.dialect
  have hall : ∀ t ∈ (before ++ w ++ edge :: after).dropLast,
      t.kind ≠ .invalid ∧ t.kind ≠ .endOfInput := by
    rw [← htokens, hsplit, List.dropLast_concat]
    exact hwords
  rw [← hsplit, htokens] at ha
  -- whatever begins where the merge does is the merge
  have hkeeps (q : Query) (hq : (Element.document document).Within (.query q))
      (hstands : ∃ c ∈ q.branches.flatten, c.span.start = (hull w).start) :
      q.Keeps (.mergePart part actions (hull w)) w := by
    have hdemand := Element.asksMerges_of_parse h hclean hq
    have htiled := (tiled_parse h).queries q hq
    rw [htokens] at hdemand htiled
    obtain ⟨c, hc, hstart⟩ := hstands
    obtain rfl := eq_of_mergeWritten rfl rfl ha hall hw hedge hdemand hc hstart
    obtain ⟨word, v, rfl, -⟩ := hw.exists_word
    exact htiled.keeps ha (List.cons_ne_nil _ _) hc rfl
  -- and where no name is awaited, something begins there
  refine ⟨fun hname => ?_, hkeeps⟩
  obtain ⟨L, hLall, hword, hstart⟩ := hw.exists_lookout rfl ha hall hedge hname
  have hmem : L.word ∈ words := by
    have hmiddle : L.word ∈ (before ++ w ++ edge :: after).dropLast := mem_dropLast_of_mem hword
    rwa [← htokens, hsplit, List.dropLast_concat] at hmiddle
  obtain ⟨q, hq, c, hc, hat⟩ := L.exists_query (hLall.trans (htokens.symm.trans hsplit)) hsplit he
    (fun t ht => (hwords t ht).2) hmem hstrict
  exact ⟨q, hq, hkeeps q hq ⟨c, hc, hat.trans hstart⟩⟩

/-- Two actions with three assignments are a case in point. -/
theorem merges_kept_two :
    let source := "MATCH (b) MERGE (a) ON MATCH SET a.x = 1, a:B ON CREATE SET a += b RETURN a"
    let part : PatternPart Expression :=
      ⟨none, ⟨some ⟨"a", ⟨17, 18⟩⟩, [], none, ⟨16, 19⟩⟩, [], ⟨16, 19⟩⟩
    let target : Expression := .property (.reference "a" ⟨33, 34⟩) ⟨"x", ⟨35, 36⟩⟩ ⟨33, 36⟩
    let actions : List (MergeAction Expression) :=
      [⟨.onMatch, [.property target (.literal (.integer 1) ⟨39, 40⟩) ⟨33, 40⟩,
        .labels ⟨"a", ⟨42, 43⟩⟩ [⟨"B", ⟨44, 45⟩⟩] ⟨42, 45⟩], ⟨20, 45⟩⟩,
      ⟨.onCreate, [.merge ⟨"a", ⟨60, 61⟩⟩ (.reference "b" ⟨65, 66⟩) ⟨60, 66⟩], ⟨46, 66⟩⟩]
    let create : Token := ⟨.keyword .CREATE, "CREATE", ⟨49, 55⟩, 1, 50⟩
    ∃ document q, (parse source .standard).document = some document ∧
      (Element.document document).Within (.query q) ∧
      q.branches.flatten.filter (fun c => create.isIn c.span) =
        [.mergePart part actions ⟨10, 66⟩] ∧
      ∀ c ∈ q.branches.flatten, c.span.start ≠ create.span.start := by
  intro source part target actions create
  let before : List Token := [⟨.keyword .MATCH, "MATCH", ⟨0, 5⟩, 1, 1⟩,
    ⟨.sign .leftParen, "(", ⟨6, 7⟩, 1, 7⟩, ⟨.identifier "b", "b", ⟨7, 8⟩, 1, 8⟩,
    ⟨.sign .rightParen, ")", ⟨8, 9⟩, 1, 9⟩]
  let path : List Token := [⟨.sign .leftParen, "(", ⟨16, 17⟩, 1, 17⟩,
    ⟨.identifier "a", "a", ⟨17, 18⟩, 1, 18⟩, ⟨.sign .rightParen, ")", ⟨18, 19⟩, 1, 19⟩]
  let left : List Token := [⟨.identifier "a", "a", ⟨33, 34⟩, 1, 34⟩,
    ⟨.sign .dot, ".", ⟨34, 35⟩, 1, 35⟩, ⟨.identifier "x", "x", ⟨35, 36⟩, 1, 36⟩]
  let equals : Token := ⟨.sign .eq, "=", ⟨37, 38⟩, 1, 38⟩
  let one : Token := ⟨.integer "1", "1", ⟨39, 40⟩, 1, 40⟩
  let comma : Token := ⟨.sign .comma, ",", ⟨40, 41⟩, 1, 41⟩
  let labelled : Token := ⟨.identifier "a", "a", ⟨42, 43⟩, 1, 43⟩
  let label : List Token := [⟨.sign .colon, ":", ⟨43, 44⟩, 1, 44⟩,
    ⟨.identifier "B", "B", ⟨44, 45⟩, 1, 45⟩]
  let changed : Token := ⟨.identifier "a", "a", ⟨60, 61⟩, 1, 61⟩
  let adds : Token := ⟨.sign .plusEq, "+=", ⟨62, 64⟩, 1, 63⟩
  let other : Token := ⟨.identifier "b", "b", ⟨65, 66⟩, 1, 66⟩
  let first : List Token := ⟨.keyword .ON, "ON", ⟨20, 22⟩, 1, 21⟩ ::
    ⟨.keyword .MATCH, "MATCH", ⟨23, 28⟩, 1, 24⟩ :: ⟨.keyword .SET, "SET", ⟨29, 32⟩, 1, 30⟩ ::
    ((left ++ equals :: [one]) ++ ((comma :: labelled :: label) ++ []))
  let second : List Token := ⟨.keyword .ON, "ON", ⟨46, 48⟩, 1, 47⟩ :: create ::
    ⟨.keyword .SET, "SET", ⟨56, 59⟩, 1, 57⟩ :: ((changed :: adds :: [other]) ++ [])
  let w : List Token := ⟨.keyword .MERGE, "MERGE", ⟨10, 15⟩, 1, 11⟩ ::
    (path ++ (first ++ (second ++ [])))
  let edge : Token := ⟨.keyword .RETURN, "RETURN", ⟨67, 73⟩, 1, 68⟩
  let after : List Token := [⟨.identifier "a", "a", ⟨74, 75⟩, 1, 75⟩,
    ⟨.endOfInput, "", ⟨75, 75⟩, 1, 76⟩]
  let setting : Setting := (Setting.ofOptions .standard).strict
  have hpath : Grammar.ReadsAlone setting Grammar.patternPart path part := ⟨_, rfl, rfl⟩
  have hleft : Grammar.ReadsAlone setting Grammar.suffixed left target := ⟨_, rfl, rfl⟩
  have hone : Grammar.ReadsAlone setting Grammar.expression [one]
    (.literal (.integer 1) ⟨39, 40⟩) := ⟨_, rfl, rfl⟩
  have hlabel : Grammar.ReadsAlone setting Grammar.labels label [⟨"B", ⟨44, 45⟩⟩] := ⟨_, rfl, rfl⟩
  have hother : Grammar.ReadsAlone setting Grammar.expression [other]
    (.reference "b" ⟨65, 66⟩) := ⟨_, rfl, rfl⟩
  have hmatch : MergeAction.Written setting _ first := .intro rfl (e := .onMatch) rfl rfl (.intro
    (.property (u := equals) hleft rfl nofun rfl hone)
    (.cons (.intro (t := comma) rfl (.labels (t := labelled) rfl hlabel)) .nil))
  have hcreate : MergeAction.Written setting _ second := .intro rfl (e := .onCreate) rfl rfl
    (.intro (.merge (t := changed) (u := adds) rfl rfl hother) .nil)
  have hwritten : MergeWritten setting part actions w :=
    .intro rfl hpath (.cons hmatch (.cons hcreate .nil))
  have htokens : (tokenize source .openCypher).tokens = before ++ w ++ edge :: after := by
    decide +kernel
  have hproper : (tokenize source .openCypher).tokens.filter (fun t => t.kind ≠ .invalid) =
      before ++ w ++ edge :: after := by
    rw [htokens]
    rfl
  obtain ⟨document, hparse⟩ : ∃ document, (parse source .standard).document = some document :=
    Option.isSome_iff_exists.1 (by decide +kernel)
  have hclean : (parse source .standard).diagnostics.isEmpty = true := by decide +kernel
  obtain ⟨q, hq, hkept⟩ := (merges_kept hparse (by simp [List.isEmpty_iff.1 hclean])
    hproper hwritten rfl).1 rfl
  exact ⟨_, q, hparse, hq, hkept.alone create (by decide), hkept.whole create (by decide)⟩

end Cypher
