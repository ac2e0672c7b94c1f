import Cypher.Proofs.Parallel.Clause

/-!
# Queries and statements run alike

What is particular here is recovery. A clause that fails in one run fails in the other, though
perhaps for another reason; both note a diagnostic, skip the same tokens, and put the same stand-in
for the clause (`Cypher.Grammar.agree_clauseOrError`). The positions that tell whether a clause has
got stuck differ by the same number throughout.

With queries, all rules that nest are known to agree, to whatever depth
(`Cypher.Grammar.parallel_runNested`).
-/

namespace Cypher

open Parallel

variable {setting : Setting} {inner : Inner} {p : Parallel setting} {s s' : State} {α : Type}

/-! ### Steps that change more than the cursor -/

theorem Outcome.state_mapState (o : Outcome α) (f : State → State) :
    (o.mapState f).state = f o.state := by
  cases o <;> rfl

namespace Parallel

theorem States.push (h : p.States s s') (kind : ScopeKind) :
    p.States { s with scopes := s.scopes.push kind } { s' with scopes := s'.scopes.push kind } :=
  ⟨h.cursors, iff_of_true (Nat.succ_pos _) (Nat.succ_pos _), h.problems, h.closed, h.closed'⟩

theorem Inside.push (h : p.Inside s s') (kind : ScopeKind) :
    p.Inside { s with scopes := s.scopes.push kind } { s' with scopes := s'.scopes.push kind } :=
  ⟨h.toStates.push kind, h.behind⟩

theorem States.deeper (h : p.States s s') (depth depth' : Nat) :
    p.States { s with depth := depth } { s' with depth := depth' } :=
  ⟨h.cursors, h.scopes, h.problems, h.closed, h.closed'⟩

theorem Inside.deeper (h : p.Inside s s') (depth depth' : Nat) :
    p.Inside { s with depth := depth } { s' with depth := depth' } :=
  ⟨h.toStates.deeper depth depth', h.behind⟩

/-- Corresponding diagnostics are noted in corresponding places. -/
theorem States.note (h : p.States s s') {d d' : Diagnostic} (hd : p.diagnostics d d') :
    p.States (s.note d) (s'.note d') :=
  ⟨h.cursors, h.scopes, p.note h.problems hd, h.closed, h.closed'⟩

theorem Corresponds.mapState {f f' : State → State} {o o' : Outcome α}
    (hc : ∀ t, (f t).cursor = t.cursor)
    (hf : ∀ t t', p.States t t' → p.States (f t) (f' t')) (h : p.Corresponds o o') :
    p.Corresponds (o.mapState f) (o'.mapState f') := by
  cases h with
  | lost gone => exact .lost (by rwa [o.state_mapState, hc])
  | done a ht => exact .done a (hf _ _ ht)
  | failed hd ht => exact .failed hd (hf _ _ ht)

namespace Agree

/-- A scope is left for those there were. -/
theorem inScope (hi : inner.GoesOn) (hs : p.States s s') {kind : ScopeKind} {rule : Rule α}
    (h : p.Agree inner rule { s with scopes := s.scopes.push kind }
      { s' with scopes := s'.scopes.push kind }) : p.Agree inner (.inScope kind rule) s s' := by
  have ho := Rule.onward_run setting hi (.inScope kind rule) s
  have ho' := Rule.onward_run setting hi (.inScope kind rule) s'
  have hscopes {t t' : State} (ht : s.Onward t) (ht' : s'.Onward t') :
      0 < t.scopes.depth ↔ 0 < t'.scopes.depth := by
    rw [ht.depth_scopes, ht'.depth_scopes]
    exact hs.scopes
  unfold Agree at h ⊢
  rw [Rule.run] at ho ho' ⊢
  rw [Rule.run]
  generalize rule.run setting inner { s with scopes := s.scopes.push kind } = o at h ho ⊢
  generalize rule.run setting inner { s' with scopes := s'.scopes.push kind } = o' at h ho' ⊢
  cases h with
  | lost gone => exact .lost (by rwa [Outcome.state_mapState])
  | done a ht => exact .done a ⟨ht.cursors, hscopes ho ho', ht.problems, ht.closed, ht.closed'⟩
  | failed hd ht =>
    exact .failed hd ⟨ht.cursors, hscopes ho ho', ht.problems, ht.closed, ht.closed'⟩

theorem record (hs : p.States s s') (kind : ClauseKind) :
    p.Agree inner (.record kind) s s' := by
  refine .done () ⟨hs.cursors, ?_, hs.problems, hs.closed, hs.closed'⟩
  rw [Scopes.record, Scopes.depth_modify, Scopes.record, Scopes.depth_modify]
  exact hs.scopes

theorem complain (hs : p.States s s') (problem : Problem) :
    p.Agree inner (.complain problem) s s' := by
  have hd := p.diagnostic problem hs.cursors
  unfold Agree
  rw [Rule.run, Rule.run]
  split
  · exact .done () (hs.note hd)
  · exact .failed hd hs

/-- Skipping leads to corresponding places. -/
theorem resume (hs : p.States s s') (hn : s.scopes.isNested = s'.scopes.isNested)
    (hf : setting.forgiving = true) : p.Agree inner .resume s s' := by
  refine .done () ⟨?_, hs.scopes, hs.problems, hs.closed.onward (Cursor.onward_resume ..),
    hs.closed'.onward (Cursor.onward_resume ..)⟩
  rw [← hn]
  exact p.resume _ hf hs.cursors

end Agree

end Parallel

namespace Grammar

open Rule hiding pure bind

/-! ### Clauses that may fail -/

theorem not_isStop_of_endsClauses {nested : Bool} {kind : TokenKind}
    (h : kind.endsClauses nested = false) : kind.isStop = false := by
  refine Bool.eq_false_iff.2 fun hstop => ?_
  rcases TokenKind.eq_of_isStop hstop with rfl | rfl <;> cases h

/-- Behind a failed clause, both runs have got past the first token of it or skip that token. -/
theorem run_moveIfStuck {t t' : State} (hs : p.States s s') (ht : p.States t t')
    (hn : t.scopes.isNested = t'.scopes.isNested) (ho : s.Onward t)
    (h : s.cursor.kind.endsClauses s.scopes.isNested = false) (inner : Inner) :
    ∃ u u', (moveIfStuck s.cursor.position).run setting inner t = .done () u ∧
      (moveIfStuck s'.cursor.position).run setting inner t' = .done () u' ∧
      (p.lost u.cursor ∨ p.Inside u u') := by
  have hpos := p.position hs.cursors
  have hpos' := p.position ht.cursors
  by_cases hstuck : t.cursor.position = s.cursor.position
  · have hcur := cursor_eq_of_position_eq ho.cursor hstuck
    have hends : t.cursor.kind.endsClauses t.scopes.isNested = false := by
      rw [hcur, ho.isNested_eq]
      exact h
    have hends' : t'.cursor.kind.endsClauses t'.scopes.isNested = false := by
      rw [← ht.endsClauses_eq, ← hn]
      exact hends
    have hstuck' : t'.cursor.position = s'.cursor.position := by omega
    have hk := not_isStop_of_endsClauses hends
    have hmove : ∀ {v : State} {position : Nat}, v.cursor.position = position →
        v.cursor.kind.endsClauses v.scopes.isNested = false →
        (moveIfStuck position).run setting inner v = .done () v.step := by
      intro v position hv hve
      rw [moveIfStuck, run_bind, run_look, Outcome.andThen_done, View.read, if_pos hv,
        run_bind_done (run_atClausesEnd v), hve]
      rfl
    exact ⟨t.step, t'.step, hmove hstuck hends, hmove hstuck' hends',
      ht.step (ht.current_eq hk) (TokenKind.ne_endOfInput hk)⟩
  · have hstuck' : ¬t'.cursor.position = s'.cursor.position := by omega
    have hrest : ∀ {v : State} {position : Nat}, ¬v.cursor.position = position →
        (moveIfStuck position).run setting inner v = .done () v := by
      intro v position hv
      rw [moveIfStuck, run_bind, run_look, Outcome.andThen_done, View.read, if_neg hv]
      rfl
    refine ⟨t, t', hrest hstuck, hrest hstuck', .inr ⟨ht, ho.behind_ne_nil_of_left_lt ?_⟩⟩
    have hadd := ho.cursor.position_add_left
    have hle := ho.left_le
    unfold State.left at hle ⊢
    omega

section Nested

variable (h : inner.Parallel p)

include h

/-- **A clause that fails does so in both runs**, and the same stand-in is put for it. -/
theorem corresponds_mendClause (hs : p.States s s') (hn : s.scopes.isNested = s'.scopes.isNested)
    (start : Nat) (hends : s.cursor.kind.endsClauses s.scopes.isNested = false) :
    p.Corresponds
      ((Rule.mend clause (failedClause start s.cursor.position)).run setting inner s)
      ((Rule.mend clause (failedClause start s'.cursor.position)).run setting inner s') := by
  have hclause := agree_clause h hs (hs.current_eq (not_isStop_of_endsClauses hends))
  unfold Agree at hclause
  have hrun := onward_run setting h.goesOn clause s
  have hrun' := onward_run setting h.goesOn clause s'
  rw [Rule.run, Rule.run] at *
  generalize clause.run setting inner s = o at *
  generalize clause.run setting inner s' = o' at *
  cases hclause with
  | lost gone =>
    refine .lost ?_
    cases o with
    | done a t => exact gone
    | failed d t =>
      dsimp only
      split
      · exact p.lost_onward gone (onward_run setting h.goesOn _ (t.note d)).cursor
      · exact gone
  | done a ht => exact .done a ht
  | @failed t t' d d' hd ht =>
    dsimp only
    split
    · next hf =>
      have ho : s.Onward (t.note d) := hrun.trans ⟨.refl _, ⟨[], rfl⟩, rfl⟩
      have hnested : t.scopes.isNested = t'.scopes.isNested :=
        hrun.isNested_eq.trans (hn.trans hrun'.isNested_eq.symm)
      obtain ⟨u, u', hu, hu', hin⟩ := run_moveIfStuck hs (ht.note hd) hnested ho hends inner
      rw [failedClause, run_bind_done hu, failedClause, run_bind_done hu']
      refine hin.elim (Agree.of_lost h.goesOn _) fun hin => ?_
      have hnested' : u.scopes.isNested = u'.scopes.isNested :=
        (onward_of_done h.goesOn hu).isNested_eq.trans
          (hnested.trans (onward_of_done h.goesOn hu').isNested_eq.symm)
      exact Agree.bind h.goesOn hin (.resume hin.toStates hnested' hf) fun _ v v' _ hv => .close hv
    · exact .failed hd ht

theorem agree_clauseOrError (hs : p.States s s') (hn : s.scopes.isNested = s'.scopes.isNested)
    (hends : s.cursor.kind.endsClauses s.scopes.isNested = false) :
    p.Agree inner clauseOrError s s' := by
  have he := hs.current_eq (not_isStop_of_endsClauses hends)
  refine .startHere he ?_
  unfold Agree
  rw [run_bind_done (run_look .position s), run_bind_done (run_look .position s'), run_bind,
    run_bind]
  refine Corresponds.andThen (corresponds_mendClause h hs hn _ hends) (fun a t => ?_)
    fun a t t' _ _ ht => Agree.andThen h.goesOn (.record ht a.kind) fun _ u u' _ hu => .pure hu a
  exact onward_run setting h.goesOn (Rule.record a.kind >>= fun _ => Pure.pure a) t

/-- The clauses end together in scopes of which both are nested in others, or neither is. -/
theorem agree_nextClause (hs : p.States s s') (hn : s.scopes.isNested = s'.scopes.isNested) :
    p.Agree inner nextClause s s' := by
  have hends : s.cursor.kind.endsClauses s.scopes.isNested =
      s'.cursor.kind.endsClauses s'.scopes.isNested := by
    rw [← hn, hs.endsClauses_eq]
  unfold Agree
  rw [nextClause, run_bind_done (run_atClausesEnd s), run_bind_done (run_atClausesEnd s'), ← hends]
  refine Agree.ite (fun _ => .pure hs none) fun hnot => ?_
  exact .andThen h.goesOn (agree_clauseOrError h hs hn (Bool.eq_false_iff.2 hnot))
    fun _ _ _ _ hu => .pure hu _

/-! ### Queries -/

theorem agree_branchIn (hs : p.States s s') (kind : ScopeKind) (context : String) :
    p.Agree inner (branchIn kind context) s s' := by
  have hbranch : p.Agree inner (branch kind) s s' :=
    .inScope h.goesOn hs (.many h.goesOn (hs.push kind) (fun t _ => movesOn_nextClause h.goesOn t)
      (fun t t' ho ho' ht => agree_nextClause h ht
        (ho.isNested_eq.trans ((hs.isNested_push kind).trans ho'.isNested_eq.symm))) [])
  refine .andThen h.goesOn hbranch fun clauses t t' _ ht => ?_
  have hrequire : p.Agree inner (requireClauses context clauses) t t' :=
    .ite (fun _ => .complain ht _) fun _ => .pure ht ()
  exact .andThen h.goesOn hrequire fun _ _ _ _ hu => .pure hu clauses

theorem agree_unionBranch (hs : p.States s s') (hk : s.cursor.kind = .keyword .UNION)
    (kind : ScopeKind) : p.Agree inner (unionBranch kind) s s' := by
  refine .advance h.goesOn hs (hs.current_eq (hk ▸ rfl)) (hk ▸ TokenKind.noConfusion) fun ht => ?_
  refine .bind h.goesOn ht (.consume ht.toStates rfl) fun all u u' _ hu => ?_
  exact .bind h.goesOn hu (agree_branchIn h hu.toStates kind _) fun clauses v v' _ hv => .close hv

/-- **Two runs agree on a query** that has a token behind when it ends. -/
theorem agree_query (hs : p.States s s') (he : s.cursor.current = s'.cursor.current)
    (kind : ScopeKind)
    (hb : ∀ q t, (query kind).run setting inner s = .done q t → t.cursor.behind ≠ []) :
    p.Agree inner (query kind) s s' := by
  refine .startHere he (.andThen h.goesOn (agree_branchIn h hs kind _) fun clauses t t' hr ht => ?_)
  refine .andThen h.goesOn (.many h.goesOn ht (fun u _ => movesOn_furtherUnion h.goesOn kind u)
    (fun u u' _ _ hu => ?_) []) fun unions u u' hr' hu => .close ⟨hu, ?_⟩
  · refine .andThen h.goesOn (.isAt hu rfl) fun found v v' hfound hv => .ite (fun hunion => ?_) fun _ =>
      .pure hv none
    obtain ⟨rfl, hk⟩ := kind_of_isAt (hunion ▸ hfound)
    exact .andThen h.goesOn (agree_unionBranch h hv hk kind) fun _ _ _ _ hw => .pure hw _
  · have hrun : (query kind).run setting inner s = .done ⟨clauses, unions,
        u.cursor.spanFrom s.cursor.current.span.start⟩ u := by
      rw [query, run_bind]
      change ((branchIn kind _ >>= _ : Rule Query)).run setting inner s = _
      rw [run_bind_done hr, run_bind_done hr']
      rfl
    exact hb _ u hrun

/-- The same behind some token. -/
theorem agree_query_inside (hs : p.Inside s s') (he : s.cursor.current = s'.cursor.current)
    (kind : ScopeKind) : p.Agree inner (query kind) s s' :=
  agree_query h hs.toStates he kind fun _ _ hr =>
    (onward_of_done h.goesOn hr).behind_ne_nil hs.behind

/-! ### Bodies of existence tests -/

theorem agree_recordAll (clauses : List Clause) (hs : p.States s s') :
    p.Agree inner (recordAll clauses) s s' := by
  induction clauses generalizing s s' with
  | nil => exact .pure hs ()
  | cons clause clauses ih => exact .andThen h.goesOn (.record hs _) fun _ _ _ _ ht => ih ht

theorem agree_patternBody (hs : p.Inside s s') (he : s.cursor.current = s'.cursor.current) :
    p.Agree inner patternBody s s' := by
  refine .startHere he (.bind h.goesOn hs (agree_pattern h hs) fun pattern t t' _ ht => ?_)
  refine .bind h.goesOn ht (.optionally h.goesOn ht (.isAt ht.toStates rfl) fun u u' hr hu => ?_)
    fun filter u u' _ hu => ?_
  · obtain ⟨rfl, hk⟩ := kind_of_isAt hr
    exact agree_whereClause h hu.toStates (hu.current_eq (hk ▸ rfl)) (hk ▸ TokenKind.noConfusion)
  · exact .bind h.goesOn hu (agree_recordAll h _ hu.toStates) fun _ v v' _ hv => .close hv

theorem agree_existsBody (hs : p.Inside s s') (he : s.cursor.current = s'.cursor.current) :
    p.Agree inner existsBody s s' :=
  .look he (.ite (fun _ => agree_query_inside h hs he _) fun _ =>
    .inScope h.goesOn hs.toStates (agree_patternBody h (hs.push _) he))

end Nested

/-! ### Rules that nest -/

theorem agree_runNested {room : Nat} {rule : Nested α}
    (h : p.Agree (runNested setting body room) (body rule) { s with depth := s.depth + 1 }
      { s' with depth := s'.depth + 1 }) :
    p.Agree (runNested setting body (room + 1)) (.nested rule) s s' := by
  unfold Agree
  rw [run_nested, run_nested, runNested_succ, runNested_succ]
  exact h.mapState (fun _ => rfl) fun t t' ht => ht.deeper _ _

/-- **Two runs agree on the rules that nest**, whatever room there is. -/
theorem parallel_runNested (p : Parallel setting) (room : Nat) :
    Inner.Parallel p (runNested setting body room) := by
  induction room with
  | zero =>
    have hdeep : ∀ {α : Type} (rule : Nested α) {s s' : State}, p.States s s' →
        p.Agree (runNested setting body 0) (.nested rule) s s' := fun _ _ _ hs =>
      .failed (p.diagnostic .tooDeep hs.cursors) hs
    exact ⟨goesOn_runNested setting body 0, fun _ _ _ hs => hdeep _ hs,
      fun _ => ⟨.tooDeep, fun _ _ => rfl⟩, fun hs _ => hdeep _ hs.toStates,
      fun hs _ => hdeep _ hs.toStates⟩
  | succ room ih =>
    refine ⟨goesOn_runNested setting body _, fun strength s s' hs => ?_, fun strength => ?_,
      fun hs he => ?_, fun hs he => ?_⟩
    · exact agree_runNested (agree_expressionOf ih (hs.deeper _ _) strength)
    · refine ⟨.expected "an expression", fun s hs => ?_⟩
      have hfails : Refuses setting (runNested setting body room) (.expected "an expression")
          (expressionOf strength) := refuses_expressionOf strength
      rw [run_nested, runNested_succ, body, hfails { s with depth := s.depth + 1 } hs]
      rfl
    · exact agree_runNested (agree_query_inside ih (hs.deeper (_ + 1) (_ + 1)) he .subquery)
    · exact agree_runNested (agree_existsBody ih (hs.deeper (_ + 1) (_ + 1)) he)

/-! ### Statements -/

/-- **Two runs agree on a statement**, outside of all scopes and where no statement ends. -/
theorem agree_statement (h : inner.Parallel p) (hs : p.States s s') (hout : s.scopes = .outside)
    (hk : s.cursor.kind.isStop = false) : p.Agree inner statement s s' := by
  have he := hs.current_eq hk
  refine .look he (.andThen h.goesOn (agree_query h hs he _ fun q t hr => ?_) fun query t t' _ ht =>
    .ite (fun _ => .pure ht _) fun _ => .pure ht _)
  have hmoves : MovesOn setting inner (fun _ => True) (query .statement) s :=
    movesOn_query h.goesOn (union_or_goesOn hout (TokenKind.ne_endOfInput hk)
      (TokenKind.ne_of_isStop rfl hk).symm)
  exact (onward_of_done h.goesOn hr).behind_ne_nil_of_left_lt (hmoves hs.closed q t hr trivial)

end Grammar

end Cypher
