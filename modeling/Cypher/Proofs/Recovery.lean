import Cypher.Proofs.Passage

/-!
# Clauses and statements move on

The repetitions over clauses and statements move on too, and here it takes more than a look at one
rule. A clause that is read has passed its word. A clause that fails may have passed nothing, but
then the token at the cursor does not end the branch, and the stand-in skips it
(`Cypher.Grammar.movesOn_clauseOrError`). A statement begins with a clause or its stand-in, unless
it begins with a union, whose branch passes the word `UNION`
(`Cypher.Grammar.movesOn_statement`).
-/

namespace Cypher.Grammar

open Rule hiding pure bind

variable {setting : Setting} {inner : Inner} {α β : Type} (hi : inner.GoesOn) {s : State}

include hi

/-! ### Clauses -/

/-- A clause that is read has passed its word. -/
theorem movesOn_clause {p : Clause → Prop} : MovesOn setting inner p clause s := by
  refine .look hi ?_
  dsimp only
  split
  · next word hk =>
    have hne : s.cursor.kind ≠ .endOfInput := by
      rw [show s.cursor.kind = .keyword word from hk]
      exact TokenKind.noConfusion
    have hmatch : MovesOn setting inner p matchClause s :=
      .bind_right hi fun _ _ _ => .bind_right hi fun _ _ _ =>
        .bind_left hi (movesOn_expectWord hi .MATCH _)
    have hdelete : MovesOn setting inner p deleteClause s :=
      .bind_right hi fun _ _ _ => .bind_right hi fun _ _ _ =>
        .bind_left hi (movesOn_expectWord hi .DELETE _)
    split
    · exact hmatch
    · exact hmatch
    · exact .bind_left hi (.advance hne)
    · exact .bind_left hi (.advance hne)
    · exact .bind_left hi (.advance hne)
    · exact .bind_left hi (.advance hne)
    · exact .bind_left hi (.advance hne)
    · exact .bind_left hi (.advance hne)
    · exact hdelete
    · exact hdelete
    · exact .bind_left hi (.advance hne)
    · exact .bind_left hi (.advance hne)
    · exact .bind_left hi (.advance hne)
    · exact .fail _
  · exact .fail _

omit hi in
/-- A cursor that has moved on but is at the same position is where it was. -/
theorem cursor_eq_of_position_eq {c c' : Cursor} (h : c.Onward c')
    (hp : c'.position = c.position) : c' = c := by
  rcases h.eq_or_advance with he | ⟨ha, hadv⟩
  · exact he
  · have hleft := h.position_add_left
    have hle := hadv.length_ahead_le
    obtain ⟨t, ts, ha⟩ := List.exists_cons_of_ne_nil ha
    rw [Cursor.advance_of_ahead_eq_cons ha] at hle
    rw [ha] at hleft
    simp only [List.length_cons] at hleft hle
    omega

/-- A clause that has failed at its first token leads past that token, unless it ends the
branch. -/
theorem movesOn_failedClause {p : Clause → Prop} (start : Nat) {position : Nat}
    (hp : s.cursor.position = position)
    (h : s.cursor.kind.endsClauses s.scopes.isNested = false) :
    MovesOn setting inner p (failedClause start position) s := by
  refine .bind_left hi (.look hi (.ite (fun _ => ?_) fun hne => absurd hp hne))
  refine .bind_right hi fun ends t ht => ?_
  rw [run_atClausesEnd s, h] at ht
  cases ht
  refine movesOn_move hi fun he => ?_
  rw [he] at h
  cases h

/-- A clause that may fail moves on if what makes up for the failure does. -/
theorem movesOn_mend {p : α → Prop} {rule remedy : Rule α} (h : MovesOn setting inner p rule s)
    (hr : ∀ d t, rule.run setting inner s = .failed d t →
      t.left < s.left ∨ MovesOn setting inner p remedy (t.note d)) :
    MovesOn setting inner p (.mend rule remedy) s := by
  intro hc a u hu ha
  rw [run] at hu
  cases hrun : rule.run setting inner s with
  | done b t =>
    rw [hrun] at hu
    cases hu
    exact h hc a u hrun ha
  | failed d t =>
    rw [hrun] at hu
    dsimp only at hu
    have hst : s.Onward (t.note d) := by
      have := onward_run setting hi rule s
      rw [hrun] at this
      exact this.trans ⟨.refl _, ⟨[], rfl⟩, rfl⟩
    split at hu
    · rcases hr d t hrun with hlt | hm
      · exact Nat.lt_of_le_of_lt (onward_of_done hi hu).left_le hlt
      · exact Nat.lt_of_lt_of_le (hm (hst.closed hc) a u hu ha) hst.left_le
    · cases hu

theorem movesOn_mendClause {p : Clause → Prop}
    (h : s.cursor.kind.endsClauses s.scopes.isNested = false) (start : Nat) :
    MovesOn setting inner p (.mend clause (failedClause start s.cursor.position)) s := by
  refine movesOn_mend hi (movesOn_clause hi) fun d t ht => ?_
  have hst : s.Onward t := by
    have := onward_run setting hi clause s
    rwa [ht] at this
  by_cases hp : t.cursor.position = s.cursor.position
  · have hcur := cursor_eq_of_position_eq hst.cursor hp
    refine Or.inr (movesOn_failedClause hi _ hp ?_)
    change t.cursor.kind.endsClauses t.scopes.isNested = false
    rw [hcur, hst.isNested_eq]
    exact h
  · have hadd := hst.cursor.position_add_left
    have hle := hst.left_le
    refine Or.inl ?_
    unfold State.left at hle ⊢
    omega

/-- **A clause or its stand-in moves on**, unless the branch ends where it would begin. -/
theorem movesOn_clauseOrError {p : Clause → Prop}
    (h : s.cursor.kind.endsClauses s.scopes.isNested = false) :
    MovesOn setting inner p clauseOrError s := by
  refine .bind_right hi fun begin t ht => ?_
  cases ht
  exact .look hi (.bind_left hi (movesOn_mendClause hi h _))

/-- The next clause of a branch that does not end here. -/
theorem movesOn_nextClause_of {p : Option Clause → Prop}
    (h : s.cursor.kind.endsClauses s.scopes.isNested = false) :
    MovesOn setting inner p nextClause s := by
  refine .bind_right hi fun ends t ht => ?_
  rw [run_atClausesEnd s, h] at ht
  cases ht
  exact .bind_left hi (movesOn_clauseOrError hi h)

/-- The next clause of a branch, if there is one. -/
theorem movesOn_nextClause (s : State) :
    MovesOn setting inner (fun c => c.isSome) nextClause s := by
  cases h : s.cursor.kind.endsClauses s.scopes.isNested with
  | false => exact movesOn_nextClause_of hi h
  | true =>
    refine .bind_right hi fun ends t ht => ?_
    rw [run_atClausesEnd s, h] at ht
    cases ht
    exact .pure Bool.false_ne_true

/-! ### Statements -/

/-- Reading many moves on if reading one does, whether there is one or not. -/
theorem movesOn_many_first {rule : Rule (Option α)} {items : List α} {p : List α → Prop}
    (h : MovesOn setting inner (fun _ => True) rule s)
    (hs : ∀ t, s.Onward t → MovesOn setting inner (fun a => a.isSome) rule t) :
    MovesOn setting inner p (many rule items) s := by
  intro hc all t hr _
  rw [run_many hi hc hs] at hr
  rcases hone : rule.run setting inner s with ⟨next, u⟩ | ⟨d, u⟩
  · rw [hone] at hr
    have hu := h hc next u hone trivial
    cases next with
    | none =>
      cases hr
      exact hu
    | some item => exact Nat.lt_of_le_of_lt (onward_of_done hi hr).left_le hu
  · rw [hone] at hr
    cases hr

omit hi in
theorem movesOn_inScope {rule : Rule α} {p : α → Prop} (kind : ScopeKind)
    (h : MovesOn setting inner p rule { s with scopes := s.scopes.push kind }) :
    MovesOn setting inner p (.inScope kind rule) s := by
  intro hc a t hr ha
  rw [run] at hr
  cases hrun : rule.run setting inner { s with scopes := s.scopes.push kind } with
  | done b u =>
    rw [hrun] at hr
    cases hr
    exact h hc a u hrun ha
  | failed d u =>
    rw [hrun] at hr
    cases hr

omit hi in
/-- A branch that ends at once leaves everything as it is. -/
theorem run_branch_of_ends {kind : ScopeKind}
    (h : s.cursor.kind.endsClauses (s.scopes.push kind).isNested = true) :
    (branch kind).run setting inner s = .done [] s := by
  have hnone : nextClause.run setting inner { s with scopes := s.scopes.push kind } =
      .done none { s with scopes := s.scopes.push kind } := by
    rw [nextClause, run_bind_done (run_atClausesEnd _)]
    exact congrArg (fun ends => Rule.run setting inner (if ends = true then _ else _) _) h
  rw [branch, run, run_many_none hnone]
  exact congrArg (Outcome.done []) (congrArg (State.mk s.cursor · s.problems s.depth)
    (Scopes.pop_recordAll_push s.scopes kind []))

omit hi in
/-- Complaining about the want of clauses does not move the cursor. -/
theorem cursor_eq_of_branchIn {kind : ScopeKind} {context : String} {clauses : List Clause}
    {t : State} (h : s.cursor.kind.endsClauses (s.scopes.push kind).isNested = true)
    (ht : (branchIn kind context).run setting inner s = .done clauses t) :
    t.cursor = s.cursor := by
  rw [branchIn, run_bind_done (run_branch_of_ends h)] at ht
  obtain ⟨_, u, hu, ht⟩ := done_of_bind ht
  cases ht
  change (Rule.complain _).run setting inner s = _ at hu
  rw [run] at hu
  split at hu
  · cases hu
    rfl
  · cases hu

/-- **A query moves on** if it begins with something that does not end a branch, or with a union. -/
theorem movesOn_query {p : Query → Prop} {kind : ScopeKind}
    (h : s.cursor.kind = .keyword .UNION ∨
      s.cursor.kind.endsClauses (s.scopes.push kind).isNested = false) :
    MovesOn setting inner p (query kind) s := by
  refine .bind_right hi fun begin t ht => ?_
  cases ht
  rcases h with h | h
  · refine .bind_right hi fun clauses t ht => .bind_left hi ?_
    have hkind : t.cursor.kind = .keyword .UNION := by
      rw [cursor_eq_of_branchIn (h ▸ rfl) ht]
      exact h
    refine movesOn_many_first hi ?_ fun u _ => movesOn_furtherUnion hi kind u
    refine .bind_right hi fun found u hu => ?_
    rw [atWord, run_isAt, decide_eq_true hkind] at hu
    cases hu
    exact .bind_left hi (.bind_left hi (.advance (hkind ▸ TokenKind.noConfusion)))
  · refine .bind_left hi (.bind_left hi (movesOn_inScope kind ?_))
    exact movesOn_many_first hi (movesOn_nextClause_of hi h) fun t _ => movesOn_nextClause hi t

omit hi in
/-- Outside of all scopes, a branch goes on before the next semicolon, or a union comes. -/
theorem union_or_goesOn {kind : ScopeKind} (hs : s.scopes = .outside)
    (hend : s.cursor.kind ≠ .endOfInput) (hsemi : s.cursor.kind ≠ .sign .semicolon) :
    s.cursor.kind = .keyword .UNION ∨
      s.cursor.kind.endsClauses (s.scopes.push kind).isNested = false := by
  by_cases hu : s.cursor.kind = .keyword .UNION
  · exact Or.inl hu
  · refine Or.inr ?_
    rw [hs]
    unfold TokenKind.endsClauses
    split
    · next he => exact absurd he hend
    · next he => exact absurd he hsemi
    · next he => exact absurd he hu
    · rfl
    · rfl

/-- **A statement moves on** if anything comes before the next semicolon. -/
theorem movesOn_statement {p : Statement → Prop} (hs : s.scopes = .outside)
    (hend : s.cursor.kind ≠ .endOfInput) (hsemi : s.cursor.kind ≠ .sign .semicolon) :
    MovesOn setting inner p statement s :=
  .look hi (.bind_left hi (movesOn_query hi (union_or_goesOn hs hend hsemi)))

end Cypher.Grammar
