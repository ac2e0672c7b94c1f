import Cypher.Proofs.Modes
import Cypher.Proofs.Passage

/-!
# Documents of a single clause

What is said about reading a clause is said about a document too, if the clause is all there is: the
clause is the only one of its branch, the branch the only one of its query, and the query the only
statement. What has been noted in the scope of the branch is gone after it, so the state behind the
document is the one before, moved on.

Mistakes are not forgiven here. What is read without forgiveness is read with it, and with nothing
noted (`Cypher.Grammar.read_eq_of_strict_done`).
-/

namespace Cypher

variable {setting : Setting} {inner : Inner} {s t : State} {ok : Prop} {post : Clause → Prop}
  {word : ClauseKind}

namespace Grammar

open Rule hiding pure bind

/-! ### The clause of a branch -/

/-- What begins a clause does not end the clauses of a branch. -/
theorem endsClauses_of_startsClause {kind : TokenKind} (h : kind.startsClause = true)
    (nested : Bool) : kind.endsClauses nested = false := by
  cases kind with
  | keyword word => cases word <;> first | rfl | cases h
  | _ => cases h

/-- Where the clauses of a branch end at the end of everything. -/
theorem run_nextClause_none (ht : t.cursor.kind = .endOfInput) :
    nextClause.run setting inner t = .done none t := by
  rw [nextClause, run_bind_done (run_atClausesEnd t), ht]
  rfl

/-- **A clause that is read without forgiveness, and noted.** -/
theorem reads_nextClause (hset : setting.forgiving = false)
    (hk : s.cursor.kind.startsClause = true) (hword : ∀ c, post c → c.kind = word)
    (h : (clause.run setting inner s).ReadsIff ok t post) :
    (nextClause.run setting inner s).ReadsIff ok { t with scopes := t.scopes.record word }
      fun next => ∃ clause, next = some clause ∧ post clause := by
  rw [nextClause, run_bind_done (run_atClausesEnd s), endsClauses_of_startsClause hk,
    if_neg Bool.false_ne_true]
  have hclause : (clauseOrError.run setting inner s).ReadsIff ok
      { t with scopes := t.scopes.record word } post := by
    rw [clauseOrError, startHere, here, run_bind, run_bind, run_look, Outcome.andThen_done,
      run_pure, Outcome.andThen_done, run_bind, run_look, Outcome.andThen_done]
    refine .bind_done (h.mend hset) fun clause hc => ⟨clause, ?_, hc⟩
    rw [← hword clause hc]
    rfl
  exact .bind_done hclause fun clause hc => ⟨_, rfl, clause, rfl, hc⟩

/-! ### Branches, queries and documents -/

section Only

variable (hset : setting.forgiving = false) (hk : s.cursor.kind.startsClause = true)
  (ha : s.cursor.ahead ≠ []) (ht : t.cursor.kind = .endOfInput)
  (hmoved : t = { s with cursor := t.cursor }) (hword : ∀ c, post c → c.kind = word)
  (h : ∀ s' : State, s'.cursor = s.cursor →
    (clause.run setting inner s').ReadsIff ok { s' with cursor := t.cursor } post)

include hset hk ha ht hmoved hword h

/-- **A branch behind whose clause everything ends.** -/
theorem reads_branch (kind : ScopeKind) : ((branch kind).run setting inner s).ReadsIff ok t
    fun clauses => ∃ clause, clauses = [clause] ∧ post clause := by
  let inside : State := { s with scopes := s.scopes.push kind }
  have hclause := reads_nextClause (s := inside) hset hk hword (h inside rfl)
  have hmany := reads_many_once (s := inside) ha hclause (run_nextClause_none ht)
  rw [branch, run, hmoved]
  exact hmany.mapState (f := fun u => { u with scopes := u.scopes.pop })

/-- **A query behind whose clause everything ends.** -/
theorem reads_query (kind : ScopeKind) : ((query kind).run setting inner s).ReadsIff ok t
    fun query => ∃ clause span, query = ⟨[clause], [], span⟩ ∧ post clause := by
  have hin : ((branchIn kind "at the start of a query").run setting inner s).ReadsIff ok t
      fun clauses => ∃ clause, clauses = [clause] ∧ post clause := by
    refine .bind_done (reads_branch hset hk ha ht hmoved hword h kind) ?_
    rintro _ ⟨clause, rfl, hclause⟩
    exact ⟨_, rfl, clause, rfl, hclause⟩
  have hunion : (optionally (atWord .UNION) (unionBranch kind)).run setting inner t =
      .done none t := by
    refine run_optionally_false ?_
    rw [run_isAt, ht]
    rfl
  rw [query, startHere, here, run_bind, run_bind, run_look, Outcome.andThen_done, run_pure,
    Outcome.andThen_done]
  refine .bind_done hin ?_
  rintro _ ⟨clause, rfl, hclause⟩
  rw [run_bind_done (run_many_none hunion)]
  exact ⟨_, rfl, clause, _, rfl, hclause⟩

/-- **A document behind whose clause everything ends.** -/
theorem reads_document : (document.run setting inner s).ReadsIff ok t fun document =>
    ∃ query span, document = ⟨[.query query], span⟩ ∧
      ∃ clause span, query = ⟨[clause], [], span⟩ ∧ post clause := by
  have hsemicolons (u : State) (hu : u.cursor.kind ≠ .sign .semicolon) :
      moveOverSemicolons.run setting inner u = .done () u :=
    run_loop_none (run_optionally_false (run_consume_of_ne hu))
  have hstatement : (statement.run setting inner s).ReadsIff ok t fun statement =>
      ∃ query, statement = .query query ∧
        ∃ clause span, query = ⟨[clause], [], span⟩ ∧ post clause := by
    rw [statement, here, run_bind, run_look, Outcome.andThen_done, View.read,
      show s.cursor.current.kind = s.cursor.kind from rfl, hk]
    exact .bind_done (reads_query hset hk ha ht hmoved hword h .statement) fun query hq =>
      ⟨_, rfl, query, rfl, hq⟩
  have hproper : s.cursor.kind ≠ .sign .semicolon ∧ s.cursor.kind ≠ .endOfInput := by
    constructor
    · intro he
      rw [he] at hk
      cases hk
    · intro he
      rw [he] at hk
      cases hk
  have hnext : (nextStatement.run setting inner s).ReadsIff ok t fun next =>
      ∃ statement, next = some statement ∧ ∃ query, statement = .query query ∧
        ∃ clause span, query = ⟨[clause], [], span⟩ ∧ post clause := by
    rw [nextStatement, run_bind_done (hsemicolons s hproper.1), run_bind, run_isAt,
      Outcome.andThen_done, decide_eq_false hproper.2]
    exact .bind_done hstatement fun statement hs => ⟨_, rfl, statement, rfl, hs⟩
  have hnone : nextStatement.run setting inner t = .done none t := by
    rw [nextStatement, run_bind_done (hsemicolons t (by rw [ht]; decide)), run_bind, run_isAt,
      Outcome.andThen_done, ht]
    rfl
  refine .bind_done (reads_many_once ha hnext hnone) ?_
  rintro _ ⟨_, rfl, query, rfl, hq⟩
  exact ⟨_, rfl, query, _, rfl, hq⟩

end Only

/-! ### With forgiveness -/

/-- **What is read without forgiveness is read under any setting**, with nothing noted. -/
theorem read_eq_of_strict_done {tokens : List Token} {tree : Document}
    (h : start setting.strict document (.start tokens) = .done tree t) (ht : t.problems = []) :
    ∃ scopes, read setting tokens = ⟨some tree, [], scopes⟩ := by
  have hread : read setting.strict tokens = ⟨some tree, [], t.scopes⟩ := by
    rw [read, h, Reading.ofOutcome, ht]
  cases hf : setting.forgiving with
  | false => exact ⟨t.scopes, by rw [← hread, Setting.strict_of_not_forgiving hf]⟩
  | true =>
    rcases read_strict_cases setting tokens with ⟨document, scopes, hs, hl⟩ |
      ⟨d, scopes, document, problems, scopes', hs, hl⟩
    · obtain rfl : document = tree := by
        rw [hs] at hread
        exact Option.some.inj (congrArg Reading.document hread)
      exact ⟨scopes, by rw [← hl, Setting.lenient_of_forgiving hf]⟩
    · rw [hs] at hread
      cases congrArg Reading.document hread

end Grammar

end Cypher
