import Cypher.Proofs.Layout.Clause
import Cypher.Proofs.Recovery
import Cypher.Grammar.Query

/-!
# Documents are laid out well

The stand-in for a clause that has failed covers what has been skipped, which is at least a token.
With that, branches and queries are laid out like everything else, except that a query may be empty.
Nested rules lay out what they read if they do so with less room, and so a document that is read
from tokens that follow one another is laid out well.
-/

namespace Cypher.Grammar

open Rule hiding pure bind
open Composed (elements)

variable {fit : Nat → Prop} {setting : Setting} {inner : Inner}

section Queries

variable (h : inner.Lays fit setting) {s : State}

include h

/-! ### Branches -/

/-- **A clause or its stand-in** is behind the cursor and covers a token. -/
theorem laysAt_clauseOrError (hends : s.cursor.kind.endsClauses s.scopes.isNested = false) :
    LaysAt fit setting inner true clauseOrError s := by
  have hm : LaysAt fit setting inner true
      (.mend clause (failedClause s.cursor.front s.cursor.position)) s := by
    intro hs a t hr
    have hlt : t.left < s.left :=
      movesOn_mendClause (p := fun _ => True) h.goesOn hends _ hs.cursor.closed a t hr trivial
    have hcov := hs.passed (onward_of_done h.goesOn hr) hlt
    rw [run] at hr
    cases hrun : clause.run setting inner s with
    | done b u =>
      rw [hrun] at hr
      cases hr
      exact (laysAt_clause h).covers hs.cursor hrun
    | failed d u =>
      rw [hrun] at hr
      dsimp only at hr
      split at hr
      · obtain ⟨_, v, -, hr⟩ := done_of_bind hr
        obtain ⟨_, w, -, hr⟩ := done_of_bind hr
        cases hr
        exact hcov.close rfl fun _ hc => absurd hc List.not_mem_nil
      · cases hr
  refine .startHere (.look (.bind h.goesOn hm fun clause t => ?_))
  exact .skip h.goesOn fun _ u _ => .pure fun c hc => hc

theorem laysAt_nextClause : LaysAt fit setting inner false nextClause s := by
  refine .skip h.goesOn fun ends t ht => ?_
  rw [run_atClausesEnd s] at ht
  obtain ⟨rfl, rfl⟩ := Outcome.done.inj ht
  refine .ite (fun _ => .pure fun _ hc => absurd hc List.not_mem_nil) fun hends => ?_
  exact .lax (.bind h.goesOn (laysAt_clauseOrError h (Bool.eq_false_iff.2 hends)) fun c t =>
    .pure (by simp [elements]))

theorem laysAt_branchIn (kind : ScopeKind) (context : String) :
    LaysAt fit setting inner false (branchIn kind context) s := by
  refine .bind h.goesOn (laysAt_inScope fun t => laysAt_many h.goesOn fun u => laysAt_nextClause h)
    fun clauses t => ?_
  exact .skip h.goesOn fun _ u _ => .pure fun c hc => hc

theorem laysAt_unionBranch (kind : ScopeKind) (hk : s.cursor.kind ≠ .endOfInput) :
    LaysAt fit setting inner true (unionBranch kind) s := by
  refine .advance h.goesOn hk (.skip h.goesOn fun all t _ => ?_)
  refine .bind h.goesOn (laysAt_branchIn h kind _) fun clauses u => ?_
  exact .look (.close rfl rfl fun c hc => hc)

theorem laysAt_furtherUnion (kind : ScopeKind) :
    LaysAt fit setting inner false (optionally (atWord .UNION) (unionBranch kind)) s := by
  refine laysAt_optionally h.goesOn fun t ht => ?_
  obtain ⟨rfl, hk⟩ := kind_of_isAt ht
  exact laysAt_unionBranch h kind (hk ▸ TokenKind.noConfusion)

/-! ### Queries -/

/-- **Queries are laid out**, but an empty one stands where the next token starts. -/
theorem laysAhead_query (kind : ScopeKind) : (query kind).LaysAhead fit setting inner := by
  intro s hs q v hr
  obtain ⟨_, _, hstart, hr⟩ := done_of_bind hr
  cases hstart
  obtain ⟨clauses, t, ht, hr⟩ := done_of_bind hr
  obtain ⟨unions, u, hu, hr⟩ := done_of_bind hr
  cases hr
  have hclauses := (laysAt_branchIn h kind _).covers hs ht
  have hunions := (laysAt_many h.goesOn fun w => laysAt_furtherUnion h kind).covers
    hclauses.cursor hu
  have hall := hclauses.andThen (onward_of_done h.goesOn hu) hunions
  have hstop : max v.cursor.rear s.cursor.front ≤ v.cursor.front :=
    Nat.max_le.2 ⟨hall.cursor.rear_le_front, hall.le_front⟩
  refine .singleton ?_ (Nat.le_refl _) hstop
  refine hall.between.laid (e := .query _) rfl (Nat.le_max_left _ _) (Nat.le_max_right _ _)
    hall.fit_lo hall.fit_spanFrom

/-- The short form of a subquery has a clause that is nothing but its pattern. -/
theorem laysAt_patternBody : LaysAt fit setting inner true patternBody s := by
  refine .startHere (.part (laysAt_pattern h) fun pattern t hcov => ?_)
  have hclause : t.Covers fit s.cursor.front true
      [.clause (.matchPattern false pattern pattern.span)] :=
    State.Covers.recast hcov rfl fun hl => hl.around rfl rfl
  revert hclause
  change Builds _ _ _ _ _ _ _ _ _
  refine .bind h.goesOn (laysAt_optionally h.goesOn fun u hu => ?_) fun filter u => ?_
  · obtain ⟨rfl, hk⟩ := kind_of_isAt hu
    exact laysAt_whereClause h (hk ▸ TokenKind.noConfusion)
  · refine .skip h.goesOn fun _ v _ => .look (.close rfl rfl ?_)
    simp [Element.children, elements]

theorem laysAhead_existsBody : existsBody.LaysAhead fit setting inner := by
  intro s hs q t hr
  obtain ⟨token, u, hu, hr⟩ := done_of_bind hr
  cases hu
  split at hr
  · exact laysAhead_query h .subquery s hs q t hr
  · have hq := (laysAt_inScope fun v => laysAt_patternBody h).covers hs hr
    exact hq.between.mono (Nat.le_refl _) hq.cursor.rear_le_front

end Queries

/-! ### Nested rules -/

/-- **Nested rules lay out what they read.** -/
theorem lays_runNested (setting : Setting) (room : Nat) :
    Inner.Lays fit setting (runNested setting body room) := by
  induction room with
  | zero =>
    refine ⟨goesOn_runNested setting body 0, fun strength s _ e t hr => ?_,
      fun s _ q t hr => ?_, fun s _ q t hr => ?_⟩
    all_goals cases hr
  | succ room ih =>
    refine ⟨goesOn_runNested setting body _, fun strength s hs e t hr => ?_,
      fun s hs q t hr => ?_, fun s hs q t hr => ?_⟩
    · obtain ⟨u, hu, rfl⟩ := done_of_runNested hr
      have hcov := (laysAt_expressionOf ih strength (s := { s with depth := s.depth + 1 })).covers
        hs.cursor hu
      exact hcov.congr rfl
    · obtain ⟨u, hu, rfl⟩ := done_of_runNested hr
      exact laysAhead_query ih .subquery { s with depth := s.depth + 1 } hs q u hu
    · obtain ⟨u, hu, rfl⟩ := done_of_runNested hr
      exact laysAhead_existsBody ih { s with depth := s.depth + 1 } hs q u hu

/-! ### Documents -/

section Documents

variable (h : inner.Lays fit setting) {s : State}

include h

/-- **Statements are laid out** like the queries they consist of. -/
theorem between_statement {t : State} {x : Statement} (hs : s.cursor.Laid fit)
    (hr : statement.run setting inner s = .done x t) :
    Element.Between fit s.cursor.front t.cursor.front [.statement x] := by
  obtain ⟨token, u, hu, hr⟩ := done_of_bind hr
  cases hu
  obtain ⟨q, u, hu, hr⟩ := done_of_bind hr
  obtain ⟨hq, hstart, hstop⟩ := laysAhead_query h .statement s hs q u hu _ List.mem_cons_self
  split at hr
  · cases hr
    refine .singleton (.mk hq.ordered hq.fit_start hq.fit_stop ?_ ?_) hstart hstop
    · exact fun _ hc => absurd hc List.not_mem_nil
    · exact fun _ hc => absurd hc List.not_mem_nil
  · cases hr
    exact .singleton (hq.around rfl rfl) hstart hstop

theorem between_nextStatement {t : State} {next : Option Statement} (hs : s.cursor.Laid fit)
    (hr : nextStatement.run setting inner s = .done next t) :
    Element.Between fit s.cursor.front t.cursor.front (elements next) := by
  obtain ⟨_, u, hu, hr⟩ := done_of_bind hr
  obtain ⟨hu, hle, -⟩ := hs.onward (onward_of_done h.goesOn hu).cursor
  obtain ⟨ended, v, hv, hr⟩ := done_of_bind hr
  cases hv
  split at hr
  · cases hr
    exact .nil
  · obtain ⟨x, v, hv, hr⟩ := done_of_bind hr
    cases hr
    exact (between_statement h hu hv).mono hle (Nat.le_refl _)

/-- **Documents are laid out**: the statements lie one behind the other, up to the end. -/
theorem laid_of_document {t : State} {tree : Document} (h0 : fit 0) (hs : s.cursor.Laid fit)
    (hr : document.run setting inner s = .done tree t) : (Element.document tree).Laid fit := by
  obtain ⟨statements, u, hu, hr⟩ := done_of_bind hr
  cases hr
  suffices hp : t.cursor.Laid fit ∧ Element.Between fit 0 t.cursor.front (elements statements) by
    exact hp.2.laid rfl hp.1.front_le_stop (Nat.zero_le _) h0 hp.1.fit_stop
  refine loop_induct (p := fun statements s => s.cursor.Laid fit ∧
    Element.Between fit 0 s.cursor.front (elements statements)) (fun read v next w hv hw => ?_)
    ⟨hs, .nil⟩ hu
  obtain ⟨hv, hall⟩ := hv
  obtain ⟨found, x, hx, hw⟩ := done_of_bind hw
  cases hw
  obtain ⟨hw, hle, -⟩ := hv.onward (onward_of_done h.goesOn hx).cursor
  have hnext := (between_nextStatement h hv hx).mono (Nat.zero_le _) (Nat.le_refl _)
  refine ⟨hw, ?_⟩
  cases found with
  | none => exact hall.mono (Nat.le_refl _) hle
  | some x =>
    refine ((hall.mono (Nat.le_refl _) hle).append hnext).subset ?_
    simp [elements]

end Documents

/-- **Whatever document is read from tokens that follow one another is laid out well.** -/
theorem laid_of_read {tokens : List Token} {tree : Document} (h0 : fit 0)
    (hs : (Cursor.ofTokens tokens).Laid fit) (hr : (read setting tokens).document = some tree) :
    (Element.document tree).Laid fit := by
  unfold read at hr
  cases hrun : start setting document (.start tokens) with
  | done a t =>
    rw [hrun] at hr
    cases hr
    exact laid_of_document (s := .start tokens) (lays_runNested setting setting.limit) h0 hs hrun
  | failed d t =>
    rw [hrun] at hr
    cases hr

end Cypher.Grammar
