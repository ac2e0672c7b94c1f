import Cypher.Proofs.Ledger.Clause
import Cypher.Grammar.Query

/-!
# Ledgers of documents

A problem is noted in two places only. A clause that cannot be read leaves a stand-in, and a branch
without clauses is itself what the problem was about. So where problems count, each of them leaves
an element that does not meet the demand, and the elements read in the end meet it throughout if and
only if nothing has been noted (`Cypher.Ledger.throughout_document`). Where problems do not count,
they all meet it.
-/

namespace Cypher.Grammar

open Rule hiding pure bind
open Composed (elements)

variable {setting : Setting} {inner : Inner} {L : Ledger setting}

/-! ### Rules without clauses -/

theorem quiet_atClausesEnd : atClausesEnd.Quiet setting inner :=
  .bind (.look _) fun _ => .bind (.look _) fun _ => .pure _

theorem quiet_failedClause (start position : Nat) :
    (failedClause start position).Quiet setting inner := by
  refine .bind (.bind (.look _) fun _ => .ite ?_ (.pure _)) fun _ => ?_
  · exact .bind quiet_atClausesEnd fun _ => .ite (.pure _) quiet_move
  · exact .bind .resume fun _ => .bind (.look _) fun _ => .pure _

theorem quiet_recordAll (clauses : List Clause) : (recordAll clauses).Quiet setting inner := by
  induction clauses with
  | nil => exact .pure _
  | cons clause clauses ih => exact .bind (.record _) fun _ => ih

theorem quiet_moveOverSemicolons : moveOverSemicolons.Quiet setting inner :=
  .loop (fun _ => .optionally (.consume _) (.pure _)) _

section Queries

variable {room : Nat} (h : Inner.Accounts L (runNested setting body room)) {s : State}

include h

/-! ### Branches -/

/-- **A clause or its stand-in.** The problem that the clause failed with has been noted. -/
theorem accounts_clauseOrError : Accounts L (runNested setting body room) [] clauseOrError s := by
  refine .startHere (.look (.bind h.steady ?_ fun clause t => ?_))
  · intro hs a t hr
    rw [run] at hr
    cases hrun : clause.run setting (runNested setting body room) s with
    | done b u =>
      rw [hrun] at hr
      cases hr
      exact accounts_clause h hs a t hrun
    | failed d u =>
      rw [hrun] at hr
      dsimp only at hr
      split at hr
      · -- one problem more has been noted, so the ledger is still only if problems do not count
        have hnoted : t.problems = u.problems ++ [d] := quiet_failedClause _ _ _ _ _ hr
        have hkept : s.problems <+: u.problems := by
          have := upkeep_run (upkeep_problems setting) h.steady.notes clause s
          rw [hrun] at this
          exact this.2
        have hstill : L.Still s t ↔ ¬L.counts := by
          refine ⟨fun hst hc => ?_, fun hc hc' => absurd hc' hc⟩
          have hlength := congrArg List.length (hnoted.symm.trans (hst hc))
          have hle := hkept.length_le
          rw [List.length_append, List.length_singleton] at hlength
          omega
        obtain ⟨_, v, -, hr⟩ := done_of_bind hr
        obtain ⟨_, w, -, hr⟩ := done_of_bind hr
        cases hr
        rw [hstill, and_iff_right Ledger.met_nil, ← L.clauseError]
        exact Ledger.met_singleton.trans (and_iff_left Ledger.met_nil)
      · cases hr
  · exact .skip h.steady (.record _) fun _ u _ => .pure fun _ => .rfl

theorem accounts_nextClause : Accounts L (runNested setting body room) [] nextClause s := by
  refine .skip h.steady quiet_atClausesEnd fun ends t _ => .ite (fun _ => .pure fun _ => .rfl) ?_
  exact fun _ => .bind h.steady (accounts_clauseOrError h) fun c u => .pure (by simp [elements])

/-- **The clauses of a branch**, the want of which has been noted. -/
theorem still_branchIn {kind : ScopeKind} {context : String} {clauses : List Clause} {t : State}
    (hs : L.known s.cursor)
    (hr : (branchIn kind context).run setting (runNested setting body room) s = .done clauses t) :
    ((L.counts → clauses ≠ []) ∧ L.Met (elements clauses)) ↔ L.Still s t := by
  obtain ⟨clauses, u, hu, hr⟩ := done_of_bind hr
  obtain ⟨_, v, hv, hr⟩ := done_of_bind hr
  cases hr
  have hbranch := accounts_inScope (fun w => accounts_many h.steady fun x =>
    accounts_nextClause h) hs clauses u hu
  rw [hbranch, and_iff_right Ledger.met_nil]
  cases clauses with
  | cons clause clauses =>
    cases hv
    exact and_iff_right fun _ => List.cons_ne_nil _ _
  | nil =>
    have hkept := h.steady.prefix_of_done hu
    change (complain _).run setting (runNested setting body room) u = _ at hv
    rw [run] at hv
    split at hv
    · cases hv
      -- if problems count, both sides are wrong: no clauses here, and one problem more there
      refine ⟨fun hm hc => absurd rfl (hm.1 hc), fun hst => ⟨fun hc => ?_, fun hc => ?_⟩⟩
      all_goals
        have hlength := congrArg List.length (hst hc)
        have hle := hkept.length_le
        simp only [State.note, List.length_append, List.length_singleton] at hlength
        omega
    · cases hv

theorem accounts_unionBranch (kind : ScopeKind) :
    Accounts L (runNested setting body room) [] (unionBranch kind) s := by
  refine .skip h.steady .advance fun word t _ => .skip h.steady (.consume _) fun all u _ => ?_
  intro hs a v hr
  obtain ⟨clauses, w, hw, hr⟩ := done_of_bind hr
  cases hr
  rw [and_iff_right Ledger.met_nil, ← still_branchIn h hs hw]
  refine Ledger.met_singleton.trans ?_
  rw [L.branch]
  rfl

/-! ### Queries -/

/-- **Queries are accounted for.** -/
theorem accounts_query (kind : ScopeKind) :
    Accounts L (runNested setting body room) [] (query kind) s := by
  intro hs q u hr
  have hquery := L.query hs hr
  obtain ⟨_, _, hstart, hr⟩ := done_of_bind hr
  cases hstart
  obtain ⟨clauses, t, ht, hr⟩ := done_of_bind hr
  obtain ⟨unions, v, hv, hr⟩ := done_of_bind hr
  cases hr
  have hknown := L.onward hs (onward_of_done h.steady.goesOn ht).cursor
  have hunions := accounts_many h.steady (fun w => accounts_optionally h.steady (.isAt _) fun x _ =>
    accounts_unionBranch h kind) hknown unions u hv
  refine Ledger.met_singleton.trans ?_
  rw [hquery, and_iff_right Ledger.met_nil,
    Ledger.still_trans (h.steady.prefix_of_done ht) (h.steady.prefix_of_done hv),
    ← still_branchIn h hs ht, and_assoc]
  refine and_congr_right fun _ => Ledger.met_append.trans (and_congr_right fun _ => ?_)
  rw [hunions, and_iff_right Ledger.met_nil]

/-- The short form of a subquery has a clause that is nothing but its pattern. -/
theorem accounts_patternBody : Accounts L (runNested setting body room) [] patternBody s := by
  intro hs q t hr
  have hquery := L.patternBody hs hr
  obtain ⟨_, _, hstart, hr⟩ := done_of_bind hr
  cases hstart
  obtain ⟨pattern, u, hu, hr⟩ := done_of_bind hr
  obtain ⟨filter, v, hv, hr⟩ := done_of_bind hr
  obtain ⟨_, w, hw, hr⟩ := done_of_bind hr
  cases hr
  have hpattern := accounts_pattern h hs pattern u hu
  have hfilter := accounts_optionally h.steady (.isAt _) (fun x _ => accounts_whereClause h)
    (L.onward hs (onward_of_done h.steady.goesOn hu).cursor) filter v hv
  have hclause : L.Met [.clause (.matchPattern false pattern pattern.span)] ↔
      L.Met (elements pattern) :=
    Ledger.met_singleton.trans (and_iff_right (L.plain rfl))
  have hchildren : ∀ span e, e ∈ (Element.query ⟨.matchPattern false pattern pattern.span ::
      filter.toList, [], span⟩).children ↔
      e ∈ [.clause (.matchPattern false pattern pattern.span)] ++ elements filter := by
    cases filter <;> simp [Element.children, elements]
  refine Ledger.met_singleton.trans ?_
  rw [and_iff_right hquery, Ledger.met_congr (hchildren _), Ledger.met_append, hclause, hpattern,
    hfilter, Ledger.still_congr (quiet_recordAll _ _ _ _ hw)]
  simp only [Ledger.met_nil, true_and]
  exact (Ledger.still_trans (h.steady.prefix_of_done hu) (h.steady.prefix_of_done hv)).symm

theorem accounts_existsBody : Accounts L (runNested setting body room) [] existsBody s := by
  refine .look (.ite (fun _ => accounts_query h .subquery) fun _ => ?_)
  exact accounts_inScope fun t => accounts_patternBody h

end Queries

/-! ### Nested rules -/

theorem steady_runNested (setting : Setting) (room : Nat) :
    Inner.Steady (runNested setting body room) :=
  ⟨goesOn_runNested setting body room, upkeep_runNested (upkeep_problems setting) body room⟩

/-- What a nested rule reads is accounted for if what its body reads is. -/
theorem accounts_deeper {α : Type} [Composed α] {room : Nat} {rule : Nested α} {s : State}
    (h : ∀ t, Accounts L (runNested setting body room) [] (body rule) t) :
    Accounts L (runNested setting body (room + 1)) [] (.nested rule) s := by
  intro hs a t hr
  obtain ⟨u, hu, rfl⟩ := done_of_runNested hr
  exact h { s with depth := s.depth + 1 } hs a u hu

/-- **Nested rules are accounted for.** -/
theorem accounts_runNested (L : Ledger setting) (room : Nat) :
    Inner.Accounts L (runNested setting body room) := by
  induction room with
  | zero =>
    refine ⟨steady_runNested setting 0, fun strength s _ e t hr => ?_,
      fun s _ q t hr => ?_, fun s _ q t hr => ?_⟩
    all_goals cases hr
  | succ room ih =>
    exact ⟨steady_runNested setting _, fun strength s => accounts_deeper
      (accounts_expressionOf ih), fun s => accounts_deeper fun t =>
      accounts_query ih .subquery, fun s => accounts_deeper fun t => accounts_existsBody ih⟩

/-! ### Documents -/

section Documents

variable {room : Nat} (h : Inner.Accounts L (runNested setting body room)) {s : State}

include h

/-- **A statement is accounted for**, even when nothing in it could be read. -/
theorem accounts_statement : Accounts L (runNested setting body room) [] statement s := by
  intro hs x t hr
  obtain ⟨token, u, hu, hr⟩ := done_of_bind hr
  cases hu
  obtain ⟨q, u, hu, hr⟩ := done_of_bind hr
  have hquery := accounts_query h .statement hs q u hu
  split at hr
  · next hbad =>
    cases hr
    rw [← hquery]
    refine Ledger.met_singleton.trans ((and_iff_left Ledger.met_nil).trans ?_)
    rw [L.statementError]
    refine ⟨fun hc => hquery.2 ⟨Ledger.met_nil, fun hc' => absurd hc' hc⟩, fun hm hc => ?_⟩
    -- a query that meets the demand has a first clause, and that is a stand-in here
    obtain ⟨hdemand, hm⟩ := Ledger.met_singleton.1 hm
    obtain ⟨first, rest, hclauses⟩ :=
      List.exists_cons_of_ne_nil ((L.query hs hu).1 hdemand hc)
    have hfirst : first.isError = true := by
      simp only [hclauses, List.all_cons, Bool.and_eq_true] at hbad
      exact hbad.1.2.1
    have hmem : .clause first ∈ (Element.query q).children := by
      simp [Element.children, elements, hclauses]
    obtain ⟨span, rfl⟩ : ∃ span, first = .error span := by
      cases first <;> first | exact ⟨_, rfl⟩ | cases hfirst
    exact (L.clauseError span).1 (Element.throughout_iff.1 (hm _ hmem)).1 hc
  · cases hr
    rw [← hquery]
    exact Ledger.met_singleton.trans (and_iff_right (L.plain rfl))

theorem accounts_nextStatement : Accounts L (runNested setting body room) [] nextStatement s := by
  refine .skip h.steady quiet_moveOverSemicolons fun _ t _ => .skip h.steady (.isAt _) ?_
  refine fun ended u _ => .ite (fun _ => .pure fun _ => .rfl) fun _ => ?_
  exact .bind h.steady (accounts_statement h) fun x v => .pure (by simp [elements])

theorem accounts_document : Accounts L (runNested setting body room) [] document s := by
  refine .bind h.steady (accounts_many h.steady fun _ => accounts_nextStatement h) ?_
  exact fun statements t => .look (.close rfl rfl fun _ => .rfl)

end Documents

end Cypher.Grammar

namespace Cypher

/-- **A document meets a demand throughout** if and only if, as far as problems count, none has been
noted. -/
theorem Ledger.throughout_document {setting : Setting} (L : Ledger setting) {tokens : List Token}
    {tree : Document} (hk : L.known (.ofTokens tokens))
    (hr : (Grammar.read setting tokens).document = some tree) :
    (Element.document tree).Throughout L.demand ↔
      (L.counts → (Grammar.read setting tokens).problems = []) := by
  unfold Grammar.read at hr ⊢
  cases hrun : Grammar.start setting Grammar.document (.start tokens) with
  | done a t =>
    rw [hrun] at hr
    cases hr
    have hmet := Grammar.accounts_document (Grammar.accounts_runNested L setting.limit)
      (s := .start tokens) hk tree t hrun
    rw [and_iff_right Ledger.met_nil] at hmet
    exact List.forall_mem_singleton.symm.trans hmet
  | failed d t =>
    rw [hrun] at hr
    cases hr

end Cypher
