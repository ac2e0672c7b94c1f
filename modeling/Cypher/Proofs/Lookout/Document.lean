import Cypher.Proofs.Clean
import Cypher.Proofs.Guess.Brackets
import Cypher.Proofs.Lookout.Clause
import Cypher.Proofs.Tiling.Document

/-!
# Looking out in documents

Behind a clause no name is awaited, so the next clause begins as the first did, and the induction on
the room for nested rules closes the circle between clauses and expressions
(`Cypher.Grammar.finds_runNested`). A document is read up to the end of the text; so wherever the
word stands, it has been passed, and a clause of some query begins there
(`Cypher.Lookout.exists_query`).
-/

namespace Cypher

namespace Grammar

open Rule hiding pure bind
open Composed (elements)

variable {setting : Setting} {L : Lookout setting} {room : Nat} {s : State}
  (h : Inner.Finds L (runNested setting body room))

section Queries

include h

/-! ### Branches -/

/-- Where mistakes are not forgiven, there is a clause and no stand-in for one. -/
theorem finds_clauseOrError (hs : s.awaits = false) :
    Finds L (runNested setting body room) [] clauseOrError s := by
  refine .startHere (.look (.bind h.goesOn ?_ fun clause t ht => ?_))
  · intro hover c t hr
    rw [run] at hr
    split at hr
    · next hrun =>
      cases hr
      exact finds_clause h hs hover c t hrun
    · -- a stand-in would have to be forgiven
      rw [L.strict, if_neg Bool.false_ne_true] at hr
      cases hr
  · refine .skip h.goesOn (fun _ _ u hu => ?_) fun _ u hu => ?_
    all_goals cases hu
    · exact Lookout.not_between_refl t
    · exact .pure ht fun _ hc => hc

theorem finds_nextClause (hs : s.awaits = false) :
    Finds L (runNested setting body room) [] nextClause s := by
  refine .skip h.goesOn (fun _ _ t ht => ?_) fun ends t ht => ?_
  all_goals cases (run_atClausesEnd s).symm.trans ht
  · exact Lookout.not_between_refl s
  · refine .ite (fun _ => .pure hs nofun) fun _ => ?_
    exact .bind h.goesOn (finds_clauseOrError h hs) fun c u hu => .pure hu (by simp [elements])

theorem finds_branchIn (kind : ScopeKind) (context : String) (hs : s.awaits = false) :
    Finds L (runNested setting body room) [] (branchIn kind context) s := by
  have hbranch : Finds L (runNested setting body room) [] (branch kind) s :=
    finds_inScope (finds_many h.goesOn hs fun t ht => finds_nextClause h ht)
  refine .bind h.goesOn hbranch fun clauses t ht => ?_
  have hkept (u : State)
      (hu : (requireClauses context clauses).run setting (runNested setting body room) t =
        .done () u) : u = t := by
    unfold requireClauses at hu
    split at hu
    · rw [run, L.strict, if_neg Bool.false_ne_true] at hu
      cases hu
    · cases hu
      rfl
  refine .skip h.goesOn (fun _ _ u hu => ?_) fun _ u hu => ?_
  all_goals obtain rfl := hkept u hu
  · exact Lookout.not_between_refl u
  · exact .pure ht fun _ hc => hc

theorem finds_unionBranch (kind : ScopeKind) (hk : s.cursor.kind.isOrdinary = true) :
    Finds L (runNested setting body room) [] (unionBranch kind) s := by
  refine .past h.goesOn (.advance hk) fun word t ht => ?_
  refine .past h.goesOn (clears_consume rfl ht) fun all u hu => ?_
  exact .bind h.goesOn (finds_branchIn h kind _ hu) fun clauses v hv =>
    .look (.close hv rfl fun _ hc => hc)

/-! ### Queries -/

/-- **The word is found in queries**, if they are read past it. -/
theorem finds_query (kind : ScopeKind) (hs : s.awaits = false) :
    Finds L (runNested setting body room) [] (query kind) s := by
  refine .startHere (.bind h.goesOn (finds_branchIn h kind _ hs) fun clauses t ht => ?_)
  refine .bind h.goesOn (finds_many h.goesOn ht fun u hu => finds_optionally h.goesOn hu
    (tests_isAt _) fun v hv => finds_unionBranch h kind ?_) fun unions u hu => ?_
  · rw [(kind_of_isAt hv).1, (kind_of_isAt hv).2]
    rfl
  · exact .look (.close hu rfl fun _ hc => hc)

omit h in
theorem clears_recordAll (clauses : List Clause) (hs : s.awaits = false) :
    Clears L (runNested setting body room) (recordAll clauses) s := by
  induction clauses generalizing s with
  | nil => exact .pure hs
  | cons clause clauses ih =>
    refine .bind (goesOn_runNested setting body room) (fun _ _ t ht => ?_) fun _ t ht => ?_
    all_goals cases ht
    · exact Lookout.not_between_refl s
    · exact ih hs

/-- The clause that a pattern stands for holds what is found in the pattern. -/
theorem finds_patternBody (s : State) :
    Finds L (runNested setting body room) [] patternBody s := by
  refine .startHere (.bind h.goesOn (finds_pattern h s) fun pattern t ht => ?_)
  refine .bind h.goesOn (finds_optionally h.goesOn ht (tests_isAt _) fun u hu =>
    finds_whereClause h ?_) fun filter u hu => ?_
  · rw [(kind_of_isAt hu).1, (kind_of_isAt hu).2]
    rfl
  refine .past h.goesOn (clears_recordAll _ hu) fun _ v hv => .look ?_
  intro _ q t hr
  cases hr
  refine ⟨hv, fun hmet => ?_⟩
  have hfound := hmet.resolve_right (Lookout.not_between_refl _)
  rw [List.nil_append] at hfound
  -- what is found in the pattern is found in the clause for it, and the rest in the other clause
  rcases Lookout.found_append.1 hfound with hpattern | hfilter
  · have hclause : L.Found [.clause (.matchPattern false pattern pattern.span)] :=
      hpattern.close fun _ hc => hc
    exact hclause.close (by simp [Element.children, elements])
  · exact hfilter.close (by cases filter <;> simp [Element.children, elements])

theorem finds_existsBody (hs : s.awaits = false) :
    Finds L (runNested setting body room) [] existsBody s := by
  refine .look (.ite (fun _ => finds_query h .subquery hs) fun _ => ?_)
  exact finds_inScope (finds_patternBody h _)

end Queries

/-! ### Nested rules -/

/-- In what a nested rule reads the word is found if it is in what its body reads. -/
theorem finds_deeper {α : Type} [Composed α] {rule : Nested α}
    (h : Finds L (runNested setting body room) [] (body rule) { s with depth := s.depth + 1 }) :
    Finds L (runNested setting body (room + 1)) [] (.nested rule) s := by
  intro hs a t hr
  obtain ⟨u, hu, rfl⟩ := done_of_runNested hr
  exact h hs a u hu

/-- **The word is found in what nested rules read**, if they read past it. -/
theorem finds_runNested (L : Lookout setting) (room : Nat) :
    Inner.Finds L (runNested setting body room) := by
  induction room with
  | zero =>
    refine ⟨goesOn_runNested setting body 0, fun strength s _ e t hr => ?_,
      fun {s} hs _ q t hr => ?_, fun {s} hs _ q t hr => ?_⟩
    all_goals cases hr
  | succ room ih =>
    exact ⟨goesOn_runNested setting body _, fun strength s => finds_deeper
      (finds_expressionOf ih strength _), fun hs => finds_deeper (finds_query ih .subquery hs),
      fun hs => finds_deeper (finds_existsBody ih hs)⟩

/-! ### Documents -/

section Documents

/-- Where mistakes are not forgiven, no statement is a stand-in. -/
theorem exists_query_of_statement {x : Statement} {t : State}
    (hr : statement.run setting (runNested setting body room) s = .done x t)
    (hf : setting.forgiving = false) : ∃ q, x = .query q := by
  have hmarks := accounts_statement (accounts_runNested (Ledger.marks setting) room) trivial x t hr
  have hmet := hmarks.2 ⟨Ledger.met_nil, fun _ => problems_of_done hf hr⟩
  cases x with
  | query q => exact ⟨q, rfl⟩
  | error span => exact absurd trivial (Ledger.met_singleton.1 hmet).1

include h

theorem finds_statement (hs : s.awaits = false) :
    Finds L (runNested setting body room) [] statement s := by
  intro hover x t hr
  obtain ⟨q, rfl⟩ := exists_query_of_statement hr L.strict
  obtain ⟨token, u, hu, hr⟩ := done_of_bind hr
  cases hu
  obtain ⟨q', u, hu, hr⟩ := done_of_bind hr
  obtain ⟨hawaits, hfound⟩ := finds_query h .statement hs hover q' u hu
  split at hr
  · cases hr
  · cases hr
    exact ⟨hawaits, fun hmet => (hfound hmet).close fun _ hc => hc⟩

theorem finds_nextStatement (hs : s.awaits = false) :
    Finds L (runNested setting body room) [] nextStatement s := by
  have hsemicolons : Clears L (runNested setting body room) moveOverSemicolons s :=
    clears_loop h.goesOn hs (fun _ t ht => clears_ifTaken h.goesOn rfl ht fun u hu => .pure hu) ()
  refine .past h.goesOn hsemicolons fun _ t ht => .skip h.goesOn (tests_isAt _).spares ?_
  intro ended u hu
  cases hu
  refine .ite (fun _ => .pure ht nofun) fun _ => ?_
  exact .bind h.goesOn (finds_statement h ht) fun x v hv => .pure hv (by simp [elements])

/-- **The word is found in the statements of a document**, if they are read past it. -/
theorem finds_statements (hs : s.awaits = false) :
    Finds L (runNested setting body room) [] (many nextStatement []) s :=
  finds_many h.goesOn hs fun _ ht => finds_nextStatement h ht

end Documents

end Grammar

/-! ### Queries in which clauses stand -/

namespace Element

variable {e : Element} {c : Clause} {b : UnionBranch Clause}

/-- Only branches have clauses for children. -/
theorem of_clause_mem_children (h : .clause c ∈ e.children) :
    (∃ q, e = .query q ∧ c ∈ q.clauses) ∨ ∃ b, e = .branch b ∧ c ∈ b.clauses := by
  cases e with
  | query q => exact .inl ⟨q, rfl, by simpa [children, Composed.elements] using h⟩
  | branch b => exact .inr ⟨b, rfl, by simpa [children, Composed.elements] using h⟩
  | clause d => cases d <;> simp [children, ofClause, Composed.elements] at h
  | expression x =>
    cases x <;> simp [children, ofExpression, ofComprehension, Composed.elements] at h
  | statement x => cases x <;> simp [children] at h
  | setItem i => cases i <;> simp [children, Composed.elements] at h
  | removeItem i => cases i <;> simp [children, Composed.elements] at h
  | _ => simp [children, Composed.elements] at h

/-- Only queries have branches behind unions for children. -/
theorem of_branch_mem_children (h : .branch b ∈ e.children) : ∃ q, e = .query q ∧ b ∈ q.unions := by
  cases e with
  | query q => exact ⟨q, rfl, by simpa [children, Composed.elements] using h⟩
  | clause d => cases d <;> simp [children, ofClause, Composed.elements] at h
  | expression x =>
    cases x <;> simp [children, ofExpression, ofComprehension, Composed.elements] at h
  | statement x => cases x <;> simp [children] at h
  | setItem i => cases i <;> simp [children, Composed.elements] at h
  | removeItem i => cases i <;> simp [children, Composed.elements] at h
  | _ => simp [children, Composed.elements] at h

/-- **A clause in a document is one of a query** in it. -/
theorem exists_query_of_clause {document : Document}
    (h : (Element.document document).Within (.clause c)) :
    ∃ q, (Element.document document).Within (.query q) ∧ c ∈ q.branches.flatten := by
  rcases Relation.ReflTransGen.cases_tail h with hroot | ⟨e, he, hc⟩
  · cases hroot
  rcases of_clause_mem_children hc with ⟨q, rfl, hcq⟩ | ⟨b, rfl, hcb⟩
  · exact ⟨q, he, List.mem_append_left _ hcq⟩
  · rcases Relation.ReflTransGen.cases_tail he with hroot | ⟨e, he, hb⟩
    · cases hroot
    · obtain ⟨q, rfl, hbq⟩ := of_branch_mem_children hb
      have hflat := List.mem_flatten_of_mem (List.mem_map_of_mem hbq) hcb
      exact ⟨q, he, List.mem_append_right _ hflat⟩

end Element

/-- **A clause of some query begins with the word** that is looked out for, in every document that
is read from the tokens. -/
theorem Lookout.exists_query {setting : Setting} (L : Lookout setting) {tokens words : List Token}
    {e : Token} {document : Document} (hall : L.all = words ++ [e])
    (hsplit : tokens.filter (fun t => t.kind ≠ .invalid) = words ++ [e])
    (he : e.kind = .endOfInput) (hwords : ∀ t ∈ words, t.kind ≠ .endOfInput)
    (hword : L.word ∈ words) (hr : (Grammar.read setting tokens).document = some document) :
    ∃ q, (Element.document document).Within (.query q) ∧
      ∃ c ∈ q.branches.flatten, c.span.start = L.word.span.start := by
  obtain ⟨hover, hbehind⟩ := Cursor.over_ofTokens hsplit he
  obtain ⟨t, hrun⟩ := Grammar.exists_statements_of_read hr
  have hi : Inner.GoesOn (Rule.runNested setting Grammar.body setting.limit) :=
    Rule.goesOn_runNested setting Grammar.body setting.limit
  have hfinds := Grammar.finds_runNested L setting.limit
  have hstart : (State.start tokens).awaits = false := by
    rw [State.awaits, State.start, hbehind]
    rfl
  obtain ⟨-, hfound⟩ := Grammar.finds_statements hfinds hstart (hall ▸ hover) _ t hrun
  -- at the end of the text, all the other tokens are behind
  have hlast := hover.onward (Rule.onward_of_done hi hrun).cursor
  have hahead := hlast.ahead_eq_nil hwords
    (Grammar.kind_of_statements hi hover.closed rfl hrun)
  have hpassed : L.word ∈ t.cursor.behind := by
    have htokens := hlast.tokens_eq
    rw [Cursor.tokens, Cursor.rest, hahead] at htokens
    rw [← List.mem_reverse, (List.append_inj' htokens rfl).1]
    exact hword
  have hbetween : L.Between (.start tokens) t :=
    ⟨hpassed, by rw [State.start, hbehind]; exact List.not_mem_nil⟩
  obtain ⟨x, hx, c, hwithin, hc⟩ := hfound (.inr hbetween)
  have hin : (Element.document document).Within (.clause c) := .head hx hwithin
  obtain ⟨q, hq, hmem⟩ := Element.exists_query_of_clause hin
  exact ⟨q, hq, c, hmem, hc⟩

end Cypher
