import Cypher.Grammar.Query
import Cypher.Proofs.Growth.Clause

/-!
# How documents grow

A query takes a step further down, as an expression does. With the rules that nest, the induction
over the room for nesting is done: each level of nesting adds one to the fold and two to the level
(`Cypher.Grammar.grows_runNested`). So a document has grown out of its tokens, as far as the limit
for nesting allows (`Cypher.Grammar.grown_read`).
-/

namespace Cypher

namespace Grammar

open Rule hiding pure bind
open Rooted (roots map_eq_roots toList_map_eq_roots)

variable {setting : Setting} {inner : Inner} {fold level : Nat}

section Queries

variable (h : inner.Grows setting fold level) {s : State}

include h

/-! ### Queries -/

/-- A clause or its stand-in, in which there is nothing. -/
theorem spends_clauseOrError :
    Spends setting inner (Yields (fold + 1) (level + 1)) 0 clauseOrError s := by
  refine .startHere (.look (.bind h.goesOn (r := Yields (fold + 1) (level + 1)) ?_
    fun clause t k hclause => .skip h.goesOn fun _ u l => .pure (Grown.more hclause (by omega))))
  intro hc a t hr
  rw [run] at hr
  cases hrun : clause.run setting inner s with
  | done b u =>
    rw [hrun] at hr
    cases hr
    exact spends_clause h hc a t hrun
  | failed d u =>
    rw [hrun] at hr
    dsimp only at hr
    split at hr
    · obtain ⟨_, v, -, hr⟩ := done_of_bind hr
      obtain ⟨_, w, -, hr⟩ := done_of_bind hr
      cases hr
      exact Grown.frame .empty rfl rfl (Nat.le_refl _)
    · cases hr

theorem spends_nextClause :
    Spends setting inner (Yields (fold + 1) (level + 1)) 0 nextClause s := by
  refine .skip h.goesOn fun ends t k => .ite (fun _ => .pure .none) fun _ => ?_
  exact .bind h.goesOn (spends_clauseOrError h) fun clause u l hclause =>
    .pure (hclause.some (by omega))

theorem spends_branchIn (kind : ScopeKind) (context : String) :
    Spends setting inner (Yields (fold + 1) (level + 1)) 0 (branchIn kind context) s := by
  refine .bind h.goesOn (.inScope fun t => spends_many h.goesOn fun _ => spends_nextClause h)
    fun clauses t k hclauses => ?_
  exact .skip h.goesOn fun _ u l => .pure (Grown.more hclauses (by omega))

theorem spends_unionBranch (kind : ScopeKind) :
    Spends setting inner (Yields (fold + 1) (level + 1)) 0 (unionBranch kind) s := by
  refine .skip h.goesOn fun word t k => .skip h.goesOn fun all u l => ?_
  exact .bind h.goesOn (spends_branchIn h kind _) fun clauses v m hclauses =>
    .look (.pure (Grown.more hclauses (by omega)))

omit h in
/-- What is inside a query: its clauses and those of the branches behind unions. -/
theorem children_query_eq_roots (q : Query) :
    (Node.query q).children = roots q.clauses ++ roots q.unions := by
  have hclauses : (Node.query q).children =
      q.clauses.map .clause ++ q.unions.flatMap fun b => b.clauses.map .clause := by
    simp [Node.children, QueryOf.branches, List.flatMap, List.map_flatten, Function.comp_def]
  rw [hclauses, map_eq_roots (fun _ => rfl) q.clauses]
  exact congrArg (_ ++ q.unions.flatMap ·)
    (funext fun b => map_eq_roots (fun _ => rfl) b.clauses)

/-- **Queries grow.** -/
theorem spends_query (kind : ScopeKind) :
    Spends setting inner (Yields (fold + 1) (level + 2)) 0 (query kind) s := by
  refine .startHere (.bind h.goesOn (spends_branchIn h kind _) fun clauses t k hclauses => ?_)
  refine .bind h.goesOn (spends_many h.goesOn fun _ => spends_optionally h.goesOn fun _ =>
    spends_unionBranch h kind) fun unions u l hunions => .look (.pure ?_)
  have hgrown := hclauses.append hunions
  exact (Grown.query (children_query_eq_roots ⟨clauses, unions, _⟩ ▸ hgrown)).more (by omega)

/-- The short form of a subquery. -/
theorem spends_patternBody :
    Spends setting inner (Yields (fold + 1) (level + 2)) 0 patternBody s := by
  refine .startHere (.bind h.goesOn (spends_pattern h) fun pattern t k hpattern => ?_)
  refine .bind h.goesOn (spends_optionally h.goesOn fun _ => spends_whereClause h)
    fun filter u l hfilter => .skip h.goesOn fun _ v m => .look (.pure ?_)
  have hclause := Grown.frame (n := .clause (.matchPattern false pattern pattern.span)) hpattern rfl
    (map_eq_roots (fun _ => rfl) pattern.parts) (Nat.le_refl _)
  have hgrown := hclause.append (Grown.append hfilter .nil)
  exact (Grown.query (children_query_eq_roots ⟨_ :: filter.toList, [], _⟩ ▸ hgrown)).more (by omega)

theorem spends_existsBody :
    Spends setting inner (Yields (fold + 1) (level + 2)) 0 existsBody s := by
  refine .look (.ite (fun _ => spends_query h .subquery) fun _ => ?_)
  exact .inScope fun t => spends_patternBody h

end Queries

/-! ### Nested rules -/

/-- What a nested rule reads, its body reads. -/
theorem spends_deeper {α : Type} {p : α → Nat → Prop} {room : Nat} {rule : Nested α} {s : State}
    (h : ∀ t, Spends setting (runNested setting body room) p 0 (body rule) t) :
    Spends setting (runNested setting body (room + 1)) p 0 (.nested rule) s := by
  intro hc a t hr
  obtain ⟨u, hu, rfl⟩ := done_of_runNested hr
  exact h { s with depth := s.depth + 1 } hc a u hu

/-- **Nested rules grow with the room for nesting.** -/
theorem grows_runNested (setting : Setting) (room : Nat) :
    Inner.Grows setting room (2 * room) (runNested setting body room) := by
  induction room with
  | zero =>
    -- without any room nothing is read
    refine ⟨goesOn_runNested setting body 0, fun strength s hc e t hr => ?_,
      fun hs s hc e t hr => ?_, fun s hc q t hr => ?_, fun s hc q t hr => ?_⟩
    all_goals cases hr
  | succ room ih =>
    have hfold : ∀ {q : Query} {k : Nat}, Yields (room + 1) (2 * room + 2) q k →
        Yields (room + 1 + 1) (2 * (room + 1)) q k :=
      fun hq => hq.mono (Nat.le_succ _) (Nat.le_refl _) (Nat.le_refl _)
    refine ⟨goesOn_runNested setting body _, fun strength s => ?_, fun hs s => ?_, fun s => ?_,
      fun s => ?_⟩
    · exact spends_deeper fun t => spends_expressionOf ih (Nat.le_succ _) fun _ => rfl
    · -- no comparison is read where operators have to bind so tightly
      refine spends_deeper fun t => spends_expressionOf ih (Nat.le_refl _) fun hl => ?_
      exact absurd (Nat.lt_of_lt_of_le (Nat.lt_succ_self _) (Nat.le_trans hs hl)) (Nat.lt_irrefl _)
    · exact (spends_deeper fun t => spends_query ih .subquery).mono fun _ _ => hfold
    · exact (spends_deeper fun t => spends_existsBody ih).mono fun _ _ => hfold

/-! ### Documents -/

section Documents

variable (h : inner.Grows setting fold level) {s : State}

include h

theorem spends_statement :
    Spends setting inner (Yields (fold + 1) (level + 2)) 0 statement s := by
  refine .look (.bind h.goesOn (spends_query h .statement) fun query t k hquery => ?_)
  refine .ite (fun _ => .pure (Grown.frame .empty rfl rfl (Nat.le_refl _))) fun _ => .pure ?_
  exact Grown.frame hquery rfl rfl (by omega)

theorem spends_nextStatement :
    Spends setting inner (Yields (fold + 1) (level + 2)) 0 nextStatement s := by
  refine .skip h.goesOn fun _ t k => .skip h.goesOn fun ended u l => .ite (fun _ => .pure .none) ?_
  exact fun _ => .bind h.goesOn (spends_statement h) fun statement v m hstatement =>
    .pure (hstatement.some (by omega))

theorem spends_document :
    Spends setting inner (Yields (fold + 1) (level + 2)) 0 document s := by
  refine .bind h.goesOn (spends_many h.goesOn fun _ => spends_nextStatement h)
    fun statements t k hstatements => .look (.pure ?_)
  exact Grown.frame hstatements rfl (map_eq_roots (fun _ => rfl) statements) (by omega)

end Documents

end Grammar

namespace Cursor

theorem length_closed_le (t : Token) (ts : List Token) :
    (closed t ts).length ≤ ts.length + 1 := by
  induction ts generalizing t with
  | nil =>
    rw [closed]
    split
    · exact Nat.zero_le _
    · exact Nat.le_refl _
  | cons u us ih => exact Nat.succ_le_succ (ih u)

/-- **There are no more tokens ahead of a cursor than it starts with.** -/
theorem length_ahead_ofTokens_le (tokens : List Token) :
    (ofTokens tokens).ahead.length ≤ tokens.length := by
  have hfilter := List.length_filter_le (fun t : Token => t.kind ≠ .invalid) tokens
  rw [ofTokens]
  cases hts : tokens.filter fun t => t.kind ≠ .invalid with
  | nil => exact Nat.zero_le _
  | cons t ts =>
    rw [hts] at hfilter
    exact Nat.le_trans (length_closed_le t ts) hfilter

end Cursor

/-- **A document has grown out of the tokens it was read from**, as far as the limit for nesting
allows. -/
theorem Grammar.grown_read {setting : Setting} {tokens : List Token} {tree : Document}
    (hr : (read setting tokens).document = some tree) :
    Grown (setting.limit + 1) (2 * setting.limit + 2) [.document tree] [] tokens.length := by
  unfold read at hr
  cases hrun : start setting document (.start tokens) with
  | done a t =>
    rw [hrun] at hr
    cases hr
    have hgrown := spends_document (grows_runNested setting setting.limit)
      (Cursor.closed_ofTokens tokens) tree t hrun
    have hle := Cursor.length_ahead_ofTokens_le tokens
    refine hgrown.more ?_
    rw [Nat.zero_add]
    exact Nat.le_trans (Nat.sub_le _ _) hle
  | failed d t =>
    rw [hrun] at hr
    cases hr

end Cypher
