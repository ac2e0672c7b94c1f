import Cypher.Proofs.Stages

/-!
# Checks with fewer demands

One check follows another if it does the same wherever the other finds nothing to report
(`Cypher.Check.Follows`). The check of the order of clauses follows the one by a table with fewer
legal steps and fewer states in which a statement may end (`Cypher.Order.follows_check`).
-/

namespace Cypher

/-! ### Checks that follow others -/

namespace Check

variable {α β : Type}

/-- **One check follows another**: where the other finds nothing to report, it does the same. -/
def Follows (larger check : Check α) : Prop :=
  ∀ scopes, (check.run scopes).2.2 = [] → larger.run scopes = check.run scopes

theorem run_bind (check : Check α) (next : α → Check β) (scopes : Scopes) :
    (check >>= next).run scopes =
      let first := check.run scopes
      let second := (next first.1).run first.2.1
      (second.1, second.2.1, first.2.2 ++ second.2.2) := rfl

theorem run_inScope (kind : ScopeKind) (check : Check α) (scopes : Scopes) :
    (inScope kind check).run scopes =
      let inside := check.run (scopes.push kind)
      (inside.1, inside.2.1.pop, inside.2.2) := rfl

namespace Follows

variable {larger check : Check α} {next' next : α → Check β}

theorem refl (check : Check α) : Follows check check := fun _ _ => rfl

theorem bind (h : Follows larger check) (hn : ∀ a, Follows (next' a) (next a)) :
    Follows (larger >>= next') (check >>= next) := by
  intro scopes hnone
  obtain ⟨hfirst, hsecond⟩ := List.append_eq_nil_iff.1 hnone
  rw [run_bind, run_bind, h scopes hfirst]
  dsimp only
  rw [hn (check.run scopes).1 (check.run scopes).2.1 hsecond]

theorem inScope (h : Follows larger check) (kind : ScopeKind) :
    Follows (inScope kind larger) (inScope kind check) := by
  intro scopes hnone
  rw [run_inScope, run_inScope, h (scopes.push kind) hnone]

theorem each {f' f : α → Check Unit} {xs : List α} (h : ∀ x ∈ xs, Follows (f' x) (f x)) :
    Follows (each f' xs) (each f xs) := by
  induction xs with
  | nil => exact refl _
  | cons x xs ih =>
    exact (h x List.mem_cons_self).bind fun _ => ih fun y hy => h y (List.mem_cons_of_mem x hy)

theorem eachFrom {f' f : β → α → Check β} {xs : List α}
    (h : ∀ b, ∀ x ∈ xs, Follows (f' b x) (f b x)) (b : β) :
    Follows (eachFrom f' b xs) (eachFrom f b xs) := by
  induction xs generalizing b with
  | nil => exact refl _
  | cons x xs ih =>
    exact (h b x List.mem_cons_self).bind fun b =>
      ih (fun b y hy => h b y (List.mem_cons_of_mem x hy)) b

end Follows

end Check

/-! ### The order of clauses -/

/-- **A table that extends another**: it has all steps of the other, and all its last states. -/
structure OrderingTable.Extends (larger table : OrderingTable) : Prop where
  /-- The legal steps are legal in the larger table. -/
  next {state : OrderState} {clause : ClauseKind} {target : OrderState}
    (h : table.next state clause = some target) : larger.next state clause = some target
  /-- Where a statement may end, it may do so in the larger table. -/
  terminal {state : OrderState} (h : table.isTerminal state = true) :
    larger.isTerminal state = true

theorem OrderingTable.Extends.after {larger table : OrderingTable} (h : larger.Extends table)
    {state target : OrderState} {clause : ClauseKind} {yields : Bool}
    (ha : table.after state clause yields = some target) :
    larger.after state clause yields = some target := by
  obtain ⟨next, hn, rfl⟩ := Option.map_eq_some_iff.1 ha
  rw [OrderingTable.after, h.next hn]
  rfl

/-- Calls may follow in the states that the steps of a dialect have been made for. -/
theorem OrderingTable.next_call (callable terminal : List OrderState) (state : OrderState) :
    next ⟨steps callable, terminal⟩ state .CALL =
      if state ∈ callable then some .called else none := by
  by_cases hs : state ∈ callable <;> simp [next, steps, hs]

/-- The steps of a dialect are steps of any in which calls may follow in more states. -/
theorem OrderingTable.next_steps {callable callable' terminal terminal' : List OrderState}
    (h : callable ⊆ callable') {state target : OrderState} {clause : ClauseKind}
    (hn : next ⟨steps callable, terminal⟩ state clause = some target) :
    next ⟨steps callable', terminal'⟩ state clause = some target := by
  cases clause with
  | CALL =>
    rw [next_call] at hn ⊢
    split at hn
    · next hs => rwa [if_pos (h hs)]
    · cases hn
  | _ => exact hn

namespace Order

open Check (Follows)

variable {larger table : OrderingTable} (h : larger.Extends table)

include h

theorem follows_checkClause (reported : Bool) (clause : Clause) :
    Follows (checkClause larger reported clause) (checkClause table reported clause) := by
  refine (Follows.refl _).bind fun _ => ?_
  split
  · exact .refl _
  · refine (Follows.refl _).bind fun scopes => ?_
    dsimp only
    cases ha : table.after scopes.ordering clause.kind clause.yields with
    | some next =>
      rw [h.after ha]
      exact .refl _
    | none =>
      -- the clause is reported, so there is nothing to follow
      intro scopes hnone
      cases hnone

theorem follows_checkBranchEnd (kind : ScopeKind) (lone reported : Bool) (clauses : List Clause) :
    Follows (checkBranchEnd larger kind lone reported clauses)
      (checkBranchEnd table kind lone reported clauses) := by
  unfold checkBranchEnd checkEnd
  split
  · split
    · exact .refl _
    · refine (Follows.refl _).bind fun scopes => ?_
      cases ht : table.isTerminal scopes.ordering with
      | true =>
        rw [h.terminal ht]
        exact .refl _
      | false =>
        intro scopes hnone
        cases hnone
  · exact .refl _

theorem follows_checkQuery (kind : ScopeKind) (query : Query) :
    Follows (checkQuery larger kind query) (checkQuery table kind query) := by
  fun_induction checkQuery table kind query with
  | case1 kind query ih =>
    rw [checkQuery]
    refine Follows.each fun branch _ => Follows.inScope ?_ kind
    refine (Follows.eachFrom (fun reported clause _ => ?_) false).bind fun reported =>
      follows_checkBranchEnd h _ _ _ _
    refine (follows_checkClause h _ _).bind fun reported => ?_
    exact (Follows.each fun body _ => ih branch clause body).bind fun _ => .refl _

/-- **The order of clauses is checked alike** by a larger table where it is right by the other. -/
theorem follows_check (document : Document) :
    Follows (check larger document) (check table document) :=
  .each fun query _ => follows_checkQuery h .statement query

end Order

end Cypher
