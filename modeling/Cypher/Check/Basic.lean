import Cypher.Diagnostic.Basic
import Cypher.Scope
import Cypher.Tree.Node

/-!
# Checks of a finished tree

A check goes through a part of a tree, keeps track of the scopes it is in, and reports what it
finds. It never stops early. Reports are handed on rather than appended to a log, so that the
reports of two checks in a row are those of the first followed by those of the second.
-/

namespace Cypher

/-- **A check**, which finds out an `α`, may change the scopes, and makes reports. -/
def Check (α : Type) : Type := Scopes → α × Scopes × List Diagnostic

namespace Check

variable {α β : Type}

/-- Runs a check in some scopes. -/
def run (check : Check α) (scopes : Scopes) : α × Scopes × List Diagnostic := check scopes

/-- The check that finds out a value without looking. -/
protected def pure (a : α) : Check α := fun scopes => (a, scopes, [])

/-- One check after the other. -/
protected def bind (check : Check α) (next : α → Check β) : Check β := fun scopes =>
  let (a, scopes, first) := check scopes
  let (b, scopes, second) := next a scopes
  (b, scopes, first ++ second)

instance : Monad Check where
  pure := Check.pure
  bind := Check.bind

/-- Makes a report. -/
def report (d : Diagnostic) : Check Unit := fun scopes => ((), scopes, [d])

/-- Makes some reports. -/
def reportAll (ds : List Diagnostic) : Check Unit := fun scopes => ((), scopes, ds)

/-- The scopes at this point. -/
def scopes : Check Scopes := fun scopes => (scopes, scopes, [])

/-- Changes the scopes. -/
def modify (f : Scopes → Scopes) : Check Unit := fun scopes => ((), f scopes, [])

/-- Runs a check in a scope of its own. -/
def inScope (kind : ScopeKind) (check : Check α) : Check α := fun scopes =>
  let (a, scopes, reports) := check (scopes.push kind)
  (a, scopes.pop, reports)

/-- Checks the members of a list one after the other. -/
def each (check : α → Check Unit) : List α → Check Unit
  | [] => pure ()
  | x :: xs => do
    check x
    each check xs

/-- Checks the members of a list one after the other, handing on a value. -/
def eachFrom (check : β → α → Check β) : β → List α → Check β
  | b, [] => pure b
  | b, x :: xs => do
    let b ← check b x
    eachFrom check b xs

end Check

/-! ### Subqueries are smaller -/

namespace Node

theorem weigh_subqueries_le (nodes : List Node) :
    weigh ((subqueries nodes).map query) ≤ weigh nodes := by
  fun_induction subqueries nodes with
  | case1 => simp
  | case2 rest body ih =>
    simp only [List.map_cons, weigh_cons, weight]
    omega
  | case3 rest n hn ih =>
    have := weigh_children_append_lt n rest
    omega

theorem weight_le_weigh_of_mem {n : Node} {ns : List Node} (h : n ∈ ns) : n.weight ≤ weigh ns := by
  induction ns with
  | nil => simp at h
  | cons m ms ih =>
    rw [weigh_cons]
    rcases List.mem_cons.1 h with rfl | h
    · omega
    · have := ih h
      omega

end Node

/-- A subquery inside a clause of a query is smaller than the query. -/
theorem QueryOf.sizeOf_subquery_lt {q body : Query} {branch : List Clause} {c : Clause}
    (hb : branch ∈ q.branches) (hc : c ∈ branch) (h : body ∈ c.subqueries) :
    sizeOf body < sizeOf q := by
  have h₁ : 2 * sizeOf body ≤ Node.weigh (Node.ofClause c) :=
    Nat.le_trans
      (Node.weight_le_weigh_of_mem (n := .query body) (List.mem_map.2 ⟨body, h, rfl⟩))
      (Node.weigh_subqueries_le _)
  have h₂ := Node.weigh_ofClause_lt c
  have h₃ : 2 * sizeOf c ≤ Node.weigh (q.branches.flatten.map .clause) :=
    Node.weight_le_weigh_of_mem (n := .clause c)
      (List.mem_map.2 ⟨c, List.mem_flatten.2 ⟨branch, hb, hc⟩, rfl⟩)
  have h₄ := Node.weigh_branches_le q
  omega

end Cypher
