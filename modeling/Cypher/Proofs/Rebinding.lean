import Cypher.Proofs.Copies
import Cypher.Proofs.Switches

/-!
# Names that a projection binds again

The check of the names that projections bind finds its way through a document by two recursions,
from a query to its branches and from a clause to the subqueries in it, and it decides each report
from the bindings that it has seen so far. Neither shows in what it reports: on each projection in
the document it reports the columns that bind a name which an earlier column of the same projection
binds, whatever the other clauses bind (`Cypher.Validator.withCode_aliasConflict_eq`).

Three things have to be settled for that.

* *What is reported on one projection.* The check keeps only the first binding of each name, which
  is the one found first among all earlier columns (`Cypher.Alias.duplicatesAfter_eq`).
* *Which projections are come to.* They are listed in the order of the check by
  `Cypher.Alias.projections`.
* *That each is come to once.* A traversal of the whole tree meets the same projections, in another
  order: the one of a clause in front of those in its subqueries (`Cypher.Alias.perm_projections`).
-/

namespace Cypher

/-- The projection of a clause that projects. -/
def ClauseOf.projection? : Clause → Option (Projection Expression)
  | .withColumns projection _ => some projection
  | .returnColumns projection _ => some projection
  | _ => none

/-- The projection of a node that is a clause and projects. -/
def Node.projection? : Node → Option (Projection Expression)
  | clause c => c.projection?
  | _ => none

namespace Alias

open Check

/-! ### One projection -/

/-- The column at a place among others, if an earlier one binds the name that it binds: its binding,
and the first that binds the name. -/
def rebound? (columns : List (ProjectionItem Expression))
    (column : ProjectionItem Expression × Nat) : Option (Ident × Ident) := do
  let binding ← column.1.binding?
  let first ← ((columns.take column.2).filterMap ProjectionItem.binding?).find?
    fun earlier => earlier.value = binding.value
  return (binding, first)

/-- **The bindings that are not the first of their names**, in the order of the columns, each with
the first of its name. -/
def rebindings (projection : Projection Expression) : List (Ident × Ident) :=
  projection.items.zipIdx.filterMap (rebound? projection.items)

/-- The reports behind some columns, if the bindings kept are as good as all those before. -/
theorem duplicatesAfter_eq (before columns : List (ProjectionItem Expression)) (seen : List Ident)
    (hseen : ∀ name, seen.find? (fun x => x.value = name) =
      (before.filterMap ProjectionItem.binding?).find? fun x => x.value = name) :
    duplicatesAfter seen (columns.filterMap ProjectionItem.binding?) =
      ((columns.zipIdx before.length).filterMap (rebound? (before ++ columns))).map
        fun again => duplicate again.1 again.2.span := by
  induction columns generalizing before seen with
  | nil => rfl
  | cons column columns ih =>
    have hbehind : before ++ column :: columns = (before ++ [column]) ++ columns := by simp
    have hlength : (before ++ [column]).length = before.length + 1 := by simp
    rw [List.zipIdx_cons, List.filterMap_cons, List.filterMap_cons]
    cases hb : column.binding? with
    | none =>
      have hbound : rebound? (before ++ column :: columns) (column, before.length) = none := by
        simp [rebound?, hb]
      have hrest := ih (before ++ [column]) seen fun name => by
        rw [hseen, List.filterMap_append, List.filterMap_cons, hb]
        simp
      rw [hbound]
      rwa [hlength, ← hbehind] at hrest
    | some binding =>
      have hbound : rebound? (before ++ column :: columns) (column, before.length) =
          (seen.find? fun x => x.value = binding.value).map fun first => (binding, first) := by
        rw [hseen, Option.map_eq_bind]
        simp [rebound?, hb]
      have hfirst (name : String) : ((before ++ [column]).filterMap ProjectionItem.binding?).find?
          (fun x => x.value = name) = (seen ++ [binding]).find? fun x => x.value = name := by
        rw [List.filterMap_append, List.find?_append, List.find?_append, hseen]
        simp [hb]
      rw [hbound]
      dsimp only
      rw [duplicatesAfter]
      cases hf : seen.find? fun y => y.value = binding.value with
      | some first =>
        -- a name that has been bound is not kept again
        have hkept : ∀ name, seen.find? (fun x => x.value = name) =
            ((before ++ [column]).filterMap ProjectionItem.binding?).find?
              fun x => x.value = name := by
          intro name
          rw [hfirst, List.find?_append]
          by_cases hname : binding.value = name
          · rw [← hname, hf]
            rfl
          · simp [hname]
        have hrest := ih (before ++ [column]) seen hkept
        rw [hlength, ← hbehind] at hrest
        exact congrArg (duplicate binding first.span :: ·) hrest
      | none =>
        have hrest := ih (before ++ [column]) (seen ++ [binding]) fun name => (hfirst name).symm
        rw [hlength, ← hbehind] at hrest
        exact hrest

/-- **What is reported on one projection**: the bindings that are not the first of their names. -/
theorem duplicates_eq (projection : Projection Expression) :
    duplicates projection =
      (rebindings projection).map fun again => duplicate again.1 again.2.span :=
  duplicatesAfter_eq [] projection.items [] fun _ => rfl

/-! ### All projections -/

/-- **The projections in a query** in the order in which they are checked: branch by branch and
clause by clause, those in the subqueries of a clause in front of its own. -/
def projections (query : Query) : List (Projection Expression) :=
  query.branches.attach.flatMap fun branch => branch.val.attach.flatMap fun clause =>
    (clause.val.subqueries.attach.flatMap fun body => projections body.val) ++
      clause.val.projection?.toList
termination_by sizeOf query
decreasing_by exact QueryOf.sizeOf_subquery_lt branch.property clause.property body.property

theorem flatMap_attach {α β : Type} (f : α → List β) (xs : List α) :
    (xs.attach.flatMap fun x => f x.val) = xs.flatMap f := by
  rw [← List.flatMap_map (f := Subtype.val) f, List.attach_map_subtype_val]

theorem projections_eq (query : Query) :
    projections query = query.branches.flatMap fun branch => branch.flatMap fun clause =>
      clause.subqueries.flatMap projections ++ clause.projection?.toList := by
  rw [projections]
  simp only [flatMap_attach projections, flatMap_attach fun clause : Clause =>
    clause.subqueries.flatMap projections ++ clause.projection?.toList]
  rw [flatMap_attach fun branch : List Clause => branch.flatMap fun clause =>
    clause.subqueries.flatMap projections ++ clause.projection?.toList]

theorem reportsOn_eq_flatMap (clause : Clause) :
    reportsOn clause = clause.projection?.toList.flatMap duplicates := by
  cases clause with
  | withColumns projection => exact (List.flatMap_singleton ..).symm
  | returnColumns projection => exact (List.flatMap_singleton ..).symm
  | _ => rfl

/-- What is reported in a query, projection by projection. -/
theorem reports_checkQuery_flatMap (kind : ScopeKind) (query : Query) :
    (checkQuery kind query).reports = (projections query).flatMap duplicates := by
  rw [reports_checkQuery_eq, projections_eq, List.flatMap_assoc]
  refine List.flatMap_congr fun branch hbranch => ?_
  rw [reportsOnBranch, List.flatMap_assoc]
  refine List.flatMap_congr fun clause hclause => ?_
  rw [List.flatMap_append, List.flatMap_assoc, reportsOn_eq_flatMap]
  congr 1
  exact List.flatMap_congr fun body hbody => reports_checkQuery_flatMap .subquery body
termination_by sizeOf query
decreasing_by exact QueryOf.sizeOf_subquery_lt hbranch hclause hbody

/-! ### Each projection once -/

section Traversal

open Node (preorder)

/-- The projections in some trees, in the order of a traversal. -/
def traversed (nodes : List Node) : List (Projection Expression) :=
  (preorder nodes).filterMap Node.projection?

theorem traversed_nil : traversed [] = [] := by
  rw [traversed, preorder, List.filterMap_nil]

theorem traversed_append (a b : List Node) :
    traversed (a ++ b) = traversed a ++ traversed b := by
  rw [traversed, Node.preorder_append, List.filterMap_append]
  rfl

theorem traversed_cons (n : Node) (rest : List Node) :
    traversed (n :: rest) = n.projection?.toList ++ traversed (n.children ++ rest) := by
  rw [traversed, preorder, List.filterMap_cons]
  cases n.projection? <;> rfl

theorem traversed_flatMap {α : Type} (f : α → List Node) (xs : List α) :
    traversed (xs.flatMap f) = xs.flatMap fun x => traversed (f x) := by
  induction xs with
  | nil => exact traversed_nil
  | cons x xs ih => rw [List.flatMap_cons, traversed_append, ih, List.flatMap_cons]

/-- A node of a kind that stands inside clauses. -/
def isInner : Node → Bool
  | .document _ | .statement _ | .query _ | .clause _ => false
  | _ => true

theorem isInner_of_mem_children {n c : Node} (hn : isInner n = true)
    (hsub : ∀ body, n ≠ .subquery body) (hc : c ∈ n.children) : isInner c = true := by
  cases n with
  | document | statement | query | clause => cases hn
  | subquery body => exact absurd rfl (hsub body)
  | part p =>
    rcases List.mem_cons.1 hc with rfl | hc
    · rfl
    · obtain ⟨step, -, hc⟩ := List.mem_flatMap.1 hc
      rcases List.mem_pair.1 hc with rfl | rfl <;> rfl
  | pathNode n =>
    obtain ⟨e, -, rfl⟩ := List.mem_map.1 hc
    rfl
  | relationship r =>
    obtain ⟨e, -, rfl⟩ := List.mem_map.1 hc
    rfl
  | item i =>
    rw [List.mem_singleton.1 hc]
    rfl
  | setItem i =>
    cases i <;> simp only [Node.children, Node.ofSetItem, List.mem_cons, List.not_mem_nil] at hc <;>
      grind [isInner]
  | expression e =>
    cases e <;> simp [Node.children, Node.ofExpression, Node.ofComprehension] at hc <;>
      grind [isInner]

theorem isInner_of_mem_ofClause {clause : Clause} {n : Node} (h : n ∈ Node.ofClause clause) :
    isInner n = true := by
  cases clause with
  | removeItems items =>
    obtain ⟨i, -, hi⟩ := List.mem_flatMap.1 h
    cases i with
    | property target =>
      rw [List.mem_singleton.1 hi]
      rfl
    | labels => cases hi
  | _ => simp [Node.ofClause, Node.ofProjection] at h <;> grind [isInner]

/-- **The projections inside a clause are those of the subqueries in it.** -/
theorem traversed_of_isInner {nodes : List Node} (h : ∀ n ∈ nodes, isInner n = true) :
    traversed nodes = (Node.subqueries nodes).flatMap fun body => traversed [.query body] := by
  fun_induction Node.subqueries nodes with
  | case1 => exact traversed_nil
  | case2 rest body ih =>
    rw [List.flatMap_cons, ← ih fun n hn => h n (List.mem_cons_of_mem _ hn), traversed_cons,
      traversed_append]
    rfl
  | case3 rest n hn ih =>
    have hinner := h n List.mem_cons_self
    have hnone : n.projection? = none := by
      cases n with
      | clause => cases hinner
      | _ => rfl
    rw [traversed_cons, hnone, Option.toList_none, List.nil_append]
    refine ih fun c hc => ?_
    rcases List.mem_append.1 hc with hc | hc
    · exact isInner_of_mem_children hinner hn hc
    · exact h c (List.mem_cons_of_mem n hc)

theorem traversed_query (query : Query) :
    traversed [.query query] = query.branches.flatMap fun branch => branch.flatMap fun clause =>
      clause.projection?.toList ++
        clause.subqueries.flatMap fun body => traversed [.query body] := by
  have hclause (clause : Clause) : traversed [.clause clause] = clause.projection?.toList ++
      clause.subqueries.flatMap fun body => traversed [.query body] := by
    rw [traversed_cons, List.append_nil]
    exact congrArg _ (traversed_of_isInner fun n hn => isInner_of_mem_ofClause hn)
  have hbranch (clauses : List Clause) : traversed (clauses.map .clause) =
      clauses.flatMap fun clause => traversed [.clause clause] := by
    rw [List.map_eq_flatMap, traversed_flatMap]
  have hchildren : traversed [.query query] = traversed (query.branches.flatten.map .clause) := by
    rw [traversed_cons, List.append_nil]
    rfl
  simp only [hchildren, hbranch, hclause, List.flatten_eq_flatMap, List.flatMap_assoc, id]

/-- **Each projection in a query is come to once.** -/
theorem perm_projections (query : Query) :
    (projections query).Perm (traversed [.query query]) := by
  rw [projections_eq, traversed_query]
  refine .flatMap_left _ fun branch hbranch => .flatMap_left _ fun clause hclause => ?_
  refine List.perm_append_comm.trans (.append_left _ ?_)
  exact .flatMap_left _ fun body hbody => perm_projections body
termination_by sizeOf query
decreasing_by exact QueryOf.sizeOf_subquery_lt hbranch hclause hbody

/-- So is each projection in a document. -/
theorem perm_projections_nodes (document : Document) :
    (document.queries.flatMap projections).Perm
      (document.nodes.filterMap Node.projection?) := by
  have hstatements (statements : List Statement) : traversed (statements.map .statement) =
      (statements.filterMap Statement.query?).flatMap fun query => traversed [.query query] := by
    induction statements with
    | nil => exact traversed_nil
    | cons statement statements ih =>
      rw [List.map_cons, traversed_cons, traversed_append, ih]
      cases statement with
      | query q => rfl
      | error span =>
        change [] ++ (traversed [] ++ _) = _
        rw [traversed_nil]
        rfl
  have hnodes : document.nodes.filterMap Node.projection? =
      document.queries.flatMap fun query => traversed [.query query] := by
    refine (traversed_cons (.document document) []).trans ?_
    rw [List.append_nil]
    exact hstatements document.statements
  rw [hnodes]
  exact .flatMap_left _ fun query _ => perm_projections query

end Traversal

end Alias

theorem Validator.mem_of_mem_ifOn {enabled : Bool} {ds : List Diagnostic} {d : Diagnostic}
    (h : d ∈ ifOn enabled ds) : d ∈ ds := by
  cases enabled with
  | true => exact h
  | false => cases h

/-- **The conflicts of names are exactly the names that a projection binds again.** Whatever the
scopes are and whichever other checks are made, a validator that checks the names bound by
projections reports on the projections of a document and on nothing else. It comes to each `WITH`
and each `RETURN` of the document once, and reports there, in the order of the columns, on those
that bind a name which an earlier column of the same projection binds, with the stretch of the
binding and that of the first binding of the name. -/
theorem Validator.withCode_aliasConflict_eq (v : Validator) (document : Document)
    (scopes : Scopes) :
    (document.queries.flatMap Alias.projections).Perm
        (document.nodes.filterMap Node.projection?) ∧
      withCode .aliasConflict ((v.check document).run scopes).2.2 =
        if v.checks.aliases then
          (document.queries.flatMap Alias.projections).flatMap fun projection =>
            (Alias.rebindings projection).map fun again =>
              Alias.duplicate again.1 again.2.span
        else [] := by
  refine ⟨Alias.perm_projections_nodes document, ?_⟩
  have horder : withCode .aliasConflict (ifOn v.checks.clauseOrder (document.queries.flatMap
      fun query => (Order.checkQuery v.rules.ordering .statement query).reports)) = [] := by
    have hne : Code.aliasConflict ∉ [Code.clauseOrder] := by decide
    exact withCode_eq_nil (fun d hd =>
      ⟨_, List.mem_singleton_self _, code_of_mem_order (mem_of_mem_ifOn hd)⟩) hne
  have haliases : withCode .aliasConflict (ifOn v.checks.aliases (document.queries.flatMap
      fun query => (Alias.checkQuery .statement query).reports)) =
        ifOn v.checks.aliases ((document.queries.flatMap Alias.projections).flatMap
          Alias.duplicates) := by
    rw [withCode_eq_self fun d hd => code_of_mem_aliases (mem_of_mem_ifOn hd),
      List.flatMap_assoc]
    simp only [Alias.reports_checkQuery_flatMap]
  have hunions : withCode .aliasConflict (ifOn v.checks.unions (Union.reports document)) = [] := by
    cases v.checks.unions with
    | true => exact withCode_unions document (by decide)
    | false => rfl
  rw [run_check]
  simp only [reportsOf, withCode_append]
  rw [horder, haliases, hunions, withCode_deprecations _ document (by decide), List.nil_append,
    List.append_nil, List.append_nil]
  exact congrArg (ifOn v.checks.aliases) (List.flatMap_congr fun p _ => Alias.duplicates_eq p)

end Cypher
