import Cypher.Check.Basic
import Mathlib.Data.List.Basic
import Mathlib.Data.List.Flatten
import Mathlib.Tactic.Choose

/-!
# Trees that differ in the body of one subquery

To say that trees differ only in the body of one subquery takes two notions.

* The *outline* of a node (`Cypher.Node.outline`) is all that the node is made of but for the nodes
  directly inside it: those are replaced by fixed stand-ins, as many as there are.
* A family of nodes *varies in a body* (`Cypher.Node.Varies`) if it consists of subqueries with
  these bodies, or if its members have one outline and the same nodes inside but for one, which
  varies in a body in turn. So the body may lie at any depth and wherever a subquery may stand.

Families rather than pairs are looked at because one context of the body then serves all members:
what the members have in common is the same for the whole family and not for each pair anew.

Of the subqueries directly inside such nodes exactly one is not the same in all of them: it is the
body, or a query that varies in it (`Cypher.Node.Varies.subqueries`).
-/

namespace Cypher

namespace Node

/-! ### Outlines -/

/-- The stand-in for an expression. -/
def anyExpression : Expression := .countStar ⟨0, 0⟩

/-- The stand-in for a node of a path. -/
def anyPathNode : NodePattern Expression := ⟨none, [], none, ⟨0, 0⟩⟩

/-- The stand-in for a step of a path. -/
def anyStep : PatternStep Expression := ⟨⟨.undirected, none, [], none, none, ⟨0, 0⟩⟩, anyPathNode⟩

/-- The stand-in for a path. -/
def anyPart : PatternPart Expression := ⟨none, anyPathNode, [], ⟨0, 0⟩⟩

/-- The stand-in for a column. -/
def anyItem : ProjectionItem Expression := ⟨anyExpression, none, ⟨0, 0⟩⟩

/-- The stand-in for an assignment. -/
def anySetItem : SetItem Expression := .labels ⟨"", ⟨0, 0⟩⟩ [] ⟨0, 0⟩

/-- The stand-in for a clause. -/
def anyClause : Clause := .error ⟨0, 0⟩

/-- The stand-in for a query. -/
def anyQuery : Query := ⟨[], [], ⟨0, 0⟩⟩

/-- The outline of a pattern. -/
def outlinePattern (pattern : Pattern Expression) : Pattern Expression :=
  { pattern with parts := pattern.parts.map fun _ => anyPart }

/-- The outline of a projection. -/
def outlineProjection (projection : Projection Expression) : Projection Expression :=
  { projection with
    items := projection.items.map fun _ => anyItem
    orderBy := projection.orderBy.map fun s => { s with expression := anyExpression }
    skip := projection.skip.map fun _ => anyExpression
    limit := projection.limit.map fun _ => anyExpression }

/-- The outline of an assignment. -/
def outlineSetItem : SetItem Expression → SetItem Expression
  | .property _ _ span => .property anyExpression anyExpression span
  | .replace binder _ span => .replace binder anyExpression span
  | .merge binder _ span => .merge binder anyExpression span
  | .labels binder labels span => .labels binder labels span

/-- The outline of something to remove. -/
def outlineRemoveItem : RemoveItem Expression → RemoveItem Expression
  | .property _ => .property anyExpression
  | .labels binder labels span => .labels binder labels span

/-- The outline of what is done with the elements of a list. -/
def outlineComprehension (body : Comprehension Expression) : Comprehension Expression :=
  { body with
    list := anyExpression
    predicate := body.predicate.map fun _ => anyExpression
    projection := body.projection.map fun _ => anyExpression }

/-- The outline of a path. -/
def outlinePart (part : PatternPart Expression) : PatternPart Expression :=
  { part with start := anyPathNode, chain := part.chain.map fun _ => anyStep }

/-- **The outline of a clause.** -/
def outlineClause : Clause → Clause
  | .matchPattern optional pattern span => .matchPattern optional (outlinePattern pattern) span
  | .whereHolds _ span => .whereHolds anyExpression span
  | .withColumns projection span => .withColumns (outlineProjection projection) span
  | .returnColumns projection span => .returnColumns (outlineProjection projection) span
  | .unwindList _ binder span => .unwindList anyExpression binder span
  | .createPattern pattern span => .createPattern (outlinePattern pattern) span
  | .mergePart _ actions span =>
    .mergePart anyPart
      (actions.map fun a => { a with items := a.items.map fun _ => anySetItem }) span
  | .deleteValues detach values span =>
    .deleteValues detach (values.map fun _ => anyExpression) span
  | .setItems items span => .setItems (items.map fun _ => anySetItem) span
  | .removeItems items span => .removeItems (items.map outlineRemoveItem) span
  | .callProcedure call span =>
    .callProcedure
      { call with arguments := call.arguments.map fun es => es.map fun _ => anyExpression } span
  | .callQuery _ span => .callQuery anyQuery span
  | .error span => .error span

/-- The outline of an expression. -/
def outlineExpression : Expression → Expression
  | .literal value span => .literal value span
  | .parameter name span => .parameter name span
  | .reference name span => .reference name span
  | .property _ key span => .property anyExpression key span
  | .index _ _ span => .index anyExpression anyExpression span
  | .slice _ lower upper span =>
    .slice anyExpression (lower.map fun _ => anyExpression) (upper.map fun _ => anyExpression) span
  | .hasLabels _ labels span => .hasLabels anyExpression labels span
  | .list items span => .list (items.map fun _ => anyExpression) span
  | .map entries span => .map (entries.map fun entry => { entry with value := anyExpression }) span
  | .call name distinct arguments span =>
    .call name distinct (arguments.map fun _ => anyExpression) span
  | .countStar span => .countStar span
  | .unary operator _ span => .unary operator anyExpression span
  | .binary operator _ _ span => .binary operator anyExpression anyExpression span
  | .isNull _ negated span => .isNull anyExpression negated span
  | .case operand alternatives otherwise span =>
    .case (operand.map fun _ => anyExpression)
      (alternatives.map fun _ => ⟨anyExpression, anyExpression⟩)
      (otherwise.map fun _ => anyExpression) span
  | .comprehension body => .comprehension (outlineComprehension body)
  | .quantified quantifier body => .quantified quantifier (outlineComprehension body)
  | .existsQuery _ span => .existsQuery anyQuery span
  | .pattern _ => .pattern anyPart

/-- The outline of a query: how many clauses there are in which branch. -/
def outlineQuery (query : Query) : Query :=
  { query with
    clauses := query.clauses.map fun _ => anyClause
    unions := query.unions.map fun u => { u with clauses := u.clauses.map fun _ => anyClause } }

/-- The outline of a statement. -/
def outlineStatement : Statement → Statement
  | .query _ => .query anyQuery
  | .error span => .error span

/-- **The outline of a node**: the node with stand-ins for the nodes directly inside it. -/
def outline : Node → Node
  | document d => document { d with statements := d.statements.map fun _ => .error ⟨0, 0⟩ }
  | statement s => statement (outlineStatement s)
  | query q => query (outlineQuery q)
  | subquery _ => subquery anyQuery
  | clause c => clause (outlineClause c)
  | part p => part (outlinePart p)
  | pathNode n => pathNode { n with properties := n.properties.map fun _ => anyExpression }
  | relationship r => relationship { r with properties := r.properties.map fun _ => anyExpression }
  | item i => item { i with expression := anyExpression }
  | setItem i => setItem (outlineSetItem i)
  | expression e => expression (outlineExpression e)

/-! ### Families of nodes -/

/-- **A family of nodes that vary in the body of one subquery**, given the bodies. -/
inductive Varies {ι : Type} (bodies : ι → Query) : (ι → Node) → Prop
  /-- The nodes are the subqueries with these bodies. -/
  | here : Varies bodies fun i => .subquery (bodies i)
  /-- The nodes have the same outline, and inside one of the nodes at some place varies while the
  others are the same. -/
  | inside {nodes inner : ι → Node} {before after : List Node}
    (outlines : ∀ i j, (nodes i).outline = (nodes j).outline)
    (children : ∀ i, (nodes i).children = before ++ inner i :: after)
    (varies : Varies bodies inner) : Varies bodies nodes

variable {ι : Type} {bodies : ι → Query} {nodes : ι → Node}

theorem Varies.outline_eq (h : Varies bodies nodes) (i j : ι) :
    (nodes i).outline = (nodes j).outline := by
  cases h with
  | here => rfl
  | inside outlines _ _ => exact outlines i j

theorem Varies.first {inner : ι → Node} {after : List Node}
    (outlines : ∀ i j, (nodes i).outline = (nodes j).outline)
    (children : ∀ i, (nodes i).children = inner i :: after) (varies : Varies bodies inner) :
    Varies bodies nodes :=
  .inside outlines (fun i => (children i).trans (List.nil_append _).symm) varies

/-! ### The subqueries inside -/

theorem subqueries_append (first second : List Node) :
    subqueries (first ++ second) = subqueries first ++ subqueries second := by
  fun_induction subqueries first with
  | case1 => simp
  | case2 rest body ih => rw [List.cons_append, subqueries, ih, List.cons_append]
  | case3 rest n hn ih =>
    rw [List.cons_append, subqueries]
    · rw [← List.append_assoc, ih]
    · exact hn

/-- Looking for subqueries in a node that is none is looking inside. -/
theorem subqueries_single {n : Node} (h : ∀ body, n ≠ .subquery body) :
    subqueries [n] = subqueries n.children := by
  rw [subqueries, List.append_nil]
  exact h

/-- There are none in a stand-in. -/
theorem subqueries_of_isError {c : Clause} (h : c.isError = true) : c.subqueries = [] := by
  cases c with
  | error => rw [ClauseOf.subqueries, ofClause, subqueries]
  | _ => cases h

theorem exists_subquery_of_outline {n m : Node} {body : Query} (h : n.outline = m.outline)
    (hm : m = .subquery body) : ∃ other, n = .subquery other := by
  subst hm
  cases n <;> simp [outline] at h ⊢

theorem eq_of_singleton_eq {α : Type} {x y : α} {before after : List α}
    (h : [x] = before ++ y :: after) : y = x := by
  rcases List.append_eq_singleton_iff.1 h.symm with ⟨-, h⟩ | ⟨-, h⟩
  · exact (List.cons.inj h).1
  · cases h

/-- **Exactly one of the subqueries directly inside varies**: the body, or a query around it. -/
theorem Varies.subqueries (h : Varies bodies nodes) :
    ∃ before after inner, (∀ i, Node.subqueries [nodes i] = before ++ inner i :: after) ∧
      (inner = bodies ∨ Varies bodies fun i => .query (inner i)) := by
  induction h with
  | here => exact ⟨[], [], bodies, fun i => by simp [Node.subqueries], Or.inl rfl⟩
  | @inside nodes inner before after outlines children varies ih =>
    by_cases hs : ∃ i body, nodes i = .subquery body
    · -- the nodes are subqueries, and the one thing inside them is the query that they are
      obtain ⟨i, body, hi⟩ := hs
      choose other hother using fun j => exists_subquery_of_outline (outlines j i) hi
      have hinner (j : ι) : inner j = .query (other j) := by
        have hj := children j
        rw [hother j] at hj
        exact eq_of_singleton_eq hj
      refine ⟨[], [], other, fun j => by simp [hother j, Node.subqueries], Or.inr ?_⟩
      rwa [← funext hinner]
    · obtain ⟨first, last, query, hquery, hvaries⟩ := ih
      refine ⟨Node.subqueries before ++ first, last ++ Node.subqueries after, query, fun j => ?_,
        hvaries⟩
      rw [subqueries_single fun body hbody => hs ⟨j, body, hbody⟩, children j,
        subqueries_append, ← List.singleton_append, subqueries_append, hquery j]
      simp

/-! ### One level down -/

/-- Inside nodes that vary and are no subqueries, one thing varies. -/
theorem Varies.exists_inside (h : Varies bodies nodes) {i : ι}
    (hi : ∀ body, nodes i ≠ .subquery body) :
    ∃ before after inner, (∀ j, (nodes j).children = before ++ inner j :: after) ∧
      Varies bodies inner := by
  cases h with
  | here => exact absurd rfl (hi _)
  | inside _ children varies => exact ⟨_, _, _, children, varies⟩

/-- What varies among nodes of one kind is of that kind. -/
theorem exists_of_map {α : Type} {f : α → Node} (hf : Function.Injective f) (i : ι)
    {members : ι → List α} {before after : List Node} {inner : ι → Node}
    (h : ∀ j, (members j).map f = before ++ inner j :: after) :
    ∃ (left right : List α) (member : ι → α), (∀ j, inner j = f (member j)) ∧
      ∀ j, members j = left ++ member j :: right := by
  obtain ⟨left, rest, -, rfl, hrest⟩ := List.map_eq_append_iff.1 (h i)
  obtain ⟨-, right, -, -, rfl⟩ := List.map_eq_cons_iff.1 hrest
  have hmember (j : ι) : ∃ x, f x = inner j := by
    have hmem : inner j ∈ (members j).map f := by simp [h j]
    obtain ⟨x, -, hx⟩ := List.mem_map.1 hmem
    exact ⟨x, hx⟩
  choose member hf' using hmember
  refine ⟨left, right, member, fun j => (hf' j).symm, fun j => ?_⟩
  refine List.map_injective_iff.2 hf ?_
  rw [h j, List.map_append, List.map_cons, hf' j]

theorem query_injective : Function.Injective query := fun _ _ => Node.query.inj

theorem clause_injective : Function.Injective clause := fun _ _ => Node.clause.inj

theorem statement_injective : Function.Injective statement := fun _ _ => Node.statement.inj

/-! ### The names bound inside -/

/-- The name that a column binds. -/
def binding? : Node → Option Ident
  | item i => i.binding?
  | _ => none

/-- What varies is more than a variable. -/
theorem Varies.ne_reference (h : Varies bodies nodes) (i : ι) (name : String) (span : Span) :
    nodes i ≠ .expression (.reference name span) := by
  intro hi
  obtain ⟨before, after, inner, children, -⟩ := h.exists_inside (i := i) (by simp [hi])
  have hc := children i
  rw [hi] at hc
  simp [Node.children, ofExpression] at hc

/-- A column that varies binds the name given to it, if any. -/
theorem Varies.binding?_item (h : Varies bodies nodes) {i : ι} {column : ProjectionItem Expression}
    (hi : nodes i = .item column) : column.binding? = column.rename := by
  obtain ⟨before, after, inner, children, varies⟩ := h.exists_inside (i := i) (by simp [hi])
  have hc := children i
  rw [hi] at hc
  have hne := varies.ne_reference i
  rw [eq_of_singleton_eq hc] at hne
  have hv : column.expression.asVariable? = none := by
    cases he : column.expression with
    | reference name span => exact absurd (by rw [he]) (hne name span)
    | _ => rfl
  rw [ProjectionItem.binding?, hv, Option.or_none]

theorem Varies.binding?_eq (h : Varies bodies nodes) (i j : ι) :
    (nodes i).binding? = (nodes j).binding? := by
  have ho := h.outline_eq i j
  cases hi : nodes i with
  | item column =>
    cases hj : nodes j with
    | item other =>
      rw [hi, hj, outline, outline] at ho
      rw [binding?, binding?, h.binding?_item hi, h.binding?_item hj]
      exact (ProjectionItem.mk.inj (Node.item.inj ho)).2.1
    | _ =>
      rw [hi, hj] at ho
      cases ho
  | _ =>
    cases hj : nodes j with
    | item other =>
      rw [hi, hj] at ho
      cases ho
    | _ => rfl

/-! ### Where queries vary -/

/-- Among the queries of documents that vary exactly one varies. -/
theorem Varies.queries {documents : ι → Document}
    (h : Varies bodies fun i => .document (documents i)) (i : ι) :
    ∃ (before after : List Query) (queries : ι → Query),
      (∀ j, (documents j).queries = before ++ queries j :: after) ∧
        Varies bodies fun j => .query (queries j) := by
  obtain ⟨before, after, inner, children, varies⟩ := h.exists_inside (i := i) (by simp)
  obtain ⟨left, right, statements, hinner, hstatements⟩ :=
    exists_of_map statement_injective i children
  obtain rfl := funext hinner
  obtain ⟨_, _, inner, children, varies⟩ := varies.exists_inside (i := i) (by simp)
  obtain ⟨_, _, queries, hinner, hqueries⟩ := exists_of_map query_injective i children
  obtain rfl := funext hinner
  refine ⟨left.filterMap Statement.query?, right.filterMap Statement.query?, queries, fun j => ?_,
    varies⟩
  have hquery : (statements j).query? = some (queries j) := by
    have hj := hqueries j
    cases hq : (statements j).query? with
    | none => simp [hq] at hj
    | some q =>
      rw [hq, Option.toList_some] at hj
      rw [eq_of_singleton_eq hj]
  rw [Document.queries, hstatements j, List.filterMap_append, List.filterMap_cons, hquery]

/-- One member of one of some lists, and what is around it. -/
theorem exists_of_flatten_eq {α : Type} {lists : List (List α)} {before after : List α} {x : α}
    (h : lists.flatten = before ++ x :: after) :
    ∃ left first last right, lists = left ++ (first ++ x :: last) :: right ∧
      before = left.flatten ++ first ∧ after = last ++ right.flatten := by
  rcases List.flatten_eq_append_iff.1 h with
    ⟨left, rest, rfl, rfl, hrest⟩ | ⟨left, first, y, last, right, rfl, rfl, hy⟩
  · obtain ⟨empty, last, right, rfl, hempty, rfl⟩ := List.flatten_eq_cons_iff.1 hrest.symm
    refine ⟨left ++ empty, [], last, right, by simp, ?_, rfl⟩
    rw [List.flatten_append, List.flatten_eq_nil_iff.2 hempty, List.append_nil, List.append_nil]
  · rw [List.cons_append] at hy
    obtain ⟨rfl, rfl⟩ := List.cons.inj hy
    exact ⟨left, first, last, right, rfl, rfl, rfl⟩

/-- **Lists of the same lengths whose members are the same but for one** are the same but for
one, and that one but for one member. -/
theorem exists_of_flatten {α : Type} {lists : ι → List (List α)} {before after : List α}
    {member : ι → α} (i : ι)
    (hlengths : ∀ j k, (lists j).map List.length = (lists k).map List.length)
    (h : ∀ j, (lists j).flatten = before ++ member j :: after) :
    ∃ left first last right, ∀ j, lists j = left ++ (first ++ member j :: last) :: right := by
  obtain ⟨left, first, last, right, hi, rfl, rfl⟩ := exists_of_flatten_eq (h i)
  refine ⟨left, first, last, right, fun j => List.eq_iff_flatten_eq.2 ⟨?_, ?_⟩⟩
  · rw [h j]
    simp
  · rw [hlengths j i, hi]
    simp

/-- **Where a family of queries varies**, down to the subqueries directly inside one clause. -/
structure Spot (queries inner : ι → Query) where
  /-- The branches in front. -/
  left : List (List Clause)
  /-- The clauses in front, in the branch. -/
  first : List Clause
  /-- The clause that is not the same in all. -/
  clause : ι → Clause
  /-- The clauses behind it, in the branch. -/
  last : List Clause
  /-- The branches behind. -/
  right : List (List Clause)
  /-- The subqueries in front, in the clause. -/
  before : List Query
  /-- The subqueries behind, in the clause. -/
  after : List Query
  /-- These are the branches. -/
  branches (i : ι) : (queries i).branches = left ++ (first ++ clause i :: last) :: right
  /-- All have a union, or none has. -/
  unions (i j : ι) : (queries i).unions.isEmpty = (queries j).unions.isEmpty
  /-- The clauses have one outline. -/
  outlines (i j : ι) : outlineClause (clause i) = outlineClause (clause j)
  /-- The clauses bind the same names. -/
  bindings (i j : ι) :
    (ofClause (clause i)).filterMap binding? = (ofClause (clause j)).filterMap binding?
  /-- These are the subqueries directly inside the clauses. -/
  subqueries (i : ι) : (clause i).subqueries = before ++ inner i :: after

theorem lengths_branches {q r : Query} (h : outlineQuery q = outlineQuery r) :
    q.branches.map List.length = r.branches.map List.length := by
  have hclauses := congrArg (fun o => o.clauses.length) h
  have hunions := congrArg (fun o => o.unions.map fun u => u.clauses.length) h
  simp only [outlineQuery, List.length_map, List.map_map, Function.comp_def] at hclauses hunions
  simp only [QueryOf.branches, List.map_cons, List.map_map, Function.comp_def, hclauses, hunions]

theorem isEmpty_unions {q r : Query} (h : outlineQuery q = outlineQuery r) :
    q.unions.isEmpty = r.unions.isEmpty := by
  have hunions := congrArg (fun o => o.unions.isEmpty) h
  simpa [outlineQuery] using hunions

/-- **Queries that vary do so at one spot**: in the body of a subquery directly inside one of their
clauses, which is the one they vary in or varies in turn. -/
theorem Varies.exists_spot {queries : ι → Query} (h : Varies bodies fun i => .query (queries i))
    (i : ι) :
    ∃ inner, Nonempty (Spot queries inner) ∧
      (inner = bodies ∨ Varies bodies fun i => .query (inner i)) := by
  have houtline (j k : ι) : outlineQuery (queries j) = outlineQuery (queries k) :=
    Node.query.inj (h.outline_eq j k)
  obtain ⟨_, _, inner, children, varies⟩ := h.exists_inside (i := i) (by simp)
  obtain ⟨_, _, clauses, hinner, hclauses⟩ := exists_of_map clause_injective i children
  obtain rfl := funext hinner
  obtain ⟨left, first, last, right, hbranches⟩ :=
    exists_of_flatten i (fun j k => lengths_branches (houtline j k)) hclauses
  obtain ⟨_, _, _, hchildren, hvaries⟩ := varies.exists_inside (i := i) (by simp)
  obtain ⟨before, after, inner, hsubqueries, hinner⟩ := varies.subqueries
  refine ⟨inner, ⟨⟨left, first, clauses, last, right, before, after, hbranches,
    fun j k => isEmpty_unions (houtline j k), fun j k => Node.clause.inj (varies.outline_eq j k),
    fun j k => ?_, fun j => ?_⟩⟩, hinner⟩
  · show (Node.clause (clauses j)).children.filterMap _ =
      (Node.clause (clauses k)).children.filterMap _
    rw [hchildren j, hchildren k, List.filterMap_append, List.filterMap_append,
      List.filterMap_cons, List.filterMap_cons, hvaries.binding?_eq j k]
  · rw [← hsubqueries j, subqueries_single (by simp)]
    rfl

end Node

end Cypher
