import Cypher.Tree.Document

/-!
# The nodes of a tree

The parts of a document that are of interest on their own – statements, queries, clauses, paths and
their members, columns, assignments, expressions – are its nodes. `Cypher.Node` is the common type
of all of them, and `Cypher.Node.children` says which nodes lie directly inside a node, in the order
in which they are written. The body of a subquery counts twice: once as a subquery, and inside that
as a query.

Everything that goes through a whole tree is built on the children:

* `Cypher.Node.preorder` lists all nodes, each before the nodes inside it;
* `Cypher.Node.traverse` goes through the same nodes with a state, may leave out the inside of a
  node, and may stop early.

Both work on a list of nodes still to be visited. Taking a node off the list and putting its
children in its place makes the list lighter (`Cypher.Node.weigh_children`), so they come to an
end.
-/

namespace Cypher

/-- **A node of a tree.** -/
inductive Node
  | document (document : Document)
  | statement (statement : Statement)
  | query (query : Query)
  /-- A query as the body of an expression or clause. -/
  | subquery (body : Query)
  | clause (clause : Clause)
  | part (part : PatternPart Expression)
  | pathNode (node : NodePattern Expression)
  | relationship (relationship : RelationshipPattern Expression)
  | item (item : ProjectionItem Expression)
  | setItem (item : SetItem Expression)
  | expression (expression : Expression)

namespace Node

/-! ### What lies inside a node -/

/-- The stretch of a node. -/
def span : Node → Span
  | document d => d.span
  | statement s => s.span
  | query q => q.span
  | subquery q => q.span
  | clause c => c.span
  | part p => p.span
  | pathNode n => n.span
  | relationship r => r.span
  | item i => i.span
  | setItem i => i.span
  | expression e => e.span

/-- The nodes inside a step of a path. -/
def ofStep (step : PatternStep Expression) : List Node :=
  [relationship step.relationship, pathNode step.node]

/-- The nodes inside a projection: its columns, then what it sorts and cuts by. -/
def ofProjection (projection : Projection Expression) : List Node :=
  projection.items.map item ++
    projection.orderBy.map (fun s => expression s.expression) ++
    projection.skip.toList.map expression ++ projection.limit.toList.map expression

/-- The nodes inside something to remove. -/
def ofRemoveItem : RemoveItem Expression → List Node
  | .property target => [expression target]
  | .labels .. => []

/-- The nodes inside an assignment. -/
def ofSetItem : SetItem Expression → List Node
  | .property target value _ => [expression target, expression value]
  | .replace _ value _ => [expression value]
  | .merge _ value _ => [expression value]
  | .labels .. => []

/-- The nodes inside a clause. -/
def ofClause : Clause → List Node
  | .matchPattern _ pattern _ => pattern.parts.map part
  | .whereHolds predicate _ => [expression predicate]
  | .withColumns projection _ => ofProjection projection
  | .returnColumns projection _ => ofProjection projection
  | .unwindList list _ _ => [expression list]
  | .createPattern pattern _ => pattern.parts.map part
  | .mergePart p actions _ => part p :: actions.flatMap fun a => a.items.map setItem
  | .deleteValues _ values _ => values.map expression
  | .setItems items _ => items.map setItem
  | .removeItems items _ => items.flatMap ofRemoveItem
  | .callProcedure call _ => (call.arguments.getD []).map expression
  | .callQuery body _ => [subquery body]
  | .error _ => []

/-- The nodes inside what is done with the elements of a list. -/
def ofComprehension (body : Comprehension Expression) : List Node :=
  expression body.list ::
    (body.predicate.toList.map expression ++ body.projection.toList.map expression)

/-- The nodes inside an expression. -/
def ofExpression : Expression → List Node
  | .literal .. => []
  | .parameter .. => []
  | .reference .. => []
  | .property base _ _ => [expression base]
  | .index base index _ => [expression base, expression index]
  | .slice base lower upper _ =>
    expression base :: (lower.toList.map expression ++ upper.toList.map expression)
  | .hasLabels base _ _ => [expression base]
  | .list items _ => items.map expression
  | .map entries _ => entries.map fun entry => expression entry.value
  | .call _ _ arguments _ => arguments.map expression
  | .countStar _ => []
  | .unary _ operand _ => [expression operand]
  | .binary _ left right _ => [expression left, expression right]
  | .isNull operand _ _ => [expression operand]
  | .case operand alternatives otherwise _ =>
    operand.toList.map expression ++
      alternatives.flatMap (fun a => [expression a.condition, expression a.result]) ++
      otherwise.toList.map expression
  | .comprehension body => ofComprehension body
  | .quantified _ body => ofComprehension body
  | .existsQuery body _ => [subquery body]
  | .pattern p => [part p]

/-- **The nodes directly inside a node**, in the order in which they are written. -/
def children : Node → List Node
  | document d => d.statements.map statement
  | statement s => s.query?.toList.map query
  | query q => q.branches.flatten.map clause
  | subquery q => [query q]
  | clause c => ofClause c
  | part p => pathNode p.start :: p.chain.flatMap ofStep
  | pathNode n => n.properties.toList.map expression
  | relationship r => r.properties.toList.map expression
  | item i => [expression i.expression]
  | setItem i => ofSetItem i
  | expression e => ofExpression e

/-! ### Weights -/

/-- A measure of what there is inside a node; a subquery weighs more than the query it is. -/
noncomputable def weight : Node → Nat
  | document d => 2 * sizeOf d
  | statement s => 2 * sizeOf s
  | query q => 2 * sizeOf q
  | subquery q => 2 * sizeOf q + 1
  | clause c => 2 * sizeOf c
  | part p => 2 * sizeOf p
  | pathNode n => 2 * sizeOf n
  | relationship r => 2 * sizeOf r
  | item i => 2 * sizeOf i
  | setItem i => 2 * sizeOf i
  | expression e => 2 * sizeOf e

/-- The weight of a list of nodes. -/
noncomputable def weigh : List Node → Nat
  | [] => 0
  | n :: ns => n.weight + weigh ns

@[simp] theorem weigh_nil : weigh [] = 0 := rfl

@[simp] theorem weigh_cons (n : Node) (ns : List Node) :
    weigh (n :: ns) = n.weight + weigh ns := rfl

@[simp] theorem weigh_append (a b : List Node) : weigh (a ++ b) = weigh a + weigh b := by
  induction a with
  | nil => simp
  | cons n ns ih => simp [ih, Nat.add_assoc]

/-- Nodes made from the members of a list weigh no more than the list allows, if each member
allows for its own. -/
theorem weigh_flatMap_le {α : Type} [SizeOf α] {f : α → List Node}
    (h : ∀ x, weigh (f x) ≤ 2 * sizeOf x) (xs : List α) :
    weigh (xs.flatMap f) ≤ 2 * sizeOf xs := by
  induction xs with
  | nil => simp
  | cons x xs ih =>
    have := h x
    simp only [List.flatMap_cons, weigh_append, List.cons.sizeOf_spec]
    omega

theorem weigh_map_le {α : Type} [SizeOf α] {f : α → Node} (h : ∀ x, (f x).weight ≤ 2 * sizeOf x)
    (xs : List α) : weigh (xs.map f) ≤ 2 * sizeOf xs := by
  induction xs with
  | nil => simp
  | cons x xs ih =>
    have := h x
    simp only [List.map_cons, weigh_cons, List.cons.sizeOf_spec]
    omega

theorem weigh_toList_map_le {α : Type} [SizeOf α] {f : α → Node}
    (h : ∀ x, (f x).weight ≤ 2 * sizeOf x) (x : Option α) :
    weigh (x.toList.map f) ≤ 2 * sizeOf x := by
  cases x with
  | none => simp
  | some x =>
    have := h x
    simp only [Option.toList_some, List.map_cons, List.map_nil, weigh_cons, weigh_nil,
      Option.some.sizeOf_spec]
    omega

theorem weigh_expressions_le (es : List Expression) : weigh (es.map expression) ≤ 2 * sizeOf es :=
  weigh_map_le (fun _ => by simp [weight]) es

theorem weigh_expression_le (e : Option Expression) :
    weigh (e.toList.map expression) ≤ 2 * sizeOf e :=
  weigh_toList_map_le (fun _ => by simp [weight]) e

theorem weigh_setItems_le (items : List (SetItem Expression)) :
    weigh (items.map setItem) ≤ 2 * sizeOf items :=
  weigh_map_le (fun _ => by simp [weight]) items

theorem weigh_parts_le (parts : List (PatternPart Expression)) :
    weigh (parts.map part) ≤ 2 * sizeOf parts :=
  weigh_map_le (fun _ => by simp [weight]) parts

theorem weigh_ofStep_le (step : PatternStep Expression) :
    weigh (ofStep step) ≤ 2 * sizeOf step := by
  cases step
  simp only [ofStep, weigh_cons, weigh_nil, weight, PatternStep.mk.sizeOf_spec]
  omega

theorem weigh_ofProjection_lt (p : Projection Expression) :
    weigh (ofProjection p) < 2 * sizeOf p := by
  cases p with
  | mk distinct star items orderBy skip limit =>
    have hi : weigh (items.map item) ≤ 2 * sizeOf items :=
      weigh_map_le (fun _ => by simp [weight]) items
    have ho : weigh (orderBy.map fun s => expression s.expression) ≤ 2 * sizeOf orderBy :=
      weigh_map_le (fun s => by cases s; simp [weight]; omega) orderBy
    have hs := weigh_expression_le skip
    have hl := weigh_expression_le limit
    simp only [ofProjection, weigh_append, Projection.mk.sizeOf_spec]
    omega

theorem weigh_ofRemoveItem_le (i : RemoveItem Expression) :
    weigh (ofRemoveItem i) ≤ 2 * sizeOf i := by
  cases i with
  | property target =>
    simp only [ofRemoveItem, weigh_cons, weigh_nil, weight, RemoveItem.property.sizeOf_spec]
    omega
  | labels => exact Nat.zero_le _

theorem weigh_ofSetItem_lt (i : SetItem Expression) : weigh (ofSetItem i) < 2 * sizeOf i := by
  cases i <;> simp [ofSetItem, weight] <;> omega

theorem weigh_ofClause_lt (c : Clause) : weigh (ofClause c) < 2 * sizeOf c := by
  cases c with
  | matchPattern o pattern s =>
    have := weigh_parts_le pattern.parts
    cases pattern
    simp_all only [ofClause, ClauseOf.matchPattern.sizeOf_spec, Pattern.mk.sizeOf_spec]
    omega
  | whereHolds e s => simp [ofClause, weight]; omega
  | withColumns p s =>
    have := weigh_ofProjection_lt p
    simp only [ofClause, ClauseOf.withColumns.sizeOf_spec]
    omega
  | returnColumns p s =>
    have := weigh_ofProjection_lt p
    simp only [ofClause, ClauseOf.returnColumns.sizeOf_spec]
    omega
  | unwindList e x s => simp [ofClause, weight]; omega
  | createPattern pattern s =>
    have := weigh_parts_le pattern.parts
    cases pattern
    simp_all only [ofClause, ClauseOf.createPattern.sizeOf_spec, Pattern.mk.sizeOf_spec]
    omega
  | mergePart p actions s =>
    have h : weigh (actions.flatMap fun a => a.items.map setItem) ≤ 2 * sizeOf actions :=
      weigh_flatMap_le (fun a => by
        have := weigh_setItems_le a.items
        cases a
        simp_all only [MergeAction.mk.sizeOf_spec]
        omega) actions
    simp only [ofClause, weigh_cons, weight, ClauseOf.mergePart.sizeOf_spec]
    omega
  | deleteValues d es s =>
    have := weigh_expressions_le es
    simp only [ofClause, ClauseOf.deleteValues.sizeOf_spec]
    omega
  | setItems items s =>
    have := weigh_setItems_le items
    simp only [ofClause, ClauseOf.setItems.sizeOf_spec]
    omega
  | removeItems items s =>
    have := weigh_flatMap_le weigh_ofRemoveItem_le items
    simp only [ofClause, ClauseOf.removeItems.sizeOf_spec]
    omega
  | callProcedure call s =>
    cases call with
    | mk name arguments yieldItems yieldAll =>
      cases arguments with
      | none =>
        simp only [ofClause, Option.getD_none, List.map_nil, weigh_nil,
          ClauseOf.callProcedure.sizeOf_spec]
        omega
      | some es =>
        have := weigh_expressions_le es
        simp only [ofClause, Option.getD_some, ClauseOf.callProcedure.sizeOf_spec,
          ProcedureCall.mk.sizeOf_spec, Option.some.sizeOf_spec]
        omega
  | callQuery q s => simp [ofClause, weight]; omega
  | error s =>
    simp only [ofClause, weigh_nil, ClauseOf.error.sizeOf_spec]
    omega

theorem weigh_ofComprehension_lt (b : Comprehension Expression) :
    weigh (ofComprehension b) < 2 * sizeOf b := by
  cases b with
  | mk x list predicate projection span =>
    have hp := weigh_expression_le predicate
    have hj := weigh_expression_le projection
    simp only [ofComprehension, weigh_cons, weigh_append, weight, Comprehension.mk.sizeOf_spec]
    omega

theorem weigh_ofExpression_lt (e : Expression) : weigh (ofExpression e) < 2 * sizeOf e := by
  cases e with
  | slice b l u s =>
    have hl := weigh_expression_le l
    have hu := weigh_expression_le u
    simp only [ofExpression, weigh_cons, weigh_append, weight, Expression.slice.sizeOf_spec]
    omega
  | list items s =>
    have := weigh_expressions_le items
    simp only [ofExpression, Expression.list.sizeOf_spec]
    omega
  | map entries s =>
    have : weigh (entries.map fun entry => expression entry.value) ≤ 2 * sizeOf entries :=
      weigh_map_le (fun x => by cases x; simp only [weight, MapEntry.mk.sizeOf_spec]; omega) entries
    simp only [ofExpression, Expression.map.sizeOf_spec]
    omega
  | call n d es s =>
    have := weigh_expressions_le es
    simp only [ofExpression, Expression.call.sizeOf_spec]
    omega
  | case operand alternatives otherwise s =>
    have ho := weigh_expression_le operand
    have hd := weigh_expression_le otherwise
    have ha : weigh (alternatives.flatMap fun a => [expression a.condition, expression a.result])
        ≤ 2 * sizeOf alternatives :=
      weigh_flatMap_le (fun a => by cases a; simp [weight]; omega) alternatives
    simp only [ofExpression, weigh_append, Expression.case.sizeOf_spec]
    omega
  | comprehension b =>
    have := weigh_ofComprehension_lt b
    simp only [ofExpression, Expression.comprehension.sizeOf_spec]
    omega
  | quantified q b =>
    have := weigh_ofComprehension_lt b
    simp only [ofExpression, Expression.quantified.sizeOf_spec]
    omega
  | _ => simp [ofExpression, weight] <;> omega

/-- The clauses of a query weigh no more than its sequences of clauses allow. -/
theorem weigh_branches_le (q : Query) : weigh (q.branches.flatten.map clause) < 2 * sizeOf q := by
  cases q with
  | mk clauses unions span =>
    have hc : weigh (clauses.map clause) ≤ 2 * sizeOf clauses :=
      weigh_map_le (fun _ => by simp [weight]) clauses
    have hu : weigh (unions.flatMap fun u => u.clauses.map clause) ≤ 2 * sizeOf unions :=
      weigh_flatMap_le (fun u => by
        have : weigh (u.clauses.map clause) ≤ 2 * sizeOf u.clauses :=
          weigh_map_le (fun _ => by simp [weight]) u.clauses
        cases u
        simp_all only [UnionBranch.mk.sizeOf_spec]
        omega) unions
    have e : (unions.map UnionBranch.clauses).flatten.map clause
        = unions.flatMap fun u => u.clauses.map clause := by
      simp [List.flatMap, List.map_flatten, List.map_map, Function.comp_def]
    simp only [QueryOf.branches, List.flatten_cons, List.map_append, weigh_append, e,
      QueryOf.mk.sizeOf_spec]
    omega

/-- **The nodes inside a node weigh less than the node**, all together. -/
theorem weigh_children (n : Node) : weigh n.children < n.weight := by
  cases n with
  | document d =>
    have : weigh (d.statements.map statement) ≤ 2 * sizeOf d.statements :=
      weigh_map_le (fun _ => by simp [weight]) d.statements
    cases d
    simp_all only [children, weight, Document.mk.sizeOf_spec]
    omega
  | statement s =>
    cases s with
    | query q =>
      simp only [children, Statement.query?, Option.toList_some, List.map_cons, List.map_nil,
        weigh_cons, weigh_nil, weight, Statement.query.sizeOf_spec]
      omega
    | error span =>
      simp only [children, Statement.query?, Option.toList_none, List.map_nil, weigh_nil, weight,
        Statement.error.sizeOf_spec]
      omega
  | query q => exact weigh_branches_le q
  | subquery q => simp [children, weight]
  | clause c => exact weigh_ofClause_lt c
  | part p =>
    have := weigh_flatMap_le weigh_ofStep_le p.chain
    cases p
    simp_all only [children, weigh_cons, weight, PatternPart.mk.sizeOf_spec]
    omega
  | pathNode n =>
    have := weigh_expression_le n.properties
    cases n
    simp_all only [children, weight, NodePattern.mk.sizeOf_spec]
    omega
  | relationship r =>
    have := weigh_expression_le r.properties
    cases r
    simp_all only [children, weight, RelationshipPattern.mk.sizeOf_spec]
    omega
  | item i =>
    cases i
    simp [children, weight]
    omega
  | setItem i => exact weigh_ofSetItem_lt i
  | expression e => exact weigh_ofExpression_lt e

theorem weigh_children_append_lt (n : Node) (ns : List Node) :
    weigh (n.children ++ ns) < weigh (n :: ns) := by
  have := weigh_children n
  simp only [weigh_append, weigh_cons]
  omega

theorem weigh_lt_cons (n : Node) (ns : List Node) : weigh ns < weigh (n :: ns) := by
  have := weigh_children n
  simp only [weigh_cons]
  omega

/-! ### Going through a tree -/

/-- **All nodes of some trees**, each before the nodes inside it. -/
def preorder : List Node → List Node
  | [] => []
  | n :: rest => n :: preorder (n.children ++ rest)
termination_by nodes => weigh nodes
decreasing_by exact weigh_children_append_lt n rest

/-- What a visitor asks for after having seen a node. -/
inductive Request
  /-- To see the nodes inside. -/
  | descend
  /-- To pass over the nodes inside. -/
  | pass
  /-- To see nothing more. -/
  | stop
deriving DecidableEq, Repr

/-- **Shows the nodes of some trees to a visitor**, who keeps a state and says after each node how
to go on. The result is the last state, and whether the visitor stopped the traversal. -/
def traverse {σ : Type} (visit : σ → Node → σ × Request) : σ → List Node → σ × Bool
  | s, [] => (s, false)
  | s, n :: rest =>
    match visit s n with
    | (s, .descend) => traverse visit s (n.children ++ rest)
    | (s, .pass) => traverse visit s rest
    | (s, .stop) => (s, true)
termination_by _ nodes => weigh nodes
decreasing_by
  · exact weigh_children_append_lt n rest
  · exact weigh_lt_cons n rest

/-- The expression of a node, if it is one. -/
def expression? : Node → Option Expression
  | expression e => some e
  | _ => none

/-- The query of a node that is a query. -/
def query? : Node → Option Query
  | query q => some q
  | _ => none

/-- **The subqueries outermost in some trees**: those found without looking into a subquery. -/
def subqueries : List Node → List Query
  | [] => []
  | n :: rest =>
    match n with
    | subquery body => body :: subqueries rest
    | n => subqueries (n.children ++ rest)
termination_by nodes => weigh nodes
decreasing_by
  · exact weigh_lt_cons _ rest
  · exact weigh_children_append_lt _ rest

end Node

/-- All nodes of a document, each before the nodes inside it. -/
def Document.nodes (document : Document) : List Node := Node.preorder [.document document]

/-- **The subqueries directly inside a clause**, in order, without those inside other subqueries. -/
def ClauseOf.subqueries (clause : Clause) : List Query := Node.subqueries (Node.ofClause clause)

end Cypher
