import Cypher.Proofs.Outline

/-!
# Trees without stand-ins

Where a clause could not be read, a stand-in takes its place. To weed a tree is to delete the
stand-ins from all its sequences of clauses: those of statements, those behind unions and those of
subqueries at any depth (`Cypher.Weed.query`). Two trees differ in nothing but stand-ins, wherever
these are and however many, if they are equal once both are weeded.

Weeding leaves alone whatever is no sequence of clauses. So a clause keeps its kind, its span and
what it binds (`Cypher.Clause.kind_weed` and the like), and the subqueries in it are those that were
in it, weeded in turn (`Cypher.Clause.subqueries_weed`).
-/

namespace Cypher

namespace Weed

mutual

/-- An expression without stand-ins. -/
def expression : Expression → Expression
  | .literal value span => .literal value span
  | .parameter name span => .parameter name span
  | .reference name span => .reference name span
  | .property base key span => .property (expression base) key span
  | .index base index span => .index (expression base) (expression index) span
  | .slice base lower upper span => .slice (expression base) (maybe lower) (maybe upper) span
  | .hasLabels base labels span => .hasLabels (expression base) labels span
  | .list items span => .list (items.map fun e => expression e) span
  | .map entries span => .map (entries.map fun e => entry e) span
  | .call name distinct arguments span =>
    .call name distinct (arguments.map fun e => expression e) span
  | .countStar span => .countStar span
  | .unary operator operand span => .unary operator (expression operand) span
  | .binary operator left right span => .binary operator (expression left) (expression right) span
  | .isNull operand negated span => .isNull (expression operand) negated span
  | .case operand alternatives otherwise span =>
    .case (maybe operand) (alternatives.map fun a => alternative a) (maybe otherwise) span
  | .comprehension body => .comprehension (comprehension body)
  | .quantified quantifier body => .quantified quantifier (comprehension body)
  | .existsQuery body span => .existsQuery (query body) span
  | .pattern path => .pattern (part path)
termination_by e => sizeOf e

/-- What may be an expression. -/
def maybe : Option Expression → Option Expression
  | none => none
  | some e => some (expression e)
termination_by e => sizeOf e

/-- The entry of a map. -/
def entry : MapEntry Expression → MapEntry Expression
  | ⟨key, value⟩ => ⟨key, expression value⟩
termination_by e => sizeOf e

/-- A case. -/
def alternative : CaseAlternative Expression → CaseAlternative Expression
  | ⟨condition, result⟩ => ⟨expression condition, expression result⟩
termination_by a => sizeOf a

/-- What is done with the elements of a list. -/
def comprehension : Comprehension Expression → Comprehension Expression
  | ⟨binder, list, predicate, projection, span⟩ =>
    ⟨binder, expression list, maybe predicate, maybe projection, span⟩
termination_by c => sizeOf c

/-- A node of a path. -/
def pathNode : NodePattern Expression → NodePattern Expression
  | ⟨binder, labels, properties, span⟩ => ⟨binder, labels, maybe properties, span⟩
termination_by n => sizeOf n

/-- A relationship of a path. -/
def relationship : RelationshipPattern Expression → RelationshipPattern Expression
  | ⟨direction, binder, types, length, properties, span⟩ =>
    ⟨direction, binder, types, length, maybe properties, span⟩
termination_by r => sizeOf r

/-- A step of a path. -/
def step : PatternStep Expression → PatternStep Expression
  | ⟨arrow, node⟩ => ⟨relationship arrow, pathNode node⟩
termination_by s => sizeOf s

/-- A path. -/
def part : PatternPart Expression → PatternPart Expression
  | ⟨binder, start, chain, span⟩ => ⟨binder, pathNode start, chain.map fun s => step s, span⟩
termination_by p => sizeOf p

/-- A pattern. -/
def pattern : Pattern Expression → Pattern Expression
  | ⟨parts, span⟩ => ⟨parts.map fun p => part p, span⟩
termination_by p => sizeOf p

/-- A column. -/
def item : ProjectionItem Expression → ProjectionItem Expression
  | ⟨value, rename, span⟩ => ⟨expression value, rename, span⟩
termination_by i => sizeOf i

/-- A value to sort by. -/
def sortItem : SortItem Expression → SortItem Expression
  | ⟨value, descending, span⟩ => ⟨expression value, descending, span⟩
termination_by i => sizeOf i

/-- A projection. -/
def projection : Projection Expression → Projection Expression
  | ⟨distinct, star, items, orderBy, skip, limit⟩ =>
    ⟨distinct, star, items.map fun i => item i, orderBy.map fun i => sortItem i, maybe skip,
      maybe limit⟩
termination_by p => sizeOf p

/-- An assignment. -/
def setItem : SetItem Expression → SetItem Expression
  | .property target value span => .property (expression target) (expression value) span
  | .replace binder value span => .replace binder (expression value) span
  | .merge binder value span => .merge binder (expression value) span
  | .labels binder labels span => .labels binder labels span
termination_by i => sizeOf i

/-- Something to remove. -/
def removeItem : RemoveItem Expression → RemoveItem Expression
  | .property target => .property (expression target)
  | .labels binder labels span => .labels binder labels span
termination_by i => sizeOf i

/-- An action of a merge. -/
def action : MergeAction Expression → MergeAction Expression
  | ⟨event, items, span⟩ => ⟨event, items.map fun i => setItem i, span⟩
termination_by a => sizeOf a

/-- The arguments of a procedure, if there are any. -/
def arguments : Option (List Expression) → Option (List Expression)
  | none => none
  | some es => some (es.map fun e => expression e)
termination_by a => sizeOf a

/-- The call of a procedure. -/
def call : ProcedureCall Expression → ProcedureCall Expression
  | ⟨name, values, yieldItems, yieldAll⟩ => ⟨name, arguments values, yieldItems, yieldAll⟩
termination_by c => sizeOf c

/-- A clause. -/
def clause : Clause → Clause
  | .matchPattern optional paths span => .matchPattern optional (pattern paths) span
  | .whereHolds predicate span => .whereHolds (expression predicate) span
  | .withColumns columns span => .withColumns (projection columns) span
  | .returnColumns columns span => .returnColumns (projection columns) span
  | .unwindList list binder span => .unwindList (expression list) binder span
  | .createPattern paths span => .createPattern (pattern paths) span
  | .mergePart path actions span => .mergePart (part path) (actions.map fun a => action a) span
  | .deleteValues detach values span =>
    .deleteValues detach (values.map fun e => expression e) span
  | .setItems items span => .setItems (items.map fun i => setItem i) span
  | .removeItems items span => .removeItems (items.map fun i => removeItem i) span
  | .callProcedure procedure span => .callProcedure (call procedure) span
  | .callQuery body span => .callQuery (query body) span
  | .error span => .error span
termination_by c => sizeOf c

/-- A branch behind a union. -/
def branch : UnionBranch Clause → UnionBranch Clause
  | ⟨all, clauses, span⟩ =>
    ⟨all, (clauses.map fun c => clause c).filter fun c => !c.isError, span⟩
termination_by b => sizeOf b

/-- **A query without stand-ins.** -/
def query : Query → Query
  | ⟨clauses, unions, span⟩ =>
    ⟨(clauses.map fun c => clause c).filter fun c => !c.isError, unions.map fun b => branch b, span⟩
termination_by q => sizeOf q

end

/-- **A sequence of clauses** without stand-ins. -/
def clauses (cs : List Clause) : List Clause := (cs.map clause).filter fun c => !c.isError

/-- A statement without stand-ins in its sequences of clauses. -/
def statement : Statement → Statement
  | .query q => .query (query q)
  | .error span => .error span

/-- **A document without stand-ins** in any sequence of clauses. -/
def document (d : Document) : Document := ⟨d.statements.map statement, d.span⟩

theorem maybe_eq (e : Option Expression) : maybe e = e.map expression := by
  cases e <;> simp only [maybe] <;> rfl

theorem arguments_eq (values : Option (List Expression)) :
    arguments values = values.map fun es => es.map expression := by
  cases values <;> simp only [arguments] <;> rfl

end Weed

/-! ### Clauses -/

namespace Clause

theorem kind_weed (c : Clause) : (Weed.clause c).kind = c.kind := by
  cases c <;> simp only [Weed.clause] <;> rfl

theorem span_weed (c : Clause) : (Weed.clause c).span = c.span := by
  cases c <;> simp only [Weed.clause] <;> rfl

theorem isError_weed (c : Clause) : (Weed.clause c).isError = c.isError := by
  cases c <;> simp only [Weed.clause] <;> rfl

theorem yields_weed (c : Clause) : (Weed.clause c).yields = c.yields := by
  cases c with
  | callProcedure call =>
    obtain ⟨name, values, yieldItems, yieldAll⟩ := call
    simp only [Weed.clause, Weed.call]
    rfl
  | _ => simp only [Weed.clause] <;> rfl

end Clause

namespace Weed

variable {c : Clause}

theorem clauses_cons_of_isError (h : c.isError = true) (cs : List Clause) :
    clauses (c :: cs) = clauses cs := by
  rw [clauses, List.map_cons, List.filter_cons, if_neg (by simp [Clause.isError_weed, h])]
  rfl

theorem clauses_cons (h : ¬ c.isError = true) (cs : List Clause) :
    clauses (c :: cs) = clause c :: clauses cs := by
  rw [clauses, List.map_cons, List.filter_cons, if_pos (by simp [Clause.isError_weed, h])]
  rfl

end Weed

/-- The branches of a query are weeded one by one. -/
theorem Query.branches_weed (q : Query) :
    (Weed.query q).branches = q.branches.map Weed.clauses := by
  obtain ⟨clauses, unions, span⟩ := q
  simp only [Weed.query, QueryOf.branches, List.map_cons, List.map_map]
  refine congrArg (_ :: ·) (List.map_congr_left fun b _ => ?_)
  obtain ⟨all, clauses, span⟩ := b
  simp only [Function.comp_apply, Weed.branch]
  rfl

theorem Query.isEmpty_unions_weed (q : Query) :
    (Weed.query q).unions.isEmpty = q.unions.isEmpty := by
  obtain ⟨clauses, unions, span⟩ := q
  simp only [Weed.query, List.isEmpty_map]

theorem Document.queries_weed (d : Document) :
    (Weed.document d).queries = d.queries.map Weed.query := by
  rw [queries, queries, Weed.document, List.filterMap_map, List.map_filterMap]
  refine congrFun (congrArg List.filterMap (funext fun s => ?_)) _
  cases s <;> rfl

/-! ### Nodes -/

namespace Node

/-- A node without stand-ins in its sequences of clauses. -/
def weed : Node → Node
  | document d => .document (Weed.document d)
  | statement s => .statement (Weed.statement s)
  | query q => .query (Weed.query q)
  | subquery q => .subquery (Weed.query q)
  | clause c => .clause (Weed.clause c)
  | part p => .part (Weed.part p)
  | pathNode n => .pathNode (Weed.pathNode n)
  | relationship r => .relationship (Weed.relationship r)
  | item i => .item (Weed.item i)
  | setItem i => .setItem (Weed.setItem i)
  | expression e => .expression (Weed.expression e)

theorem map_weed_expressions (es : List Expression) :
    (es.map Weed.expression).map expression = (es.map expression).map weed := by
  rw [List.map_map, List.map_map]
  rfl

theorem map_weed_expression? (e : Option Expression) :
    (Weed.maybe e).toList.map expression = (e.toList.map expression).map weed := by
  rw [Weed.maybe_eq]
  cases e <;> rfl

theorem map_weed_setItems (items : List (SetItem Expression)) :
    (items.map Weed.setItem).map setItem = (items.map setItem).map weed := by
  rw [List.map_map, List.map_map]
  rfl

theorem map_weed_parts (pattern : Pattern Expression) :
    (Weed.pattern pattern).parts.map part = (pattern.parts.map part).map weed := by
  obtain ⟨parts, span⟩ := pattern
  simp only [Weed.pattern, List.map_map]
  rfl

theorem ofProjection_weed (p : Projection Expression) :
    ofProjection (Weed.projection p) = (ofProjection p).map weed := by
  obtain ⟨distinct, star, items, orderBy, skip, limit⟩ := p
  have hitems : (items.map Weed.item).map item = (items.map item).map weed := by
    rw [List.map_map, List.map_map]
    rfl
  have horder : (orderBy.map Weed.sortItem).map (fun s => expression s.expression) =
      (orderBy.map fun s => expression s.expression).map weed := by
    rw [List.map_map, List.map_map]
    refine List.map_congr_left fun s _ => ?_
    obtain ⟨value, descending, span⟩ := s
    simp only [Function.comp_apply, Weed.sortItem, weed]
  simp only [ofProjection, Weed.projection, List.map_append, map_weed_expression?, hitems, horder]

theorem ofComprehension_weed (b : Comprehension Expression) :
    ofComprehension (Weed.comprehension b) = (ofComprehension b).map weed := by
  obtain ⟨binder, list, predicate, projection, span⟩ := b
  simp only [ofComprehension, Weed.comprehension, List.map_cons, List.map_append,
    map_weed_expression?, weed]

theorem ofExpression_weed (e : Expression) :
    ofExpression (Weed.expression e) = (ofExpression e).map weed := by
  cases e with
  | slice | list | call =>
    simp only [Weed.expression, ofExpression, List.map_cons, List.map_append,
      map_weed_expression?, map_weed_expressions, weed]
  | map entries =>
    simp only [Weed.expression, ofExpression, List.map_map]
    refine List.map_congr_left fun m _ => ?_
    obtain ⟨key, value⟩ := m
    simp only [Function.comp_apply, Weed.entry, weed]
  | case operand alternatives otherwise =>
    have halternatives (as : List (CaseAlternative Expression)) :
        (as.map Weed.alternative).flatMap (fun a => [expression a.condition, expression a.result]) =
          (as.flatMap fun a => [expression a.condition, expression a.result]).map weed := by
      rw [List.flatMap_map, List.map_flatMap]
      refine congrFun (congrArg List.flatMap (funext fun a => ?_)) _
      obtain ⟨condition, result⟩ := a
      simp only [Weed.alternative, List.map_cons, List.map_nil, weed]
    simp only [Weed.expression, ofExpression, List.map_append, map_weed_expression?,
      halternatives]
  | comprehension body => simp only [Weed.expression, ofExpression, ofComprehension_weed]
  | quantified quantifier body => simp only [Weed.expression, ofExpression, ofComprehension_weed]
  | _ => simp only [Weed.expression, ofExpression, List.map_cons, List.map_nil, weed]

theorem ofClause_weed (c : Clause) : ofClause (Weed.clause c) = (ofClause c).map weed := by
  cases c with
  | matchPattern | createPattern => simp only [Weed.clause, ofClause, map_weed_parts]
  | withColumns | returnColumns => simp only [Weed.clause, ofClause, ofProjection_weed]
  | deleteValues => simp only [Weed.clause, ofClause, map_weed_expressions]
  | setItems => simp only [Weed.clause, ofClause, map_weed_setItems]
  | mergePart path actions =>
    simp only [Weed.clause, ofClause, List.map_cons, List.map_flatMap, List.flatMap_map, weed]
    refine congrArg (_ :: ·) (congrFun (congrArg List.flatMap (funext fun a => ?_)) _)
    obtain ⟨event, items, span⟩ := a
    simp only [Weed.action, map_weed_setItems]
  | removeItems items =>
    simp only [Weed.clause, ofClause, List.map_flatMap, List.flatMap_map]
    refine congrFun (congrArg List.flatMap (funext fun i => ?_)) _
    cases i <;> simp only [Weed.removeItem, ofRemoveItem, List.map_cons, List.map_nil, weed]
  | callProcedure call =>
    obtain ⟨name, values, yieldItems, yieldAll⟩ := call
    simp only [Weed.clause, ofClause, Weed.call, Weed.arguments_eq]
    cases values with
    | none => rfl
    | some es => exact map_weed_expressions es
  | _ => simp only [Weed.clause, ofClause, List.map_cons, List.map_nil, weed]

/-- **What is inside a node without stand-ins** is what was inside it, weeded, but for a query,
which loses its stand-ins. -/
theorem children_weed {n : Node} (h : ∀ q, n ≠ .query q) :
    n.weed.children = n.children.map weed := by
  cases n with
  | document d =>
    simp only [weed, children, Weed.document, List.map_map]
    rfl
  | statement s => cases s <;> rfl
  | query q => exact absurd rfl (h q)
  | subquery q => rfl
  | clause c => exact ofClause_weed c
  | part p =>
    obtain ⟨binder, start, chain, span⟩ := p
    simp only [weed, children, Weed.part, List.map_cons, List.map_flatMap, List.flatMap_map]
    refine congrArg (_ :: ·) (congrFun (congrArg List.flatMap (funext fun s => ?_)) _)
    obtain ⟨arrow, node⟩ := s
    simp only [Weed.step, ofStep, List.map_cons, List.map_nil, weed]
  | pathNode n =>
    obtain ⟨binder, labels, properties, span⟩ := n
    simp only [weed, children, Weed.pathNode, map_weed_expression?]
  | relationship r =>
    obtain ⟨direction, binder, types, length, properties, span⟩ := r
    simp only [weed, children, Weed.relationship, map_weed_expression?]
  | item i =>
    obtain ⟨value, rename, span⟩ := i
    simp only [weed, children, Weed.item, List.map_cons, List.map_nil]
  | setItem i => cases i <;> simp only [weed, children, Weed.setItem, ofSetItem, List.map_cons,
      List.map_nil]
  | expression e => exact ofExpression_weed e

/-- There are no subqueries in stand-ins, so nothing is lost with them. -/
theorem subqueries_filter (clauses : List Clause) :
    subqueries ((clauses.filter fun c => !c.isError).map clause) =
      subqueries (clauses.map clause) := by
  induction clauses with
  | nil => rfl
  | cons c cs ih =>
    have hfirst (cs : List Clause) : subqueries ((c :: cs).map clause) =
        subqueries [clause c] ++ subqueries (cs.map clause) := subqueries_append [clause c] _
    rw [hfirst, ← ih]
    by_cases h : c.isError = true
    · have hnone : subqueries [clause c] = [] :=
        (subqueries_single fun _ => Node.noConfusion).trans (subqueries_of_isError h)
      rw [List.filter_cons, if_neg (by simp [h]), hnone, List.nil_append]
    · rw [List.filter_cons, if_pos (by simp [h]), hfirst]

/-- Inside a node without stand-ins there are the subqueries that were there. -/
theorem subqueries_children_weed (n : Node) :
    subqueries n.weed.children = subqueries (n.children.map weed) := by
  by_cases h : ∃ q, n = .query q
  · obtain ⟨q, rfl⟩ := h
    have hbranches : (Weed.query q).branches.flatten =
        (q.branches.flatten.map Weed.clause).filter fun c => !c.isError := by
      rw [Query.branches_weed, List.map_flatten, List.filter_flatten, List.map_map]
      rfl
    rw [weed, children, children, hbranches, subqueries_filter, List.map_map, List.map_map]
    rfl
  · rw [children_weed fun q hq => h ⟨q, hq⟩]

/-- **Looking for subqueries in weeded trees** finds the subqueries that were there, weeded. -/
theorem subqueries_weed (ns : List Node) :
    subqueries (ns.map weed) = (subqueries ns).map Weed.query := by
  fun_induction subqueries ns with
  | case1 => rw [List.map_nil, List.map_nil, subqueries]
  | case2 rest body ih => rw [List.map_cons, weed, subqueries, ih, List.map_cons]
  | case3 rest n hn ih =>
    have hweed : ∀ body, n.weed ≠ .subquery body := by
      intro body hbody
      cases n with
      | subquery q => exact hn q rfl
      | _ => cases hbody
    rw [List.map_cons, subqueries, subqueries_append, subqueries_children_weed,
      ← subqueries_append, ← List.map_append, ih]
    exact hweed

end Node

namespace Clause

variable {c : Clause}

/-- **The subqueries in a clause** without stand-ins. -/
theorem subqueries_weed (c : Clause) :
    (Weed.clause c).subqueries = c.subqueries.map Weed.query := by
  rw [ClauseOf.subqueries, ClauseOf.subqueries, Node.ofClause_weed, Node.subqueries_weed]

/-- What is found in the subqueries of a clause. -/
def inside {α : Type} (find : Query → List α) (c : Clause) : List α := c.subqueries.flatMap find

variable {α : Type} {find : Query → List α}

theorem inside_of_isError (h : c.isError = true) : inside find c = [] := by
  rw [inside, Node.subqueries_of_isError h, List.flatMap_nil]

/-- **The same is found inside a clause** without stand-ins if it is in each of its subqueries. -/
theorem inside_weed (h : ∀ body ∈ c.subqueries, find (Weed.query body) = find body) :
    inside find (Weed.clause c) = inside find c := by
  rw [inside, inside, subqueries_weed, List.flatMap_map]
  exact List.flatMap_congr h

end Clause

end Cypher
