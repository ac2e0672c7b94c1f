import Cypher.Proofs.Stripped.Query

/-!
# What can be seen of a tree without its spans

Whatever is read off a tree without looking at spans is read off the tree without its spans as well:
the nodes inside a node, all nodes of a document, the subqueries of a clause, the branches of a
query. Each of these functions goes with `Cypher.Strip.strip`, that is, it does not matter whether
the spans are taken out before or after.
-/

namespace Cypher

namespace Strip

section

variable {α β : Type} [Strip α] [Strip β]

/-- A function that goes with taking out spans takes what is the same but for spans to what is. -/
theorem eq_of_commutes {f : α → β} (hf : ∀ a, f (strip a) = strip (f a)) {a a' : α}
    (h : strip a = strip a') : strip (f a) = strip (f a') := by
  rw [← hf, h, hf]

/-! ### Lists -/

theorem map_strip {f : α → β} (hf : ∀ a, f (strip a) = strip (f a)) (as : List α) :
    (strip as).map f = strip (as.map f) := by
  change (as.map strip).map f = (as.map f).map strip
  rw [List.map_map, List.map_map]
  exact List.map_congr_left fun a _ => hf a

omit [Strip α] in
theorem strip_flatMap (f : α → List β) (as : List α) :
    strip (as.flatMap f) = as.flatMap fun a => strip (f a) :=
  List.map_flatMap

theorem flatMap_strip {f : α → List β} (hf : ∀ a, f (strip a) = strip (f a)) (as : List α) :
    (strip as).flatMap f = strip (as.flatMap f) := by
  change (as.map strip).flatMap f = _
  rw [List.flatMap_map, strip_flatMap]
  simp only [hf]

theorem filterMap_strip {f : α → Option β} (hf : ∀ a, f (strip a) = strip (f a)) (as : List α) :
    (strip as).filterMap f = strip (as.filterMap f) := by
  change (as.map strip).filterMap f = (as.filterMap f).map strip
  rw [List.filterMap_map, List.map_filterMap]
  exact congrArg as.filterMap (funext hf)

theorem toList_strip (a : Option α) : (strip a).toList = strip a.toList := by
  cases a <;> rfl

theorem getLast?_strip (as : List α) : (strip as).getLast? = strip as.getLast? :=
  List.getLast?_map

theorem filter_strip {p : α → Bool} (hp : ∀ a, p (strip a) = p a) (as : List α) :
    (strip as).filter p = strip (as.filter p) := by
  change (as.map strip).filter p = (as.filter p).map strip
  rw [List.filter_map]
  exact congrArg (List.map strip) (List.filter_congr fun a _ => hp a)

theorem find?_strip {p : α → Bool} (hp : ∀ a, p (strip a) = p a) (as : List α) :
    (strip as).find? p = strip (as.find? p) := by
  change (as.map strip).find? p = (as.find? p).map strip
  rw [List.find?_map]
  exact congrArg (fun p => (as.find? p).map strip) (funext hp)

/-- Lists put together from members that are the same but for spans. -/
theorem flatMap_eq {f : α → List β} {as as' : List α} (h : strip as = strip as')
    (hf : ∀ a ∈ as, ∀ a', strip a = strip a' → strip (f a) = strip (f a')) :
    strip (as.flatMap f) = strip (as'.flatMap f) := by
  induction as generalizing as' with
  | nil =>
    obtain rfl := eq_nil h
    rfl
  | cons a as ih =>
    obtain ⟨b, bs, rfl, hhead, htail⟩ := exists_eq_cons h
    simp only [List.flatMap_cons, strip_append]
    rw [hf a List.mem_cons_self b hhead, ih htail fun a ha => hf a (List.mem_cons_of_mem _ ha)]

end

end Strip

/-! ### Nodes -/

/-- Taking the spans out of a statement leaves its query, without spans. -/
theorem Statement.query?_strip (s : Statement) : (strip s).query? = strip s.query? := by
  cases s <;> rfl

/-- The branches of a query without spans. -/
theorem Query.branches_strip (q : Query) : (strip q).branches = strip q.branches := by
  obtain ⟨clauses, unions, span⟩ := q
  rw [Strip.strip_query, QueryOf.branches, QueryOf.branches]
  exact congrArg (strip clauses :: ·) (Strip.map_strip (fun u => by cases u; simp) unions)

theorem Document.queries_strip (d : Document) : (strip d).queries = strip d.queries :=
  Strip.filterMap_strip Statement.query?_strip d.statements

namespace Node

instance : Strip Node :=
  ⟨fun
    | .document d => .document (strip d)
    | .statement s => .statement (strip s)
    | .query q => .query (strip q)
    | .subquery q => .subquery (strip q)
    | .clause c => .clause (strip c)
    | .part p => .part (strip p)
    | .pathNode n => .pathNode (strip n)
    | .relationship r => .relationship (strip r)
    | .item i => .item (strip i)
    | .setItem i => .setItem (strip i)
    | .expression e => .expression (strip e)⟩

theorem expressions_strip (es : List Expression) :
    (strip es).map expression = strip (es.map expression) :=
  Strip.map_strip (f := expression) (fun _ => rfl) es

theorem expressionIfAny_strip (e : Option Expression) :
    (strip e).toList.map expression = strip (e.toList.map expression) := by
  rw [Strip.toList_strip, expressions_strip]

theorem setItems_strip (items : List (SetItem Expression)) :
    (strip items).map setItem = strip (items.map setItem) :=
  Strip.map_strip (f := setItem) (fun _ => rfl) items

theorem parts_strip (parts : List (PatternPart Expression)) :
    (strip parts).map part = strip (parts.map part) :=
  Strip.map_strip (f := part) (fun _ => rfl) parts

theorem ofStep_strip (step : PatternStep Expression) :
    ofStep (strip step) = strip (ofStep step) := by
  obtain ⟨arrow, node⟩ := step
  simp only [Strip.strip_parts, ofStep]
  rfl

theorem ofProjection_strip (p : Projection Expression) :
    ofProjection (strip p) = strip (ofProjection p) := by
  obtain ⟨distinct, star, items, orderBy, skip, limit⟩ := p
  have hitems : (strip items).map item = strip (items.map item) :=
    Strip.map_strip (f := item) (fun _ => rfl) items
  have horder : ((strip orderBy).map fun s => expression s.expression) =
      strip (orderBy.map fun s => expression s.expression) :=
    Strip.map_strip (f := fun s => expression s.expression)
      (fun s => by cases s; simp only [Strip.strip_items]; rfl) orderBy
  simp only [Strip.strip_items, ofProjection, hitems, horder, expressionIfAny_strip,
    Strip.strip_append]

theorem ofRemoveItem_strip (i : RemoveItem Expression) :
    ofRemoveItem (strip i) = strip (ofRemoveItem i) := by
  cases i <;> simp only [Strip.strip_items, ofRemoveItem] <;> rfl

theorem ofSetItem_strip (i : SetItem Expression) : ofSetItem (strip i) = strip (ofSetItem i) := by
  cases i <;> simp only [Strip.strip_items, ofSetItem] <;> rfl

theorem ofComprehension_strip (body : Comprehension Expression) :
    ofComprehension (strip body) = strip (ofComprehension body) := by
  obtain ⟨binder, list, predicate, projection, span⟩ := body
  simp only [Strip.strip_parts, ofComprehension, expressionIfAny_strip, Strip.strip_append,
    Strip.strip_cons]
  rfl

theorem ofClause_strip (c : Clause) : ofClause (strip c) = strip (ofClause c) := by
  cases c with
  | matchPattern optional paths span =>
    cases paths
    simp only [Strip.strip_clause, Strip.strip_parts, ofClause, parts_strip]
  | createPattern paths span =>
    cases paths
    simp only [Strip.strip_clause, Strip.strip_parts, ofClause, parts_strip]
  | withColumns columns span => simp only [Strip.strip_clause, ofClause, ofProjection_strip]
  | returnColumns columns span => simp only [Strip.strip_clause, ofClause, ofProjection_strip]
  | mergePart path actions span =>
    have hactions : ((strip actions).flatMap fun a => a.items.map setItem) =
        strip (actions.flatMap fun a => a.items.map setItem) :=
      Strip.flatMap_strip (f := fun a : MergeAction Expression => a.items.map setItem)
        (fun a => by cases a; simp only [Strip.strip_items, setItems_strip]) actions
    simp only [Strip.strip_clause, ofClause, hactions, Strip.strip_cons]
    rfl
  | deleteValues detach values span =>
    simp only [Strip.strip_clause, ofClause, expressions_strip]
  | setItems items span => simp only [Strip.strip_clause, ofClause, setItems_strip]
  | removeItems items span =>
    simp only [Strip.strip_clause, ofClause]
    exact Strip.flatMap_strip ofRemoveItem_strip items
  | callProcedure call span =>
    obtain ⟨name, values, yieldItems, yieldAll⟩ := call
    simp only [Strip.strip_clause, Strip.strip_items, ofClause]
    cases values with
    | none => rfl
    | some values => exact expressions_strip values
  | _ =>
    simp only [Strip.strip_clause, ofClause]
    rfl

theorem ofExpression_strip (e : Expression) : ofExpression (strip e) = strip (ofExpression e) := by
  cases e with
  | slice base lower upper span =>
    simp only [Strip.strip_expression, ofExpression, expressionIfAny_strip, Strip.strip_cons,
      Strip.strip_append]
    rfl
  | list items span => simp only [Strip.strip_expression, ofExpression, expressions_strip]
  | map entries span =>
    simp only [Strip.strip_expression, ofExpression]
    exact Strip.map_strip (f := fun entry => expression entry.value)
      (fun entry => by cases entry; simp only [Strip.strip_parts]; rfl) entries
  | call name distinct arguments span =>
    simp only [Strip.strip_expression, ofExpression, expressions_strip]
  | case operand alternatives otherwise span =>
    have halternatives : ((strip alternatives).flatMap fun a =>
        [expression a.condition, expression a.result]) =
          strip (alternatives.flatMap fun a => [expression a.condition, expression a.result]) :=
      Strip.flatMap_strip
        (f := fun a : CaseAlternative Expression => [expression a.condition, expression a.result])
        (fun a => by cases a; simp only [Strip.strip_parts]; rfl) alternatives
    simp only [Strip.strip_expression, ofExpression, expressionIfAny_strip, halternatives,
      Strip.strip_append]
  | comprehension body => simp only [Strip.strip_expression, ofExpression, ofComprehension_strip]
  | quantified quantifier body =>
    simp only [Strip.strip_expression, ofExpression, ofComprehension_strip]
  | _ =>
    simp only [Strip.strip_expression, ofExpression]
    rfl

/-- **The nodes inside a node without spans** are those inside the node, without spans. -/
theorem children_strip (n : Node) : (strip n).children = strip n.children := by
  cases n with
  | document d => exact Strip.map_strip (f := statement) (fun _ => rfl) d.statements
  | statement s => cases s <;> rfl
  | query q =>
    change (strip q).branches.flatten.map clause = strip (q.branches.flatten.map clause)
    rw [Query.branches_strip]
    have hflatten : (strip q.branches).flatten = strip q.branches.flatten := List.map_flatten.symm
    rw [hflatten]
    exact Strip.map_strip (f := clause) (fun _ => rfl) _
  | subquery q => rfl
  | clause c => exact ofClause_strip c
  | part p =>
    obtain ⟨binder, start, chain, span⟩ := p
    change children (part (strip _)) = _
    simp only [Strip.strip_parts, children, Strip.flatMap_strip ofStep_strip, Strip.strip_cons]
    rfl
  | pathNode n =>
    obtain ⟨binder, labels, properties, span⟩ := n
    change children (pathNode (strip _)) = _
    simp only [Strip.strip_parts, children, expressionIfAny_strip]
  | relationship r =>
    obtain ⟨direction, binder, types, length, properties, span⟩ := r
    change children (relationship (strip _)) = _
    simp only [Strip.strip_parts, children, expressionIfAny_strip]
  | item i =>
    obtain ⟨value, rename, span⟩ := i
    change children (item (strip _)) = _
    simp only [Strip.strip_items, children]
    rfl
  | setItem i => exact ofSetItem_strip i
  | expression e => exact ofExpression_strip e

/-- **All nodes of trees without spans.** -/
theorem preorder_strip (nodes : List Node) : preorder (strip nodes) = strip (preorder nodes) := by
  fun_induction preorder nodes with
  | case1 => simp only [Strip.strip_nil, preorder]
  | case2 n rest ih =>
    rw [Strip.strip_cons, preorder, children_strip, ← Strip.strip_append, ih, Strip.strip_cons]

theorem subqueries_strip (nodes : List Node) :
    subqueries (strip nodes) = strip (subqueries nodes) := by
  fun_induction subqueries nodes with
  | case1 => simp only [Strip.strip_nil, subqueries]
  | case2 rest body ih =>
    change subqueries (subquery (strip body) :: strip rest) = strip body :: strip (subqueries rest)
    rw [subqueries, ih]
  | case3 rest n hn ih =>
    have hstrip : ∀ body, strip n ≠ subquery body := fun body h => by
      cases n <;> first | exact hn _ rfl | cases h
    rw [Strip.strip_cons, subqueries, children_strip, ← Strip.strip_append, ih]
    exact hstrip

theorem expression?_strip (n : Node) : (strip n).expression? = strip n.expression? := by
  cases n <;> rfl

theorem query?_strip (n : Node) : (strip n).query? = strip n.query? := by
  cases n <;> rfl

end Node

theorem Document.nodes_strip (d : Document) : (strip d).nodes = strip d.nodes :=
  Node.preorder_strip [.document d]

/-- The subqueries in a clause without spans. -/
theorem Clause.subqueries_strip (c : Clause) :
    ClauseOf.subqueries (strip c) = strip (ClauseOf.subqueries c) := by
  rw [ClauseOf.subqueries, Node.ofClause_strip, Node.subqueries_strip, ClauseOf.subqueries]

end Cypher
