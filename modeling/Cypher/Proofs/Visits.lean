import Cypher.Proofs.Addresses
import Cypher.Proofs.Nodes

/-!
# What a visitor of a document sees

The nodes that a traversal goes through were chosen by hand, kind of node by kind of node
(`Cypher.Node.children`). That none is forgotten is said against the elements of the tree, which are
everything that has a span (`Cypher.Element.children`): of the elements in their order, each before
what is inside it, a visitor sees those of the kinds that are visited, and each of them once
(`Cypher.Document.visits`).

The two descriptions go into a tree at different paces. An element of a kind that is not visited, as
a whole pattern or a value to sort by, has to be opened before the next node comes to light, and a
subquery has to be opened to be the query that it is. `Cypher.Covers` says that some elements,
opened as far as need be, are some nodes.
-/

namespace Cypher

open Composed (elements)

namespace Element

/-- **All elements of some trees**, each before the elements inside it. -/
inductive Preorder : List Element → List Element → Prop
  /-- No tree. -/
  | nil : Preorder [] []
  /-- An element, then what is inside it. -/
  | cons {e : Element} {rest out : List Element} (inside : Preorder (e.children ++ rest) out) :
      Preorder (e :: rest) (e :: out)

/-- Whether an element is of a kind that visitors are shown. -/
def isVisited : Element → Bool
  | document _ | statement _ | query _ | clause _ | part _ | pathNode _ | relationship _ | item _
  | setItem _ | expression _ => true
  | branch _ | pattern _ | sortItem _ | removeItem _ | action _ | name _ => false

end Element

/-- Whether a node is a subquery, which is visited once more as a query. -/
def Node.isSubquery : Node → Bool
  | subquery _ => true
  | _ => false

theorem Node.isVisited_element (n : Node) : n.element.isVisited = true := by cases n <;> rfl

/-- **Elements that are some nodes** once those among them that are not visited are opened. -/
inductive Covers : List Element → List Node → Prop
  /-- Nothing left. -/
  | nil : Covers [] []
  /-- An element that is a node. -/
  | node {n : Node} {es : List Element} {ns : List Node} (behind : Covers es ns) :
      Covers (n.element :: es) (n :: ns)
  /-- An element that is not visited, with what is inside it. -/
  | opened {e : Element} {es : List Element} {ns : List Node} (hidden : e.isVisited = false)
      (behind : Covers (e.children ++ es) ns) : Covers (e :: es) ns

namespace Covers

variable {α : Type} [Composed α] {es fs : List Element} {ns ms : List Node}

theorem single (n : Node) : Covers [n.element] [n] := .node .nil

theorem append (h : Covers es ns) (h' : Covers fs ms) : Covers (es ++ fs) (ns ++ ms) := by
  induction h with
  | nil => exact h'
  | node _ ih => exact .node ih
  | opened hidden _ ih =>
    rw [List.append_assoc] at ih
    exact .opened hidden ih

/-- An element that is not visited is what is inside it. -/
theorem deeper {e : Element} (hidden : e.isVisited = false) (h : Covers e.children ns) :
    Covers [e] ns := .opened hidden (by rwa [List.append_nil])

theorem flatMap {f : α → List Node} (h : ∀ x, Covers (elements x) (f x)) (xs : List α) :
    Covers (elements xs) (xs.flatMap f) := by
  induction xs with
  | nil => exact .nil
  | cons x xs ih =>
    rw [List.flatMap_cons]
    exact (h x).append ih

theorem map {f : α → Node} (h : ∀ x, Covers (elements x) [f x]) (xs : List α) :
    Covers (elements xs) (xs.map f) := by
  rw [List.map_eq_flatMap]
  exact flatMap h xs

theorem option {f : α → Node} (h : ∀ x, Covers (elements x) [f x]) (x : Option α) :
    Covers (elements x) (x.toList.map f) := map h x.toList

/-- Names are not visited. -/
theorem name (n : Ident) : Covers (elements n) [] := .deeper rfl .nil

theorem names (ns : List Ident) : Covers (elements ns) [] := by
  have h := flatMap (f := fun _ => []) name ns
  rwa [List.flatMap_eq_nil_iff.2 fun _ _ => rfl] at h

theorem name? (n : Option Ident) : Covers (elements n) [] := names n.toList

end Covers

/-! ### What is directly inside a node -/

namespace Node

section Children

open Covers

theorem covers_expressions (es : List Expression) :
    Covers (elements es) (es.map expression) := map (fun e => single (expression e)) es

theorem covers_expression? (e : Option Expression) :
    Covers (elements e) (e.toList.map expression) := option (fun e => single (expression e)) e

theorem covers_setItems (items : List (SetItem Expression)) :
    Covers (elements items) (items.map setItem) := map (fun i => single (setItem i)) items

theorem covers_parts (pattern : Pattern Expression) :
    Covers (elements pattern) (pattern.parts.map part) :=
  .deeper rfl (map (fun p => single (part p)) pattern.parts)

theorem covers_ofProjection (projection : Projection Expression) :
    Covers (elements projection) (ofProjection projection) := by
  have hsort (s : SortItem Expression) : Covers (elements s) [expression s.expression] :=
    .deeper rfl (single (expression s.expression))
  exact (((map (fun i => single (item i)) projection.items).append
    (map hsort projection.orderBy)).append (covers_expression? projection.skip)).append
      (covers_expression? projection.limit)

theorem covers_ofComprehension (body : Comprehension Expression) :
    Covers (Element.ofComprehension body) (ofComprehension body) := by
  have h := (((name body.binder).append (single (expression body.list))).append
    (covers_expression? body.predicate)).append (covers_expression? body.projection)
  exact h

theorem covers_ofExpression (e : Expression) :
    Covers (Element.ofExpression e) (ofExpression e) := by
  cases e with
  | literal | parameter | reference | countStar => exact .nil
  | property base key => exact (single (expression base)).append (name key)
  | index base index => exact (single (expression base)).append (single (expression index))
  | slice base lower upper =>
    exact ((single (expression base)).append (covers_expression? lower)).append
      (covers_expression? upper)
  | hasLabels base labels => exact (single (expression base)).append (names labels)
  | list items => exact covers_expressions items
  | map entries =>
    exact map (fun entry => (name entry.key).append (single (expression entry.value))) entries
  | call name distinct arguments => exact covers_expressions arguments
  | unary operator operand => exact single (expression operand)
  | binary operator l r => exact (single (expression l)).append (single (expression r))
  | isNull operand => exact single (expression operand)
  | case operand alternatives otherwise =>
    refine ((covers_expression? operand).append ?_).append (covers_expression? otherwise)
    exact flatMap (fun a => (single (expression a.condition)).append
      (single (expression a.result))) alternatives
  | comprehension body => exact covers_ofComprehension body
  | quantified quantifier body => exact covers_ofComprehension body
  | existsQuery body => exact single (subquery body)
  | pattern path => exact single (part path)

theorem covers_arguments (arguments : Option (List Expression)) :
    Covers (elements arguments) ((arguments.getD []).map expression) := by
  cases arguments with
  | none => exact .nil
  | some es =>
    have h := (covers_expressions es).append .nil
    rwa [List.append_nil (es.map expression)] at h

theorem covers_yieldItems (items : List YieldItem) : Covers (elements items) [] := by
  have h := flatMap (f := fun _ => []) (fun i => (name i.field).append (name? i.rename)) items
  rwa [List.flatMap_eq_nil_iff.2 fun _ _ => rfl] at h

theorem covers_ofClause (c : Clause) : Covers (Element.ofClause c) (ofClause c) := by
  cases c with
  | matchPattern optional pattern => exact covers_parts pattern
  | whereHolds predicate => exact single (expression predicate)
  | withColumns projection => exact covers_ofProjection projection
  | returnColumns projection => exact covers_ofProjection projection
  | unwindList list binder => exact (single (expression list)).append (name binder)
  | createPattern pattern => exact covers_parts pattern
  | mergePart path actions =>
    exact (single (part path)).append
      (flatMap (fun a => .deeper rfl (covers_setItems a.items)) actions)
  | deleteValues detach values => exact covers_expressions values
  | setItems items => exact covers_setItems items
  | removeItems items =>
    refine flatMap (fun i => .deeper rfl ?_) items
    cases i with
    | property target => exact single (expression target)
    | labels binder labels => exact (name binder).append (names labels)
  | callProcedure call =>
    have h := ((name call.name).append (covers_arguments call.arguments)).append
      (covers_yieldItems call.yieldItems)
    rwa [List.append_nil] at h
  | callQuery body => exact single (subquery body)
  | error => exact .nil

/-- **The elements directly inside a node are the nodes directly inside it**, but for a subquery,
which has the query that it is inside. -/
theorem covers_children {n : Node} (h : n.isSubquery = false) :
    Covers n.element.children n.children := by
  cases n with
  | document d => exact map (fun s => single (statement s)) d.statements
  | statement s =>
    cases s with
    | query q => exact single (query q)
    | error span => exact .nil
  | query q =>
    -- the clauses of later branches are inside branches, which are not visited
    have hclauses : q.branches.flatten.map clause =
        q.clauses.map clause ++ q.unions.flatMap fun b => b.clauses.map clause := by
      simp [QueryOf.branches, List.flatMap, List.map_flatten, Function.comp_def]
    rw [children, hclauses]
    refine (map (fun c => single (clause c)) q.clauses).append (flatMap (fun b => ?_) q.unions)
    exact .deeper rfl (map (fun c => single (clause c)) b.clauses)
  | subquery q => cases h
  | clause c => exact covers_ofClause c
  | part p =>
    have h := ((name? p.binder).append (single (pathNode p.start))).append
      (flatMap (fun step => (single (relationship step.relationship)).append
        (single (pathNode step.node))) p.chain)
    exact h
  | pathNode n =>
    exact ((name? n.binder).append (names n.labels)).append (covers_expression? n.properties)
  | relationship r =>
    exact ((name? r.binder).append (names r.types)).append (covers_expression? r.properties)
  | item i => exact (single (expression i.expression)).append (name? i.rename)
  | setItem i =>
    cases i with
    | property target value => exact (single (expression target)).append (single (expression value))
    | replace binder value => exact (name binder).append (single (expression value))
    | merge binder value => exact (name binder).append (single (expression value))
    | labels binder labels => exact (name binder).append (names labels)
  | expression e => exact covers_ofExpression e

end Children

/-! ### All nodes -/

/-- Nodes without the subqueries, as elements. -/
def visitedElements (ns : List Node) : List Element :=
  (ns.filter fun n => !n.isSubquery).map element

theorem visitedElements_cons {n : Node} (ns : List Node) (h : n.isSubquery = false) :
    visitedElements (n :: ns) = n.element :: visitedElements ns := by
  rw [visitedElements, List.filter_cons, if_pos (by rw [h]; rfl)]
  rfl

theorem visitedElements_subquery (q : Query) (ns : List Node) :
    visitedElements (subquery q :: ns) = visitedElements ns := rfl

/-- **The nodes of some trees are the visited ones among all elements**, in the same order. -/
theorem exists_preorder {es : List Element} {ns : List Node} (h : Covers es ns) :
    ∃ out, Element.Preorder es out ∧
      out.filter Element.isVisited = visitedElements (preorder ns) := by
  induction hweight : weigh ns using Nat.strongRecOn generalizing es ns with
  | ind weight ih =>
    induction h with
    | nil => exact ⟨[], .nil, by rw [preorder]; rfl⟩
    | opened hidden behind ih' =>
      obtain ⟨out, hout, heq⟩ := ih' hweight
      exact ⟨_, .cons hout, by rw [List.filter_cons, if_neg (by simp [hidden]), heq]⟩
    | @node n es ns behind =>
      by_cases hsub : n.isSubquery = true
      · -- the query that a subquery is comes next, and is the same element
        obtain ⟨q, rfl⟩ : ∃ q, n = subquery q := by
          cases n with
          | subquery q => exact ⟨q, rfl⟩
          | _ => cases hsub
        have hlt := weigh_children_append_lt (subquery q) ns
        obtain ⟨out, hout, heq⟩ := ih _ (hweight ▸ hlt) (.node (n := query q) behind) rfl
        refine ⟨out, hout, ?_⟩
        rw [heq, preorder.eq_2 (subquery q), visitedElements_subquery]
        rfl
      · have hsub := eq_false_of_ne_true hsub
        have hlt := weigh_children_append_lt n ns
        obtain ⟨out, hout, heq⟩ := ih _ (hweight ▸ hlt) ((covers_children hsub).append behind) rfl
        refine ⟨_, .cons hout, ?_⟩
        rw [List.filter_cons, if_pos n.isVisited_element, heq, preorder, visitedElements_cons _ hsub]

end Node

/-- **A visitor sees every node once, in order, and can be stopped and held back.** The nodes that a
visitor of a document lists are those at the spots of the tree, one for each address, in the order
of the addresses; apart from the subqueries, which come again as queries, they are the elements of
the visited kinds in their order. Who stops at the `limit`-th node has seen the first `limit` of
them, and stops if there are so many. Who passes over the inside of some nodes sees all but the
proper descendants of these. -/
theorem Document.visits (document : Document) :
    ∃ spots : List Spot,
      (spots.Pairwise fun s t => s.address < t.address) ∧
      (∀ s, s ∈ spots ↔ (Node.document document).at? s.address = some s.node) ∧
      document.listing none (fun _ => false) = (spots.map Spot.node, false) ∧
      (∃ es, Element.Preorder [.document document] es ∧
        es.filter Element.isVisited =
          ((spots.map Spot.node).filter fun n => !n.isSubquery).map Node.element) ∧
      (∀ limit, 1 ≤ limit → document.listing (some limit) (fun _ => false) =
        ((spots.map Spot.node).take limit, decide (limit ≤ spots.length))) ∧
      ∀ hides, document.listing none hides =
        ((spots.filter fun s => decide (∀ t ∈ spots,
          t.address <+: s.address → t.address ≠ s.address → hides t.node = false)).map Spot.node,
          false) := by
  have hroot (limit : Option Nat) (hides : Node → Bool) : document.listing limit hides =
      Node.traverse (Node.lister limit hides) [] ([⟨[], .document document⟩].map Spot.node) := rfl
  refine ⟨Spot.survey (fun _ => false) [⟨[], .document document⟩], ?_, fun s => ?_, ?_, ?_,
    fun limit hlimit => ?_, fun hides => ?_⟩
  · exact Spot.pairwise_survey (List.pairwise_singleton _ _)
  · exact Spot.mem_survey_iff
  · rw [hroot, Spot.traverse_lister_none, List.nil_append]
  · rw [Spot.map_node_survey]
    exact Node.exists_preorder (.single (.document document))
  · rw [hroot, Spot.traverse_lister_some _ [] hlimit, List.nil_append, List.length_nil,
      Nat.sub_zero, Nat.zero_add]
  · rw [hroot, Spot.traverse_lister_none, List.nil_append, Spot.survey_eq_filter_above]

end Cypher
