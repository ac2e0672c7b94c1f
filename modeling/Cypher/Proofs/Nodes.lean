import Cypher.Proofs.Element
import Cypher.Tree.Node

/-!
# Nodes are elements

Checks of a finished tree go through its nodes (`Cypher.Document.nodes`), and what is known of a
tree when it has been read is said of its elements. Every node is an element, and what is inside a
node is inside that element, although not always directly (`Cypher.Node.within_of_mem_children`). So
whatever holds of all elements of a document holds of all its nodes
(`Cypher.Document.within_of_mem_nodes`).
-/

namespace Cypher

open Composed (elements)

/-- What is inside a child of an element is inside the element. -/
theorem Element.Within.of_child {e c x : Element} (hc : c ∈ e.children) (h : c.Within x) :
    e.Within x := Relation.ReflTransGen.head hc h

namespace Node

/-- **The element that a node is.** A subquery is the same element as the query that it is. -/
def element : Node → Element
  | document d => .document d
  | statement s => .statement s
  | query q => .query q
  | subquery q => .query q
  | clause c => .clause c
  | part p => .part p
  | pathNode n => .pathNode n
  | relationship r => .relationship r
  | item i => .item i
  | setItem i => .setItem i
  | expression e => .expression e

/-! ### Nodes inside some elements -/

/-- **Nodes that are inside some elements**, or among them. -/
def Inside (nodes : List Node) (es : List Element) : Prop :=
  ∀ n ∈ nodes, ∃ e ∈ es, e.Within n.element

namespace Inside

variable {α : Type} [Composed α] {ns ms : List Node} {es fs : List Element} {n : Node}

theorem nil : Inside [] es := fun _ h => absurd h List.not_mem_nil

theorem single : Inside [n] [n.element] := by
  intro m hm
  rw [List.mem_singleton.1 hm]
  exact ⟨_, List.mem_cons_self, .refl⟩

theorem left (h : Inside ns es) : Inside ns (es ++ fs) := by
  intro n hn
  obtain ⟨e, he, hw⟩ := h n hn
  exact ⟨e, List.mem_append_left _ he, hw⟩

theorem right (h : Inside ns fs) : Inside ns (es ++ fs) := by
  intro n hn
  obtain ⟨e, he, hw⟩ := h n hn
  exact ⟨e, List.mem_append_right _ he, hw⟩

theorem append (h : Inside ns es) (h' : Inside ms fs) : Inside (ns ++ ms) (es ++ fs) := by
  intro n hn
  rcases List.mem_append.1 hn with hn | hn
  · exact h.left n hn
  · exact h'.right n hn

/-- Nodes inside the children of an element. -/
theorem deeper {e : Element} (h : Inside ns e.children) : Inside ns [e] := by
  intro n hn
  obtain ⟨c, hc, hw⟩ := h n hn
  exact ⟨e, List.mem_cons_self, .of_child hc hw⟩

theorem flatMap {f : α → List Node} (h : ∀ x, Inside (f x) (elements x)) (xs : List α) :
    Inside (xs.flatMap f) (elements xs) := by
  intro n hn
  obtain ⟨x, hx, hn⟩ := List.mem_flatMap.1 hn
  obtain ⟨e, he, hw⟩ := h x n hn
  exact ⟨e, List.mem_flatMap.2 ⟨x, hx, he⟩, hw⟩

theorem map {f : α → Node} (h : ∀ x, Inside [f x] (elements x)) (xs : List α) :
    Inside (xs.map f) (elements xs) := by
  rw [List.map_eq_flatMap]
  exact flatMap h xs

theorem option {f : α → Node} (h : ∀ x, Inside [f x] (elements x)) (x : Option α) :
    Inside (x.toList.map f) (elements x) := map h x.toList

end Inside

/-! ### What is directly inside a node -/

section Children

open Inside

theorem inside_expressions (es : List Expression) : Inside (es.map expression) (elements es) :=
  map (fun _ => single) es

theorem inside_expression? (e : Option Expression) :
    Inside (e.toList.map expression) (elements e) := option (fun _ => single) e

theorem inside_setItems (items : List (SetItem Expression)) :
    Inside (items.map setItem) (elements items) := map (fun _ => single) items

theorem inside_parts (pattern : Pattern Expression) :
    Inside (pattern.parts.map part) (elements pattern) :=
  deeper (map (fun _ => single) pattern.parts)

theorem inside_ofProjection (projection : Projection Expression) :
    Inside (ofProjection projection) (elements projection) := by
  refine .append (.append (.append (map (fun _ => single) _) ?_) (inside_expression? _))
    (inside_expression? _)
  exact map (fun s => deeper single) projection.orderBy

theorem inside_ofComprehension (body : Comprehension Expression) :
    Inside (ofComprehension body) (Element.ofComprehension body) :=
  append (append (right single) (inside_expression? body.predicate))
    (inside_expression? body.projection)

theorem inside_ofExpression (e : Expression) :
    Inside (ofExpression e) (Element.ofExpression e) := by
  cases e with
  | literal | parameter | reference | countStar => exact nil
  | property base key => exact left single
  | index base index => exact append single single
  | slice base lower upper =>
    exact append (append single (inside_expression? lower)) (inside_expression? upper)
  | hasLabels base labels => exact left single
  | list items => exact inside_expressions items
  | map entries => exact map (fun _ => right single) entries
  | call name distinct arguments => exact inside_expressions arguments
  | unary operator operand => exact single
  | binary operator l r => exact append single single
  | isNull operand => exact single
  | case operand alternatives otherwise =>
    refine append (append (inside_expression? operand) ?_) (inside_expression? otherwise)
    exact flatMap (fun _ => append single single) alternatives
  | comprehension body => exact inside_ofComprehension body
  | quantified quantifier body => exact inside_ofComprehension body
  | existsQuery body => exact single
  | pattern path => exact single

theorem inside_arguments (arguments : Option (List Expression)) :
    Inside ((arguments.getD []).map expression) (elements arguments) := by
  cases arguments with
  | none => exact nil
  | some es => exact left (inside_expressions es)

theorem inside_ofClause (c : Clause) : Inside (ofClause c) (Element.ofClause c) := by
  cases c with
  | matchPattern optional pattern => exact inside_parts pattern
  | whereHolds predicate => exact single
  | withColumns projection => exact inside_ofProjection projection
  | returnColumns projection => exact inside_ofProjection projection
  | unwindList list binder => exact left single
  | createPattern pattern => exact inside_parts pattern
  | mergePart path actions =>
    exact append single (flatMap (fun a => deeper (inside_setItems a.items)) actions)
  | deleteValues detach values => exact inside_expressions values
  | setItems items => exact inside_setItems items
  | removeItems items =>
    refine flatMap (fun i => deeper ?_) items
    cases i with
    | property target => exact single
    | labels => exact nil
  | callProcedure call => exact left (right (inside_arguments call.arguments))
  | callQuery body => exact single
  | error => exact nil

/-- **What is directly inside a node is inside the element that the node is.** -/
theorem within_of_mem_children {n c : Node} (h : c ∈ n.children) :
    n.element.Within c.element := by
  suffices hin : Inside n.children [n.element] by
    obtain ⟨e, he, hw⟩ := hin c h
    exact List.mem_singleton.1 he ▸ hw
  cases n with
  | document d => exact deeper (map (fun _ => single) d.statements)
  | statement s =>
    cases s with
    | query q => exact deeper single
    | error span => exact nil
  | query q =>
    -- the clauses of later branches are nodes of the query, but elements of their branches
    have hclauses : q.branches.flatten.map clause =
        q.clauses.map clause ++ q.unions.flatMap fun b => b.clauses.map clause := by
      simp [QueryOf.branches, List.flatMap, List.map_flatten, Function.comp_def]
    rw [children, hclauses]
    refine deeper (append (map (fun _ => single) q.clauses) (flatMap (fun b => ?_) q.unions))
    exact deeper (map (fun _ => single) b.clauses)
  | subquery q => exact single
  | clause c => exact deeper (inside_ofClause c)
  | part p =>
    refine deeper (append (right single) (flatMap (fun step => ?_) p.chain))
    exact append single single
  | pathNode n => exact deeper (right (inside_expression? n.properties))
  | relationship r => exact deeper (right (inside_expression? r.properties))
  | item i => exact deeper (left single)
  | setItem i =>
    cases i with
    | property target value => exact deeper (append single single)
    | replace binder value => exact deeper (right single)
    | merge binder value => exact deeper (right single)
    | labels => exact nil
  | expression e => exact deeper (inside_ofExpression e)

end Children

/-- **All nodes of some trees are inside the elements that these are.** -/
theorem within_of_mem_preorder {ns : List Node} {n : Node} (h : n ∈ preorder ns) :
    ∃ m ∈ ns, m.element.Within n.element := by
  fun_induction preorder ns with
  | case1 => cases h
  | case2 m rest ih =>
    rcases List.mem_cons.1 h with rfl | h
    · exact ⟨n, List.mem_cons_self, .refl⟩
    · obtain ⟨c, hc, hw⟩ := ih h
      rcases List.mem_append.1 hc with hc | hc
      · exact ⟨m, List.mem_cons_self, (within_of_mem_children hc).trans hw⟩
      · exact ⟨c, List.mem_cons_of_mem m hc, hw⟩

end Node

/-- **The nodes of a document are inside it.** -/
theorem Document.within_of_mem_nodes {document : Document} {n : Node} (h : n ∈ document.nodes) :
    (Element.document document).Within n.element := by
  obtain ⟨m, hm, hw⟩ := Node.within_of_mem_preorder h
  rwa [List.mem_singleton.1 hm] at hw

end Cypher
