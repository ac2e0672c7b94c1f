import Cypher.Tree.Document
import Mathlib.Logic.Relation

/-!
# The elements of a tree and where they stand

Everything in a tree that has a span is an element of it: `Cypher.Element`. This is finer than
`Cypher.Node`, which leaves out what no traversal visits: the branches behind unions, whole
patterns, values to sort by, things to remove, actions of a merge, and all names. The elements
directly inside one are its children; for a part of the tree that has no span of its own, such as a
projection or the entry of a map, they are the elements inside that part
(`Cypher.Composed.elements`).

A tree is laid out well (`Cypher.Element.Laid`) if the span of each element is in order and ends at
offsets that are fit for it, and contains the spans of the children.
-/

namespace Cypher

/-- **What has a span** in a tree. -/
inductive Element
  | document (document : Document)
  | statement (statement : Statement)
  | query (query : Query)
  | branch (branch : UnionBranch Clause)
  | clause (clause : Clause)
  | pattern (pattern : Pattern Expression)
  | part (part : PatternPart Expression)
  | pathNode (node : NodePattern Expression)
  | relationship (relationship : RelationshipPattern Expression)
  | item (item : ProjectionItem Expression)
  | sortItem (item : SortItem Expression)
  | setItem (item : SetItem Expression)
  | removeItem (item : RemoveItem Expression)
  | action (action : MergeAction Expression)
  | expression (expression : Expression)
  | name (name : Ident)

/-- **Whether an expression goes on with its first operand**, which was read before the sign or word
that makes it this expression. -/
def Expression.goesOn : Expression → Bool
  | .property .. | .index .. | .slice .. | .hasLabels .. | .binary .. | .isNull .. => true
  | _ => false

/-- The span of an element. -/
def Element.span : Element → Span
  | document d => d.span
  | statement s => s.span
  | query q => q.span
  | branch b => b.span
  | clause c => c.span
  | pattern p => p.span
  | part p => p.span
  | pathNode n => n.span
  | relationship r => r.span
  | item i => i.span
  | sortItem i => i.span
  | setItem i => i.span
  | removeItem i => i.span
  | action a => a.span
  | expression e => e.span
  | name n => n.span

/-! ### The outermost elements of a value -/

/-- **Values made of elements.** -/
class Composed (α : Type) where
  /-- The outermost elements in a value. -/
  elements : α → List Element

namespace Composed

section Instances

variable {α : Type} [Composed α]

instance : Composed (Option α) := ⟨fun o => o.toList.flatMap elements⟩
instance : Composed (List α) := ⟨fun l => l.flatMap elements⟩

instance : Composed Ident := ⟨fun n => [.name n]⟩
instance : Composed Expression := ⟨fun e => [.expression e]⟩
instance : Composed (NodePattern Expression) := ⟨fun n => [.pathNode n]⟩
instance : Composed (RelationshipPattern Expression) := ⟨fun r => [.relationship r]⟩
instance : Composed (PatternPart Expression) := ⟨fun p => [.part p]⟩
instance : Composed (Pattern Expression) := ⟨fun p => [.pattern p]⟩
instance : Composed (ProjectionItem Expression) := ⟨fun i => [.item i]⟩
instance : Composed (SortItem Expression) := ⟨fun i => [.sortItem i]⟩
instance : Composed (SetItem Expression) := ⟨fun i => [.setItem i]⟩
instance : Composed (RemoveItem Expression) := ⟨fun i => [.removeItem i]⟩
instance : Composed (MergeAction Expression) := ⟨fun a => [.action a]⟩
instance : Composed Clause := ⟨fun c => [.clause c]⟩
instance : Composed (UnionBranch Clause) := ⟨fun b => [.branch b]⟩
instance : Composed Query := ⟨fun q => [.query q]⟩
instance : Composed Statement := ⟨fun s => [.statement s]⟩
instance : Composed Document := ⟨fun d => [.document d]⟩

end Instances

/-! Parts without a span of their own. -/

instance : Composed (PatternStep Expression) :=
  ⟨fun s => elements s.relationship ++ elements s.node⟩

instance : Composed (MapEntry Expression) := ⟨fun m => elements m.key ++ elements m.value⟩

instance : Composed (CaseAlternative Expression) :=
  ⟨fun a => elements a.condition ++ elements a.result⟩

instance : Composed (Projection Expression) :=
  ⟨fun p => elements p.items ++ elements p.orderBy ++ elements p.skip ++ elements p.limit⟩

instance : Composed YieldItem := ⟨fun i => elements i.field ++ elements i.rename⟩

instance : Composed (ProcedureCall Expression) :=
  ⟨fun c => elements c.name ++ elements c.arguments ++ elements c.yieldItems⟩

end Composed

/-! ### Children -/

namespace Element

open Composed

/-- The elements directly inside a comprehension, whose span is that of the expression it makes. -/
def ofComprehension (c : Comprehension Expression) : List Element :=
  elements c.binder ++ elements c.list ++ elements c.predicate ++ elements c.projection

/-- The elements directly inside an expression. -/
def ofExpression : Expression → List Element
  | .literal .. | .parameter .. | .reference .. | .countStar _ => []
  | .property base key _ => elements base ++ elements key
  | .index base index _ => elements base ++ elements index
  | .slice base lower upper _ => elements base ++ elements lower ++ elements upper
  | .hasLabels base labels _ => elements base ++ elements labels
  | .list items _ => elements items
  | .map entries _ => elements entries
  | .call _ _ arguments _ => elements arguments
  | .unary _ operand _ => elements operand
  | .binary _ left right _ => elements left ++ elements right
  | .isNull operand _ _ => elements operand
  | .case operand alternatives otherwise _ =>
    elements operand ++ elements alternatives ++ elements otherwise
  | .comprehension body | .quantified _ body => ofComprehension body
  | .existsQuery body _ => [.query body]
  | .pattern path => elements path

/-- The elements directly inside a clause. -/
def ofClause : Clause → List Element
  | .matchPattern _ paths _ => elements paths
  | .whereHolds predicate _ => elements predicate
  | .withColumns projection _ => elements projection
  | .returnColumns projection _ => elements projection
  | .unwindList list binder _ => elements list ++ elements binder
  | .createPattern paths _ => elements paths
  | .mergePart path actions _ => elements path ++ elements actions
  | .deleteValues _ values _ => elements values
  | .setItems items _ => elements items
  | .removeItems items _ => elements items
  | .callProcedure call _ => elements call
  | .callQuery body _ => [.query body]
  | .error _ => []

/-- **The elements directly inside an element**, in the order in which they are written. -/
def children : Element → List Element
  | document d => elements d.statements
  | statement (.query q) => [query q]
  | statement (.error _) => []
  | query q => elements q.clauses ++ elements q.unions
  | branch b => elements b.clauses
  | clause c => ofClause c
  | pattern p => elements p.parts
  | part p => elements p.binder ++ elements p.start ++ elements p.chain
  | pathNode n => elements n.binder ++ elements n.labels ++ elements n.properties
  | relationship r => elements r.binder ++ elements r.types ++ elements r.properties
  | item i => elements i.expression ++ elements i.rename
  | sortItem i => elements i.expression
  | setItem (.property target value _) => elements target ++ elements value
  | setItem (.replace binder value _) => elements binder ++ elements value
  | setItem (.merge binder value _) => elements binder ++ elements value
  | setItem (.labels binder labels _) => elements binder ++ elements labels
  | removeItem (.property target) => elements target
  | removeItem (.labels binder labels _) => elements binder ++ elements labels
  | action a => elements a.items
  | expression e => ofExpression e
  | name _ => []

/-- **An element inside another**, at any depth, or that element itself. -/
def Within : Element → Element → Prop :=
  Relation.ReflTransGen fun outer inner => inner ∈ outer.children

/-! ### Layout -/

/-- **A tree that is laid out well**, given which offsets are fit to be the ends of a span. -/
inductive Laid (fit : Nat → Prop) : Element → Prop
  /-- The span of the element is in order and contains those of its children, which are laid out
  well themselves. -/
  | mk {e : Element} (ordered : e.span.start ≤ e.span.stop) (start : fit e.span.start)
    (stop : fit e.span.stop) (contains : ∀ c ∈ e.children, e.span.contains c.span)
    (children : ∀ c ∈ e.children, Laid fit c) : Laid fit e

variable {fit : Nat → Prop} {e : Element}

theorem Laid.ordered (h : Laid fit e) : e.span.start ≤ e.span.stop := by
  cases h
  assumption

theorem Laid.fit_start (h : Laid fit e) : fit e.span.start := by
  cases h
  assumption

theorem Laid.fit_stop (h : Laid fit e) : fit e.span.stop := by
  cases h
  assumption

/-- All that counts are the span and the children. -/
theorem Laid.congr {e' : Element} (h : Laid fit e) (hs : e'.span = e.span)
    (hc : e'.children = e.children) : Laid fit e' := by
  obtain ⟨ordered, start, stop, contains, children⟩ := h
  rw [← hs] at ordered start stop contains
  rw [← hc] at contains children
  exact ⟨ordered, start, stop, contains, children⟩

/-- An element that is nothing but another has its span. -/
theorem Laid.around {c : Element} (h : Laid fit c) (hs : e.span = c.span) (hc : e.children = [c]) :
    Laid fit e := by
  refine .mk (hs ▸ h.ordered) (hs ▸ h.fit_start) (hs ▸ h.fit_stop) (fun d hd => ?_) fun d hd => ?_
  all_goals
    rw [hc, List.mem_singleton] at hd
    subst hd
  · simp [hs, Span.contains]
  · exact h

/-- What is inside a tree that is laid out well is so too. -/
theorem Laid.within {e' : Element} (h : Laid fit e) (hw : e.Within e') : Laid fit e' := by
  induction hw with
  | refl => exact h
  | tail _ hc ih =>
    cases ih with
    | mk _ _ _ _ children => exact children _ hc

end Element

end Cypher
