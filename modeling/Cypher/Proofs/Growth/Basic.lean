import Cypher.Proofs.Placement
import Cypher.Tree.Node

/-!
# How trees grow

Reading turns tokens into trees. How many nodes a tree has, and how far down it goes, depends on the
tokens that were passed for it and on the levels of nesting that were at hand. Two things make this
less than obvious:

* *Loops go on with a tree.* Suffixes, tests and operators are put around what has been read so far,
  which becomes the first operand. That takes no level of nesting, however often it is done.
* *Comparisons copy.* In a chain of comparisons the right operand of one is the left operand of the
  next. The operand may contain chains of comparisons itself, so that there are copies of copies.

`Cypher.Grown` says once how trees come about: a tree has grown out of tokens if it has been put
together from trees that have. An operand may have grown for a further comparison as well, in which
case it is kept beside the tree. Everything else is an induction over this relation; that what is
read has grown is shown by looking at the rules of the grammar one by one. The judgement for
this is `Cypher.Rule.Spends`: what is known of the value that a rule reads and of the number of
tokens passed.
-/

namespace Cypher

open Grammar (Chain)

/-! ### Where nodes go on -/

namespace Node

/-- Whether a node is counted in the height of a tree: expressions and queries are. -/
def own : Node → Nat
  | expression _ | query _ => 1
  | _ => 0

/-- The operand that a node goes on with, if there is one. -/
def carried : Node → List Node
  | expression e => if e.goesOn then (ofExpression e).take 1 else []
  | _ => []

/-- The nodes directly inside a node besides the operand that it goes on with. -/
def beside : Node → List Node
  | expression e => if e.goesOn then (ofExpression e).drop 1 else ofExpression e
  | n => n.children

theorem carried_append_beside (n : Node) : n.carried ++ n.beside = n.children := by
  cases n with
  | expression e =>
    simp only [carried, beside, children]
    split
    · exact List.take_append_drop 1 _
    · rfl
  | _ => rfl

end Node

/-! ### The outermost nodes of a value -/

/-- **Values that hold nodes.** -/
class Rooted (α : Type) where
  /-- The outermost nodes in a value. -/
  roots : α → List Node

namespace Rooted

section Instances

variable {α : Type} [Rooted α]

instance : Rooted (Option α) := ⟨fun o => o.toList.flatMap roots⟩
instance : Rooted (List α) := ⟨fun l => l.flatMap roots⟩
instance : Rooted (Bool × α) := ⟨fun x => roots x.2⟩

instance : Rooted Ident := ⟨fun _ => []⟩
instance : Rooted Expression := ⟨fun e => [.expression e]⟩
instance : Rooted (MapEntry Expression) := ⟨fun entry => [.expression entry.value]⟩
instance : Rooted (CaseAlternative Expression) :=
  ⟨fun a => [.expression a.condition, .expression a.result]⟩
instance : Rooted (Comprehension Expression) := ⟨Node.ofComprehension⟩
instance : Rooted (NodePattern Expression) := ⟨fun n => [.pathNode n]⟩
instance : Rooted Grammar.Detail := ⟨fun d => roots d.properties⟩
instance : Rooted (RelationshipPattern Expression) := ⟨fun r => [.relationship r]⟩
instance : Rooted (PatternStep Expression) := ⟨Node.ofStep⟩
instance : Rooted (PatternPart Expression) := ⟨fun p => [.part p]⟩
instance : Rooted (Pattern Expression) := ⟨fun p => roots p.parts⟩
instance : Rooted (ProjectionItem Expression) := ⟨fun i => [.item i]⟩
instance : Rooted (SortItem Expression) := ⟨fun i => [.expression i.expression]⟩
instance : Rooted (Projection Expression) := ⟨Node.ofProjection⟩
instance : Rooted (SetItem Expression) := ⟨fun i => [.setItem i]⟩
instance : Rooted (RemoveItem Expression) := ⟨Node.ofRemoveItem⟩
instance : Rooted (MergeAction Expression) := ⟨fun a => roots a.items⟩
instance : Rooted (ProcedureCall Expression) := ⟨fun call => roots call.arguments⟩
instance : Rooted Clause := ⟨fun c => [.clause c]⟩
instance : Rooted (UnionBranch Clause) := ⟨fun b => roots b.clauses⟩
instance : Rooted Query := ⟨fun q => [.query q]⟩
instance : Rooted Statement := ⟨fun s => [.statement s]⟩
instance : Rooted Document := ⟨fun d => [.document d]⟩

/-- Values that are nodes, all in a row. -/
theorem map_eq_roots {f : α → Node} (h : ∀ a, roots a = [f a]) (l : List α) :
    l.map f = roots l := by
  rw [List.map_eq_flatMap]
  exact congrArg (l.flatMap ·) (funext fun a => (h a).symm)

theorem toList_map_eq_roots {f : α → Node} (h : ∀ a, roots a = [f a]) (o : Option α) :
    o.toList.map f = roots o := map_eq_roots h o.toList

end Instances

end Rooted

open Rooted (roots)

/-! ### Growth -/

/-- The operand that a chain keeps for a further comparison. -/
def Grammar.Chain.kept (chain : Chain) : List Node := chain.last.toList.map .expression

/-- A comparison keeps its right operand. -/
theorem Grammar.Chain.kept_extend {operator : BinaryOperator} (ho : operator.isComparison = true)
    (chain : Chain) (right : Expression) :
    (chain.extend operator right).kept = [.expression right] := by
  obtain ⟨tree, _ | left⟩ := chain <;> rw [extend, if_pos ho] <;> rfl

/-- **Nodes that have grown out of tokens**, together with what is kept for a further comparison.
The fold says how many comparisons are around one another, each counted twice, and the level how
far down there is to go. -/
inductive Grown : (fold level : Nat) → (nodes kept : List Node) → (tokens : Nat) → Prop
  /-- Nothing grows out of nothing. -/
  | nil {fold level : Nat} : Grown fold level [] [] 0
  /-- What has grown apart may stand side by side. -/
  | append {fold level k l : Nat} {a b : List Node} (left : Grown fold level a [] k)
      (right : Grown fold level b [] l) : Grown fold level (a ++ b) [] (k + l)
  /-- There may be more tokens than necessary, and more of everything. -/
  | mono {fold fold' level level' k l : Nat} {a kept : List Node}
      (grown : Grown fold level a kept k) (hf : fold ≤ fold') (hl : level ≤ level') (hk : k ≤ l) :
      Grown fold' level' a kept l
  /-- What is kept need not be. -/
  | drop {fold level k : Nat} {a kept : List Node} (grown : Grown fold level a kept k) :
      Grown fold level a [] k
  /-- Most nodes stand around what is inside them and need no token. -/
  | around {fold level k : Nat} {n : Node} (own : n.own = 0)
      (inside : Grown fold level n.children [] k) : Grown fold level [n] [] k
  /-- A query goes one step further down. -/
  | query {fold level k : Nat} {q : Query}
      (inside : Grown fold level (Node.query q).children [] k) :
      Grown fold (level + 1) [.query q] [] k
  /-- So does an expression, but not from the operand that it goes on with, and needs a token. -/
  | expression {fold level k l : Nat} {e : Expression}
      (carried : Grown fold (level + 1) (Node.expression e).carried [] k)
      (beside : Grown fold level (Node.expression e).beside [] l) :
      Grown fold (level + 1) [.expression e] [] (k + l + 1)
  /-- A comparison goes on with a chain and keeps its right operand. -/
  | comparison {fold level k l : Nat} {chain : Chain} {operator : BinaryOperator}
      {right : Expression} (compares : operator.isComparison = true)
      (tree : Grown (fold + 2) (level + 2) [.expression chain.tree] chain.kept k)
      (operand : Grown fold level [.expression right] [] l) :
      Grown (fold + 2) (level + 2) [.expression (chain.extend operator right).tree]
        (chain.extend operator right).kept (k + l + 1)

namespace Grown

variable {fold level j k l : Nat} {a b kept : List Node} {e base : Expression}

/-- Nothing grows out of any number of tokens. -/
theorem empty : Grown fold level [] [] k := nil.mono (Nat.le_refl _) (Nat.le_refl _) (Nat.zero_le _)

theorem more (h : Grown fold level a kept k) (hk : k ≤ l) : Grown fold level a kept l :=
  h.mono (Nat.le_refl _) (Nat.le_refl _) hk

theorem higher (h : Grown fold level a kept k) : Grown fold (level + 1) a kept k :=
  h.mono (Nat.le_refl _) (Nat.le_succ _) (Nat.le_refl _)

/-- A node around what has been read for it. -/
theorem frame {n : Node} (h : Grown fold level a [] k) (hn : n.own = 0) (ha : n.children = a)
    (hk : k ≤ l) : Grown fold level [n] [] l :=
  (around hn (ha ▸ h)).more hk

/-- An expression around what has been read for it. -/
theorem enclose (h : Grown fold level a [] k) (he : e.goesOn = false) (ha : Node.ofExpression e = a)
    (hk : k < l) : Grown fold (level + 1) [.expression e] [] l := by
  have hcarried : (Node.expression e).carried = [] := by rw [Node.carried, he]; rfl
  have hbeside : (Node.expression e).beside = a := by rw [Node.beside, he, ← ha]; rfl
  have hgrown : Grown fold (level + 1) [.expression e] [] (0 + k + 1) :=
    .expression (by rw [hcarried]; exact .nil) (hbeside ▸ h)
  exact hgrown.more (by omega)

/-- An expression without anything inside. -/
theorem leaf (he : e.goesOn = false) (ha : Node.ofExpression e = []) (hk : 0 < k) :
    Grown fold (level + 1) [.expression e] [] k := enclose .nil he ha hk

/-- An expression that goes on with another. -/
theorem goOn (h : Grown fold (level + 1) [.expression base] [] j) (h' : Grown fold level a [] k)
    (hc : (Node.expression e).carried = [.expression base]) (hb : (Node.expression e).beside = a)
    (hl : j + k < l) : Grown fold (level + 1) [.expression e] [] l := by
  have hgrown : Grown fold (level + 1) [.expression e] [] (j + k + 1) :=
    .expression (hc ▸ h) (hb ▸ h')
  exact hgrown.more hl

end Grown

/-- **A value whose nodes have grown out of tokens.** -/
def Yields {α : Type} [Rooted α] (fold level : Nat) (a : α) (tokens : Nat) : Prop :=
  Grown fold level (roots a) [] tokens

namespace Yields

variable {α : Type} [Rooted α] {fold level k l : Nat} {a : α} {as : List α}

theorem none : Yields fold level (Option.none : Option α) k := Grown.empty

theorem nil : Yields fold level ([] : List α) k := Grown.empty

theorem some (h : Yields fold level a k) (hk : k ≤ l) : Yields fold level (Option.some a) l := by
  rw [Yields, show roots (Option.some a) = roots a from List.flatMap_singleton ..]
  exact h.more hk

theorem singleton (h : Yields fold level a k) (hk : k ≤ l) : Yields fold level [a] l := by
  rw [Yields, show roots [a] = roots a from List.flatMap_singleton ..]
  exact h.more hk

theorem snoc (h : Yields fold level as k) (h' : Yields fold level a l) :
    Yields fold level (as ++ [a]) (k + l) := by
  rw [Yields, show roots (as ++ [a]) = roots as ++ roots [a] from List.flatMap_append]
  exact h.append (h'.singleton (Nat.le_refl _))

end Yields

/-! ### What is known of a value and the tokens passed for it -/

variable {setting : Setting} {inner : Inner} {α β : Type}

namespace Rule

/-- **What is known of a value that a rule reads and of the tokens passed**, those included that
were passed before. -/
def Spends (setting : Setting) (inner : Inner) (p : α → Nat → Prop) (spent : Nat) (rule : Rule α)
    (s : State) : Prop :=
  s.cursor.Closed → ∀ a t, rule.run setting inner s = .done a t → p a (spent + (s.left - t.left))

namespace Spends

variable {p q : α → Nat → Prop} {r : β → Nat → Prop} {spent : Nat} {s : State}

theorem mono {rule : Rule α} (h : Spends setting inner p spent rule s)
    (hpq : ∀ a k, p a k → q a k) : Spends setting inner q spent rule s :=
  fun hc a t hr => hpq a _ (h hc a t hr)

theorem pure {a : α} (h : p a spent) : Spends setting inner p spent (Pure.pure a) s := by
  intro _ b t hr
  cases hr
  rwa [Nat.sub_self]

theorem fail (problem : Problem) : Spends setting inner p spent (.fail problem) s := by
  intro _ a t hr
  cases hr

/-- The last part of a rule. -/
theorem last {rule : Rule α} (h : Spends setting inner q 0 rule s)
    (hq : ∀ a k, q a k → p a (spent + k)) : Spends setting inner p spent rule s := by
  intro hc a t hr
  have := hq a _ (h hc a t hr)
  rwa [Nat.zero_add] at this

/-- One part of a rule and then the others. -/
theorem bind (hi : inner.GoesOn) {rule : Rule β} {next : β → Rule α}
    (h : Spends setting inner r 0 rule s)
    (hn : ∀ b t k, r b k → Spends setting inner p (spent + k) (next b) t) :
    Spends setting inner p spent (rule >>= next) s := by
  intro hc a u hr
  obtain ⟨b, t, hb, hu⟩ := done_of_bind hr
  have hst := onward_of_done hi hb
  have htu := onward_of_done hi hu
  have hp := hn b t _ (h hc b t hb) (hst.closed hc) a u hu
  have hle := hst.left_le
  have hle' := htu.left_le
  rwa [show spent + (0 + (s.left - t.left)) + (t.left - u.left) = spent + (s.left - u.left) by
    omega] at hp

/-- A part of a rule of which nothing need be known. -/
theorem skip (hi : inner.GoesOn) {rule : Rule β} {next : β → Rule α}
    (hn : ∀ b t k, Spends setting inner p (spent + k) (next b) t) :
    Spends setting inner p spent (rule >>= next) s :=
  bind hi (r := fun _ _ => True) (fun _ _ _ _ => trivial) fun b t k _ => hn b t k

/-- A part of a rule that moves on. -/
theorem pass (hi : inner.GoesOn) {rule : Rule β} {next : β → Rule α}
    (h : MovesOn setting inner (fun _ => True) rule s)
    (hn : ∀ b t k, 0 < k → Spends setting inner p (spent + k) (next b) t) :
    Spends setting inner p spent (rule >>= next) s := by
  refine bind hi (r := fun _ k => 0 < k) (fun hc b t hr => ?_) hn
  have := h hc b t hr trivial
  omega

/-- A sign that has to be there. -/
theorem sign (hi : inner.GoesOn) {sign : Sign} {next : Span → Rule α}
    (hn : ∀ b t k, 0 < k → Spends setting inner p (spent + k) (next b) t) :
    Spends setting inner p spent (expectSign sign >>= next) s :=
  pass hi (movesOn_expectSign hi sign s) hn

/-- A word that has to be there. -/
theorem word (hi : inner.GoesOn) {word : Keyword} {next : Span → Rule α}
    (hn : ∀ b t k, 0 < k → Spends setting inner p (spent + k) (next b) t) :
    Spends setting inner p spent (expectWord word >>= next) s :=
  pass hi (movesOn_expectWord hi word s) hn

theorem look {view : View β} {next : β → Rule α}
    (h : Spends setting inner p spent (next (view.read setting s)) s) :
    Spends setting inner p spent (.look view >>= next) s := fun hc a t hr => h hc a t hr

theorem ite {condition : Prop} [Decidable condition] {rule other : Rule α}
    (h : condition → Spends setting inner p spent rule s)
    (ho : ¬condition → Spends setting inner p spent other s) :
    Spends setting inner p spent (if condition then rule else other) s := by
  split
  · exact h ‹_›
  · exact ho ‹_›

theorem startHere {next : Nat → Rule α}
    (h : Spends setting inner p spent (next s.cursor.front) s) :
    Spends setting inner p spent (startHere >>= next) s := fun hc a t hr => h hc a t hr

/-- What each step of a repetition keeps. -/
theorem loop (hi : inner.GoesOn) {step : α → Rule (Option α)} {a : α} (h : p a spent)
    (hs : ∀ b t k, p b k → Spends setting inner (fun next l => p (next.getD b) l) k (step b) t) :
    Spends setting inner p spent (.loop step a) s := by
  intro hc b t hr
  -- going on is part of the invariant, as what was passed before and in a step has to add up
  refine (loop_induct (p := fun c u => s.Onward u ∧ p c (spent + (s.left - u.left)))
    (fun c u next v hu hv => ?_) ⟨.refl s, ?_⟩ hr).2
  · obtain ⟨hsu, hp⟩ := hu
    have huv := onward_of_done hi hv
    have hle := hsu.left_le
    have hle' := huv.left_le
    have hnext := hs c u _ hp (hsu.closed hc) next v hv
    refine ⟨hsu.trans huv, ?_⟩
    rwa [show spent + (s.left - u.left) + (u.left - v.left) = spent + (s.left - v.left) by
      omega] at hnext
  · rwa [Nat.sub_self]

theorem inScope {kind : ScopeKind} {rule : Rule α}
    (h : ∀ t, Spends setting inner p spent rule t) :
    Spends setting inner p spent (.inScope kind rule) s := by
  intro hc a t hr
  rw [run] at hr
  cases hrun : rule.run setting inner { s with scopes := s.scopes.push kind } with
  | done b u =>
    rw [hrun] at hr
    cases hr
    exact h { s with scopes := s.scopes.push kind } hc a u hrun
  | failed d u =>
    rw [hrun] at hr
    cases hr

end Spends

/-! ### Repetitions -/

section Repetitions

variable [Rooted α] {fold level spent : Nat} {s : State} (hi : inner.GoesOn)

include hi

theorem spends_optionally {condition : Rule Bool} {rule : Rule α}
    (h : ∀ t, Spends setting inner (Yields fold level) 0 rule t) :
    Spends setting inner (Yields fold level) 0 (optionally condition rule) s := by
  refine .skip hi fun b t k => .ite (fun _ => ?_) fun _ => .pure .none
  exact .bind hi (h t) fun a u l ha => .pure (ha.some (by omega))

theorem spends_skipIf {condition : Rule Bool} {rule : Rule α}
    (h : ∀ t, Spends setting inner (Yields fold level) 0 rule t) :
    Spends setting inner (Yields fold level) 0 (skipIf condition rule) s := by
  refine .skip hi fun b t k => .ite (fun _ => .pure .none) fun _ => ?_
  exact .bind hi (h t) fun a u l ha => .pure (ha.some (by omega))

/-- Reading many adds to what has been read. -/
theorem spends_manyFrom {rule : Rule (Option α)}
    (h : ∀ t, Spends setting inner (Yields fold level) 0 rule t) {items : List α}
    (hitems : Yields fold level items spent) :
    Spends setting inner (Yields fold level) spent (many rule items) s := by
  refine .loop hi hitems fun found t k hfound => .bind hi (h t) fun one u l hone => .pure ?_
  cases one with
  | none => exact Grown.more hfound (by omega)
  | some item =>
    have hitem : Yields fold level item l := by
      rwa [Yields, show roots (some item) = roots item from List.flatMap_singleton ..] at hone
    exact hfound.snoc hitem

theorem spends_many {rule : Rule (Option α)}
    (h : ∀ t, Spends setting inner (Yields fold level) 0 rule t) :
    Spends setting inner (Yields fold level) 0 (many rule []) s := spends_manyFrom hi h .nil

theorem spends_separated {rule : Rule α}
    (h : ∀ t, Spends setting inner (Yields fold level) 0 rule t) :
    Spends setting inner (Yields fold level) 0 (separated rule) s := by
  refine .bind hi (h s) fun first t k hfirst => ?_
  exact spends_manyFrom hi (fun u => spends_optionally hi h) (hfirst.singleton (by omega))

theorem spends_listUntil {close : Sign} {rule : Rule α}
    (h : ∀ t, Spends setting inner (Yields fold level) 0 rule t) :
    Spends setting inner (Yields fold level) 0 (listUntil close rule) s := by
  refine .skip hi fun b t k => .ite (fun _ => .pure .nil) fun _ => ?_
  exact (spends_separated hi h).last fun all l hall => Grown.more hall (by omega)

end Repetitions

end Rule

/-- **Nested rules whose trees grow** at most as far as a fold and a level. The operands of
comparisons, of which there may be copies, have one fold less than other expressions. -/
structure Inner.Grows (setting : Setting) (fold level : Nat) (inner : Inner) : Prop where
  /-- They go on. -/
  goesOn : inner.GoesOn
  /-- Expressions grow. -/
  expression (strength : Nat) (s : State) :
    Rule.Spends setting inner (Yields (fold + 1) level) 0 (.nested (.expression strength)) s
  /-- Expressions that bind more tightly than comparisons do so with a smaller fold. -/
  operand {strength : Nat} (hs : BinaryOperator.lt.rightStrength ≤ strength) (s : State) :
    Rule.Spends setting inner (Yields fold level) 0 (.nested (.expression strength)) s
  /-- The bodies of subqueries grow. -/
  subquery (s : State) : Rule.Spends setting inner (Yields (fold + 1) level) 0 (.nested .subquery) s
  /-- So do the bodies of existence tests. -/
  existsBody (s : State) :
    Rule.Spends setting inner (Yields (fold + 1) level) 0 (.nested .existsBody) s

end Cypher
