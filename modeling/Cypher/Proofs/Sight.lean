import Cypher.Proofs.Sealed
import Mathlib.Data.List.Induction

/-!
# Which names are in sight

Along the clauses of a branch, names come into sight and go out of sight: most clauses add the names
they bind to those there are, while a projection without a star puts its own in place of all others
(`Cypher.Alias.Renews`). The check carries a set of names from clause to clause. Of the names it has
arrived at, one can say at once where they are from: a name is in sight if and only if a clause
binds it behind which no clause renews the names (`Cypher.Alias.isVisible_iff_kept`).

What a clause binds is read off the tree (`Cypher.Alias.Binds`): the names in its pattern, the name
of its variable, the columns that a procedure hands on, the columns of a projection, or those of the
projection at the end of the first branch of a subquery. The work of the induction is done by one
clause (`Cypher.Alias.contains_onward`), and the rest is a matter of which clause is the last of
them all, so that it runs from the end of the list.
-/

namespace Cypher

namespace NameSet

variable {set : NameSet} {names : List String} {name : String}

@[simp] theorem contains_empty : empty.contains name = false := rfl

theorem contains_insertAll :
    (set.insertAll names).contains name = true ↔ name ∈ names ∨ set.contains name = true := by
  induction names generalizing set with
  | nil => simp [insertAll]
  | cons x names ih =>
    rw [insertAll, List.foldl_cons, ← insertAll, ih, contains_insert, List.mem_cons, or_left_comm,
      or_assoc]

end NameSet

/-! ### What parts of clauses bind -/

/-- **A path binds a name**: as a whole, at its first node, or in one of its steps. -/
inductive PatternPart.Binds (part : PatternPart Expression) : String → Prop
  | path {x : Ident} (h : part.binder = some x) : Binds part x.value
  | start {x : Ident} (h : part.start.binder = some x) : Binds part x.value
  | relationship {step : PatternStep Expression} {x : Ident} (hs : step ∈ part.chain)
    (h : step.relationship.binder = some x) : Binds part x.value
  | node {step : PatternStep Expression} {x : Ident} (hs : step ∈ part.chain)
    (h : step.node.binder = some x) : Binds part x.value

/-- **A column binds a name**: the name given to it, or for want of one that of the variable it
consists of. -/
inductive ProjectionItem.Binds (item : ProjectionItem Expression) : String → Prop
  | renamed {x : Ident} (h : item.rename = some x) : Binds item x.value
  | variable {name : String} {span : Span} (h : item.rename = none)
    (he : item.expression = .reference name span) : Binds item name

/-- **A column that a procedure hands on binds a name**: the one it is to have, or for want of one
that which the procedure gives it. -/
inductive YieldItem.Binds (item : YieldItem) : String → Prop
  | renamed {x : Ident} (h : item.rename = some x) : Binds item x.value
  | field (h : item.rename = none) : Binds item item.field.value

theorem PatternPart.binds_iff {part : PatternPart Expression} {name : String} :
    part.Binds name ↔ ∃ x ∈ part.binders, x.value = name := by
  simp only [binders, PatternStep.binders, List.mem_append, List.mem_flatMap, Option.mem_toList]
  constructor
  · rintro (h | h | ⟨hs, h⟩ | ⟨hs, h⟩)
    · exact ⟨_, .inl (.inl h), rfl⟩
    · exact ⟨_, .inl (.inr h), rfl⟩
    · exact ⟨_, .inr ⟨_, hs, .inl h⟩, rfl⟩
    · exact ⟨_, .inr ⟨_, hs, .inr h⟩, rfl⟩
  · rintro ⟨x, (h | h) | ⟨step, hs, h | h⟩, rfl⟩
    · exact .path h
    · exact .start h
    · exact .relationship hs h
    · exact .node hs h

theorem ProjectionItem.binds_iff {item : ProjectionItem Expression} {name : String} :
    item.Binds name ↔ ∃ x, item.binding? = some x ∧ x.value = name := by
  constructor
  · rintro (h | ⟨h, he⟩)
    · exact ⟨_, by rw [binding?, h]; rfl, rfl⟩
    · exact ⟨_, by rw [binding?, h, he]; rfl, rfl⟩
  · rintro ⟨x, h, rfl⟩
    rw [binding?] at h
    cases hr : item.rename with
    | some y =>
      obtain rfl : y = x := by simpa [hr] using h
      exact .renamed hr
    | none =>
      cases he : item.expression with
      | reference name span =>
        obtain rfl : (⟨name, span⟩ : Ident) = x := by simpa [hr, he, Expression.asVariable?] using h
        exact .variable hr he
      | _ => simp [hr, he, Expression.asVariable?] at h

theorem YieldItem.binds_iff {item : YieldItem} {name : String} :
    item.Binds name ↔ item.binding.value = name := by
  constructor
  · rintro (h | h)
    · rw [binding, h, Option.getD_some]
    · rw [binding, h, Option.getD_none]
  · rintro rfl
    rw [binding]
    cases h : item.rename with
    | some x => exact .renamed h
    | none => exact .field h

namespace Alias

open Check

/-! ### What clauses bind -/

/-- **A clause binds a name.** -/
inductive Binds : Clause → String → Prop
  | matchPattern {optional : Bool} {pattern : Pattern Expression} {span : Span}
    {part : PatternPart Expression} {name : String} (hp : part ∈ pattern.parts)
    (h : part.Binds name) : Binds (.matchPattern optional pattern span) name
  | createPattern {pattern : Pattern Expression} {span : Span} {part : PatternPart Expression}
    {name : String} (hp : part ∈ pattern.parts) (h : part.Binds name) :
    Binds (.createPattern pattern span) name
  | mergePart {part : PatternPart Expression} {actions : List (MergeAction Expression)}
    {span : Span} {name : String} (h : part.Binds name) : Binds (.mergePart part actions span) name
  | unwindList (list : Expression) (binder : Ident) (span : Span) :
    Binds (.unwindList list binder span) binder.value
  | callProcedure {call : ProcedureCall Expression} {span : Span} {item : YieldItem} {name : String}
    (hi : item ∈ call.yieldItems) (h : item.Binds name) : Binds (.callProcedure call span) name
  | callQuery {body : Query} {span : Span} {before : List Clause}
    {projection : Projection Expression} {end' : Span} {item : ProjectionItem Expression}
    {name : String} (hb : body.branches.head? = some (before ++ [.returnColumns projection end']))
    (hi : item ∈ projection.items) (h : item.Binds name) : Binds (.callQuery body span) name
  | withColumns {projection : Projection Expression} {span : Span}
    {item : ProjectionItem Expression} {name : String} (hi : item ∈ projection.items)
    (h : item.Binds name) : Binds (.withColumns projection span) name
  | returnColumns {projection : Projection Expression} {span : Span}
    {item : ProjectionItem Expression} {name : String} (hi : item ∈ projection.items)
    (h : item.Binds name) : Binds (.returnColumns projection span) name

/-- **A clause renews the names in sight** if it is a projection without a star. -/
inductive Renews : Clause → Prop
  | withColumns {projection : Projection Expression} (h : projection.star = false) (span : Span) :
    Renews (.withColumns projection span)
  | returnColumns {projection : Projection Expression} (h : projection.star = false) (span : Span) :
    Renews (.returnColumns projection span)

theorem mem_boundBy {projection : Projection Expression} {name : String} :
    name ∈ boundBy projection ↔ ∃ item ∈ projection.items, item.Binds name := by
  simp only [boundBy, Projection.bindings, List.mem_map, List.mem_filterMap,
    ProjectionItem.binds_iff]
  constructor
  · rintro ⟨x, ⟨item, hi, hx⟩, hn⟩
    exact ⟨item, hi, x, hx, hn⟩
  · rintro ⟨item, hi, x, hx, hn⟩
    exact ⟨x, ⟨item, hi, hx⟩, hn⟩

theorem mem_boundByParts {parts : List (PatternPart Expression)} {name : String} :
    name ∈ boundByParts parts ↔ ∃ part ∈ parts, part.Binds name := by
  simp only [boundByParts, List.mem_map, List.mem_flatMap, PatternPart.binds_iff]
  constructor
  · rintro ⟨x, ⟨part, hp, hx⟩, hn⟩
    exact ⟨part, hp, x, hx, hn⟩
  · rintro ⟨part, hp, x, hx, hn⟩
    exact ⟨x, ⟨part, hp, hx⟩, hn⟩

/-- What a subquery hands on are the columns of the projection that ends its first branch. -/
theorem mem_returned {body : Query} {name : String} :
    name ∈ returned body ↔ ∃ before projection span, ∃ item ∈ projection.items,
      body.branches.head? = some (before ++ [.returnColumns projection span]) ∧
        item.Binds name := by
  constructor
  · intro h
    unfold returned at h
    split at h
    · next projection span hlast =>
      obtain ⟨before, hb⟩ := List.getLast?_eq_some_iff.1 hlast
      obtain ⟨item, hi, hn⟩ := mem_boundBy.1 h
      exact ⟨before, projection, span, item, hi, congrArg some hb, hn⟩
    · cases h
  · rintro ⟨before, projection, span, item, hi, hb, hn⟩
    rw [returned, Option.some.inj hb, List.getLast?_concat]
    exact mem_boundBy.2 ⟨item, hi, hn⟩

/-- The names that a clause binds. -/
def bound : Clause → List String
  | .withColumns projection _ => boundBy projection
  | .returnColumns projection _ => boundBy projection
  | clause => added clause

theorem mem_bound {clause : Clause} {name : String} :
    name ∈ bound clause ↔ Binds clause name := by
  cases clause with
  | matchPattern optional pattern span =>
    refine mem_boundByParts.trans ⟨?_, ?_⟩
    · rintro ⟨part, hp, h⟩
      exact .matchPattern hp h
    · intro h
      cases h with
      | matchPattern hp h => exact ⟨_, hp, h⟩
  | createPattern pattern span =>
    refine mem_boundByParts.trans ⟨?_, ?_⟩
    · rintro ⟨part, hp, h⟩
      exact .createPattern hp h
    · intro h
      cases h with
      | createPattern hp h => exact ⟨_, hp, h⟩
  | mergePart part actions span =>
    refine mem_boundByParts.trans ⟨?_, ?_⟩
    · rintro ⟨_, hp, h⟩
      exact .mergePart (List.mem_singleton.1 hp ▸ h)
    · intro h
      cases h with
      | mergePart h => exact ⟨part, List.mem_singleton_self part, h⟩
  | unwindList list binder span =>
    refine List.mem_singleton.trans ⟨?_, ?_⟩
    · rintro rfl
      exact .unwindList list binder span
    · rintro ⟨⟩
      rfl
  | callProcedure call span =>
    refine List.mem_map.trans ⟨?_, ?_⟩
    · rintro ⟨item, hi, h⟩
      exact .callProcedure hi (YieldItem.binds_iff.2 h)
    · intro h
      cases h with
      | callProcedure hi h => exact ⟨_, hi, YieldItem.binds_iff.1 h⟩
  | callQuery body span =>
    refine mem_returned.trans ⟨?_, ?_⟩
    · rintro ⟨before, projection, end', item, hi, hb, h⟩
      exact .callQuery hb hi h
    · intro h
      cases h with
      | callQuery hb hi h => exact ⟨_, _, _, _, hi, hb, h⟩
  | withColumns projection span =>
    refine mem_boundBy.trans ⟨?_, ?_⟩
    · rintro ⟨item, hi, h⟩
      exact .withColumns hi h
    · intro h
      cases h with
      | withColumns hi h => exact ⟨_, hi, h⟩
  | returnColumns projection span =>
    refine mem_boundBy.trans ⟨?_, ?_⟩
    · rintro ⟨item, hi, h⟩
      exact .returnColumns hi h
    · intro h
      cases h with
      | returnColumns hi h => exact ⟨_, hi, h⟩
  | _ =>
    -- the other clauses bind nothing
    exact ⟨fun h => (List.not_mem_nil h).elim, nofun⟩

/-! ### One clause -/

/-- The names in sight behind a clause. -/
def onward (visible : NameSet) : Clause → NameSet
  | .withColumns projection _ => visibleAfter projection visible
  | .returnColumns projection _ => visibleAfter projection visible
  | clause => visible.insertAll (added clause)

variable {visible : NameSet} {name : String}

theorem contains_visibleAfter {projection : Projection Expression} :
    (visibleAfter projection visible).contains name = true ↔
      name ∈ boundBy projection ∨ visible.contains name = true ∧ ¬projection.star = false := by
  rw [visibleAfter, NameSet.contains_insertAll]
  cases projection.star <;> simp

/-- **What is in sight behind a clause** is what it binds, and unless it renews the names also what
was in sight in front of it. -/
theorem contains_onward (clause : Clause) :
    (onward visible clause).contains name = true ↔
      Binds clause name ∨ visible.contains name = true ∧ ¬Renews clause := by
  rw [← mem_bound]
  cases clause with
  | withColumns projection span =>
    have hr : Renews (.withColumns projection span) ↔ projection.star = false :=
      ⟨fun (.withColumns h _) => h, fun h => .withColumns h span⟩
    rw [hr]
    exact contains_visibleAfter
  | returnColumns projection span =>
    have hr : Renews (.returnColumns projection span) ↔ projection.star = false :=
      ⟨fun (.returnColumns h _) => h, fun h => .returnColumns h span⟩
    rw [hr]
    exact contains_visibleAfter
  | _ => exact NameSet.contains_insertAll.trans (or_congr .rfl (and_iff_left nofun).symm)

/-! ### Clauses in a row -/

/-- **A name is kept** up to the end of some clauses: one of them binds it, and none behind that one
renews the names. -/
def Kept (clauses : List Clause) (name : String) : Prop :=
  ∃ before clause after, clauses = before ++ clause :: after ∧ Binds clause name ∧
    ∀ later ∈ after, ¬Renews later

theorem not_kept_nil : ¬Kept [] name := by
  rintro ⟨before, clause, after, h, -⟩
  exact List.append_ne_nil_of_right_ne_nil before (List.cons_ne_nil clause after) h.symm

/-- A name is kept by the last clause, or by those before and not lost at the last one. -/
theorem kept_concat {clauses : List Clause} {last : Clause} :
    Kept (clauses ++ [last]) name ↔ Binds last name ∨ Kept clauses name ∧ ¬Renews last := by
  constructor
  · rintro ⟨before, clause, after, hsplit, hb, hafter⟩
    -- the clause that binds the name is the last one, or one of those before
    rcases List.eq_nil_or_concat after with rfl | ⟨after, later, rfl⟩
    · obtain ⟨-, h⟩ := List.append_inj' hsplit rfl
      obtain rfl := List.singleton_inj.1 h
      exact .inl hb
    · have hconcat : clauses ++ [last] = (before ++ clause :: after) ++ [later] := by
        simpa using hsplit
      obtain ⟨rfl, h⟩ := List.append_inj' hconcat rfl
      obtain rfl := List.singleton_inj.1 h
      rw [List.concat_eq_append] at hafter
      obtain ⟨hkept, hlast⟩ := List.forall_mem_append.1 hafter
      exact .inr ⟨⟨before, clause, after, rfl, hb, hkept⟩, hlast last List.mem_cons_self⟩
  · rintro (hb | ⟨⟨before, clause, after, rfl, hb, hafter⟩, hlast⟩)
    · exact ⟨clauses, last, [], rfl, hb, nofun⟩
    · refine ⟨before, clause, after ++ [last], by simp, hb, List.forall_mem_append.2 ⟨hafter, ?_⟩⟩
      rintro later h
      rwa [List.mem_singleton.1 h]

/-- **What is in sight behind some clauses** is what is kept up to their end, when nothing is in
sight in front of them. -/
theorem contains_foldl (clauses : List Clause) (name : String) :
    (clauses.foldl onward .empty).contains name = true ↔ Kept clauses name := by
  -- from the end, where a clause takes away what those in front of it have brought
  induction clauses using List.reverseRecOn with
  | nil => exact iff_of_false Bool.false_ne_true not_kept_nil
  | append_singleton clauses last ih =>
    rw [List.foldl_append, List.foldl_cons, List.foldl_nil, contains_onward, ih, kept_concat]

/-! ### The check -/

theorem visible_bindAll (names : List String) (scope : Scope) (outer : List Scope) :
    (Scopes.mk (scope :: outer)).bindAll names =
      ⟨{ scope with visible := scope.visible.insertAll names } :: outer⟩ := by
  induction names generalizing scope with
  | nil => rfl
  | cons name names ih => exact ih _

/-- **The check of a clause** carries the names in sight over it, and has no other effect on the
scope. -/
theorem run_bindClause (clause : Clause) (scope : Scope) (outer : List Scope) :
    ((bindClause clause).run ⟨scope :: outer⟩).2.1 =
      ⟨{ scope with visible := onward scope.visible clause } :: outer⟩ := by
  cases clause with
  | withColumns projection span => rfl
  | returnColumns projection span => rfl
  | _ => exact visible_bindAll _ scope outer

theorem run_each_bindClause (clauses : List Clause) (scope : Scope) (outer : List Scope) :
    ((each bindClause clauses).run ⟨scope :: outer⟩).2.1 =
      ⟨{ scope with visible := clauses.foldl onward scope.visible } :: outer⟩ := by
  induction clauses generalizing scope with
  | nil => rfl
  | cons clause clauses ih =>
    rw [each, run_bind]
    dsimp only
    rw [run_bindClause, ih]
    rfl

/-- The checks of the subqueries in a clause do not change what is in sight around. -/
theorem run_checkAll (clause : Clause) (scopes : Scopes) :
    ((checkAll clause).run scopes).2.1 = ((bindClause clause).run scopes).2.1 := by
  rw [checkAll, run_bind, run_each fun body _ => sealed_checkQuery .subquery body]

theorem run_each_checkAll (clauses : List Clause) (scopes : Scopes) :
    ((each checkAll clauses).run scopes).2.1 = ((each bindClause clauses).run scopes).2.1 := by
  induction clauses generalizing scopes with
  | nil => rfl
  | cons clause clauses ih =>
    rw [each, each, run_bind, run_bind]
    dsimp only
    rw [run_checkAll, ih]

/-- **Which names are in sight** behind some clauses, in a scope of their own: those that some
clause binds behind which no clause renews the names. It makes no difference to them that the
subqueries in each clause are checked in front of it, nor in which scopes all this happens. -/
theorem isVisible_iff_kept (clauses : List Clause) (kind : ScopeKind) (scopes : Scopes)
    (name : String) :
    (((each bindClause clauses).run (scopes.push kind)).2.1.isVisible name = true ↔
      ∃ before clause after, clauses = before ++ clause :: after ∧ Binds clause name ∧
        ∀ later ∈ after, ¬Renews later) ∧
    ((each checkAll clauses).run (scopes.push kind)).2.1 =
      ((each bindClause clauses).run (scopes.push kind)).2.1 := by
  refine ⟨?_, run_each_checkAll clauses _⟩
  rw [Scopes.push, run_each_bindClause]
  exact contains_foldl clauses name

end Alias

end Cypher
