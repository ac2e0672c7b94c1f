import Cypher.Tree.ClauseKind

/-!
# The order of clauses

The clauses of a query may not come in any order. What may come next depends on a state that the
clauses so far have led to, and a table lists the legal steps: from which states a kind of clause
may follow, and to which state it leads. The table also lists the states in which a query may end.

A procedure call that hands on columns leads to a state of its own, which the kind of the clause
alone does not tell.
-/

namespace Cypher

/-- **What the clauses so far allow.** -/
inductive OrderState
  /-- No clause yet. -/
  | start
  /-- After a clause that unwinds a list. -/
  | reading
  /-- After a clause that matches a pattern. -/
  | matched
  /-- After a call that hands on no columns. -/
  | called
  /-- After a procedure call that hands on columns. -/
  | yielded
  /-- After a projection that the query goes on from. -/
  | projected
  /-- After a filter. -/
  | filtered
  /-- After a change to the data. -/
  | updating
  /-- After the final projection. -/
  | returned
deriving DecidableEq, Repr

namespace OrderState

/-- The states in which a reading clause may follow. -/
def readable : List OrderState :=
  [start, reading, matched, called, yielded, projected, filtered]

/-- The states in which anything may follow that does not read: all but the last. -/
def unfinished : List OrderState :=
  [start, reading, matched, called, yielded, projected, filtered, updating]

/-- The states in which a filter may follow. -/
def filterable : List OrderState := [matched, yielded, projected]

end OrderState

/-- **A legal step**: in any of the states `origins`, a clause of a kind leads to the state
`target`. -/
structure Transition where
  /-- The states in which the step may be taken. -/
  origins : List OrderState
  /-- The kind of clause that takes it. -/
  clause : ClauseKind
  /-- The state it leads to. -/
  target : OrderState
deriving DecidableEq, Repr

/-- **The legal orders of clauses.** -/
structure OrderingTable where
  /-- The legal steps; of two that apply, the first counts. -/
  transitions : List Transition
  /-- The states in which a statement may end. -/
  terminal : List OrderState
deriving DecidableEq, Repr

namespace OrderingTable

/-- The state after a clause of a kind, or `none` where it is illegal. -/
def next (table : OrderingTable) (state : OrderState) (clause : ClauseKind) : Option OrderState :=
  (table.transitions.find? fun t => t.clause = clause && t.origins.contains state).map
    Transition.target

/-- The state after a clause, given also whether it is a procedure call that hands on columns. -/
def after (table : OrderingTable) (state : OrderState) (clause : ClauseKind) (yields : Bool) :
    Option OrderState :=
  (table.next state clause).map fun target =>
    if target = .called ∧ yields then .yielded else target

/-- The states that clauses lead to one after the other: for each clause the state it leads to, if
it is legal, and the state from which the next one goes on. -/
def trace (table : OrderingTable) :
    OrderState → List (ClauseKind × Bool) → List (Option OrderState × OrderState)
  | _, [] => []
  | state, (kind, yields) :: rest =>
    let target := table.after state kind yields
    let onward := target.getD state
    (target, onward) :: trace table onward rest

/-- Whether a statement may end in a state. -/
def isTerminal (table : OrderingTable) (state : OrderState) : Bool := table.terminal.contains state

/-- The steps of a dialect, given the states in which a call may follow. -/
def steps (callable : List OrderState) : List Transition :=
  [⟨OrderState.readable, .MATCH, .matched⟩,
   ⟨OrderState.readable, .UNWIND, .reading⟩,
   ⟨callable, .CALL, .called⟩,
   ⟨OrderState.filterable, .WHERE, .filtered⟩,
   ⟨OrderState.unfinished, .WITH, .projected⟩,
   ⟨OrderState.unfinished, .CREATE, .updating⟩,
   ⟨OrderState.unfinished, .MERGE, .updating⟩,
   ⟨OrderState.unfinished, .DELETE, .updating⟩,
   ⟨OrderState.unfinished, .SET, .updating⟩,
   ⟨OrderState.unfinished, .REMOVE, .updating⟩,
   ⟨OrderState.unfinished, .RETURN, .returned⟩]

end OrderingTable

end Cypher
