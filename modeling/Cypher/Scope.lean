import Cypher.Dialect.Ordering

/-!
# Scopes

While a document is read or checked, each statement, each branch of a union and each body of a
subquery has a scope of its own: which clauses it has had, what may come next in it, and which names
are in sight. Scopes lie on a stack, the innermost on top. Every operation reads or changes the
innermost scope only, and one that finds no scope does nothing; so what happens inside a scope can
neither see nor touch the scopes around it.
-/

namespace Cypher

/-! ### Sets of names -/

/-- **A set of names**, kept as a list in increasing order. -/
structure NameSet where
  /-- The names. -/
  names : List String
deriving DecidableEq, Repr

namespace NameSet

/-- The set without names. -/
def empty : NameSet := ⟨[]⟩

/-- Puts a name into a list in increasing order, unless it is there. -/
def insertSorted (name : String) : List String → List String
  | [] => [name]
  | x :: xs =>
    if name < x then name :: x :: xs
    else if name = x then x :: xs
    else x :: insertSorted name xs

/-- The set with one more name. -/
def insert (set : NameSet) (name : String) : NameSet := ⟨insertSorted name set.names⟩

/-- The set with some more names. -/
def insertAll (set : NameSet) (names : List String) : NameSet := names.foldl insert set

/-- Whether a name is in a set. -/
def contains (set : NameSet) (name : String) : Bool := set.names.contains name

theorem mem_insertSorted {name x : String} {xs : List String} :
    x ∈ insertSorted name xs ↔ x = name ∨ x ∈ xs := by
  induction xs with
  | nil => simp [insertSorted]
  | cons y ys ih =>
    simp only [insertSorted]
    split
    · simp
    · split
      · next h => subst h; simp
      · simp [ih, or_left_comm]

theorem contains_insert {set : NameSet} {name x : String} :
    (set.insert name).contains x = true ↔ x = name ∨ set.contains x = true := by
  simp [contains, insert, mem_insertSorted]

end NameSet

/-! ### Scopes -/

/-- What a scope belongs to. -/
inductive ScopeKind
  /-- A branch of a statement. -/
  | statement
  /-- A branch of the body of a subquery. -/
  | subquery
deriving DecidableEq, Repr

/-- **What is known inside one scope.** -/
structure Scope where
  /-- What the scope belongs to. -/
  kind : ScopeKind
  /-- The kinds of the clauses so far, in order. -/
  clauses : List ClauseKind
  /-- What may come next. -/
  ordering : OrderState
  /-- The names in sight. -/
  visible : NameSet
deriving DecidableEq, Repr

/-- A scope in which nothing has happened. -/
def Scope.fresh (kind : ScopeKind) : Scope := ⟨kind, [], .start, .empty⟩

/-- **The scopes one is in**, the innermost first. -/
structure Scopes where
  /-- The scopes. -/
  frames : List Scope
deriving DecidableEq, Repr

namespace Scopes

/-- Being in no scope. -/
def outside : Scopes := ⟨[]⟩

/-- Enters a new scope. -/
def push (scopes : Scopes) (kind : ScopeKind) : Scopes := ⟨.fresh kind :: scopes.frames⟩

/-- Leaves the innermost scope. -/
def pop (scopes : Scopes) : Scopes := ⟨scopes.frames.tail⟩

/-- The innermost scope. -/
def current? (scopes : Scopes) : Option Scope := scopes.frames.head?

/-- The number of scopes one is in. -/
def depth (scopes : Scopes) : Nat := scopes.frames.length

/-- Whether the innermost scope lies in another. -/
def isNested (scopes : Scopes) : Bool := decide (1 < scopes.depth)

/-- Changes the innermost scope, if there is one. -/
def modify (scopes : Scopes) (f : Scope → Scope) : Scopes :=
  match scopes.frames with
  | [] => scopes
  | scope :: outer => ⟨f scope :: outer⟩

/-- Notes a clause behind those of the innermost scope. -/
def record (scopes : Scopes) (kind : ClauseKind) : Scopes :=
  scopes.modify fun s => { s with clauses := s.clauses ++ [kind] }

/-- Sets what may come next in the innermost scope. -/
def setOrdering (scopes : Scopes) (state : OrderState) : Scopes :=
  scopes.modify fun s => { s with ordering := state }

/-- Brings a name into sight in the innermost scope. -/
def bind (scopes : Scopes) (name : String) : Scopes :=
  scopes.modify fun s => { s with visible := s.visible.insert name }

/-- Brings names into sight in the innermost scope, one after the other. -/
def bindAll (scopes : Scopes) (names : List String) : Scopes := names.foldl bind scopes

/-- Makes the given names the only ones in sight in the innermost scope. -/
def replaceVisible (scopes : Scopes) (names : NameSet) : Scopes :=
  scopes.modify fun s => { s with visible := names }

/-- Changes what the innermost scope belongs to. -/
def retag (scopes : Scopes) (kind : ScopeKind) : Scopes :=
  scopes.modify fun s => { s with kind := kind }

/-- The names in sight in the innermost scope. -/
def visible (scopes : Scopes) : NameSet := (scopes.current?.map Scope.visible).getD .empty

/-- What may come next in the innermost scope. -/
def ordering (scopes : Scopes) : OrderState := (scopes.current?.map Scope.ordering).getD .start

/-- Whether a name is in sight in the innermost scope. -/
def isVisible (scopes : Scopes) (name : String) : Bool := scopes.visible.contains name

@[simp] theorem pop_push (scopes : Scopes) (kind : ScopeKind) : (scopes.push kind).pop = scopes :=
  rfl

@[simp] theorem depth_modify (scopes : Scopes) (f : Scope → Scope) :
    (scopes.modify f).depth = scopes.depth := by
  rcases scopes with ⟨_ | ⟨s, outer⟩⟩ <;> rfl

end Scopes

end Cypher
