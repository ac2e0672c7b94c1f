import Cypher.Scope
import Mathlib.Data.List.Infix

/-!
# Scopes that are entered and left again

All scopes lie on one stack, which is handed through the whole of reading and checking. What goes on
inside a scope is a sequence of accesses to that stack (`Cypher.Scopes.Access`): scopes are entered
and left, the innermost one is changed, and it is asked for. If no more scopes are left than have
been entered, and as many in the end (`Cypher.Scopes.Paired`), none of this reaches the scopes
around: they are not changed, and no reply depends on them (`Cypher.Scopes.isolated_of_paired`).

An access looks at the innermost scope and at nothing below it, whence it does the same on a stack
that goes on further down (`Cypher.Scopes.Access.run_above`). The one thing to watch is that there
always is a scope to look at: an access that leaves the last one of its own would have its successor
look at the scope around. So a sequence of accesses is followed by the number of scopes that are its
own (`Cypher.Scopes.Stays`), and each access takes this number on
(`Cypher.Scopes.Access.depth_run`).
-/

namespace Cypher

namespace Scopes

/-! ### Accesses -/

/-- **What one can do with scopes**: change them, or ask for the innermost one. -/
inductive Access
  /-- Enters a new scope. -/
  | push (kind : ScopeKind)
  /-- Leaves the innermost scope, and asks what it was. -/
  | pop
  /-- Notes a clause. -/
  | record (kind : ClauseKind)
  /-- Sets what may come next. -/
  | setOrdering (state : OrderState)
  /-- Brings a name into sight. -/
  | bind (name : String)
  /-- Makes the given names the only ones in sight. -/
  | replaceVisible (names : NameSet)
  /-- Changes what the innermost scope belongs to, and asks whether there is one. -/
  | retag (kind : ScopeKind)
  /-- Asks for the innermost scope. -/
  | current
  /-- Asks whether a name is in sight. -/
  | isVisible (name : String)
deriving DecidableEq

/-- **What one learns from an access.** -/
inductive Reply
  /-- Nothing. -/
  | nothing
  /-- The innermost scope, if there is one. -/
  | scope (scope : Option Scope)
  /-- Yes or no. -/
  | answer (yes : Bool)
deriving DecidableEq

namespace Access

/-- The reply to an access, and the scopes behind it. -/
def run : Access → Scopes → Reply × Scopes
  | push kind, scopes => (.nothing, scopes.push kind)
  | pop, scopes => (.scope scopes.current?, scopes.pop)
  | record kind, scopes => (.nothing, scopes.record kind)
  | setOrdering state, scopes => (.nothing, scopes.setOrdering state)
  | bind name, scopes => (.nothing, scopes.bind name)
  | replaceVisible names, scopes => (.nothing, scopes.replaceVisible names)
  | retag kind, scopes => (.answer scopes.current?.isSome, scopes.retag kind)
  | current, scopes => (.scope scopes.current?, scopes)
  | isVisible name, scopes => (.answer (scopes.isVisible name), scopes)

/-- Whether an access enters a scope. -/
def enters : Access → Bool
  | push _ => true
  | _ => false

/-- Whether an access leaves a scope. -/
def leaves : Access → Bool
  | pop => true
  | _ => false

end Access

/-- The replies to some accesses, one after the other, and the scopes behind them. -/
def runAll : List Access → Scopes → List Reply × Scopes
  | [], scopes => ([], scopes)
  | access :: accesses, scopes =>
    let (reply, scopes) := access.run scopes
    let (replies, scopes) := runAll accesses scopes
    (reply :: replies, scopes)

theorem runAll_cons (access : Access) (accesses : List Access) (scopes : Scopes) :
    runAll (access :: accesses) scopes =
      ((access.run scopes).1 :: (runAll accesses (access.run scopes).2).1,
        (runAll accesses (access.run scopes).2).2) := rfl

theorem runAll_append (first second : List Access) (scopes : Scopes) :
    runAll (first ++ second) scopes =
      ((runAll first scopes).1 ++ (runAll second (runAll first scopes).2).1,
        (runAll second (runAll first scopes).2).2) := by
  induction first generalizing scopes with
  | nil => rfl
  | cons access first ih =>
    rw [List.cons_append, runAll_cons, ih]
    rfl

/-- The number of scopes that are entered. -/
def entered (accesses : List Access) : Nat := accesses.countP Access.enters

/-- The number of scopes that are left. -/
def left (accesses : List Access) : Nat := accesses.countP Access.leaves

/-- **Accesses that leave the scopes they enter**, all of them and no other. -/
structure Paired (accesses : List Access) : Prop where
  /-- At no point have more scopes been left than entered. -/
  within : ∀ first, first <+: accesses → left first ≤ entered first
  /-- In the end as many have been left as entered. -/
  even : left accesses = entered accesses

instance (accesses : List Access) : Decidable (Paired accesses) :=
  decidable_of_iff
    ((∀ first ∈ accesses.inits, left first ≤ entered first) ∧ left accesses = entered accesses)
    ⟨fun h => ⟨fun first hf => h.1 first ((List.mem_inits first accesses).2 hf), h.2⟩,
      fun h => ⟨fun first hf => h.within first ((List.mem_inits first accesses).1 hf), h.even⟩⟩

/-! ### One access -/

section Run

variable {scopes : Scopes}

/-- The scopes on top of some others. -/
def above (scopes : Scopes) (outer : List Scope) : Scopes := ⟨scopes.frames ++ outer⟩

/-- **An access does not look below the innermost scope**, so that it does the same whatever lies
further down. -/
theorem Access.run_above (access : Access) (h : scopes.frames ≠ []) (outer : List Scope) :
    access.run (scopes.above outer) =
      ((access.run scopes).1, (access.run scopes).2.above outer) := by
  obtain ⟨scope, own, hframes⟩ := List.exists_cons_of_ne_nil h
  obtain rfl : scopes = ⟨scope :: own⟩ := by rw [← hframes]
  cases access <;> rfl

/-- **An access takes the number of scopes on**: one that enters adds a scope, and one that leaves
takes one away. -/
theorem Access.depth_run (access : Access) (h : scopes.frames ≠ []) :
    (access.run scopes).2.depth + left [access] = scopes.depth + entered [access] := by
  obtain ⟨scope, own, hframes⟩ := List.exists_cons_of_ne_nil h
  obtain rfl : scopes = ⟨scope :: own⟩ := by rw [← hframes]
  cases access <;> rfl

end Run

/-! ### Accesses in a row -/

/-- **Accesses that stay inside their own scopes**, of which there are `height` at the beginning:
at every point there is one left. -/
def Stays (height : Nat) (accesses : List Access) : Prop :=
  ∀ first, first <+: accesses → left first < height + entered first

theorem left_cons (access : Access) (accesses : List Access) :
    left (access :: accesses) = left [access] + left accesses := by
  rw [left, left, left, ← List.countP_append, List.singleton_append]

theorem entered_cons (access : Access) (accesses : List Access) :
    entered (access :: accesses) = entered [access] + entered accesses := by
  rw [entered, entered, entered, ← List.countP_append, List.singleton_append]

theorem Stays.pos {height : Nat} {accesses : List Access} (h : Stays height accesses) :
    0 < height :=
  h [] List.nil_prefix

theorem Stays.of_first {height : Nat} {first accesses : List Access} (h : Stays height accesses)
    (hf : first <+: accesses) : Stays height first :=
  fun start hs => h start (hs.trans hf)

/-- Behind the first access, they stay inside the scopes that it leads to. -/
theorem Stays.tail {height height' : Nat} {access : Access} {accesses : List Access}
    (h : Stays height (access :: accesses))
    (hheight : height' + left [access] = height + entered [access]) : Stays height' accesses := by
  intro first hf
  have hfirst := h (access :: first) ((List.prefix_cons_inj access).2 hf)
  rw [left_cons, entered_cons] at hfirst
  omega

/-- **What happens inside some scopes does not reach below them**: the scopes around stay as they
are, and the replies do not depend on them. -/
theorem runAll_above {accesses : List Access} (scopes : Scopes)
    (h : Stays scopes.depth accesses) (outer : List Scope) :
    runAll accesses (scopes.above outer) =
      ((runAll accesses scopes).1, (runAll accesses scopes).2.above outer) := by
  induction accesses generalizing scopes with
  | nil => rfl
  | cons access accesses ih =>
    have hne : scopes.frames ≠ [] := List.ne_nil_of_length_pos h.pos
    rw [runAll_cons, access.run_above hne, ih _ (h.tail (access.depth_run hne))]
    rfl

/-- The number of scopes behind some accesses. -/
theorem depth_runAll {accesses : List Access} (scopes : Scopes)
    (h : Stays scopes.depth accesses) :
    (runAll accesses scopes).2.depth + left accesses = scopes.depth + entered accesses := by
  induction accesses generalizing scopes with
  | nil => rfl
  | cons access accesses ih =>
    have hone := access.depth_run (List.ne_nil_of_length_pos h.pos)
    have hrest := ih _ (h.tail hone)
    rw [left_cons, entered_cons, runAll_cons]
    dsimp only
    omega

/-! ### A scope of one's own -/

/-- Accesses that leave only what they enter stay inside a scope that is entered before. -/
theorem Paired.stays {accesses : List Access} (h : Paired accesses) : Stays 1 accesses := by
  intro first hf
  have hle := h.within first hf
  omega

/-- **Inside a new scope, it makes no difference where it has been entered**: what happens there
happens as it does outside all other scopes, on top of those around. -/
theorem runAll_push {accesses : List Access} (h : Stays 1 accesses) (kind : ScopeKind)
    (scopes : Scopes) :
    runAll (.push kind :: accesses) scopes =
      (.nothing :: (runAll accesses (outside.push kind)).1,
        (runAll accesses (outside.push kind)).2.above scopes.frames) := by
  have habove : runAll accesses (scopes.push kind) = _ :=
    runAll_above (outside.push kind) h scopes.frames
  rw [runAll_cons]
  exact congrArg (fun result : List Reply × Scopes => (.nothing :: result.1, result.2)) habove

/-- **Scopes do not see each other**: of what happens between entering a scope and leaving it again,
nothing hangs on the scopes around and nothing changes them. At every point there are scopes of
one's own on top of those around; they are the same whatever these are, and so are the replies up to
that point. In the end, the scope that was entered first is left, and those around are as before. -/
theorem isolated_of_paired {accesses : List Access} (h : Paired accesses) (kind : ScopeKind) :
    (∀ first, first <+: accesses → ∃ replies own, own ≠ [] ∧ ∀ scopes : Scopes,
      runAll (.push kind :: first) scopes = (.nothing :: replies, ⟨own ++ scopes.frames⟩)) ∧
    ∃ replies scope, ∀ scopes : Scopes,
      runAll (.push kind :: accesses ++ [.pop]) scopes =
        (.nothing :: replies ++ [.scope (some scope)], scopes) := by
  have hdepth (first : List Access) (hf : first <+: accesses) :
      (runAll first (outside.push kind)).2.depth + left first = 1 + entered first :=
    depth_runAll (outside.push kind) (h.stays.of_first hf)
  constructor
  · intro first hf
    refine ⟨_, _, ?_, runAll_push (h.stays.of_first hf) kind⟩
    -- the scope entered first is still there, since no more have been left than entered behind it
    have hlt := h.within first hf
    have hsum := hdepth first hf
    exact List.ne_nil_of_length_pos (show 0 < (runAll first (outside.push kind)).2.depth by omega)
  · have hone : (runAll accesses (outside.push kind)).2.depth = 1 := by
      have heven := h.even
      have hsum := hdepth accesses List.prefix_rfl
      omega
    obtain ⟨scope, hscope⟩ := List.length_eq_one_iff.1 hone
    refine ⟨(runAll accesses (outside.push kind)).1, scope, ?_⟩
    intro scopes
    rw [runAll_append, runAll_push h.stays, above, hscope]
    rfl

/-- A scope in a scope, both with a name in sight, entered where a third name is in sight. -/
theorem isolated_of_paired_nested :
    let accesses : List Access := [.bind "n", .record .MATCH, .push .subquery, .isVisible "n",
      .bind "m", .setOrdering .returned, .retag .statement, .pop, .isVisible "m", .isVisible "x",
      .current]
    let around : Scopes := (outside.push .subquery).bind "x"
    Paired accesses ∧
      (∃ replies own, own ≠ [] ∧ ∀ scopes : Scopes,
        runAll (.push .statement :: accesses.take 5) scopes =
          (.nothing :: replies, ⟨own ++ scopes.frames⟩)) ∧
      (∃ replies scope, ∀ scopes : Scopes,
        runAll (.push .statement :: accesses ++ [.pop]) scopes =
          (.nothing :: replies ++ [.scope (some scope)], scopes)) ∧
      runAll (.push .statement :: accesses) around =
        ([.nothing, .nothing, .nothing, .nothing, .answer false, .nothing, .nothing, .answer true,
            .scope (some ⟨.statement, [], .returned, ⟨["m"]⟩⟩), .answer false, .answer false,
            .scope (some ⟨.statement, [.MATCH], .start, ⟨["n"]⟩⟩)],
          ⟨[⟨.statement, [.MATCH], .start, ⟨["n"]⟩⟩, ⟨.subquery, [], .start, ⟨["x"]⟩⟩]⟩) := by
  intro accesses around
  have h : Paired accesses := by decide
  obtain ⟨hinside, hall⟩ := isolated_of_paired h .statement
  exact ⟨h, hinside _ (List.take_prefix 5 accesses), hall, by decide⟩

end Scopes

end Cypher
