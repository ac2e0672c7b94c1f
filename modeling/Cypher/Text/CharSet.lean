/-!
# Sets of characters by run lengths

A property of characters that a standard lists as ranges of code points is kept here as a list of
run lengths: how many code points lack the property, how many then have it, how many then lack it
again, and so on. The list needs no invariant – every list of numbers is the table of some set – and
a look-up walks along it, subtracting.
-/

namespace Cypher.Text

/-- **A set of code points**, as the lengths of its gaps and runs in turn, a gap first. -/
structure CharSet where
  /-- Gap, run, gap, run, … -/
  runs : List Nat

namespace CharSet

/-- Whether a number lies in a run of an alternating list of gaps and runs. -/
def inRuns : List Nat → Nat → Bool
  | gap :: run :: rest, n =>
    if n < gap then false
    else if n - gap < run then true
    else inRuns rest (n - gap - run)
  | _, _ => false

/-- Whether a character belongs to the set. -/
def contains (set : CharSet) (c : Char) : Bool := inRuns set.runs c.toNat

theorem inRuns_cons_cons_of_lt {gap run n : Nat} {rest : List Nat} (h : n < gap) :
    inRuns (gap :: run :: rest) n = false := by
  simp [inRuns, h]

theorem inRuns_cons_cons_of_mem {gap run n : Nat} {rest : List Nat} (h : gap ≤ n)
    (hn : n < gap + run) : inRuns (gap :: run :: rest) n = true := by
  have : ¬ n < gap := by omega
  have : n - gap < run := by omega
  simp [inRuns, *]

end CharSet

end Cypher.Text
