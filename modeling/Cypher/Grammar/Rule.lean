import Cypher.Grammar.Cursor
import Cypher.Grammar.Problem
import Cypher.Scope
import Cypher.Tree.Document

/-!
# Grammar rules as programs

A rule of the grammar is a program in a small language. It may look at the tokens around the cursor,
move on, fail with a cause, try another way after a failure, repeat a step, enter a scope, and call
one of the few rules that nest. What a rule means is said once for all rules, by
`Cypher.Rule.run`: given how to run the nested rules, a rule turns a state into a value with a
new state, or into a failure with the state in which it failed.

There are two modes. When a mistake is not to be forgiven, the first failure ends everything. When
it is, `Cypher.Rule.mend` notes the failure and lets another rule make up for it.

Since every rule is built from the same few steps, what holds of each step holds of all rules.
-/

namespace Cypher

/-! ### The language of rules -/

/-- **The rules that nest**: those which may be reached again from inside themselves. -/
inductive Nested : Type → Type
  /-- An expression whose operators bind at least with a given strength. -/
  | expression (strength : Nat) : Nested Expression
  /-- The body of a called subquery. -/
  | subquery : Nested Query
  /-- The body of an existence test. -/
  | existsBody : Nested Query

/-- **What a rule may look at.** -/
inductive View : Type → Type
  /-- The token at the cursor. -/
  | token : View Token
  /-- The kind of the token after that. -/
  | next : View TokenKind
  /-- The span from an offset to the end of the token just behind the cursor. -/
  | spanFrom (start : Nat) : View Span
  /-- The span of the token just behind the cursor. -/
  | previousSpan : View Span
  /-- The number of tokens behind the cursor. -/
  | position : View Nat
  /-- Whether the innermost scope lies in another. -/
  | nested : View Bool
  /-- Whether the name at the cursor is called. -/
  | opensCall : View Bool
  /-- Whether the parenthesis at the cursor opens a path. -/
  | opensPattern : View Bool

/-- **A rule of the grammar**, which reads an `α`. -/
inductive Rule : Type → Type 1
  /-- Reads nothing. -/
  | pure {α : Type} (a : α) : Rule α
  /-- One rule and then another, which may depend on what the first has read. -/
  | bind {α β : Type} (rule : Rule β) (next : β → Rule α) : Rule α
  /-- Looks at something. -/
  | look {α : Type} (view : View α) : Rule α
  /-- Moves on to the next token, and reads the span of the one left behind. -/
  | advance : Rule Span
  /-- Fails. -/
  | fail {α : Type} (problem : Problem) : Rule α
  /-- Notes a problem and goes on, or fails when mistakes are not forgiven. -/
  | complain (problem : Problem) : Rule Unit
  /-- Fails unless the dialect has subqueries. -/
  | requireSubqueries (feature : String) : Rule Unit
  /-- Tries a rule; when it fails and mistakes are forgiven, notes the failure and goes on from
  there with another rule. -/
  | mend {α : Type} (rule remedy : Rule α) : Rule α
  /-- Skips tokens up to one at which reading can be taken up again. -/
  | resume : Rule Unit
  /-- Repeats a step, which hands on a value, for as long as it has one to hand on. -/
  | loop {α : Type} (step : α → Rule (Option α)) (a : α) : Rule α
  /-- Runs a rule in a scope of its own. -/
  | inScope {α : Type} (kind : ScopeKind) (rule : Rule α) : Rule α
  /-- Notes a clause in the innermost scope. -/
  | record (kind : ClauseKind) : Rule Unit
  /-- Runs a rule one level of nesting deeper. -/
  | nested {α : Type} (rule : Nested α) : Rule α

instance : Monad Rule where
  pure := Rule.pure
  bind := Rule.bind

/-! ### What rules mean -/

/-- **How rules are run.** -/
structure Setting where
  /-- The rules of the dialect. -/
  rules : Rules
  /-- Whether mistakes are forgiven. -/
  forgiving : Bool
  /-- The number of levels of nesting that are allowed. -/
  limit : Nat
  /-- The test by which a parenthesis is taken to open a path. -/
  opensPattern : Cursor → Bool := Cursor.opensPattern

/-- **Where a run stands.** -/
structure State where
  /-- The place among the tokens. -/
  cursor : Cursor
  /-- The scopes the run is in. -/
  scopes : Scopes
  /-- The problems noted so far. -/
  problems : List Diagnostic
  /-- The number of levels of nesting the run is in. -/
  depth : Nat

/-- The start of a run over some tokens. -/
def State.start (tokens : List Token) : State := ⟨.ofTokens tokens, .outside, [], 0⟩

/-- **How a run ends**: with a value, or with a diagnostic; and in which state. -/
inductive Outcome (α : Type)
  | done (value : α) (state : State)
  | failed (diagnostic : Diagnostic) (state : State)

/-- What a rule does. -/
abbrev Action (α : Type) := State → Outcome α

namespace Outcome

variable {α : Type}

/-- The state in which a run ended. -/
def state : Outcome α → State
  | done _ s => s
  | failed _ s => s

/-- Changes the state in which a run ended. -/
def mapState (f : State → State) : Outcome α → Outcome α
  | done a s => done a (f s)
  | failed d s => failed d (f s)

end Outcome

/-- What a view shows. -/
def View.read (setting : Setting) (s : State) {α : Type} : View α → α
  | token => s.cursor.current
  | next => s.cursor.peek 1
  | spanFrom start => s.cursor.spanFrom start
  | previousSpan => s.cursor.previousSpan
  | position => s.cursor.position
  | nested => s.scopes.isNested
  | opensCall => s.cursor.opensCall
  | opensPattern => setting.opensPattern s.cursor

/-- The diagnostic for a problem that arises in a state. -/
def State.diagnostic (setting : Setting) (s : State) (problem : Problem) : Diagnostic :=
  problem.diagnostic setting.rules.dialect setting.limit s.cursor.current

/-- Notes a diagnostic. -/
def State.note (s : State) (d : Diagnostic) : State := { s with problems := s.problems ++ [d] }

/-- Repeats a step at most a number of times. -/
def Action.iterate {α : Type} (step : α → Action (Option α)) : Nat → α → Action α
  | 0, a, s => .done a s
  | n + 1, a, s =>
    match step a s with
    | .done none s => .done a s
    | .done (some a) s => Action.iterate step n a s
    | .failed d s => .failed d s

namespace Rule

/-- **Runs a rule**, given how nested rules run. A repeated step moves on by at least one token each
time, so that the number of tokens left bounds the number of repetitions. -/
def run (setting : Setting) (inner : {β : Type} → Nested β → Action β) :
    {α : Type} → Rule α → Action α
  | _, pure a, s => .done a s
  | _, bind rule next, s =>
    match run setting inner rule s with
    | .done b s => run setting inner (next b) s
    | .failed d s => .failed d s
  | _, look view, s => .done (view.read setting s) s
  | _, advance, s => .done s.cursor.current.span { s with cursor := s.cursor.advance }
  | _, fail problem, s => .failed (s.diagnostic setting problem) s
  | _, complain problem, s =>
    if setting.forgiving then .done () (s.note (s.diagnostic setting problem))
    else .failed (s.diagnostic setting problem) s
  | _, requireSubqueries feature, s =>
    if setting.rules.subqueries then .done () s
    else .failed (s.diagnostic setting (.unsupported feature)) s
  | _, mend rule remedy, s =>
    match run setting inner rule s with
    | .done a s => .done a s
    | .failed d s =>
      if setting.forgiving then run setting inner remedy (s.note d) else .failed d s
  | _, resume, s => .done () { s with cursor := s.cursor.resume s.scopes.isNested }
  | _, loop step a, s =>
    Action.iterate (fun a s => run setting inner (step a) s) (s.cursor.ahead.length + 1) a s
  | _, inScope kind rule, s =>
    (run setting inner rule { s with scopes := s.scopes.push kind }).mapState
      fun s => { s with scopes := s.scopes.pop }
  | _, record kind, s => .done () { s with scopes := s.scopes.record kind }
  | _, nested rule, s => inner rule s

/-- **Runs nested rules** with a number of levels of nesting left, given what they stand for. With
no level left, there is no running them. -/
def runNested (setting : Setting) (body : {β : Type} → Nested β → Rule β) :
    Nat → {α : Type} → Nested α → Action α
  | 0, _, _, s => .failed (s.diagnostic setting .tooDeep) s
  | room + 1, _, rule, s =>
    (run setting (runNested setting body room) (body rule) { s with depth := s.depth + 1 }).mapState
      fun s => { s with depth := s.depth - 1 }

/-! ### Steps -/

/-- The token at the cursor. -/
def here : Rule Token := look .token

/-- The offset at which the token at the cursor starts. -/
def startHere : Rule Nat := do return (← here).span.start

/-- Whether the token at the cursor is of a kind. -/
def isAt (kind : TokenKind) : Rule Bool := do return (← here).kind = kind

/-- Whether the token at the cursor is a sign. -/
abbrev atSign (s : Sign) : Rule Bool := isAt (.sign s)

/-- Whether the token at the cursor is a reserved word. -/
abbrev atWord (word : Keyword) : Rule Bool := isAt (.keyword word)

/-- Moves past a token of a kind, if there is one at the cursor. -/
def consume (kind : TokenKind) : Rule Bool := do
  if ← isAt kind then
    let _ ← advance
    return true
  else return false

/-- Moves past a sign, if it is at the cursor. -/
abbrev takeSign (s : Sign) : Rule Bool := consume (.sign s)

/-- Moves past a reserved word, if it is at the cursor. -/
abbrev takeWord (word : Keyword) : Rule Bool := consume (.keyword word)

/-- Moves past a token of a kind, which has to be at the cursor. -/
def expect (kind : TokenKind) : Rule Span := do
  if ← isAt kind then advance else fail (.expected ("`" ++ kind.describe ++ "`"))

/-- Moves past a sign, which has to be at the cursor. -/
abbrev expectSign (s : Sign) : Rule Span := expect (.sign s)

/-- Moves past a reserved word, which has to be at the cursor. -/
abbrev expectWord (word : Keyword) : Rule Span := expect (.keyword word)

/-- Whether the token at the cursor can name a variable. -/
def atVariable : Rule Bool := do return (← here).kind.isVariable

/-- Whether a variable is at the cursor and a token of a kind behind it. -/
def atVariableBefore (kind : TokenKind) : Rule Bool := do
  if ← atVariable then return (← look .next) = kind else return false

/-! ### Repetitions -/

/-- Reads something if a condition holds. -/
def optionally {α : Type} (condition : Rule Bool) (rule : Rule α) : Rule (Option α) := do
  if ← condition then return some (← rule) else return none

/-- Reads unless a condition holds. -/
def skipIf {α : Type} (condition : Rule Bool) (rule : Rule α) : Rule (Option α) := do
  if ← condition then return none else return some (← rule)

/-- Reads for as long as there is something to read. -/
def many {α : Type} (rule : Rule (Option α)) (start : List α) : Rule (List α) :=
  loop (fun items => do return (← rule).map fun item => items ++ [item]) start

/-- Reads one or more, separated by commas. -/
def separated {α : Type} (rule : Rule α) : Rule (List α) := do
  let first ← rule
  many (optionally (takeSign .comma) rule) [first]

/-- Reads some, separated by commas, up to a closing sign; none if that comes at once. -/
def listUntil {α : Type} (close : Sign) (rule : Rule α) : Rule (List α) := do
  if ← atSign close then return [] else separated rule

end Rule

end Cypher
