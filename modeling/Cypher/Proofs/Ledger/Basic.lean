import Cypher.Proofs.Chain
import Cypher.Proofs.Element
import Cypher.Proofs.Placement

/-!
# Ledgers of what is read

Some properties of a tree are demands on each of its elements: that no element is a stand-in for
something that could not be read, that no function is called by a certain name, that the clauses of
a query leave nothing of it out. Whether everything that a rule reads meets such a demand can be
settled while it is read, as an element meets it throughout if the element itself does and all its
children do throughout.

`Cypher.Ledger` is what has to be known of a demand for that. Most elements meet every demand of
this kind by themselves, and a ledger says what decides about the others: the rule that has read
them or, where an expression goes on with an operand, what has been read of it so far. It may also
keep count of the problems that are noted; then everything read meets the demand if and only if
nothing has been noted on the way.

The judgement is `Cypher.Rule.Accounts`: of some elements that have been read before a run, and
those it reads in the end, the latter meet the demand if and only if the former do and the count of
problems is the same. A rule that reads no elements needs to be `Cypher.Rule.Quiet` only.
-/

namespace Cypher

/-! ### Demands on a whole tree -/

namespace Element

variable {demand : Element → Prop} {e e' : Element}

/-- **A demand that an element meets throughout**: it does so itself, and so does everything in
it. -/
def Throughout (demand : Element → Prop) (e : Element) : Prop := ∀ x, e.Within x → demand x

/-- A demand is met throughout by an element and its children. -/
theorem throughout_iff :
    e.Throughout demand ↔ demand e ∧ ∀ c ∈ e.children, c.Throughout demand := by
  constructor
  · intro h
    exact ⟨h e .refl, fun c hc x hx => h x (.head hc hx)⟩
  · rintro ⟨he, hc⟩ x hx
    rcases Relation.ReflTransGen.cases_head hx with rfl | ⟨c, hmem, hx⟩
    · exact he
    · exact hc c hmem x hx

/-- Whether an element is neither a query, one of its branches or a stand-in, nor a relationship, an
integer, a call or an expression that goes on with its first operand. -/
def isPlain : Element → Bool
  | query _ | branch _ | clause (.error _) | statement (.error _) | relationship _ => false
  | expression (.literal (.integer _) _) | expression (.call ..) => false
  | expression e => !e.goesOn
  | _ => true

end Element

/-! ### Rules that note nothing -/

variable {setting : Setting} {inner : Inner} {α β γ : Type}

/-- **A rule that notes nothing** unless it fails. -/
def Rule.Quiet (setting : Setting) (inner : Inner) (rule : Rule α) : Prop :=
  ∀ s a t, rule.run setting inner s = .done a t → t.problems = s.problems

namespace Rule.Quiet

theorem pure (a : α) : Quiet setting inner (Pure.pure a) := by
  intro s b t hr
  cases hr
  rfl

theorem bind {rule : Rule β} {next : β → Rule α} (h : Quiet setting inner rule)
    (hn : ∀ b, Quiet setting inner (next b)) : Quiet setting inner (rule >>= next) := by
  intro s a u hr
  obtain ⟨b, t, hb, hu⟩ := done_of_bind hr
  exact (hn b t a u hu).trans (h s b t hb)

theorem look (view : View α) : Quiet setting inner (.look view) := by
  intro s a t hr
  cases hr
  rfl

theorem advance : Quiet setting inner .advance := by
  intro s a t hr
  cases hr
  rfl

theorem resume : Quiet setting inner .resume := by
  intro s a t hr
  cases hr
  rfl

theorem record (kind : ClauseKind) : Quiet setting inner (.record kind) := by
  intro s a t hr
  cases hr
  rfl

theorem fail (problem : Problem) : Quiet setting inner (.fail problem : Rule α) := by
  intro s a t hr
  cases hr

theorem ite {condition : Prop} [Decidable condition] {rule other : Rule α}
    (h : Quiet setting inner rule) (ho : Quiet setting inner other) :
    Quiet setting inner (if condition then rule else other) := by
  split
  · exact h
  · exact ho

theorem loop {step : α → Rule (Option α)} (h : ∀ a, Quiet setting inner (step a)) (a : α) :
    Quiet setting inner (.loop step a) := by
  intro s b t hr
  refine loop_induct (p := fun _ u => u.problems = s.problems) (fun c u next v hu hv => ?_) rfl hr
  exact (h c u next v hv).trans hu

theorem many {rule : Rule (Option α)} (h : Quiet setting inner rule) (start : List α) :
    Quiet setting inner (many rule start) := loop (fun _ => bind h fun _ => pure _) start

theorem optionally {condition : Rule Bool} {rule : Rule α} (hc : Quiet setting inner condition)
    (h : Quiet setting inner rule) : Quiet setting inner (optionally condition rule) :=
  bind hc fun _ => ite (bind h fun _ => pure _) (pure _)

theorem isAt (kind : TokenKind) : Quiet setting inner (isAt kind) :=
  bind (look _) fun _ => pure _

theorem consume (kind : TokenKind) : Quiet setting inner (consume kind) :=
  bind (isAt kind) fun _ => ite (bind advance fun _ => pure _) (pure _)

theorem expect (kind : TokenKind) : Quiet setting inner (expect kind) :=
  bind (isAt kind) fun _ => ite advance (fail _)

theorem atVariable : Quiet setting inner atVariable := bind (look _) fun _ => pure _

theorem atVariableBefore (kind : TokenKind) : Quiet setting inner (atVariableBefore kind) :=
  bind atVariable fun _ => ite (bind (look _) fun _ => pure _) (pure _)

end Rule.Quiet

/-! ### What is made of an operand -/

/-- What a suffix stands behind. -/
def Expression.base? : Expression → Option Expression
  | .property base _ _ | .index base _ _ | .slice base _ _ _ | .hasLabels base _ _ => some base
  | _ => none

namespace Grammar

/-- **The expressions that an operator makes** of a chain and its right operand. -/
def Chain.joined (chain : Chain) (operator : BinaryOperator) (right : Expression) :
    List Expression :=
  if operator.isComparison then
    match chain.last with
    | some left => [join .and chain.tree (join operator left right), join operator left right]
    | none => [join operator chain.tree right]
  else [join operator chain.tree right]

theorem Chain.exists_of_mem_joined {chain : Chain} {operator : BinaryOperator}
    {right e : Expression} (h : e ∈ chain.joined operator right) :
    ∃ other l r, e = join other l r := by
  unfold joined at h
  split at h
  · split at h
    · rcases List.mem_cons.1 h with rfl | h
      · exact ⟨_, _, _, rfl⟩
      · exact ⟨_, _, _, List.mem_singleton.1 h⟩
    · exact ⟨_, _, _, List.mem_singleton.1 h⟩
  · exact ⟨_, _, _, List.mem_singleton.1 h⟩

end Grammar

/-! ### Ledgers -/

/-- **Nested rules that go on** and keep what has been noted. -/
structure Inner.Steady (inner : Inner) : Prop where
  /-- The cursor moves on. -/
  goesOn : inner.GoesOn
  /-- What has been noted stays noted. -/
  notes {β : Type} (rule : Nested β) (s : State) :
    (inner rule s).Respects (fun _ => True) (fun s t => s.problems <+: t.problems) s

theorem Inner.Steady.prefix_of_done (hi : inner.Steady) {rule : Rule α} {s t : State} {a : α}
    (h : rule.run setting inner s = .done a t) : s.problems <+: t.problems := by
  have := Rule.upkeep_run (upkeep_problems setting) hi.notes rule s
  rwa [h] at this

/-- **A demand on elements that is settled as they are read.** -/
structure Ledger (setting : Setting) where
  /-- The demand on an element. -/
  demand : Element → Prop
  /-- Whether the problems noted are counted. -/
  counts : Prop
  /-- What is known of the cursor wherever it gets. -/
  known : Cursor → Prop
  /-- Moving on, it stays known. -/
  advance {c : Cursor} (h : known c) : known c.advance
  /-- Most elements meet the demand by themselves. -/
  plain {e : Element} (h : e.isPlain = true) : demand e
  /-- A relationship does so because of the tokens it is written by. -/
  relationship {inner : Inner} {s t : State} {r : RelationshipPattern Expression}
    (h : known s.cursor) (steady : inner.Steady)
    (run : Grammar.relationship.run setting inner s = .done r t) : demand (.relationship r)
  /-- An integer does so because of the token it is written by. -/
  integer {c : Cursor} {text : String} {n : Nat} (h : known c) (digits : c.kind = .integer text)
    (value : Grammar.integerValue? text = some n) :
    demand (.expression (.literal (.integer n) c.current.span))
  /-- The least integer does so because of two tokens. -/
  least {c : Cursor} (h : known c) (minus : c.kind = .sign .minus)
    (digits : Grammar.isLeastMagnitude c.advance.kind = true) :
    demand (.expression (.literal (.integer (-Grammar.leastMagnitude))
      ⟨c.current.span.start, c.advance.current.span.stop⟩))
  /-- A call does so because of the name it begins with, which is no quoted name. -/
  call {inner : Inner} {what : String} {s t : State} {name : Ident} (h : known s.cursor)
    (part : s.cursor.kind.isNamePart = true)
    (run : (Grammar.qualifiedName what).run setting inner s = .done name t) (distinct : Bool)
    (arguments : List Expression) (span : Span) :
    demand (.expression (.call name.value distinct arguments span))
  /-- What a suffix makes of an operand does so because of how that has been read. -/
  suffix {room strength : Nat} {s t : State} {chain : Grammar.Chain} {e : Expression}
    (h : known s.cursor)
    (part : Grammar.Partway setting (Rule.runNested setting Grammar.body room) strength s chain t)
    (opens : Grammar.opensSuffix t.cursor.kind = true) (base : e.base? = some chain.tree) :
    demand (.expression e)
  /-- So does a test whether it is missing. -/
  nullTest {room strength : Nat} {s t : State} {chain : Grammar.Chain} (h : known s.cursor)
    (part : Grammar.Partway setting (Rule.runNested setting Grammar.body room) strength s chain t)
    (opens : t.cursor.kind = .keyword .IS) (negated : Bool) (span : Span) :
    demand (.expression (.isNull chain.tree negated span))
  /-- So does what an operator makes of it. -/
  operation {room strength width : Nat} {s t : State} {chain : Grammar.Chain}
    {operator : BinaryOperator} {e right : Expression} (h : known s.cursor)
    (part : Grammar.Partway setting (Rule.runNested setting Grammar.body room) strength s chain t)
    (opens : Grammar.binaryOperator? t.cursor.kind (t.cursor.peek 1) = some (operator, width))
    (joined : e ∈ chain.joined operator right) : demand (.expression e)
  /-- A stand-in for a clause does so unless problems count. -/
  clauseError (span : Span) : demand (.clause (.error span)) ↔ ¬counts
  /-- So does a stand-in for a statement. -/
  statementError (span : Span) : demand (.statement (.error span)) ↔ ¬counts
  /-- A branch must not be empty if problems count. -/
  branch (b : UnionBranch Clause) : demand (.branch b) ↔ (counts → b.clauses ≠ [])
  /-- Nor must the first branch of a query. -/
  query {room : Nat} {kind : ScopeKind} {s t : State} {q : Query} (h : known s.cursor)
    (run : (Grammar.query kind).run setting (Rule.runNested setting Grammar.body room) s =
      .done q t) : demand (.query q) ↔ (counts → q.clauses ≠ [])
  /-- The short form of a subquery is never empty. -/
  patternBody {room : Nat} {s t : State} {q : Query} (h : known s.cursor)
    (run : Grammar.patternBody.run setting (Rule.runNested setting Grammar.body room) s =
      .done q t) : demand (.query q)

namespace Ledger

variable (L : Ledger setting)

/-- Some elements meet the demand throughout. -/
def Met (elements : List Element) : Prop := ∀ e ∈ elements, e.Throughout L.demand

/-- Nothing has been noted between two states, as far as problems count. -/
def Still (s t : State) : Prop := L.counts → t.problems = s.problems

variable {L} {a b : List Element} {s t u : State}

theorem met_nil : L.Met [] := fun _ h => absurd h List.not_mem_nil

theorem met_append : L.Met (a ++ b) ↔ L.Met a ∧ L.Met b := List.forall_mem_append

theorem met_congr (h : ∀ e, e ∈ a ↔ e ∈ b) : L.Met a ↔ L.Met b :=
  forall_congr' fun e => by rw [h e]

theorem met_singleton {e : Element} : L.Met [e] ↔ L.demand e ∧ L.Met e.children :=
  List.forall_mem_singleton.trans Element.throughout_iff

theorem still_of_eq (h : t.problems = s.problems) : L.Still s t := fun _ => h

/-- All that counts are the problems. -/
theorem still_congr (h : u.problems = t.problems) : L.Still s u ↔ L.Still s t := by
  rw [Still, Still, h]

theorem still_trans (hst : s.problems <+: t.problems) (htu : t.problems <+: u.problems) :
    L.Still s u ↔ L.Still s t ∧ L.Still t u := by
  constructor
  · intro h
    refine ⟨fun hc => ?_, fun hc => ?_⟩
    · rw [h hc] at htu
      exact List.IsPrefix.eq_of_length htu (Nat.le_antisymm htu.length_le hst.length_le)
    · rw [h hc] at htu ⊢
      exact (List.IsPrefix.eq_of_length htu (Nat.le_antisymm htu.length_le hst.length_le)).symm
  · exact fun ⟨hst, htu⟩ hc => (htu hc).trans (hst hc)

theorem onward {c c' : Cursor} (h : L.known c) (ho : c.Onward c') : L.known c' :=
  ho.induct (p := L.known) (fun _ => L.advance) h

end Ledger

/-! ### What rules read -/

namespace Rule

section

variable [Composed α] [Composed β]

open Composed (elements)

/-- **What is demanded of the elements that a rule reads**, given those that have been read before:
they meet the demand if and only if those do and nothing is noted on the way. -/
def Accounts (L : Ledger setting) (inner : Inner) (before : List Element) (rule : Rule α)
    (s : State) : Prop :=
  L.known s.cursor → ∀ a t, rule.run setting inner s = .done a t →
    (L.Met (elements a) ↔ L.Met before ∧ L.Still s t)

namespace Accounts

variable {L : Ledger setting} {before : List Element} {s : State}

/-- What is known of the cursor may be used. -/
theorem assuming {rule : Rule α} (h : L.known s.cursor → Accounts L inner before rule s) :
    Accounts L inner before rule s := fun hk => h hk hk

theorem pure {a : α} (h : ∀ e, e ∈ elements a ↔ e ∈ before) :
    Accounts L inner before (Pure.pure a) s := by
  intro _ b t hr
  cases hr
  rw [Ledger.met_congr h]
  exact ⟨fun hm => ⟨hm, Ledger.still_of_eq rfl⟩, And.left⟩

theorem fail (problem : Problem) : Accounts L inner before (.fail problem : Rule α) s := by
  intro _ a t hr
  cases hr

/-- What is read first counts along with what is read then, which may hang on it. -/
theorem bindDone (hi : inner.Steady) {rule : Rule β} {next : β → Rule α}
    (h : Accounts L inner [] rule s)
    (hn : ∀ b t, rule.run setting inner s = .done b t →
      Accounts L inner (before ++ elements b) (next b) t) :
    Accounts L inner before (rule >>= next) s := by
  intro hs a u hr
  obtain ⟨b, t, hb, hu⟩ := done_of_bind hr
  have ht := L.onward hs (onward_of_done hi.goesOn hb).cursor
  rw [hn b t hb ht a u hu, Ledger.met_append, h hs b t hb,
    Ledger.still_trans (hi.prefix_of_done hb) (hi.prefix_of_done hu), and_assoc, and_assoc]
  exact and_congr_right fun _ => and_iff_right Ledger.met_nil

/-- What is read first counts along with what is read then. -/
theorem bind (hi : inner.Steady) {rule : Rule β} {next : β → Rule α}
    (h : Accounts L inner [] rule s)
    (hn : ∀ b t, Accounts L inner (before ++ elements b) (next b) t) :
    Accounts L inner before (rule >>= next) s := bindDone hi h fun b t _ => hn b t

/-- What is read first may have no elements. -/
theorem skip (hi : inner.Steady) {rule : Rule γ} {next : γ → Rule α}
    (h : rule.Quiet setting inner)
    (hn : ∀ b t, rule.run setting inner s = .done b t → Accounts L inner before (next b) t) :
    Accounts L inner before (rule >>= next) s := by
  intro hs a u hr
  obtain ⟨b, t, hb, hu⟩ := done_of_bind hr
  have ht := L.onward hs (onward_of_done hi.goesOn hb).cursor
  rw [hn b t hb ht a u hu, Ledger.Still, Ledger.Still, h s b t hb]

/-- A part of the way to the element. -/
theorem part (hi : inner.Steady) {rule : Rule β} {next : β → Rule α}
    (h : Accounts L inner before rule s)
    (hn : ∀ b t, Accounts L inner (elements b) (next b) t) :
    Accounts L inner before (rule >>= next) s := by
  intro hs a u hr
  obtain ⟨b, t, hb, hu⟩ := done_of_bind hr
  have ht := L.onward hs (onward_of_done hi.goesOn hb).cursor
  rw [hn b t ht a u hu, h hs b t hb,
    Ledger.still_trans (hi.prefix_of_done hb) (hi.prefix_of_done hu), and_assoc]

theorem look {view : View γ} {next : γ → Rule α}
    (h : Accounts L inner before (next (view.read setting s)) s) :
    Accounts L inner before (.look view >>= next) s := by
  intro hs a u hr
  exact h hs a u hr

theorem ite {condition : Prop} [Decidable condition] {rule other : Rule α}
    (h : condition → Accounts L inner before rule s)
    (ho : ¬condition → Accounts L inner before other s) :
    Accounts L inner before (if condition then rule else other) s := by
  split
  · exact h ‹_›
  · exact ho ‹_›

theorem startHere {next : Nat → Rule α} (h : Accounts L inner before (next s.cursor.front) s) :
    Accounts L inner before (startHere >>= next) s := by
  intro hs a u hr
  exact h hs a u hr

/-- Where subqueries are at hand, they are not in the way. -/
theorem requireSubqueries {feature : String} {next : Unit → Rule α}
    (h : Accounts L inner before (next ()) s) :
    Accounts L inner before (.requireSubqueries feature >>= next) s := by
  intro hs a u hr
  by_cases hsub : setting.rules.subqueries = true
  · rw [run_bind_done (run_requireSubqueries_done hsub)] at hr
    exact h hs a u hr
  · rw [run_bind_failed (run_requireSubqueries_failed hsub)] at hr
    cases hr

/-- Values that are made of names meet every demand. -/
theorem names {rule : Rule α} (h : rule.Quiet setting inner)
    (ha : ∀ a : α, ∀ e ∈ elements a, ∃ name, e = .name name) : Accounts L inner [] rule s := by
  intro _ a t hr
  refine iff_of_true (fun e he => ?_) ⟨Ledger.met_nil, Ledger.still_of_eq (h s a t hr)⟩
  obtain ⟨name, rfl⟩ := ha a e he
  exact Element.throughout_iff.2 ⟨L.plain rfl, fun c hc => absurd hc List.not_mem_nil⟩

/-- **An element around all that has been read for it**, which meets the demand itself. -/
theorem closed {a : α} {e : Element} (ha : elements a = [e]) (he : L.demand e)
    (hc : ∀ c, c ∈ e.children ↔ c ∈ before) : Accounts L inner before (Pure.pure a) s := by
  intro _ b t hr
  cases hr
  rw [ha, Ledger.met_singleton, Ledger.met_congr hc]
  exact ⟨fun hm => ⟨hm.2, Ledger.still_of_eq rfl⟩, fun hm => ⟨he, hm.1⟩⟩

/-- Most elements do. -/
theorem close {a : α} {e : Element} (ha : elements a = [e]) (he : e.isPlain = true)
    (hc : ∀ c, c ∈ e.children ↔ c ∈ before) : Accounts L inner before (Pure.pure a) s :=
  closed ha (L.plain he) hc

/-- An element with the same children takes the place of another. -/
theorem recast {a : α} {e e' : Element} (ha : elements a = [e']) (he : e.isPlain = true)
    (he' : e'.isPlain = true) (hc : e'.children = e.children) :
    Accounts L inner [e] (Pure.pure a) s := by
  intro _ b t hr
  cases hr
  rw [ha, Ledger.met_singleton, Ledger.met_singleton, hc]
  exact ⟨fun hm => ⟨⟨L.plain he, hm.2⟩, Ledger.still_of_eq rfl⟩, fun hm => ⟨L.plain he', hm.1.2⟩⟩

end Accounts

/-! ### Repetitions and scopes -/

section Repetitions

variable {L : Ledger setting} {before : List Element} {s : State} (hi : inner.Steady)

include hi

theorem accounts_optionally {condition : Rule Bool} {rule : Rule α}
    (hc : condition.Quiet setting inner)
    (h : ∀ t, condition.run setting inner s = .done true t → Accounts L inner [] rule t) :
    Accounts L inner [] (optionally condition rule) s := by
  refine .skip hi hc fun b t hb => ?_
  cases b with
  | false => exact .pure fun _ => .rfl
  | true => exact .bind hi (h t hb) fun a u => .pure (by simp [elements])

theorem accounts_skipIf {condition : Rule Bool} {rule : Rule α}
    (hc : condition.Quiet setting inner) (h : ∀ t, Accounts L inner [] rule t) :
    Accounts L inner [] (skipIf condition rule) s := by
  refine .skip hi hc fun b t _ => ?_
  cases b with
  | true => exact .pure fun _ => .rfl
  | false => exact .bind hi (h t) fun a u => .pure (by simp [elements])

/-- Reading many adds to what has been read. -/
theorem accounts_manyFrom {rule : Rule (Option α)} (h : ∀ t, Accounts L inner [] rule t)
    (items : List α) : Accounts L inner (elements items) (many rule items) s := by
  intro hs all t hr
  refine (loop_induct (p := fun found u => s.Onward u ∧ s.problems <+: u.problems ∧
    (L.Met (elements found) ↔ L.Met (elements items) ∧ L.Still s u))
    (fun found u next w hu hw => ?_)
    ⟨.refl s, List.prefix_rfl, fun hm => ⟨hm, Ledger.still_of_eq rfl⟩, And.left⟩ hr).2.2
  obtain ⟨hsu, hkept, hmet⟩ := hu
  obtain ⟨one, v, hv, hw⟩ := done_of_bind hw
  cases hw
  have hone := h u (L.onward hs hsu.cursor) one w hv
  have hnotes := hi.prefix_of_done hv
  refine ⟨hsu.trans (onward_of_done hi.goesOn hv), hkept.trans hnotes, ?_⟩
  have hall : ∀ e, e ∈ elements ((one.map fun item => found ++ [item]).getD found) ↔
      e ∈ elements found ++ elements one := by cases one <;> simp [elements]
  rw [Ledger.met_congr hall, Ledger.met_append, hmet, hone, Ledger.still_trans hkept hnotes,
    and_assoc]
  exact and_congr_right fun _ => and_congr_right fun _ => and_iff_right Ledger.met_nil

theorem accounts_many {rule : Rule (Option α)} (h : ∀ t, Accounts L inner [] rule t) :
    Accounts L inner [] (many rule []) s := accounts_manyFrom hi h []

theorem accounts_separated {rule : Rule α} (h : ∀ t, Accounts L inner [] rule t) :
    Accounts L inner [] (separated rule) s := by
  refine .bind hi (h s) fun first t => ?_
  have hmany : Accounts L inner (elements [first]) _ t := accounts_manyFrom hi
    (fun u => accounts_optionally hi (.consume (.sign .comma)) fun v _ => h v) [first]
  simpa [elements] using hmany

theorem accounts_listUntil {close : Sign} {rule : Rule α}
    (h : ∀ t, Accounts L inner [] rule t) : Accounts L inner [] (listUntil close rule) s := by
  refine .skip hi (.isAt _) fun b t _ => ?_
  exact .ite (fun _ => .pure fun _ => .rfl) fun _ => accounts_separated hi h

omit hi in
theorem accounts_inScope {kind : ScopeKind} {rule : Rule α}
    (h : ∀ t, Accounts L inner before rule t) : Accounts L inner before (.inScope kind rule) s := by
  intro hs a t hr
  rw [run] at hr
  cases hrun : rule.run setting inner { s with scopes := s.scopes.push kind } with
  | done b u =>
    rw [hrun] at hr
    cases hr
    exact h { s with scopes := s.scopes.push kind } hs a u hrun
  | failed d u =>
    rw [hrun] at hr
    cases hr

end Repetitions

end

end Rule

/-- **Nested rules whose elements are accounted for.** -/
structure Inner.Accounts (L : Ledger setting) (inner : Inner) : Prop where
  /-- They go on. -/
  steady : inner.Steady
  /-- Expressions are accounted for. -/
  expression (strength : Nat) (s : State) :
    Rule.Accounts L inner [] (.nested (.expression strength)) s
  /-- So are the bodies of subqueries. -/
  subquery (s : State) : Rule.Accounts L inner [] (.nested .subquery) s
  /-- So are the bodies of existence tests. -/
  existsBody (s : State) : Rule.Accounts L inner [] (.nested .existsBody) s

end Cypher
