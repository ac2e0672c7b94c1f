import Cypher.Proofs.Excerpt.Alone
import Cypher.Proofs.Guess.Target

/-!
# Merges and how they are written

A merge is written as its word, a path and any number of actions. An action names the event it waits
for and then has assignments, with commas between them, each in one of four forms. What is within an
assignment may be anything that can be read alone: a property, an expression, labels.

The words that introduce an action are words that begin clauses elsewhere. An action goes as far as
its last assignment does, and that goes as far as its value. So all depends on that the value is not
read any further than it would be alone (`Cypher.Grammar.readsFrom_expression`). Then each
assignment is read as it is written (`Cypher.Grammar.readsFrom_setItem`), each repetition stops in
front of what does not belong to it (`Cypher.Rule.ReadsFrom.many`), and a merge is read as a whole
(`Cypher.Grammar.readsFrom_clause`).
-/

namespace Cypher

variable {setting : Setting} {inner : Inner} {α : Type}

open Token (hull)

/-! ### Things in turn -/

/-- **Things that are written in turn**, given how each of them is written. -/
inductive InTurn (written : α → List Token → Prop) : List α → List Token → Prop
  /-- Nothing. -/
  | nil : InTurn written [] []
  /-- One thing and others behind it. -/
  | cons {a : α} {as : List α} {w v : List Token} (first : written a w)
    (others : InTurn written as v) : InTurn written (a :: as) (w ++ v)

/-- Something with a comma before it. -/
inductive BehindComma (written : α → List Token → Prop) : α → List Token → Prop
  | intro {a : α} {t : Token} {w : List Token} (comma : t.kind = .sign .comma)
    (one : written a w) : BehindComma written a (t :: w)

/-- **One thing or more, with commas between them.** -/
inductive InList (written : α → List Token → Prop) : List α → List Token → Prop
  | intro {a : α} {as : List α} {w v : List Token} (first : written a w)
    (others : InTurn (BehindComma written) as v) : InList written (a :: as) (w ++ v)

/-! ### The parts of a merge -/

/-- The name that a token gives to a variable. -/
def Token.ident? (t : Token) : Option Ident :=
  match t.kind with
  | .identifier name | .quotedIdentifier name => some ⟨name, t.span⟩
  | _ => none

/-- Tokens that begin with a variable and a colon, as labels do that are set. -/
def OpensLabels : List Token → Prop
  | t :: u :: _ => t.kind.isVariable = true ∧ u.kind = .sign .colon
  | _ => False

open Grammar (ReadsAlone)

/-- **Tokens that write an assignment.** -/
inductive SetItem.Written (setting : Setting) : SetItem Expression → List Token → Prop
  /-- `property = value`. -/
  | property {target value : Expression} {u : Token} {v w : List Token}
    (left : ReadsAlone setting Grammar.suffixed v target) (isProperty : target.isProperty = true)
    (unlabelled : ¬OpensLabels v) (equals : u.kind = .sign .eq)
    (right : ReadsAlone setting Grammar.expression w value) :
    Written setting (.property target value (hull (v ++ u :: w))) (v ++ u :: w)
  /-- `variable = value`. -/
  | replace {name : Ident} {value : Expression} {t u : Token} {w : List Token}
    (left : t.ident? = some name) (equals : u.kind = .sign .eq)
    (right : ReadsAlone setting Grammar.expression w value) :
    Written setting (.replace name value (hull (t :: u :: w))) (t :: u :: w)
  /-- `variable += value`. -/
  | merge {name : Ident} {value : Expression} {t u : Token} {w : List Token}
    (left : t.ident? = some name) (adds : u.kind = .sign .plusEq)
    (right : ReadsAlone setting Grammar.expression w value) :
    Written setting (.merge name value (hull (t :: u :: w))) (t :: u :: w)
  /-- `variable:Label`, with any number of labels. -/
  | labels {name : Ident} {names : List Ident} {t : Token} {w : List Token}
    (left : t.ident? = some name) (right : ReadsAlone setting Grammar.labels w names) :
    Written setting (.labels name names (hull (t :: w))) (t :: w)

/-- The word for an event. -/
def MergeEvent.word : MergeEvent → Keyword
  | onCreate => .CREATE
  | onMatch => .MATCH

/-- **Tokens that write an action of a merge.** -/
inductive MergeAction.Written (setting : Setting) : MergeAction Expression → List Token → Prop
  | intro {e : MergeEvent} {items : List (SetItem Expression)} {t u v : Token} {w : List Token}
    (first : t.kind = .keyword .ON) (second : u.kind = .keyword e.word)
    (third : v.kind = .keyword .SET) (assignments : InList (SetItem.Written setting) items w) :
    Written setting ⟨e, items, hull (t :: u :: v :: w)⟩ (t :: u :: v :: w)

/-- **Tokens that write a merge** of a path with some actions. -/
inductive MergeWritten (setting : Setting) (part : PatternPart Expression)
    (actions : List (MergeAction Expression)) : List Token → Prop
  | intro {word : Token} {v w : List Token} (first : word.kind = .keyword .MERGE)
    (path : ReadsAlone setting Grammar.patternPart v part)
    (others : InTurn (MergeAction.Written setting) actions w) :
    MergeWritten setting part actions (word :: (v ++ w))

/-! ### Where parts end -/

namespace TokenKind

/-- Whether a clause ends in front of a token. -/
def endsClause (kind : TokenKind) : Bool := kind.startsClause || kind.endsClauses true

/-- Whether an action of a merge ends in front of a token: there is another one, or the merge ends,
too. -/
def endsAction (kind : TokenKind) : Bool := kind = .keyword .ON || kind.endsClause

/-- Whether an assignment ends in front of a token: there is another one, or the action ends,
too. -/
def endsAssignment (kind : TokenKind) : Bool := kind = .sign .comma || kind.endsAction

theorem endsAction_of_endsClause {kind : TokenKind} (h : kind.endsClause = true) :
    kind.endsAction = true := by
  rw [endsAction, h, Bool.or_true]

theorem endsAssignment_of_endsAction {kind : TokenKind} (h : kind.endsAction = true) :
    kind.endsAssignment = true := by
  rw [endsAssignment, h, Bool.or_true]

theorem ne_comma_of_endsAction {kind : TokenKind} (h : kind.endsAction = true) :
    kind ≠ .sign .comma := by
  rintro rfl
  cases h

theorem ne_on_of_endsClause {kind : TokenKind} (h : kind.endsClause = true) :
    kind ≠ .keyword .ON := by
  rintro rfl
  cases h

theorem isBorder_of_endsAssignment {kind : TokenKind} (h : kind.endsAssignment = true) :
    kind.isBorder = true := by
  cases kind with
  | sign s => cases s <;> first | rfl | cases h
  | keyword word => rfl
  | endOfInput => rfl
  | _ => cases h

end TokenKind

/-- An action of a merge begins where another may end. -/
theorem MergeAction.Written.exists_first {a : MergeAction Expression} {w : List Token}
    (h : MergeAction.Written setting a w) : ∃ x xs, w = x :: xs ∧ x.kind.endsAction = true := by
  cases h with
  | intro hon _ _ _ => exact ⟨_, _, rfl, by rw [hon]; rfl⟩

/-- **No expression goes on where an assignment ends.** -/
theorem stops_of_endsAssignment {kind : TokenKind} (h : kind.endsAssignment = true)
    (kinds : List TokenKind) : Stops 0 (kind :: kinds) := by
  cases kind with
  | sign s => cases s <;> first | (cases h; done) | exact ⟨nofun, nofun, nofun⟩
  | keyword word => cases word <;> first | (cases h; done) | exact ⟨nofun, nofun, nofun⟩
  | endOfInput => exact ⟨nofun, nofun, nofun⟩
  | _ => cases h

/-- Nor does a property in front of the sign of an assignment. -/
theorem stops_of_assigns {sign : Sign} (h : sign = .eq ∨ sign = .plusEq)
    (kinds : List TokenKind) : Stops Grammar.suffixStrength (.sign sign :: kinds) := by
  rcases h with rfl | rfl
  · refine ⟨nofun, nofun, fun operator width h => ?_⟩
    cases h
    decide
  · exact ⟨nofun, nofun, nofun⟩

/-! ### Reading in turn -/

/-- Where things are written in turn, an end comes next: that of all, or the beginning of one
of the things. -/
theorem InTurn.exists_edge {written : α → List Token → Prop} {ends : TokenKind → Bool}
    {as : List α} {v : List Token} {edge : Token} (h : InTurn written as v) (beyond : List Token)
    (hbegins : ∀ a w, written a w → ∃ x xs, w = x :: xs ∧ ends x.kind = true)
    (hedge : ends edge.kind = true) :
    ∃ x xs, v ++ edge :: beyond = x :: xs ∧ ends x.kind = true := by
  cases h with
  | nil => exact ⟨edge, beyond, rfl, hedge⟩
  | cons first others =>
    obtain ⟨x, xs, rfl, hx⟩ := hbegins _ _ first
    exact ⟨x, _, rfl, hx⟩

namespace Rule

variable {s t : State} {a : α} {w v : List Token} {rule : Rule α}

theorem ReadsFrom.congr {other : Rule α} (h : ReadsFrom setting inner rule w a s)
    (heq : other.run setting inner s = rule.run setting inner s) :
    ReadsFrom setting inner other w a s := by
  obtain ⟨t, hr, ho, hw⟩ := h
  exact ⟨t, heq.trans hr, ho, hw⟩

/-- Something that may be there, and is. -/
theorem ReadsFrom.optionally {condition : Rule Bool}
    (hc : condition.run setting inner s = .done true s) (h : ReadsFrom setting inner rule w a s) :
    ReadsFrom setting inner (Rule.optionally condition rule) w (some a) s := by
  obtain ⟨t, hr, ho, hw⟩ := h
  refine ⟨t, ?_, ho, hw⟩
  rw [run_optionally_true hc, hr]
  rfl

/-- Something that may be there behind a sign, and is. -/
theorem ReadsFrom.behindSign {sign : Sign} {u : Token} {tail : List Token}
    (hr : s.cursor.rest = u :: tail) (ht : tail ≠ []) (hk : u.kind = .sign sign)
    (h : s.Onward s.step → s.cursor.Across [u] s.step.cursor →
      ReadsFrom setting inner rule w a s.step) :
    ReadsFrom setting inner (Rule.optionally (takeSign sign) rule) (u :: w) (some a) s := by
  obtain ⟨hacross, hkind⟩ := Cursor.across_advance hr ht
  have ho : s.Onward s.step := ⟨s.cursor.onward_advance, ⟨[], rfl⟩, rfl⟩
  obtain ⟨t, hrun, hot, hw⟩ := h ho hacross
  refine ⟨t, ?_, ho.trans hot, hacross.trans hw⟩
  rw [run_optionally_true (run_consume_of_eq (hkind.trans hk)), hrun]
  rfl

section Row

variable {rule : Rule (Option α)} {written : α → List Token → Prop} {all : List Token}

/-- **A repetition reads things in turn**, if it reads each of them up to an end, and nothing
behind the last. -/
theorem ReadsFrom.many (ends : TokenKind → Bool) (hi : inner.GoesOn)
    (hmoves : ∀ t, MovesOn setting inner (fun a => a.isSome) rule t)
    (hbegins : ∀ a w, written a w → ∃ x xs, w = x :: xs ∧ ends x.kind = true)
    (hone : ∀ a w t edge beyond, written a w → t.Midway all →
      t.cursor.rest = w ++ edge :: beyond → ends edge.kind = true →
      ReadsFrom setting inner rule w (some a) t)
    {edge : Token} {beyond : List Token} (hedge : ends edge.kind = true)
    (hend : ∀ t : State, t.cursor.rest = edge :: beyond →
      rule.run setting inner t = .done none t)
    {as : List α} (h : InTurn written as v) (hs : s.Midway all)
    (hr : s.cursor.rest = v ++ edge :: beyond) (items : List α) :
    ReadsFrom setting inner (Rule.many rule items) v (items ++ as) s := by
  induction h generalizing s items with
  | nil =>
    rw [List.append_nil]
    exact ⟨s, run_many_none (hend s hr), .refl s, .refl _⟩
  | @cons a as w v first others ih =>
    rw [List.append_assoc] at hr
    obtain ⟨x, xs, hx, hends⟩ := others.exists_edge beyond hbegins hedge
    obtain ⟨t, hone, ho, hw⟩ := hone a w s x xs first hs (hx ▸ hr) hends
    obtain ⟨u, hmany, ho', hv⟩ := ih (hs.onward ho) (hw.rest_eq hr) (items ++ [a])
    refine ⟨u, ?_, ho.trans ho', hw.trans hv⟩
    rw [run_many hi hs.around.closed fun t _ => hmoves t, hone, Outcome.andThen_done]
    simpa using hmany

end Row

end Rule

/-! ### Assignments -/

namespace Grammar

open Rule hiding pure bind
open Rule (ReadsFrom)

variable {s : State} {tail : List Token}

theorem readsFrom_variableName {t : Token} {name : Ident} (hr : s.cursor.rest = t :: tail)
    (ht : tail ≠ []) (hname : t.ident? = some name) :
    ReadsFrom setting inner variableName [t] name s := by
  obtain ⟨hacross, -⟩ := Cursor.across_advance hr ht
  refine ⟨s.step, ?_, ⟨s.cursor.onward_advance, ⟨[], rfl⟩, rfl⟩, hacross⟩
  obtain ⟨rfl, -⟩ := List.cons.inj hr
  rw [variableName, here, run_bind, run_look, Outcome.andThen_done, View.read]
  cases hk : s.cursor.current.kind with
  | identifier x =>
    rw [Token.ident?, hk] at hname
    cases hname
    rfl
  | quotedIdentifier x =>
    rw [Token.ident?, hk] at hname
    cases hname
    rfl
  | _ =>
    rw [Token.ident?, hk] at hname
    cases hname

/-- A variable and the sign behind it. -/
theorem readsFrom_assigned {t sign : Token} {name : Ident} (hr : s.cursor.rest = t :: sign :: tail)
    (ht : tail ≠ []) (hname : t.ident? = some name) :
    ReadsFrom setting inner assigned [t, sign] name s := by
  refine .bind (v := [t]) (w := [sign])
    (readsFrom_variableName hr (List.cons_ne_nil _ _) hname) fun u _ hw => ?_
  have hsign : ReadsFrom setting inner (Rule.advance >>= fun _ => Pure.pure name) [sign] name u :=
    .advance (hw.rest_eq (w := [t]) hr) ht fun _ _ => .pure name _
  exact .congr hsign rfl

theorem isVariable_of_rest {t : Token} {name : Ident} (hr : s.cursor.rest = t :: tail)
    (hname : t.ident? = some name) : s.cursor.kind.isVariable = true := by
  obtain ⟨rfl, -⟩ := List.cons.inj hr
  rw [Cursor.kind]
  cases hk : s.cursor.current.kind with
  | identifier x => rfl
  | quotedIdentifier x => rfl
  | _ =>
    rw [Token.ident?, hk] at hname
    cases hname

theorem peek_one_of_rest {t u : Token} {us : List Token} (hr : s.cursor.rest = t :: u :: us) :
    s.cursor.peek 1 = u.kind :=
  State.peek_one (s := s) (congrArg (List.map Token.kind) hr)

/-- A variable in front of a sign is the whole operand, if that sign neither goes on with a name nor
opens a list of arguments. -/
theorem eq_step_of_leading {t : State} {e : Expression} {x : Token} {xs : List Token}
    (hv : s.cursor.kind.isVariable = true) (ha : s.cursor.ahead = x :: xs)
    (hdot : x.kind ≠ .sign .dot) (hparen : x.kind ≠ .sign .leftParen)
    (hr : leading.run setting inner s = .done e t) : t = s.step ∧ e.isProperty = false := by
  have hunary : unaryOperator? s.cursor.kind = none := by
    cases hk : s.cursor.kind <;> first | rfl | (rw [hk] at hv; cases hv)
  rw [run_leading_of_none hunary] at hr
  have hcall : s.cursor.opensCall = false := by
    rw [Cursor.opensCall, ha, Cursor.argumentsFollow_cons hdot, decide_eq_false hparen]
  refine ⟨eq_step_of_operand hv hcall hr, ?_⟩
  have hnone : e.strength? = none :=
    strength?_of_operand (fun he => by rw [he] at hv; cases hv) hr
  cases e <;> first | rfl | cases hnone

/-- **A variable in front of the sign of an assignment is no property**, nor does it begin one. -/
theorem not_isProperty_of_variable {chain : Chain} {t : State} {x : Token}
    {xs : List Token} {sign : Sign} (hv : s.cursor.kind.isVariable = true)
    (ha : s.cursor.ahead = x :: xs) (hx : x.kind = .sign sign)
    (hsign : sign = .eq ∨ sign = .plusEq)
    (hpart : Partway setting inner suffixStrength s chain t) :
    chain.tree.isProperty = false ∧ Stops suffixStrength t.kinds := by
  induction hpart with
  | operand run =>
    have hdot : x.kind ≠ .sign .dot := by rw [hx]; rcases hsign with rfl | rfl <;> nofun
    have hparen : x.kind ≠ .sign .leftParen := by rw [hx]; rcases hsign with rfl | rfl <;> nofun
    obtain ⟨rfl, he⟩ := eq_step_of_leading hv ha hdot hparen run
    refine ⟨he, ?_⟩
    have hstops := stops_of_assigns hsign (xs.map Token.kind)
    rw [State.kinds_eq_cons, State.step, Cursor.advance_of_ahead_eq_cons ha]
    rwa [← hx] at hstops
  | step part run ih => cases (run_of_continues (.stop ih.2)).symm.trans run

/-- So no such sign is the second token of a property. -/
theorem peek_one_ne_of_isProperty {room : Nat} {e : Expression} {t : State} {sign : Sign}
    (hc : s.cursor.Closed) (hv : s.cursor.kind.isVariable = true)
    (hsign : sign = .eq ∨ sign = .plusEq)
    (hr : runNested setting body room (.expression suffixStrength) s = .done e t)
    (he : e.isProperty = true) : s.cursor.peek 1 ≠ .sign sign := by
  intro hnext
  cases room with
  | zero => cases hr
  | succ room =>
    obtain ⟨chain, u, hpart, rfl, -⟩ := partway_of_run hc hr
    obtain ⟨x, xs, ha⟩ := List.exists_cons_of_ne_nil (hc.ahead_ne_nil fun hend => by
      rw [hend] at hv
      cases hv)
    have hx : x.kind = .sign sign := (peek_one_of_rest (s := s) (congrArg _ ha)).symm.trans hnext
    have hnone := not_isProperty_of_variable (s := { s with depth := s.depth + 1 }) hv ha hx hsign
      hpart
    cases hnone.1.symm.trans he

/-- **What an assignment is told apart by** is the sign behind a variable. -/
theorem run_setItem_eq (hv : s.cursor.kind.isVariable = true)
    (hnext : s.cursor.peek 1 = .sign .eq) :
    setItem.run setting inner s = (do
      let name ← assigned
      let value ← expression
      return .replace name value (← look (.spanFrom s.cursor.front)) :
        Rule (SetItem Expression)).run setting inner s := by
  change run setting inner (if s.cursor.kind.isVariable = true then _ else _) s = _
  rw [if_pos hv, run_bind, run_look, Outcome.andThen_done,
    show View.next.read setting s = _ from hnext]
  rfl

theorem run_setItem_plusEq (hv : s.cursor.kind.isVariable = true)
    (hnext : s.cursor.peek 1 = .sign .plusEq) :
    setItem.run setting inner s = (do
      let name ← assigned
      let value ← expression
      return .merge name value (← look (.spanFrom s.cursor.front)) :
        Rule (SetItem Expression)).run setting inner s := by
  change run setting inner (if s.cursor.kind.isVariable = true then _ else _) s = _
  rw [if_pos hv, run_bind, run_look, Outcome.andThen_done,
    show View.next.read setting s = _ from hnext]
  rfl

theorem run_setItem_colon (hv : s.cursor.kind.isVariable = true)
    (hnext : s.cursor.peek 1 = .sign .colon) :
    setItem.run setting inner s = (do
      let name ← variableName
      let labels ← labels
      return .labels name labels (← look (.spanFrom s.cursor.front)) :
        Rule (SetItem Expression)).run setting inner s := by
  change run setting inner (if s.cursor.kind.isVariable = true then _ else _) s = _
  rw [if_pos hv, run_bind, run_look, Outcome.andThen_done,
    show View.next.read setting s = _ from hnext]
  rfl

theorem run_setItem_property (h : s.cursor.kind.isVariable = true →
    s.cursor.peek 1 ≠ .sign .eq ∧ s.cursor.peek 1 ≠ .sign .plusEq ∧
      s.cursor.peek 1 ≠ .sign .colon) :
    setItem.run setting inner s = (propertyAssignment s.cursor.front).run setting inner s := by
  change run setting inner (if s.cursor.kind.isVariable = true then _ else _) s = _
  split
  · next hv =>
    obtain ⟨heq, hplus, hcolon⟩ := h hv
    rw [run_bind, run_look, Outcome.andThen_done]
    split
    · next hk => exact absurd hk heq
    · next hk => exact absurd hk hplus
    · next hk => exact absurd hk hcolon
    · rfl
  · rfl

section Place

variable (hf : setting.forgiving = false) (hp : setting.opensPattern = Cursor.opensPattern)
  {all v beyond : List Token} {edge : Token} (ha : Token.Apart all)
  (hall : ∀ t ∈ all.dropLast, t.kind ≠ .invalid ∧ t.kind ≠ .endOfInput)

omit ha in
include hall in
/-- In the middle of a text, tokens are proper. -/
theorem proper_of_rest (hs : s.Midway all) (hr : s.cursor.rest = v ++ edge :: beyond) :
    ∀ t ∈ v, t.kind ≠ .invalid ∧ t.kind ≠ .endOfInput := by
  intro t ht
  refine hall t ?_
  rw [← hs.around.tokens_eq, Cursor.tokens, hr, List.dropLast_append_of_ne_nil (by simp),
    List.dropLast_append_of_ne_nil (List.cons_ne_nil _ _)]
  exact List.mem_append_right _ (List.mem_append_left _ ht)

include hf hp hall

omit ha in
/-- A value at the end of an assignment. -/
theorem readsFrom_value {value : Expression} (h : ReadsAlone setting expression v value)
    (hs : s.Midway all) (hr : s.cursor.rest = v ++ edge :: beyond)
    (hedge : edge.kind.endsAssignment = true) :
    ReadsFrom setting (runNested setting body setting.limit) expression v value s :=
  readsFrom_expression hp hf hs (proper_of_rest hall hs hr) hr
    (TokenKind.isBorder_of_endsAssignment hedge) h (stops_of_endsAssignment hedge _)

include ha

/-- **A variable, a sign and a value.** -/
theorem readsFrom_assignment {name : Ident} {t sign : Token} {value : Expression}
    {f : Ident → Expression → Span → SetItem Expression} (hname : t.ident? = some name)
    (h : ReadsAlone setting expression v value) (hs : s.Midway all)
    (hr : s.cursor.rest = t :: sign :: v ++ edge :: beyond)
    (hedge : edge.kind.endsAssignment = true) :
    ReadsFrom setting (runNested setting body setting.limit) (do
      let name ← assigned
      let value ← expression
      return f name value (← look (.spanFrom s.cursor.front)))
      (t :: sign :: v) (f name value (hull (t :: sign :: v))) s := by
  have hne : v ++ edge :: beyond ≠ [] := by simp
  refine .bind (v := [t, sign]) (w := v) (readsFrom_assigned hr hne hname) fun x hx hsigns => ?_
  exact .finish (f := f name) (hs.around.tokens_eq ▸ ha) hsigns
    (readsFrom_value hf hp hall h (hs.onward hx) (hsigns.rest_eq (w := [t, sign]) hr) hedge)
    (List.cons_ne_nil _ _) rfl

/-- **A property and its value.** -/
theorem readsFrom_propertyAssignment {target value : Expression} {w : List Token} {sign : Token}
    (left : ReadsAlone setting suffixed v target) (hproperty : target.isProperty = true)
    (hsign : sign.kind = .sign .eq) (right : ReadsAlone setting expression w value)
    (hs : s.Midway all) (hr : s.cursor.rest = v ++ sign :: (w ++ edge :: beyond))
    (hedge : edge.kind.endsAssignment = true) :
    ReadsFrom setting (runNested setting body setting.limit) (propertyAssignment s.cursor.front)
      (v ++ sign :: w) (.property target value (hull (v ++ sign :: w))) s := by
  have htarget : ReadsFrom setting (runNested setting body setting.limit) propertyTarget v target
      s := by
    obtain ⟨t, hrun, ho, hw⟩ := readsFrom_target hp hf hs (proper_of_rest hall hs hr) hr
      (hsign ▸ rfl) left hproperty (hsign ▸ stops_of_assigns (.inl rfl) _)
    refine ⟨t, ?_, ho, hw⟩
    change run setting _ (suffixed >>= _) s = _
    rw [run_bind_done hrun, if_pos hproperty]
    rfl
  refine .bind htarget fun x hx hv => ?_
  have hne : w ++ edge :: beyond ≠ [] := by simp
  refine .expect (hv.rest_eq hr) hne hsign fun hstep hone => ?_
  rw [List.append_cons v sign w]
  exact .finish (hs.around.tokens_eq ▸ ha) (hv.trans hone)
    (readsFrom_value hf hp hall right ((hs.onward hx).onward hstep)
      (hone.rest_eq (w := [sign]) (hv.rest_eq hr)) hedge) (by simp) rfl

/-- **An assignment is read as it is written**, up to where it ends. -/
theorem readsFrom_setItem {item : SetItem Expression} (h : item.Written setting v)
    (hs : s.Midway all) (hr : s.cursor.rest = v ++ edge :: beyond)
    (hedge : edge.kind.endsAssignment = true) :
    ReadsFrom setting (runNested setting body setting.limit) setItem v item s := by
  cases h with
  | @property target value sign v w left isProperty unlabelled equals right =>
    rw [List.append_assoc, List.cons_append] at hr
    refine .congr (readsFrom_propertyAssignment hf hp ha hall left isProperty equals right hs hr
      hedge) (run_setItem_property fun hvariable => ?_)
    obtain ⟨t, hrun, -⟩ := readsFrom_target hp hf hs (proper_of_rest hall hs hr) hr
      (equals ▸ rfl) left isProperty (equals ▸ stops_of_assigns (.inl rfl) _)
    have hne {sign : Sign} (hsign : sign = .eq ∨ sign = .plusEq) :=
      peek_one_ne_of_isProperty hs.around.closed hvariable hsign hrun isProperty
    refine ⟨hne (.inl rfl), hne (.inr rfl), fun hcolon => ?_⟩
    -- the colon would be the second token of the property, or the sign of the assignment
    rcases v with - | ⟨x, - | ⟨y, v⟩⟩
    · rw [Cursor.kind, (List.cons.inj hr).1, equals] at hvariable
      cases hvariable
    · rw [peek_one_of_rest hr, equals] at hcolon
      cases hcolon
    · rw [peek_one_of_rest hr] at hcolon
      exact unlabelled ⟨(List.cons.inj hr).1 ▸ hvariable, hcolon⟩
  | @replace name value t sign w left equals right =>
    have hvariable : s.cursor.kind.isVariable = true := isVariable_of_rest hr left
    exact .congr (readsFrom_assignment (f := .replace) hf hp ha hall left right hs hr hedge)
      (run_setItem_eq hvariable ((peek_one_of_rest hr).trans equals))
  | @merge name value t sign w left adds right =>
    have hvariable : s.cursor.kind.isVariable = true := isVariable_of_rest hr left
    exact .congr (readsFrom_assignment (f := .merge) hf hp ha hall left right hs hr hedge)
      (run_setItem_plusEq hvariable ((peek_one_of_rest hr).trans adds))
  | @labels name names t w left right =>
    have hvariable : s.cursor.kind.isVariable = true := isVariable_of_rest hr left
    have hlabels (x : State) (hx : s.Onward x) (hv : s.cursor.Across [t] x.cursor) :
        ReadsFrom setting (runNested setting body setting.limit) labels w names x :=
      readsFrom_labels hp hf (hs.onward hx) (proper_of_rest hall (hs.onward hx) (hv.rest_eq hr))
        (hv.rest_eq (w := [t]) hr) (TokenKind.isBorder_of_endsAssignment hedge) right
    have hname : ReadsFrom setting (runNested setting body setting.limit) variableName [t] name s :=
      readsFrom_variableName hr (by simp) left
    refine .congr (.bind (v := [t]) hname fun x hx hv =>
      .finish (hs.around.tokens_eq ▸ ha) hv (hlabels x hx hv) (List.cons_ne_nil _ _) rfl)
      (run_setItem_colon hvariable ?_)
    -- there are no labels without a colon
    obtain ⟨x, -, hx, hv⟩ := hname
    obtain ⟨y, hrun, -⟩ := hlabels x hx hv
    obtain ⟨z, zs, hz⟩ := List.exists_cons_of_ne_nil (l := w ++ edge :: beyond) (by simp)
    have hcolon : x.cursor.kind = .sign .colon := by
      by_contra hne
      cases (run_labels_of_ne hne).symm.trans hrun
    rw [peek_one_of_rest (hr.trans (congrArg (t :: ·) hz)), ← hcolon, Cursor.kind,
      (List.cons.inj ((hv.rest_eq (w := [t]) hr).trans hz)).1]

/-- **Assignments are read as they are written**, up to where the last of them ends. -/
theorem readsFrom_setItems {items : List (SetItem Expression)}
    (h : InList (SetItem.Written setting) items v) (hs : s.Midway all)
    (hr : s.cursor.rest = v ++ edge :: beyond) (hedge : edge.kind.endsAction = true) :
    ReadsFrom setting (runNested setting body setting.limit) (separated setItem) v items s := by
  have hi : Inner.GoesOn (runNested setting body setting.limit) :=
    goesOn_runNested setting body setting.limit
  cases h with
  | @intro item items w v first others =>
    have hends : edge.kind.endsAssignment = true :=
      TokenKind.endsAssignment_of_endsAction hedge
    have hbegins : ∀ a w, BehindComma (SetItem.Written setting) a w →
        ∃ x xs, w = x :: xs ∧ x.kind.endsAssignment = true := by
      rintro _ _ ⟨hcomma, -⟩
      exact ⟨_, _, rfl, by rw [hcomma]; rfl⟩
    rw [List.append_assoc] at hr
    obtain ⟨x, xs, hx, hxe⟩ := others.exists_edge beyond hbegins hends
    refine .bind (readsFrom_setItem hf hp ha hall first hs (hx ▸ hr) hxe) fun t ht hw => ?_
    refine .many TokenKind.endsAssignment hi
      (fun t => movesOn_optionally hi (movesOn_takeSign hi .comma t)) hbegins ?_ hends ?_ others
      (hs.onward ht) (hw.rest_eq hr) [item]
    · rintro a _ t edge beyond ⟨hcomma, one⟩ ht hrest hedge
      exact .behindSign hrest (by simp) hcomma fun ho hw =>
        readsFrom_setItem hf hp ha hall one (ht.onward ho) (hw.rest_eq hrest) hedge
    · intro t hrest
      refine run_optionally_false (run_consume_of_ne ?_)
      rw [Cursor.kind, (List.cons.inj hrest).1]
      exact TokenKind.ne_comma_of_endsAction hedge

/-! ### Actions -/

omit hf hp ha hall in
theorem readsFrom_mergeEvent {event : MergeEvent} {t : Token} (hr : s.cursor.rest = t :: tail)
    (ht : tail ≠ []) (hk : t.kind = .keyword event.word) :
    ReadsFrom setting inner mergeEvent [t] event s := by
  obtain ⟨hacross, hkind⟩ := Cursor.across_advance hr ht
  refine ⟨s.step, ?_, ⟨s.cursor.onward_advance, ⟨[], rfl⟩, rfl⟩, hacross⟩
  have hword : s.cursor.kind = .keyword event.word := hkind.trans hk
  have htake : (takeWord event.word).run setting inner s = .done true s.step :=
    run_consume_of_eq hword
  cases event with
  | onCreate =>
    change (takeWord .CREATE).run setting inner s = _ at htake
    rw [mergeEvent, run_bind_done htake]
    rfl
  | onMatch =>
    change (takeWord .MATCH).run setting inner s = _ at htake
    rw [mergeEvent, run_bind_done (run_consume_of_ne (by rw [hword]; decide)),
      if_neg Bool.false_ne_true, run_bind_done htake]
    rfl

/-- **An action is read as it is written**, up to another one or the end of the merge. -/
theorem readsFrom_mergeAction {action : MergeAction Expression} (h : action.Written setting v)
    (hs : s.Midway all) (hr : s.cursor.rest = v ++ edge :: beyond)
    (hedge : edge.kind.endsAction = true) :
    ReadsFrom setting (runNested setting body setting.limit)
      (Rule.optionally (atWord .ON) mergeAction) v (some action) s := by
  cases h with
  | @intro event items on word set w first second third assignments =>
    have hon : s.cursor.kind = .keyword .ON := by rw [Cursor.kind, (List.cons.inj hr).1, first]
    refine .optionally (by rw [atWord, run_isAt, decide_eq_true hon]) ?_
    refine .advance hr (by simp) fun hx hone => ?_
    have hrest : s.step.cursor.rest = word :: set :: (w ++ edge :: beyond) :=
      hone.rest_eq (w := [on]) hr
    refine .bind (v := [word]) (readsFrom_mergeEvent hrest (by simp) second) fun y hy htwo => ?_
    have hrest' : y.cursor.rest = set :: (w ++ edge :: beyond) := htwo.rest_eq (w := [word]) hrest
    refine .expect hrest' (by simp) third fun hz hthree => ?_
    exact .finish (f := fun items span => (⟨event, items, span⟩ : MergeAction Expression))
      (hs.around.tokens_eq ▸ ha) ((hone.trans htwo).trans hthree)
      (readsFrom_setItems hf hp ha hall assignments (((hs.onward hx).onward hy).onward hz)
        (hthree.rest_eq (w := [set]) hrest') hedge) (List.cons_ne_nil _ _)
      (congrArg (·.span.start) (List.cons.inj hr).1).symm

/-- **A merge is read as it is written.** -/
theorem readsFrom_clause {part : PatternPart Expression} {actions : List (MergeAction Expression)}
    (h : MergeWritten setting part actions v) (hs : s.cursor.Over all)
    (hscope : 0 < s.scopes.depth) (hr : s.cursor.rest = v ++ edge :: beyond)
    (hedge : edge.kind.endsClause = true) :
    ReadsFrom setting (runNested setting body setting.limit) clause v
      (.mergePart part actions (hull v)) s := by
  have hi : Inner.GoesOn (runNested setting body setting.limit) :=
    goesOn_runNested setting body setting.limit
  have hends : edge.kind.endsAction = true := TokenKind.endsAction_of_endsClause hedge
  have hbegins (a : MergeAction Expression) (w : List Token)
      (h : MergeAction.Written setting a w) : ∃ x xs, w = x :: xs ∧ x.kind.endsAction = true :=
    h.exists_first
  cases h with
  | @intro word v w first path others =>
    have hk : s.cursor.current.kind = .keyword .MERGE := by rw [(List.cons.inj hr).1, first]
    have hclause : clause.run setting (runNested setting body setting.limit) s =
        mergeClause.run setting (runNested setting body setting.limit) s := by
      rw [clause, here, run_bind, run_look, Outcome.andThen_done, View.read, hk]
    refine .congr ?_ hclause
    refine .advance hr (by simp) fun hx hone => ?_
    have hpassed : s.step.cursor.behind ≠ [] := fun hnil => by
      have hbehind := hone.2
      rw [hnil] at hbehind
      exact List.append_ne_nil_of_right_ne_nil _ (List.cons_ne_nil _ _) hbehind.symm
    have hmidway : s.step.Midway all :=
      ⟨hs.onward hx.cursor, hpassed, hx.depth_scopes ▸ hscope⟩
    have hrest : s.step.cursor.rest = v ++ (w ++ edge :: beyond) := by
      rw [← List.append_assoc]
      exact hone.rest_eq (w := [word]) hr
    obtain ⟨x, xs, hxs, hxe⟩ := others.exists_edge beyond hbegins hends
    refine .bind (readsFrom_patternPart hp hf hmidway (proper_of_rest hall hmidway (hxs ▸ hrest))
      (hxs ▸ hrest) (TokenKind.isBorder_of_endsAssignment (TokenKind.endsAssignment_of_endsAction
        hxe)) path) fun y hy hv => ?_
    refine .finish (hs.tokens_eq ▸ ha) (hone.trans hv) ?_ (List.cons_ne_nil _ _) ?_
    · refine .many TokenKind.endsAction hi (movesOn_furtherAction hi) hbegins ?_ hends ?_ others
        (hmidway.onward hy) (hv.rest_eq hrest) []
      · intro a w t edge beyond ha' ht hrest hedge
        exact readsFrom_mergeAction hf hp ha hall ha' ht hrest hedge
      · intro t hrest
        refine run_optionally_false ?_
        rw [atWord, run_isAt, decide_eq_false]
        rw [Cursor.kind, (List.cons.inj hrest).1]
        exact TokenKind.ne_on_of_endsClause hedge
    · exact (congrArg (·.span.start) (List.cons.inj hr).1).symm

end Place

end Grammar

end Cypher
