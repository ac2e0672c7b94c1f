import Cypher.Proofs.Layout.Clause
import Cypher.Proofs.Ledger.Basic
import Cypher.Proofs.Parallel.Boundary

/-!
# The shape of what is read

The types of the trees admit more than is ever read: projections without columns, assignments to
anything but a property, paths of one node that stand for a test. `Cypher.Element.Formed` says what
is asked of an element on its own. Nearly all of this shows in the rule that makes the element. What
does not is that a path that stands for a test has a step: the rule tries to read a path because a
relationship has been seen behind the bracket that closes the first node, and reads the steps, if
any, behind the node that it has read. So the one has to be where the other is.

Both are found by passing brackets, the first by counting them ahead (`Cypher.Cursor.beyond`) and
the second by reading what is between them. Rules that come to their end pass brackets in pairs,
whatever their kind, and the count is not led astray (`Cypher.Cursor.Shuts`). Where a clause could
not be read, though, tokens are skipped inside of braces with no regard to other brackets that they
close. The stand-in for that clause tells, and only where there is none in the first node can the
step be promised.

Hence the judgement `Cypher.Rule.Forms` consists of two parts: what is read is well formed; and if
no stand-in is inside it, then brackets have been passed in pairs.
-/

namespace Cypher

/-! ### What is asked of an element -/

/-- Whether an expression can be the properties of a node or a relationship. -/
def Expression.isProperties : Expression → Bool
  | map .. | parameter .. => true
  | _ => false

/-- Whether an element stands in for what could not be read. -/
def Element.isStandIn : Element → Bool
  | clause (.error _) | statement (.error _) => true
  | _ => false

/-- **An expression of the right shape.** The one negative literal is that of the least integer. A
path that stands for a test has no name; it has a step, or else a stand-in inside its first node. -/
def Expression.Formed : Expression → Prop
  | literal (.integer value) _ => 0 ≤ value ∨ value = -9223372036854775808
  | hasLabels _ labels _ => labels ≠ []
  | case _ alternatives _ _ => alternatives ≠ []
  | quantified _ body => body.projection = none
  | pattern part => part.binder = none ∧ (part.chain = [] →
      ∃ e, (Element.pathNode part.start).Within e ∧ e.isStandIn = true)
  | _ => True

/-- **A projection of the right shape**: it has a column, or else a star. -/
def Projection.Formed (projection : Projection Expression) : Prop :=
  projection.star = true ∨ projection.items ≠ []

/-- **A clause of the right shape.** -/
def Clause.Formed : Clause → Prop
  | .withColumns projection _ | .returnColumns projection _ => projection.Formed
  | .deleteValues _ values _ => values ≠ []
  | .setItems items _ => items ≠ []
  | .removeItems items _ => items ≠ []
  | _ => True

/-- **An element of the right shape**, as far as it goes without what is inside it. -/
def Element.Formed : Element → Prop
  | clause c => Clause.Formed c
  | pattern p => p.parts ≠ []
  | pathNode n => ∀ e ∈ n.properties, e.isProperties = true
  | relationship r => ∀ e ∈ r.properties, e.isProperties = true
  | setItem (.property target _ _) => target.isProperty = true
  | setItem (.labels _ labels _) => labels ≠ []
  | removeItem (.property target) => target.isProperty = true
  | removeItem (.labels _ labels _) => labels ≠ []
  | action a => a.items ≠ []
  | expression e => e.Formed
  | _ => True

/-- **An element that does not stand in for anything.** -/
def Element.Clear (e : Element) : Prop := e.isStandIn = false

namespace Element

variable {demand : Element → Prop} {a b : List Element} {e : Element}

/-- Some elements meet a demand throughout. -/
def All (demand : Element → Prop) (elements : List Element) : Prop :=
  ∀ e ∈ elements, e.Throughout demand

theorem all_nil : All demand [] := fun _ h => absurd h List.not_mem_nil

theorem all_append : All demand (a ++ b) ↔ All demand a ∧ All demand b := List.forall_mem_append

theorem all_congr (h : ∀ e, e ∈ a ↔ e ∈ b) : All demand a ↔ All demand b :=
  forall_congr' fun e => by rw [h e]

theorem all_singleton : All demand [e] ↔ demand e ∧ All demand e.children :=
  List.forall_mem_singleton.trans throughout_iff

/-- Where not everything is clear, there is a stand-in. -/
theorem exists_isStandIn_of_not_all (h : ¬ All Clear [e]) :
    ∃ x, e.Within x ∧ x.isStandIn = true := by
  refine Classical.byContradiction fun hnone => h (List.forall_mem_singleton.2 fun x hx => ?_)
  exact Bool.eq_false_iff.2 fun hs => hnone ⟨x, hx, hs⟩

end Element

/-! ### Brackets passed in pairs -/

/-- Whether a token neither opens nor closes a bracket, does not end the text, and needs no other
token behind it as a dot does. -/
def TokenKind.isLevel : TokenKind → Bool
  | endOfInput | sign .leftParen | sign .leftBracket | sign .leftBrace | sign .rightParen
  | sign .rightBracket | sign .rightBrace | sign .dot => false
  | _ => true

theorem TokenKind.ne_endOfInput_of_isLevel {kind : TokenKind} (h : kind.isLevel = true) :
    kind ≠ .endOfInput := fun he => nomatch he ▸ h

theorem TokenKind.ne_dot_of_isLevel {kind : TokenKind} (h : kind.isLevel = true) :
    kind ≠ .sign .dot := fun he => nomatch he ▸ h

theorem TokenKind.ne_endOfInput_of_isOpening {kind : TokenKind} (h : kind.isOpening = true) :
    kind ≠ .endOfInput := fun he => nomatch he ▸ h

theorem TokenKind.ne_endOfInput_of_isClosing {kind : TokenKind} (h : kind.isClosing = true) :
    kind ≠ .endOfInput := fun he => nomatch he ▸ h

theorem TokenKind.not_isOpening_of_isClosing {kind : TokenKind} (h : kind.isClosing = true) :
    kind.isOpening = false := by
  unfold isClosing at h
  split at h <;> first | rfl | cases h

namespace Cursor

variable {c c' c'' : Cursor} {m n : Nat}

/-- **The tokens beyond** the bracket that closes the outermost of those open at the cursor, of
which there are `depth`. -/
def beyond (c : Cursor) (depth : Nat) : Option (List Token) :=
  afterClose depth (c.current :: c.ahead)

/-- **All of some brackets have been shut**: `opened` brackets that are open at one cursor have been
closed at another, and no others. The end of the text is not passed, and no dot is passed last. -/
def Shuts (opened : Nat) (c c' : Cursor) : Prop :=
  ∃ w, c.current :: c.ahead = w ++ c'.current :: c'.ahead ∧ (∀ t ∈ w, t.kind ≠ .endOfInput) ∧
    (∀ t ∈ w.getLast?, t.kind ≠ .sign .dot) ∧ ∀ outer, openBehind? (outer + opened) w = some outer

theorem Shuts.refl (c : Cursor) : c.Shuts 0 c :=
  ⟨[], rfl, fun _ ht => absurd ht List.not_mem_nil, nofun, fun _ => rfl⟩

/-- First the inner ones and then the outer ones. -/
theorem Shuts.trans (h : c.Shuts m c') (h' : c'.Shuts n c'') : c.Shuts (n + m) c'' := by
  obtain ⟨w, hw, hend, hlast, hopen⟩ := h
  obtain ⟨w', hw', hend', hlast', hopen'⟩ := h'
  refine ⟨w ++ w', by rw [hw, hw', List.append_assoc], fun t ht => ?_, fun t ht => ?_,
    fun outer => ?_⟩
  · exact (List.mem_append.1 ht).elim (hend t) (hend' t)
  · rw [List.getLast?_append] at ht
    exact (Option.or_eq_some_iff.1 ht).elim (hlast' t) fun h => hlast t h.2
  · rw [openBehind?_append, ← Nat.add_assoc, hopen (outer + n), Option.bind_some, hopen' outer]

/-- Brackets further out are closed in the same place. -/
theorem Shuts.beyond_eq (h : c.Shuts m c') (outer : Nat) :
    c.beyond (outer + m + 1) = c'.beyond (outer + 1) := by
  obtain ⟨w, hw, hend, -, hopen⟩ := h
  rw [beyond, hw, beyond]
  exact afterClose_of_openBehind? hend (hopen outer) _

/-- What begins behind a token that is not the last. -/
theorem rest_eq_of_ahead_ne_nil (ha : c.ahead ≠ []) :
    c.current :: c.ahead = c.current :: c.advance.current :: c.advance.ahead := by
  obtain ⟨t, ts, ht⟩ := List.exists_cons_of_ne_nil ha
  rw [advance_of_ahead_eq_cons ht, ht]

/-- One token more is passed first. -/
theorem Shuts.cons (ha : c.ahead ≠ []) (hk : c.kind ≠ .endOfInput) (hdot : c.kind ≠ .sign .dot)
    (hopen : ∀ outer w, openBehind? (outer + m) w = some outer →
      openBehind? (outer + n) (c.current :: w) = some outer) (h : c.advance.Shuts m c') :
    c.Shuts n c' := by
  obtain ⟨w, hw, hend, hlast, hclosed⟩ := h
  refine ⟨c.current :: w, ?_, List.forall_mem_cons.2 ⟨hk, hend⟩, fun t ht => ?_, fun outer => ?_⟩
  · rw [rest_eq_of_ahead_ne_nil ha, hw, List.cons_append]
  · rw [List.getLast?_cons] at ht
    cases hw : w.getLast? with
    | none =>
      rw [hw] at ht
      obtain rfl := Option.some.inj ht
      exact hdot
    | some u =>
      rw [hw] at ht
      obtain rfl := Option.some.inj ht
      exact hlast u hw
  · exact hopen outer w (hclosed outer)

/-- Past an opening bracket, one more is open. -/
theorem beyond_of_isOpening (ha : c.ahead ≠ []) (hk : c.kind.isOpening = true) (depth : Nat) :
    c.beyond depth = c.advance.beyond (depth + 1) := by
  rw [beyond, rest_eq_of_ahead_ne_nil ha, afterClose_opening hk, beyond]

/-- The outermost is shut by a closing one. -/
theorem beyond_one_of_isClosing (ha : c.ahead ≠ []) (hk : c.kind.isClosing = true) :
    c.beyond 1 = some (c.advance.current :: c.advance.ahead) := by
  have ho : c.current.kind.isOpening = false := TokenKind.not_isOpening_of_isClosing hk
  have hc : c.current.kind.isClosing = true := hk
  rw [beyond, rest_eq_of_ahead_ne_nil ha, afterClose.eq_def]
  simp only [ho, hc, Bool.false_eq_true, if_false, if_true]

theorem openBehind?_of_isLevel {t : Token} {depth : Nat} {w : List Token}
    (hk : t.kind.isLevel = true) : openBehind? depth (t :: w) = openBehind? depth w := by
  have ho : t.kind.isOpening = false := by
    unfold TokenKind.isOpening
    split <;> first | rfl | (next h => rw [h] at hk; cases hk)
  have hc : t.kind.isClosing = false := by
    unfold TokenKind.isClosing
    split <;> first | rfl | (next h => rw [h] at hk; cases hk)
  rw [openBehind?, ho, if_neg Bool.false_ne_true, hc, if_neg Bool.false_ne_true]

/-- A token that is no bracket makes no difference. -/
theorem shuts_advance (ha : c.ahead ≠ []) (hk : c.kind.isLevel = true) : c.Shuts 0 c.advance :=
  .cons ha (TokenKind.ne_endOfInput_of_isLevel hk) (TokenKind.ne_dot_of_isLevel hk)
    (fun _ _ h => (openBehind?_of_isLevel hk).trans h) (.refl _)

/-- Nor does a dot with such a token behind it. -/
theorem shuts_behind_dot (ha : c.ahead ≠ []) (hk : c.kind = .sign .dot)
    (ha' : c.advance.ahead ≠ []) (hk' : c.advance.kind.isLevel = true) :
    c.Shuts 0 c.advance.advance := by
  have hlevel : c.advance.current.kind.isLevel = true := hk'
  have hdot : c.current.kind = .sign .dot := hk
  refine ⟨[c.current, c.advance.current], ?_, ?_, ?_, fun outer => ?_⟩
  · exact (rest_eq_of_ahead_ne_nil ha).trans (congrArg _ (rest_eq_of_ahead_ne_nil ha'))
  · simp [hdot, TokenKind.ne_endOfInput_of_isLevel hlevel]
  · simp [TokenKind.ne_dot_of_isLevel hlevel]
  · rw [openBehind?, hdot, if_neg (by decide), if_neg (by decide), openBehind?_of_isLevel hlevel]
    rfl

/-- An opening bracket has to be shut as well. -/
theorem Shuts.opening (ha : c.ahead ≠ []) (hk : c.kind.isOpening = true)
    (h : c.advance.Shuts (m + 1) c') : c.Shuts m c' :=
  .cons ha (TokenKind.ne_endOfInput_of_isOpening hk) (fun he => nomatch he ▸ hk)
    (fun _ _ hw => (if_pos hk).trans hw) h

/-- A closing one shuts the innermost. -/
theorem Shuts.closing (ha : c.ahead ≠ []) (hk : c.kind.isClosing = true)
    (h : c.advance.Shuts m c') : c.Shuts (m + 1) c' := by
  refine .cons ha (TokenKind.ne_endOfInput_of_isClosing hk) (fun he => nomatch he ▸ hk)
    (fun outer w hw => ?_) h
  have ho : c.current.kind.isOpening = false := TokenKind.not_isOpening_of_isClosing hk
  have hc : c.current.kind.isClosing = true := hk
  rw [openBehind?, ho, if_neg Bool.false_ne_true, hc, if_pos rfl, ← Nat.add_assoc,
    if_neg (Nat.succ_ne_zero _), Nat.add_sub_cancel]
  exact hw

end Cursor

/-! ### Values without elements -/

/-- **Values in which there are no elements.** -/
class Composed.Bare (α : Type) [Composed α] : Prop where
  /-- There are none. -/
  elements_eq_nil (a : α) : Composed.elements a = []

namespace Composed

instance : Composed Unit := ⟨fun _ => []⟩
instance : Composed Bool := ⟨fun _ => []⟩
instance : Composed String := ⟨fun _ => []⟩
instance : Composed Nat := ⟨fun _ => []⟩
instance : Composed PathLength := ⟨fun _ => []⟩
instance : Composed MergeEvent := ⟨fun _ => []⟩

instance : Bare Unit := ⟨fun _ => rfl⟩
instance : Bare Bool := ⟨fun _ => rfl⟩
instance : Bare String := ⟨fun _ => rfl⟩
instance : Bare Nat := ⟨fun _ => rfl⟩
instance : Bare PathLength := ⟨fun _ => rfl⟩
instance : Bare MergeEvent := ⟨fun _ => rfl⟩

variable {α : Type} [Composed α] [Bare α]

instance : Bare (Option α) :=
  ⟨fun _ => List.flatMap_eq_nil_iff.2 fun a _ => Bare.elements_eq_nil a⟩

instance : Bare (List α) :=
  ⟨fun _ => List.flatMap_eq_nil_iff.2 fun a _ => Bare.elements_eq_nil a⟩

end Composed

/-! ### The judgement -/

variable {setting : Setting} {inner : Inner} {α β γ : Type}

namespace Rule

section

variable [Composed α] [Composed β]

open Composed (elements)
open Element (All Formed Clear)

/-- **A rule that forms what it reads**, given the elements that have been read before and how many
brackets have been opened for them. If those are well formed, so is what is read in the end; and if
no stand-in is in that, then there is none in those, and all of the brackets have been shut. -/
def Forms (setting : Setting) (inner : Inner) (before : List Element) (opened : Nat)
    (rule : Rule α) (s : State) : Prop :=
  s.cursor.Closed → ∀ a t, rule.run setting inner s = .done a t →
    (All Formed before → All Formed (elements a)) ∧
      (All Clear (elements a) → All Clear before ∧ s.cursor.Shuts opened t.cursor)

namespace Forms

variable {before : List Element} {opened : Nat} {s : State}

/-- That the cursor is closed may be used. -/
theorem assuming {rule : Rule α}
    (h : s.cursor.Closed → Forms setting inner before opened rule s) :
    Forms setting inner before opened rule s := fun hs => h hs hs

theorem pure {a : α} (h : ∀ e, e ∈ elements a ↔ e ∈ before) :
    Forms setting inner before 0 (Pure.pure a) s := by
  intro _ b t hr
  cases hr
  rw [Element.all_congr h, Element.all_congr h]
  exact ⟨id, fun hc => ⟨hc, .refl _⟩⟩

/-- A value without elements. -/
theorem value [Composed.Bare α] (a : α) : Forms setting inner [] 0 (Pure.pure a) s :=
  .pure fun _ => by rw [Composed.Bare.elements_eq_nil a]

theorem fail (problem : Problem) :
    Forms setting inner before opened (.fail problem : Rule α) s := by
  intro _ a t hr
  cases hr

/-! ### One part after another -/

/-- **A part of a rule whose elements are kept.** -/
theorem bind (hi : inner.GoesOn) {rule : Rule β} {next : β → Rule α}
    (h : Forms setting inner [] 0 rule s)
    (hn : ∀ b t, rule.run setting inner s = .done b t →
      Forms setting inner (before ++ elements b) opened (next b) t) :
    Forms setting inner before opened (rule >>= next) s := by
  intro hs a u hr
  obtain ⟨b, t, hb, hu⟩ := done_of_bind hr
  obtain ⟨hformed, hclear⟩ := h hs b t hb
  obtain ⟨hformed', hclear'⟩ := hn b t hb (hs.onward (onward_of_done hi hb).cursor) a u hu
  refine ⟨fun hbefore => hformed' (Element.all_append.2 ⟨hbefore, hformed Element.all_nil⟩), ?_⟩
  intro ha
  obtain ⟨hall, hshuts⟩ := hclear' ha
  obtain ⟨hbefore, hb⟩ := Element.all_append.1 hall
  exact ⟨hbefore, (hclear hb).2.trans hshuts⟩

/-- A part in whose value there are no elements. -/
theorem skip [Composed.Bare β] (hi : inner.GoesOn) {rule : Rule β} {next : β → Rule α}
    (h : Forms setting inner [] 0 rule s)
    (hn : ∀ b t, rule.run setting inner s = .done b t →
      Forms setting inner before opened (next b) t) :
    Forms setting inner before opened (rule >>= next) s := by
  refine .bind hi h fun b t hb => ?_
  rw [Composed.Bare.elements_eq_nil b, List.append_nil]
  exact hn b t hb

/-- A name of which no element is made. -/
theorem forget (hi : inner.GoesOn) {rule : Rule Ident} {next : Ident → Rule α}
    (h : Forms setting inner [] 0 rule s)
    (hn : ∀ b t, Forms setting inner before opened (next b) t) :
    Forms setting inner before opened (rule >>= next) s := by
  intro hs a u hr
  obtain ⟨b, t, hb, hu⟩ := done_of_bind hr
  obtain ⟨hformed, hclear⟩ := hn b t (hs.onward (onward_of_done hi hb).cursor) a u hu
  have hname : All Clear (elements b) := Element.all_singleton.2 ⟨rfl, Element.all_nil⟩
  exact ⟨hformed, fun ha => ⟨(hclear ha).1, ((h hs b t hb).2 hname).2.trans (hclear ha).2⟩⟩

/-- A part of the way to the element. -/
theorem part (hi : inner.GoesOn) {rule : Rule β} {next : β → Rule α}
    (h : Forms setting inner before opened rule s)
    (hn : ∀ b t, rule.run setting inner s = .done b t →
      Forms setting inner (elements b) 0 (next b) t) :
    Forms setting inner before opened (rule >>= next) s := by
  intro hs a u hr
  obtain ⟨b, t, hb, hu⟩ := done_of_bind hr
  obtain ⟨hformed, hclear⟩ := h hs b t hb
  obtain ⟨hformed', hclear'⟩ := hn b t hb (hs.onward (onward_of_done hi hb).cursor) a u hu
  refine ⟨fun hbefore => hformed' (hformed hbefore), fun ha => ?_⟩
  obtain ⟨hb, hshuts⟩ := hclear' ha
  obtain ⟨hbefore, hshuts'⟩ := hclear hb
  exact ⟨hbefore, Nat.zero_add opened ▸ hshuts'.trans hshuts⟩

theorem ite {condition : Prop} [Decidable condition] {rule other : Rule α}
    (h : condition → Forms setting inner before opened rule s)
    (ho : ¬condition → Forms setting inner before opened other s) :
    Forms setting inner before opened (if condition then rule else other) s := by
  split
  · exact h ‹_›
  · exact ho ‹_›

/-! ### What is looked at -/

theorem look {view : View γ} {next : γ → Rule α}
    (h : Forms setting inner before opened (next (view.read setting s)) s) :
    Forms setting inner before opened (.look view >>= next) s := fun hs a u hr => h hs a u hr

theorem startHere {next : Nat → Rule α}
    (h : Forms setting inner before opened (next s.cursor.front) s) :
    Forms setting inner before opened (startHere >>= next) s := fun hs a u hr => h hs a u hr

theorem isAt {kind : TokenKind} {next : Bool → Rule α}
    (h : Forms setting inner before opened (next (decide (s.cursor.kind = kind))) s) :
    Forms setting inner before opened (isAt kind >>= next) s := fun hs a u hr => h hs a u hr

/-- Where subqueries are at hand, they are not in the way. -/
theorem requireSubqueries {feature : String} {next : Unit → Rule α}
    (h : Forms setting inner before opened (next ()) s) :
    Forms setting inner before opened (.requireSubqueries feature >>= next) s := by
  intro hs a u hr
  by_cases hsub : setting.rules.subqueries = true
  · rw [run_bind_done (run_requireSubqueries_done hsub)] at hr
    exact h hs a u hr
  · rw [run_bind_failed (run_requireSubqueries_failed hsub)] at hr
    cases hr

/-! ### Tokens that are passed -/

/-- **A token is passed** that is no bracket. -/
theorem advance {kind : TokenKind} {next : Span → Rule α} (hk : s.cursor.kind = kind)
    (hl : kind.isLevel = true)
    (h : Forms setting inner before opened (next s.cursor.current.span) s.step) :
    Forms setting inner before opened (.advance >>= next) s := by
  subst hk
  intro hs a u hr
  have ha := hs.ahead_ne_nil (TokenKind.ne_endOfInput_of_isLevel hl)
  obtain ⟨hformed, hclear⟩ := h hs.advance a u hr
  refine ⟨hformed, fun hc => ⟨(hclear hc).1, ?_⟩⟩
  exact Nat.add_zero opened ▸ (Cursor.shuts_advance ha hl).trans (hclear hc).2

/-- An opening bracket is passed. -/
theorem opening {kind : TokenKind} {next : Span → Rule α} (hk : s.cursor.kind = kind)
    (ho : kind.isOpening = true)
    (h : Forms setting inner before (opened + 1) (next s.cursor.current.span) s.step) :
    Forms setting inner before opened (.advance >>= next) s := by
  subst hk
  intro hs a u hr
  have ha := hs.ahead_ne_nil (TokenKind.ne_endOfInput_of_isOpening ho)
  obtain ⟨hformed, hclear⟩ := h hs.advance a u hr
  exact ⟨hformed, fun hc => ⟨(hclear hc).1, .opening ha ho (hclear hc).2⟩⟩

/-- A closing bracket is passed. -/
theorem closing {kind : TokenKind} {next : Span → Rule α} (hk : s.cursor.kind = kind)
    (hc : kind.isClosing = true)
    (h : Forms setting inner before opened (next s.cursor.current.span) s.step) :
    Forms setting inner before (opened + 1) (.advance >>= next) s := by
  subst hk
  intro hs a u hr
  have ha := hs.ahead_ne_nil (TokenKind.ne_endOfInput_of_isClosing hc)
  obtain ⟨hformed, hclear⟩ := h hs.advance a u hr
  exact ⟨hformed, fun hall => ⟨(hclear hall).1, .closing ha hc (hclear hall).2⟩⟩

/-- The same where the token is of no interest. -/
theorem move {next : Unit → Rule α}
    (h : Forms setting inner before opened (.advance >>= fun _ => next ()) s) :
    Forms setting inner before opened (Grammar.move >>= next) s := h

/-- The first two parts of a rule may be taken together. -/
theorem gather {δ : Type} {rule : Rule δ} {step : δ → Rule γ} {next : γ → Rule α}
    (h : Forms setting inner before opened ((rule >>= step) >>= next) s) :
    Forms setting inner before opened (rule >>= fun d => step d >>= next) s := by
  intro hs a u hr
  obtain ⟨d, t, hd, hr⟩ := done_of_bind hr
  obtain ⟨c, v, hc, hr⟩ := done_of_bind hr
  refine h hs a u ?_
  rw [run_bind_done ((run_bind_done hd).trans hc), hr]

/-- A token has to be there. -/
theorem expect {kind : TokenKind} {next : Span → Rule α}
    (h : s.cursor.kind = kind → Forms setting inner before opened (.advance >>= next) s) :
    Forms setting inner before opened (Rule.expect kind >>= next) s := by
  intro hs a u hr
  by_cases he : s.cursor.kind = kind
  · rw [run_bind_done (run_expect_of_eq he)] at hr
    exact h he hs a u hr
  · rw [run_bind_failed (run_expect_of_ne he)] at hr
    cases hr

/-- A token may be there. -/
theorem consume {kind : TokenKind} {next : Bool → Rule α}
    (h : s.cursor.kind = kind →
      Forms setting inner before opened (.advance >>= fun _ => next true) s)
    (hn : s.cursor.kind ≠ kind → Forms setting inner before opened (next false) s) :
    Forms setting inner before opened (Rule.consume kind >>= next) s := by
  intro hs a u hr
  by_cases he : s.cursor.kind = kind
  · rw [run_bind_done (run_consume_of_eq he)] at hr
    exact h he hs a u hr
  · rw [run_bind_done (run_consume_of_ne he)] at hr
    exact hn he hs a u hr

/-! ### Elements -/

/-- **An element of the right shape around all that has been read for it.** -/
theorem close {a : α} {e : Element} (ha : elements a = [e]) (he : e.Formed) (hs : e.Clear)
    (hc : ∀ c, c ∈ e.children ↔ c ∈ before) :
    Forms setting inner before 0 (Pure.pure a) s := by
  intro _ b t hr
  cases hr
  rw [ha, Element.all_singleton, Element.all_singleton, Element.all_congr hc,
    Element.all_congr hc, and_iff_right he, and_iff_right hs]
  exact ⟨id, fun hc => ⟨hc, .refl _⟩⟩

/-- An element with the same children takes the place of another. -/
theorem recast {a : α} {e e' : Element} (ha : elements a = [e']) (he : e'.Formed) (hs : e.Clear)
    (hs' : e'.Clear) (hc : e'.children = e.children) :
    Forms setting inner [e] 0 (Pure.pure a) s := by
  intro _ b t hr
  cases hr
  rw [ha]
  simp only [Element.all_singleton, hc, and_iff_right he, and_iff_right hs, and_iff_right hs']
  exact ⟨And.right, fun hc => ⟨hc, .refl _⟩⟩

end Forms

/-! ### Repetitions and scopes -/

section Repetitions

variable {before : List Element} {opened : Nat} {s : State}

theorem forms_isAt {kind : TokenKind} : Forms setting inner [] 0 (isAt kind) s :=
  .look (.value _)

theorem forms_consume {kind : TokenKind} (hl : kind.isLevel = true) :
    Forms setting inner [] 0 (consume kind) s :=
  .isAt (.ite (fun h => .advance (of_decide_eq_true h) hl (.value _)) fun _ => .value _)

theorem forms_takeSign {sign : Sign} (hl : (TokenKind.sign sign).isLevel = true) :
    Forms setting inner [] 0 (takeSign sign) s := forms_consume hl

theorem forms_takeWord (word : Keyword) : Forms setting inner [] 0 (takeWord word) s :=
  forms_consume rfl

theorem forms_inScope {kind : ScopeKind} {rule : Rule α}
    (h : ∀ t, Forms setting inner before opened rule t) :
    Forms setting inner before opened (.inScope kind rule) s := by
  intro hs a t hr
  rw [run] at hr
  cases hrun : rule.run setting inner { s with scopes := s.scopes.push kind } with
  | done b u =>
    rw [hrun] at hr
    cases hr
    exact h { s with scopes := s.scopes.push kind } hs a u hrun
  | failed d u =>
    rw [hrun] at hr
    cases hr

variable (hi : inner.GoesOn)

include hi

theorem forms_optionally {condition : Rule Bool} {rule : Rule α}
    (hc : Forms setting inner [] 0 condition s)
    (h : ∀ t, condition.run setting inner s = .done true t → Forms setting inner [] 0 rule t) :
    Forms setting inner [] 0 (optionally condition rule) s := by
  refine .skip hi hc fun b t hb => ?_
  cases b with
  | false => exact .pure fun _ => .rfl
  | true => exact .bind hi (h t hb) fun a u _ => .pure (by simp [elements])

theorem forms_skipIf {condition : Rule Bool} {rule : Rule α}
    (hc : Forms setting inner [] 0 condition s) (h : ∀ t, Forms setting inner [] 0 rule t) :
    Forms setting inner [] 0 (skipIf condition rule) s := by
  refine .skip hi hc fun b t _ => ?_
  cases b with
  | true => exact .pure fun _ => .rfl
  | false => exact .bind hi (h t) fun a u _ => .pure (by simp [elements])

/-- Reading many adds to what has been read. -/
theorem forms_manyFrom {rule : Rule (Option α)} (h : ∀ t, Forms setting inner [] 0 rule t)
    (items : List α) : Forms setting inner (elements items) 0 (many rule items) s := by
  intro hs all t hr
  refine (loop_induct (p := fun found u => s.Onward u ∧
    (All Formed (elements items) → All Formed (elements found)) ∧
    (All Clear (elements found) → All Clear (elements items) ∧ s.cursor.Shuts 0 u.cursor))
    (fun found u next w hu hw => ?_) ⟨.refl s, id, fun hc => ⟨hc, .refl _⟩⟩ hr).2
  obtain ⟨hsu, hformed, hclear⟩ := hu
  obtain ⟨one, v, hv, hw⟩ := done_of_bind hw
  cases hw
  obtain ⟨hone, hone'⟩ := h u (hs.onward hsu.cursor) one w hv
  have hall : ∀ e, e ∈ elements ((one.map fun item => found ++ [item]).getD found) ↔
      e ∈ elements found ++ elements one := by cases one <;> simp [elements]
  rw [Element.all_congr hall, Element.all_congr hall, Element.all_append, Element.all_append]
  refine ⟨hsu.trans (onward_of_done hi hv), fun hitems => ⟨hformed hitems, hone Element.all_nil⟩,
    fun hc => ⟨(hclear hc.1).1, (hclear hc.1).2.trans (hone' hc.2).2⟩⟩

theorem forms_many {rule : Rule (Option α)} (h : ∀ t, Forms setting inner [] 0 rule t) :
    Forms setting inner [] 0 (many rule []) s := forms_manyFrom hi h []

theorem forms_separated {rule : Rule α} (h : ∀ t, Forms setting inner [] 0 rule t) :
    Forms setting inner [] 0 (separated rule) s := by
  refine .bind hi (h s) fun first t _ => ?_
  have hmany : Forms setting inner (elements [first]) 0
      (many (optionally (takeSign .comma) rule) [first]) t := forms_manyFrom hi
    (fun u => forms_optionally hi (forms_takeSign rfl) fun v _ => h v) [first]
  simpa [elements] using hmany

theorem forms_listUntil {close : Sign} {rule : Rule α}
    (h : ∀ t, Forms setting inner [] 0 rule t) :
    Forms setting inner [] 0 (listUntil close rule) s :=
  .isAt (.ite (fun _ => .pure fun _ => .rfl) fun _ => forms_separated hi h)

end Repetitions

end

/-! ### What a run tells -/

/-- A token that had to be there was there. -/
theorem of_expect {kind : TokenKind} {span : Span} {s t : State}
    (hr : (expect kind).run setting inner s = .done span t) :
    s.cursor.kind = kind ∧ t = s.step := by
  by_cases he : s.cursor.kind = kind
  · rw [run_expect_of_eq he] at hr
    exact ⟨he, (Outcome.done.inj hr).2.symm⟩
  · rw [run_expect_of_ne he] at hr
    cases hr

/-- Reading many keeps what there is. -/
theorem prefix_of_many {rule : Rule (Option α)} {items all : List α} {s t : State}
    (hr : (many rule items).run setting inner s = .done all t) : items <+: all := by
  refine loop_induct (p := fun found _ => items <+: found) (fun found u next w hu hw => ?_)
    List.prefix_rfl hr
  obtain ⟨one, v, -, hw⟩ := done_of_bind hw
  cases hw
  cases one with
  | none => exact hu
  | some item => exact hu.trans (List.prefix_append _ _)

/-- **Among things separated by commas there is one.** -/
theorem ne_nil_of_separated {rule : Rule α} {all : List α} {s t : State}
    (hr : (separated rule).run setting inner s = .done all t) : all ≠ [] := by
  obtain ⟨first, u, -, hr⟩ := done_of_bind hr
  obtain ⟨rest, rfl⟩ := prefix_of_many hr
  exact List.cons_ne_nil _ _

end Rule

/-- **Nested rules that form what they read**, run with a lookahead for paths that is no bolder than
the one that counts brackets. -/
structure Inner.Forms (setting : Setting) (inner : Inner) : Prop where
  /-- They go on. -/
  goesOn : inner.GoesOn
  /-- A parenthesis is judged by where it is closed. -/
  opensPattern {c : Cursor} (h : setting.opensPattern c = true) : c.opensPattern = true
  /-- Expressions are formed. -/
  expression (strength : Nat) (s : State) :
    Rule.Forms setting inner [] 0 (.nested (.expression strength)) s
  /-- So are the bodies of subqueries. -/
  subquery (s : State) : Rule.Forms setting inner [] 0 (.nested .subquery) s
  /-- So are the bodies of existence tests. -/
  existsBody (s : State) : Rule.Forms setting inner [] 0 (.nested .existsBody) s

end Cypher
