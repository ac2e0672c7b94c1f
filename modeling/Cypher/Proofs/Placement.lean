import Cypher.Proofs.Element
import Cypher.Proofs.Progress
import Cypher.Proofs.Passage

/-!
# Where the elements that a rule reads stand

A cursor over tokens that follow one another in the text has two offsets to it: its front, where the
token at the cursor starts, and its rear, where the token behind ends. Moving on, neither goes back.
What a rule reads between two states lies between the front of the first and the rear of the
second, and this is how an element comes to lie behind the one before it and inside the one around
it.

The judgement is `Cypher.Rule.Builds`: a rule is run on the way to an element that starts at a given
offset, some elements have been read for it already, and what the rule reads in the end lies behind
that offset too. Where nothing has been read yet, it is `Cypher.Rule.LaysAt`. A rule whose value has
no elements in it needs no looking into, since every run goes on (`Cypher.Rule.laysAt_of_silent`).
-/

namespace Cypher

variable {fit : Nat → Prop} {setting : Setting} {inner : Inner} {α β : Type}

/-! ### Cursors over tokens of a text -/

namespace Cursor

/-- Where the token at the cursor starts. -/
def front (c : Cursor) : Nat := c.current.span.start

/-- Where the token behind the cursor ends. -/
def rear (c : Cursor) : Nat := c.previousSpan.stop

/-- Past a token, the rear is where that token ends. -/
theorem rear_advance {c : Cursor} (ha : c.ahead ≠ []) : c.advance.rear = c.current.span.stop := by
  obtain ⟨t, ts, ha⟩ := List.exists_cons_of_ne_nil ha
  rw [advance_of_ahead_eq_cons ha]
  rfl

/-- **A cursor over tokens that follow one another in a text**, with an end token behind them. -/
structure Laid (fit : Nat → Prop) (c : Cursor) : Prop where
  /-- The last token is the end of the text. -/
  closed : c.Closed
  /-- The span of each token is in order and ends at fit offsets. -/
  tokens : ∀ t ∈ c.current :: c.ahead,
    t.span.start ≤ t.span.stop ∧ fit t.span.start ∧ fit t.span.stop
  /-- No token starts before one before it has ended. -/
  ordered : (c.current :: c.ahead).Pairwise fun t u => t.span.stop ≤ u.span.start
  /-- The same for the token behind. -/
  rear_le_front : c.rear ≤ c.front
  /-- The token behind ends at a fit offset. -/
  fit_rear : fit c.rear

namespace Laid

variable {c c' : Cursor}

theorem fit_front (h : c.Laid fit) : fit c.front := (h.tokens _ List.mem_cons_self).2.1

theorem front_le_stop (h : c.Laid fit) : c.front ≤ c.current.span.stop :=
  (h.tokens _ List.mem_cons_self).1

theorem fit_stop (h : c.Laid fit) : fit c.current.span.stop := (h.tokens _ List.mem_cons_self).2.2

theorem advance (h : c.Laid fit) : c.advance.Laid fit := by
  cases ha : c.ahead with
  | nil => rwa [advance_of_ahead_eq_nil ha]
  | cons t ts =>
    obtain ⟨hc, ht, ho, -, -⟩ := h
    have hclosed := hc.advance
    rw [ha] at ht ho
    rw [advance_of_ahead_eq_cons ha] at hclosed ⊢
    obtain ⟨hle, ho⟩ := List.pairwise_cons.1 ho
    exact ⟨hclosed, fun u hu => ht u (List.mem_cons_of_mem _ hu), ho, hle t List.mem_cons_self,
      (ht _ List.mem_cons_self).2.2⟩

theorem rear_le_advance (h : c.Laid fit) : c.rear ≤ c.advance.rear := by
  cases ha : c.ahead with
  | nil => exact Nat.le_of_eq (congrArg rear (advance_of_ahead_eq_nil ha)).symm
  | cons t ts =>
    rw [advance_of_ahead_eq_cons ha]
    exact Nat.le_trans h.rear_le_front h.front_le_stop

theorem front_le_rear_advance (h : c.Laid fit) (ha : c.ahead ≠ []) : c.front ≤ c.advance.rear := by
  rw [rear_advance ha]
  exact h.front_le_stop

theorem front_le_advance (h : c.Laid fit) : c.front ≤ c.advance.front := by
  by_cases ha : c.ahead = []
  · exact Nat.le_of_eq (congrArg front (advance_of_ahead_eq_nil ha)).symm
  · exact Nat.le_trans (h.front_le_rear_advance ha) h.advance.rear_le_front

/-- **Moving on, neither front nor rear goes back.** -/
theorem onward (h : c.Laid fit) (ho : c.Onward c') :
    c'.Laid fit ∧ c.front ≤ c'.front ∧ c.rear ≤ c'.rear := by
  refine ho.induct (p := fun x => x.Laid fit ∧ c.front ≤ x.front ∧ c.rear ≤ x.rear)
    (fun x hx => ?_) ⟨h, Nat.le_refl _, Nat.le_refl _⟩
  obtain ⟨hx, hf, hr⟩ := hx
  exact ⟨hx.advance, Nat.le_trans hf hx.front_le_advance, Nat.le_trans hr hx.rear_le_advance⟩

/-- Past a token, the rear is behind what was the front. -/
theorem front_le_rear (h : c.Laid fit) (ho : c.Onward c')
    (hlt : c'.ahead.length < c.ahead.length) : c.front ≤ c'.rear := by
  rcases ho.eq_or_advance with rfl | ⟨ha, ho⟩
  · exact absurd hlt (Nat.lt_irrefl _)
  · exact Nat.le_trans (h.front_le_rear_advance ha) (h.advance.onward ho).2.2

/-- From the front to behind the token at the cursor is the span of that token. -/
theorem spanFrom_advance (h : c.Laid fit) (ha : c.ahead ≠ []) :
    c.advance.spanFrom c.front = c.current.span := by
  change Span.mk c.front (max c.advance.rear c.front) = _
  rw [rear_advance ha, Nat.max_eq_left h.front_le_stop]
  rfl

end Laid

end Cursor

/-! ### What has been read for an element -/

/-- **Elements between two offsets**, each laid out well. -/
def Element.Between (fit : Nat → Prop) (lo hi : Nat) (elements : List Element) : Prop :=
  ∀ e ∈ elements, e.Laid fit ∧ lo ≤ e.span.start ∧ e.span.stop ≤ hi

namespace Element.Between

variable {lo lo' hi hi' : Nat} {a b : List Element}

theorem nil : Between fit lo hi [] := fun _ h => absurd h List.not_mem_nil

theorem mono (h : Between fit lo hi a) (hlo : lo' ≤ lo) (hhi : hi ≤ hi') :
    Between fit lo' hi' a := by
  intro e he
  obtain ⟨hl, hs, ht⟩ := h e he
  exact ⟨hl, Nat.le_trans hlo hs, Nat.le_trans ht hhi⟩

theorem append (ha : Between fit lo hi a) (hb : Between fit lo hi b) :
    Between fit lo hi (a ++ b) := by
  intro e he
  rcases List.mem_append.1 he with he | he
  · exact ha e he
  · exact hb e he

theorem subset (h : Between fit lo hi a) (hs : ∀ e ∈ b, e ∈ a) : Between fit lo hi b :=
  fun e he => h e (hs e he)

theorem singleton {e : Element} (h : e.Laid fit) (hs : lo ≤ e.span.start) (ht : e.span.stop ≤ hi) :
    Between fit lo hi [e] := by
  intro e' he
  rw [List.mem_singleton] at he
  subst he
  exact ⟨h, hs, ht⟩

/-- An element around elements between its ends is laid out well. -/
theorem laid {e : Element} (h : Between fit lo hi e.children) (hs : e.span.start = lo)
    (ht : hi ≤ e.span.stop) (hle : lo ≤ e.span.stop) (hlo : fit lo) (hhi : fit e.span.stop) :
    e.Laid fit := by
  refine .mk (hs ▸ hle) (hs ▸ hlo) hhi (fun c hc => ?_) fun c hc => (h c hc).1
  obtain ⟨-, hcs, hct⟩ := h c hc
  rw [Span.contains, hs, decide_eq_true hcs, decide_eq_true (Nat.le_trans hct ht)]
  rfl

end Element.Between

/-- **A state on the way to an element** that starts at an offset: some elements have been read for
it, which lie behind the offset, and perhaps a token has been passed. -/
structure State.Covers (fit : Nat → Prop) (lo : Nat) (moved : Bool) (elements : List Element)
    (s : State) : Prop where
  /-- The tokens follow one another. -/
  cursor : s.cursor.Laid fit
  /-- The offset is fit. -/
  fit_lo : fit lo
  /-- The offset is not ahead of the cursor. -/
  le_front : lo ≤ s.cursor.front
  /-- If a token has been passed, the offset is not ahead of its end. -/
  le_rear : moved = true → lo ≤ s.cursor.rear
  /-- What has been read lies behind the offset. -/
  between : Element.Between fit lo s.cursor.rear elements

namespace State.Covers

variable {lo : Nat} {moved moved' : Bool} {a b : List Element} {s t : State}

/-- Nothing has been read yet. -/
theorem start (h : s.cursor.Laid fit) : s.Covers fit s.cursor.front false [] :=
  ⟨h, h.fit_front, Nat.le_refl _, fun h => absurd h Bool.false_ne_true, .nil⟩

theorem subset (h : s.Covers fit lo moved a) (hs : ∀ e ∈ b, e ∈ a) : s.Covers fit lo moved b :=
  { h with between := h.between.subset hs }

/-- What has been read stays where it is. -/
theorem onward (h : s.Covers fit lo moved a) (ho : s.Onward t) : t.Covers fit lo moved a := by
  obtain ⟨hl, hf, hr⟩ := h.cursor.onward ho.cursor
  exact ⟨hl, h.fit_lo, Nat.le_trans h.le_front hf, fun hm => Nat.le_trans (h.le_rear hm) hr,
    h.between.mono (Nat.le_refl _) hr⟩

/-- What is between the offset and the token behind ends at a fit offset. -/
theorem fit_spanFrom (h : s.Covers fit lo moved a) : fit (s.cursor.spanFrom lo).stop := by
  change fit (max s.cursor.rear lo)
  rcases Nat.le_total s.cursor.rear lo with hle | hle
  · rw [Nat.max_eq_right hle]
    exact h.fit_lo
  · rw [Nat.max_eq_left hle]
    exact h.cursor.fit_rear

/-- All that counts is the cursor. -/
theorem congr (h : s.Covers fit lo moved a) (hc : t.cursor = s.cursor) :
    t.Covers fit lo moved a :=
  ⟨hc ▸ h.cursor, h.fit_lo, hc ▸ h.le_front, hc ▸ h.le_rear, hc ▸ h.between⟩

/-- An element with the same span takes the place of another. -/
theorem recast {e e' : Element} (h : s.Covers fit lo moved [e]) (hs : e'.span = e.span)
    (hl : e.Laid fit → e'.Laid fit) : s.Covers fit lo moved [e'] := by
  obtain ⟨he, hlo, hhi⟩ := h.between e List.mem_cons_self
  exact { h with between := .singleton (hl he) (hs ▸ hlo) (hs ▸ hhi) }

/-- What lies behind an offset lies behind every offset before. -/
theorem lower {lo' : Nat} (h : s.Covers fit lo moved a) (hfit : fit lo') (hle : lo' ≤ lo) :
    s.Covers fit lo' moved a :=
  ⟨h.cursor, hfit, Nat.le_trans hle h.le_front, fun hm => Nat.le_trans hle (h.le_rear hm),
    h.between.mono hle (Nat.le_refl _)⟩

/-- What has been read may be all there is to an element that starts in the same place. -/
theorem narrow {e : Element} (h : s.Covers fit lo moved [e]) :
    s.Covers fit e.span.start true [e] := by
  obtain ⟨hl, hs, ht⟩ := h.between e List.mem_cons_self
  have hle : e.span.start ≤ s.cursor.rear := Nat.le_trans hl.ordered ht
  exact ⟨h.cursor, hl.fit_start, Nat.le_trans hle h.cursor.rear_le_front, fun _ => hle,
    .singleton hl (Nat.le_refl _) ht⟩

/-- Something that has been read is past a token. -/
theorem of_ne_nil (h : s.Covers fit lo moved a) (ha : a ≠ []) : s.Covers fit lo true a := by
  obtain ⟨e, es, rfl⟩ := List.exists_cons_of_ne_nil ha
  obtain ⟨hl, hs, ht⟩ := h.between e List.mem_cons_self
  exact { h with le_rear := fun _ => Nat.le_trans hs (Nat.le_trans hl.ordered ht) }

/-- What is read next lies behind the offset too. -/
theorem andThen (h : s.Covers fit lo moved a) (ho : s.Onward t)
    (h' : t.Covers fit s.cursor.front moved' b) : t.Covers fit lo (moved || moved') (a ++ b) := by
  have ht := h.onward ho
  refine ⟨h'.cursor, h.fit_lo, ht.le_front, fun hm => ?_,
    ht.between.append (h'.between.mono h.le_front (Nat.le_refl _))⟩
  rcases Bool.or_eq_true_iff.1 hm with hm | hm
  · exact ht.le_rear hm
  · exact Nat.le_trans h.le_front (h'.le_rear hm)

/-- Past a token, the rear is behind the offset. -/
theorem passed (h : s.Covers fit lo moved a) (ho : s.Onward t) (hlt : t.left < s.left) :
    t.Covers fit lo true a :=
  { h.onward ho with
    le_rear := fun _ => Nat.le_trans h.le_front (h.cursor.front_le_rear ho.cursor hlt) }

/-- **An element around all that has been read** takes its place. -/
theorem close {e : Element} (h : s.Covers fit lo true a) (hs : e.span = s.cursor.spanFrom lo)
    (hc : ∀ c ∈ e.children, c ∈ a) : s.Covers fit lo true [e] := by
  have hle := h.le_rear rfl
  have hspan : e.span = ⟨lo, s.cursor.rear⟩ :=
    hs.trans (congrArg (Span.mk lo) (Nat.max_eq_left hle))
  have hstart : e.span.start = lo := congrArg Span.start hspan
  have hstop : e.span.stop = s.cursor.rear := by rw [hspan]
  refine { h with between := .singleton ?_ (Nat.le_of_eq hstart.symm) (Nat.le_of_eq hstop) }
  exact (h.between.subset hc).laid hstart (Nat.le_of_eq hstop.symm) (hstop ▸ hle) h.fit_lo
    (hstop ▸ h.cursor.fit_rear)

end State.Covers

/-! ### What rules read -/

namespace Rule

section

variable [Composed α] [Composed β]

open Composed (elements)

/-- **A rule on the way to an element** that starts at an offset: if some elements have been read
for it, then what the rule reads lies behind the offset. -/
def Builds (fit : Nat → Prop) (setting : Setting) (inner : Inner) (lo : Nat) (moved : Bool)
    (before : List Element) (s : State) (moved' : Bool) (rule : Rule α) : Prop :=
  s.Covers fit lo moved before →
    ∀ a t, rule.run setting inner s = .done a t → t.Covers fit lo moved' (elements a)

/-- **A rule that lays out what it reads** behind the cursor, from a given state. -/
abbrev LaysAt (fit : Nat → Prop) (setting : Setting) (inner : Inner) (moved : Bool) (rule : Rule α)
    (s : State) : Prop := Builds fit setting inner s.cursor.front false [] s moved rule

theorem LaysAt.covers {moved : Bool} {rule : Rule α} {s t : State} {a : α}
    (h : LaysAt fit setting inner moved rule s) (hc : s.cursor.Laid fit)
    (hr : rule.run setting inner s = .done a t) :
    t.Covers fit s.cursor.front moved (elements a) := h (.start hc) a t hr

/-- What a rule reads behind the cursor lies behind every offset that is not ahead of it. -/
theorem LaysAt.builds {lo : Nat} {moved moved' : Bool} {before : List Element} {rule : Rule α}
    {s : State} (h : LaysAt fit setting inner moved' rule s) :
    Builds fit setting inner lo moved before s moved' rule :=
  fun hs _ _ hr => (h.covers hs.cursor hr).lower hs.fit_lo hs.le_front

namespace Builds

variable {lo : Nat} {moved moved₁ moved' : Bool} {before : List Element} {s : State}

/-- What is read first is kept for what is read then. -/
theorem bind (hi : inner.GoesOn) {rule : Rule β} {next : β → Rule α}
    (h : LaysAt fit setting inner moved₁ rule s)
    (hn : ∀ b t, Builds fit setting inner lo (moved || moved₁) (before ++ elements b) t moved'
      (next b)) :
    Builds fit setting inner lo moved before s moved' (rule >>= next) := by
  intro hs a u hr
  obtain ⟨b, t, hb, hu⟩ := done_of_bind hr
  exact hn b t (hs.andThen (onward_of_done hi hb) (h.covers hs.cursor hb)) a u hu

theorem pure {a : α} (h : ∀ e ∈ elements a, e ∈ before) :
    Builds fit setting inner lo moved before s moved (Pure.pure a) := by
  intro hs b t hr
  cases hr
  exact hs.subset h

/-- Something that has been read is past a token. -/
theorem pure_of_ne_nil {a : α} (ha : elements a ≠ []) (h : ∀ e ∈ elements a, e ∈ before) :
    Builds fit setting inner lo moved before s true (Pure.pure a) := by
  intro hs b t hr
  cases hr
  exact (hs.subset h).of_ne_nil ha

theorem fail (problem : Problem) :
    Builds fit setting inner lo moved before s moved' (.fail problem : Rule α) := by
  intro _ a t hr
  cases hr

omit [Composed β] in
theorem look {view : View β} {next : β → Rule α}
    (h : Builds fit setting inner lo moved before s moved' (next (view.read setting s))) :
    Builds fit setting inner lo moved before s moved' (.look view >>= next) := by
  intro hs a u hr
  exact h hs a u hr

/-- Where the token at the cursor starts is known. -/
theorem startHere {next : Nat → Rule α}
    (h : Builds fit setting inner lo moved before s moved' (next s.cursor.front)) :
    Builds fit setting inner lo moved before s moved' (startHere >>= next) := by
  intro hs a u hr
  exact h hs a u hr

theorem ite {condition : Prop} [Decidable condition] {rule other : Rule α}
    (h : condition → Builds fit setting inner lo moved before s moved' rule)
    (ho : ¬condition → Builds fit setting inner lo moved before s moved' other) :
    Builds fit setting inner lo moved before s moved'
      (if condition then rule else other) := by
  split
  · exact h ‹_›
  · exact ho ‹_›

omit [Composed β] in
/-- Where subqueries are at hand, they are not in the way. -/
theorem requireSubqueries {feature : String} {next : Unit → Rule α}
    (h : Builds fit setting inner lo moved before s moved' (next ())) :
    Builds fit setting inner lo moved before s moved' (.requireSubqueries feature >>= next) := by
  intro hs a u hr
  by_cases hsub : setting.rules.subqueries = true
  · rw [run_bind_done (run_requireSubqueries_done hsub)] at hr
    exact h hs a u hr
  · rw [run_bind_failed (run_requireSubqueries_failed hsub)] at hr
    cases hr

/-- A token other than the end of the text is passed. -/
theorem advance (hi : inner.GoesOn) {next : Span → Rule α} (hk : s.cursor.kind ≠ .endOfInput)
    (h : Builds fit setting inner lo true before s.step moved' (next s.cursor.current.span)) :
    Builds fit setting inner lo moved before s moved' (.advance >>= next) := by
  intro hs a u hr
  have hr' : Rule.advance.run setting inner s = .done s.cursor.current.span s.step := rfl
  have hlt : s.step.left < s.left :=
    MovesOn.advance (p := fun _ => True) hk hs.cursor.closed _ _ hr' trivial
  exact h (hs.passed (onward_run setting hi .advance s) hlt) a u hr

/-- A token that has to be there is passed. -/
theorem expect (hi : inner.GoesOn) {kind : TokenKind} {next : Span → Rule α}
    (hk : kind ≠ .endOfInput)
    (h : Builds fit setting inner lo true before s.step moved' (next s.cursor.current.span)) :
    Builds fit setting inner lo moved before s moved' (expect kind >>= next) := by
  intro hs a u hr
  by_cases he : s.cursor.kind = kind
  · refine advance hi (he ▸ hk) h hs a u ?_
    rw [run_bind_done (run_expect_of_eq he)] at hr
    exact hr
  · rw [run_bind_failed (run_expect_of_ne he)] at hr
    cases hr

theorem expectSign (hi : inner.GoesOn) {sign : Sign} {next : Span → Rule α}
    (h : Builds fit setting inner lo true before s.step moved' (next s.cursor.current.span)) :
    Builds fit setting inner lo moved before s moved' (expectSign sign >>= next) :=
  expect hi TokenKind.noConfusion h

theorem expectWord (hi : inner.GoesOn) {word : Keyword} {next : Span → Rule α}
    (h : Builds fit setting inner lo true before s.step moved' (next s.cursor.current.span)) :
    Builds fit setting inner lo moved before s moved' (expectWord word >>= next) :=
  expect hi TokenKind.noConfusion h

/-- **The element itself**, around all that has been read for it. -/
theorem close {a : α} {e : Element} (ha : elements a = [e]) (hs : e.span = s.cursor.spanFrom lo)
    (hc : ∀ c ∈ e.children, c ∈ before) :
    Builds fit setting inner lo true before s true (Pure.pure a) := by
  intro h b t hr
  cases hr
  rw [ha]
  exact h.close hs hc

/-- The same for an element that ends with the token behind. -/
theorem close_rear {a : α} {e : Element} (ha : elements a = [e]) (hs : e.span = ⟨lo, s.cursor.rear⟩)
    (hc : ∀ c ∈ e.children, c ∈ before) :
    Builds fit setting inner lo true before s true (Pure.pure a) := by
  intro h
  refine close ha ?_ hc h
  exact hs.trans (congrArg (Span.mk lo) (Nat.max_eq_left (h.le_rear rfl)).symm)

/-- An element with the same span takes the place of another. -/
theorem recast {a : α} {e e' : Element} (ha : elements a = [e']) (hs : e'.span = e.span)
    (hl : e.Laid fit → e'.Laid fit) :
    Builds fit setting inner lo moved [e] s moved (Pure.pure a) := by
  intro h b t hr
  cases hr
  rw [ha]
  exact h.recast hs hl

/-- A part of the way to the element. -/
theorem part {rule : Rule β} {next : β → Rule α}
    (h : Builds fit setting inner lo moved before s moved₁ rule)
    (hn : ∀ b t, Builds fit setting inner lo moved₁ (elements b) t moved' (next b)) :
    Builds fit setting inner lo moved before s moved' (rule >>= next) := by
  intro hs a u hr
  obtain ⟨b, t, hb, hu⟩ := done_of_bind hr
  exact hn b t (h hs b t hb) a u hu

/-- **An element that ends with the last of its children.** -/
theorem join (hi : inner.GoesOn) {rule : Rule β} {g : β → α} (f e : β → Element)
    (hf : ∀ b, elements b = [f b]) (hg : ∀ b, elements (g b) = [e b])
    (hs : ∀ b, (e b).span = ⟨lo, (f b).span.stop⟩)
    (hc : ∀ b, ∀ c ∈ (e b).children, c ∈ before ++ [f b])
    (h : LaysAt fit setting inner moved₁ rule s) :
    Builds fit setting inner lo moved before s true (rule >>= fun b => Pure.pure (g b)) := by
  intro hcov a u hr
  obtain ⟨b, t, hb, hu⟩ := done_of_bind hr
  cases hu
  have hlast := h.covers hcov.cursor hb
  have ht := hcov.andThen (onward_of_done hi hb) hlast
  rw [hf] at hlast ht
  obtain ⟨hl, hfront, hrear⟩ := hlast.between (f b) List.mem_cons_self
  have hbefore : s.cursor.rear ≤ (f b).span.stop :=
    Nat.le_trans hcov.cursor.rear_le_front (Nat.le_trans hfront hl.ordered)
  have hlo : lo ≤ (f b).span.stop :=
    Nat.le_trans hcov.le_front (Nat.le_trans hfront hl.ordered)
  have hstart : (e b).span.start = lo := congrArg Span.start (hs b)
  have hstop : (e b).span.stop = (f b).span.stop := by rw [hs b]
  have hbetween : Element.Between fit lo (f b).span.stop (before ++ [f b]) :=
    (hcov.between.mono (Nat.le_refl _) hbefore).append
      (.singleton hl (Nat.le_trans hcov.le_front hfront) (Nat.le_refl _))
  rw [hg]
  refine { ht with
    le_rear := fun _ => Nat.le_trans hlo hrear
    between := .singleton ?_ (Nat.le_of_eq hstart.symm) (hstop ▸ hrear) }
  exact (hbetween.subset (hc b)).laid hstart (Nat.le_of_eq hstop.symm) (hstop ▸ hlo) hcov.fit_lo
    (hstop ▸ hl.fit_stop)

/-- What the token at the cursor stands for has the span of that token. -/
theorem leaf (hi : inner.GoesOn) {f : Span → α} {e : Element} {kind : TokenKind}
    (hk : s.cursor.kind = kind) (hne : kind ≠ .endOfInput)
    (hf : elements (f s.cursor.current.span) = [e]) (hs : e.span = s.cursor.current.span)
    (hc : e.children = []) :
    LaysAt fit setting inner true (.advance >>= fun span => Pure.pure (f span)) s := by
  intro hcov
  rw [← hk] at hne
  refine advance hi hne (close hf ?_ fun c h => ?_) hcov
  · rw [hs]
    exact (hcov.cursor.spanFrom_advance (hcov.cursor.closed.ahead_ne_nil hne)).symm
  · rw [hc] at h
    exact absurd h List.not_mem_nil

/-- What is read first may be where the element starts. -/
theorem onto {rule : Rule β} {next : β → Rule α} (f : β → Element)
    (hf : ∀ b, elements b = [f b]) (h : LaysAt fit setting inner moved rule s)
    (hn : ∀ b t, Builds fit setting inner (f b).span.start true [f b] t moved' (next b)) :
    LaysAt fit setting inner moved' (rule >>= next) s := by
  intro hs a u hr
  obtain ⟨b, t, hb, hu⟩ := done_of_bind hr
  have ht := h.covers hs.cursor hb
  rw [hf] at ht
  obtain ⟨-, hle, -⟩ := ht.between _ List.mem_cons_self
  exact (hn b t ht.narrow a u hu).lower hs.fit_lo hle

/-- What is read first may be of no interest. -/
theorem skip (hi : inner.GoesOn) {γ : Type} {rule : Rule γ} {next : γ → Rule α}
    (hn : ∀ b t, rule.run setting inner s = .done b t →
      Builds fit setting inner lo moved before t moved' (next b)) :
    Builds fit setting inner lo moved before s moved' (rule >>= next) := by
  intro hs a u hr
  obtain ⟨b, t, hb, hu⟩ := done_of_bind hr
  exact hn b t hb (hs.onward (onward_of_done hi hb)) a u hu

/-- Whether a token has been passed may be of no interest. -/
theorem lax {rule : Rule α} (h : Builds fit setting inner lo moved before s moved' rule) :
    Builds fit setting inner lo moved before s false rule :=
  fun hs a t hr => { h hs a t hr with le_rear := fun h => absurd h Bool.false_ne_true }

theorem subset {rule : Rule α} {before' : List Element}
    (h : Builds fit setting inner lo moved before' s moved' rule)
    (hs : ∀ e ∈ before', e ∈ before) :
    Builds fit setting inner lo moved before s moved' rule :=
  fun hc => h (hc.subset hs)

end Builds

/-! ### Repetitions and scopes -/

omit [Composed α] in
/-- What every step of a repetition keeps, the repetition keeps. -/
theorem loop_induct {p : α → State → Prop} {step : α → Rule (Option α)}
    (hstep : ∀ a s next t, p a s → (step a).run setting inner s = .done next t → p (next.getD a) t)
    {a b : α} {s t : State} (h : p a s) (hr : (loop step a).run setting inner s = .done b t) :
    p b t := by
  change Action.iterate _ (s.cursor.ahead.length + 1) a s = _ at hr
  generalize s.cursor.ahead.length + 1 = n at hr
  induction n generalizing a s with
  | zero =>
    cases hr
    exact h
  | succ n ih =>
    rw [Action.iterate] at hr
    cases hs : (step a).run setting inner s with
    | failed d u =>
      rw [hs] at hr
      cases hr
    | done next u =>
      rw [hs] at hr
      have hu := hstep a s next u h hs
      cases next with
      | none =>
        cases hr
        exact hu
      | some c => exact ih hu hr

section Repetitions

variable (hi : inner.GoesOn) {lo : Nat} {moved moved' : Bool} {s : State}

include hi

theorem laysAt_optionally {condition : Rule Bool} {rule : Rule α}
    (h : ∀ t, condition.run setting inner s = .done true t →
      LaysAt fit setting inner true rule t) :
    LaysAt fit setting inner false (optionally condition rule) s := by
  refine .skip hi fun b t hb => ?_
  cases b with
  | false => exact .pure fun _ he => absurd he List.not_mem_nil
  | true => exact .lax (.bind hi (h t hb) fun a u => .pure (by simp [Composed.elements]))

theorem laysAt_skipIf {condition : Rule Bool} {rule : Rule α}
    (h : ∀ t, LaysAt fit setting inner true rule t) :
    LaysAt fit setting inner false (skipIf condition rule) s := by
  refine .skip hi fun b t _ => ?_
  cases b with
  | true => exact .pure fun _ he => absurd he List.not_mem_nil
  | false => exact .lax (.bind hi (h t) fun a u => .pure (by simp [Composed.elements]))

/-- Reading many adds to what has been read. -/
theorem builds_many {rule : Rule (Option α)} (h : ∀ t, LaysAt fit setting inner moved' rule t)
    (items : List α) :
    Builds fit setting inner lo moved (elements items) s moved (many rule items) := by
  intro hs all t hr
  refine loop_induct (p := fun items s => s.Covers fit lo moved (elements items))
    (fun items s next u hs hu => ?_) hs hr
  obtain ⟨found, v, hv, hu⟩ := done_of_bind hu
  cases hu
  have ho := onward_of_done hi hv
  cases found with
  | none => exact hs.onward ho
  | some item =>
    have hall := hs.andThen ho ((h s).covers hs.cursor hv)
    have hcov : State.Covers fit lo moved (elements items ++ elements (some item)) u :=
      { hall with le_rear := (hs.onward ho).le_rear }
    exact hcov.subset (by simp [Composed.elements])

theorem laysAt_many {rule : Rule (Option α)} (h : ∀ t, LaysAt fit setting inner moved' rule t) :
    LaysAt fit setting inner false (many rule []) s := builds_many hi h []

theorem laysAt_separated {rule : Rule α} (h : ∀ t, LaysAt fit setting inner true rule t) :
    LaysAt fit setting inner true (separated rule) s := by
  refine .bind hi (h s) fun first t => ?_
  refine .subset (builds_many hi (fun u => laysAt_optionally hi fun v _ => h v) [first]) ?_
  simp [Composed.elements]

theorem laysAt_listUntil {close : Sign} {rule : Rule α}
    (h : ∀ t, LaysAt fit setting inner true rule t) :
    LaysAt fit setting inner false (listUntil close rule) s := by
  refine .skip hi fun b t _ => ?_
  exact .ite (fun _ => .pure fun _ he => absurd he List.not_mem_nil)
    fun _ => .lax (laysAt_separated hi h).builds

end Repetitions

theorem laysAt_inScope {kind : ScopeKind} {rule : Rule α} {moved : Bool} {s : State}
    (h : ∀ t, LaysAt fit setting inner moved rule t) :
    LaysAt fit setting inner moved (.inScope kind rule) s := by
  intro hs a t hr
  rw [run] at hr
  cases hrun : rule.run setting inner { s with scopes := s.scopes.push kind } with
  | done b u =>
    rw [hrun] at hr
    cases hr
    have hu := (h { s with scopes := s.scopes.push kind }).covers hs.cursor hrun
    exact hu.congr rfl
  | failed d u =>
    rw [hrun] at hr
    cases hr

end

end Rule

end Cypher
