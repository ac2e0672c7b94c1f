import Mathlib.Data.List.Nodup
import Cypher.Proofs.Placement
import Cypher.Proofs.Lossless

/-!
# Spans made of whole tokens

The span of a clause or of a statement goes from the first to the last of some tokens in a row, so
it is enough to know which tokens these are. A list of tokens that falls into the tokens of some
spans and others in between is described by `Cypher.Blocks`. Where no two of the tokens overlap,
such spans follow one another, and a token lies in one of them or in between
(`Cypher.Blocks.count`).

The tokens that a run passes are those between the two cursors (`Cypher.Cursor.Across`), and the
span from the front of the first to the rear of the second is made of these.
-/

namespace Cypher

namespace Token

/-! ### Tokens in spans -/

/-- **Whether a token lies in a span.** An empty one, such as that for the end of the text, lies in
none. -/
def isIn (t : Token) (span : Span) : Bool :=
  decide (t.span.start < t.span.stop) && span.contains t.span

theorem isIn_iff {t : Token} {span : Span} : t.isIn span = true ↔
    t.span.start < t.span.stop ∧ span.start ≤ t.span.start ∧ t.span.stop ≤ span.stop := by
  simp [isIn, Span.contains]

/-- **Tokens that do not overlap**, of which no other than the last may be empty. -/
def Apart (tokens : List Token) : Prop :=
  tokens.Pairwise fun t u => t.span.start < t.span.stop ∧ t.span.stop ≤ u.span.start

/-- The span from the first to the last of some tokens. -/
def hull : List Token → Span
  | [] => .empty 0
  | t :: ts => ⟨t.span.start, ((t :: ts).getLast (List.cons_ne_nil t ts)).span.stop⟩

theorem exists_hull_start {w : List Token} (hw : w ≠ []) :
    ∃ t ∈ w, (hull w).start = t.span.start := by
  obtain ⟨t, ts, rfl⟩ := List.exists_cons_of_ne_nil hw
  exact ⟨t, List.mem_cons_self, rfl⟩

theorem exists_hull_stop {w : List Token} (hw : w ≠ []) : ∃ t ∈ w, (hull w).stop = t.span.stop := by
  obtain ⟨t, ts, rfl⟩ := List.exists_cons_of_ne_nil hw
  exact ⟨_, List.getLast_mem _, rfl⟩

namespace Apart

variable {pre w post : List Token} {t u v : Token}

theorem nodup (h : Apart w) : w.Nodup := by
  refine h.imp fun {t u} htu heq => ?_
  subst heq
  omega

/-- A token is known by where it starts. -/
theorem eq_of_start (h : Apart w) (ht : t ∈ w) (hu : u ∈ w)
    (heq : t.span.start = u.span.start) : t = u := by
  have hstarts : (w.map fun t => t.span.start).Nodup :=
    List.pairwise_map.2 (h.imp fun htu => Nat.ne_of_lt (Nat.lt_of_lt_of_le htu.1 htu.2))
  exact List.inj_on_of_nodup_map hstarts ht hu heq

/-- So is the token right behind another. -/
theorem eq_of_infix (h : Apart w) (ht : [u, t] <:+: w) (hv : [u, v] <:+: w) : t = v := by
  obtain ⟨a, b, rfl⟩ := ht
  obtain ⟨c, d, heq⟩ := hv
  have hnodup := h.nodup
  simp only [List.append_assoc, List.cons_append, List.nil_append] at heq hnodup
  obtain ⟨hu, -⟩ := List.nodup_cons.1 (List.nodup_middle.1 hnodup)
  rw [List.mem_append, not_or] at hu
  obtain ⟨-, -, hrest⟩ := (List.append_cons_inj_of_notMem hu.1 hu.2).1 heq.symm
  exact (List.cons.inj hrest).1

theorem nodup_middle (h : Apart (pre ++ w ++ post)) : w.Nodup :=
  nodup (List.pairwise_append.1 (List.pairwise_append.1 h).1).2.1

/-- A token in the middle has characters and lies between those on either side. -/
theorem middle (h : Apart (pre ++ w ++ post)) (hpost : post ≠ []) (ht : t ∈ w) :
    t.span.start < t.span.stop ∧ (∀ u ∈ pre, u.span.stop ≤ t.span.start) ∧
      ∀ u ∈ post, t.span.stop ≤ u.span.start := by
  obtain ⟨-, -, hbehind⟩ := List.pairwise_append.1 h
  obtain ⟨u, us, rfl⟩ := List.exists_cons_of_ne_nil hpost
  have htw : t ∈ pre ++ w := List.mem_append_right _ ht
  rw [List.append_assoc] at h
  obtain ⟨-, -, hbefore⟩ := List.pairwise_append.1 h
  exact ⟨(hbehind t htw u List.mem_cons_self).1,
    fun v hv => (hbefore v hv t (List.mem_append_left _ ht)).2, fun v hv => (hbehind t htw v hv).2⟩

/-- The span of some tokens begins before each of them and ends behind. -/
theorem hull_bounds (h : Apart (pre ++ w ++ post)) (hpost : post ≠ []) (ht : t ∈ w) :
    (hull w).start ≤ t.span.start ∧ t.span.stop ≤ (hull w).stop := by
  have hw : Apart w := (List.pairwise_append.1 (List.pairwise_append.1 h).1).2.1
  obtain ⟨first, rest, rfl⟩ := List.exists_cons_of_ne_nil (List.ne_nil_of_mem ht)
  constructor
  · rcases List.mem_cons.1 ht with rfl | ht
    · exact Nat.le_refl _
    · have hfirst := (List.pairwise_cons.1 hw).1 t ht
      exact Nat.le_trans (Nat.le_of_lt hfirst.1) hfirst.2
  · have hlast : (first :: rest).dropLast ++ [(first :: rest).getLast (List.cons_ne_nil _ _)] =
      first :: rest := List.dropLast_concat_getLast _
    rw [← hlast] at hw ht
    rcases List.mem_append.1 ht with ht | ht
    · have hle := ((List.pairwise_append.1 hw).2.2 t ht _ List.mem_cons_self).2
      have hlt := (middle h hpost (List.getLast_mem (List.cons_ne_nil first rest))).1
      exact Nat.le_trans hle (Nat.le_of_lt hlt)
    · rw [List.mem_singleton.1 ht]
      exact Nat.le_refl _

/-- **The tokens in the span of some tokens are these.** -/
theorem isIn_hull (h : Apart (pre ++ w ++ post)) (hw : w ≠ []) (hpost : post ≠ [])
    (ht : t ∈ pre ++ w ++ post) : t.isIn (hull w) = true ↔ t ∈ w := by
  rw [isIn_iff]
  constructor
  · rintro ⟨hne, hstart, hstop⟩
    -- a token on either side is over before the first of them or begins behind the last
    rcases List.mem_append.1 ht with ht | ht
    · rcases List.mem_append.1 ht with ht | ht
      · obtain ⟨u, hu, hfirst⟩ := exists_hull_start hw
        have := (middle h hpost hu).2.1 t ht
        omega
      · exact ht
    · obtain ⟨u, hu, hlast⟩ := exists_hull_stop hw
      have := (middle h hpost hu).2.2 t ht
      omega
  · intro ht
    exact ⟨(middle h hpost ht).1, hull_bounds h hpost ht⟩

end Apart
end Token

/-! ### Blocks of tokens -/

section Blocks

open Token (hull Apart)

variable {α : Type} {span : α → Span}

/-- **Tokens that fall into blocks and some in between**, where the blocks are the spans of some
things in order. -/
inductive Blocks (span : α → Span) : List Token → List Token → List α → Prop
  /-- No tokens. -/
  | nil : Blocks span [] [] []
  /-- A token in between. -/
  | between {t : Token} {w gaps : List Token} {xs : List α} (h : Blocks span w gaps xs) :
      Blocks span (t :: w) (t :: gaps) xs
  /-- The tokens in a span. -/
  | block {w v gaps : List Token} {x : α} {xs : List α} (nonempty : w ≠ []) (hull : span x = hull w)
      (h : Blocks span v gaps xs) : Blocks span (w ++ v) gaps (x :: xs)

namespace Blocks

variable {pre w w' post gaps gaps' : List Token} {xs xs' : List α} {t : Token}

theorem single {x : α} (hw : w ≠ []) (h : span x = hull w) : Blocks span w [] [x] := by
  have := block hw h nil
  rwa [List.append_nil] at this

theorem append (h : Blocks span w gaps xs) (h' : Blocks span w' gaps' xs') :
    Blocks span (w ++ w') (gaps ++ gaps') (xs ++ xs') := by
  induction h with
  | nil => exact h'
  | between _ ih => exact .between ih
  | block hw hs _ ih =>
    rw [List.append_assoc]
    exact .block hw hs ih

/-- **Each token lies in a block or in between**, and in no more than one place. -/
theorem count (h : Blocks span w gaps xs) (ha : Apart (pre ++ w ++ post)) (hpost : post ≠ [])
    (ht : t ∈ pre ++ w ++ post) :
    w.count t = gaps.count t + xs.countP fun x => t.isIn (span x) := by
  induction h generalizing pre with
  | nil => rfl
  | @between u w gaps xs _ ih =>
    have hshift : pre ++ u :: w ++ post = (pre ++ [u]) ++ w ++ post := by simp
    rw [hshift] at ha ht
    rw [List.count_cons, List.count_cons, ih ha ht]
    omega
  | @block w v gaps x xs hw hs _ ih =>
    have hshift : pre ++ (w ++ v) ++ post = (pre ++ w) ++ v ++ post := by simp
    have hsplit : pre ++ (w ++ v) ++ post = pre ++ w ++ (v ++ post) := by simp
    have hrest : v ++ post ≠ [] := List.append_ne_nil_of_right_ne_nil _ hpost
    have hin := Apart.isIn_hull (hsplit ▸ ha) hw hrest (hsplit ▸ ht)
    have hnodup := Apart.nodup_middle (hsplit ▸ ha)
    rw [List.count_append, ih (hshift ▸ ha) (hshift ▸ ht), List.countP_cons, hs, hnodup.count]
    simp only [hin]
    omega

/-- Each span starts where a token does. -/
theorem exists_start (h : Blocks span w gaps xs) {x : α} (hx : x ∈ xs) :
    ∃ t ∈ w, (span x).start = t.span.start := by
  induction h with
  | nil => cases hx
  | between _ ih =>
    obtain ⟨t, ht, hstart⟩ := ih hx
    exact ⟨t, List.mem_cons_of_mem _ ht, hstart⟩
  | block hw hs _ ih =>
    rcases List.mem_cons.1 hx with rfl | hx
    · obtain ⟨t, ht, hstart⟩ := Token.exists_hull_start hw
      exact ⟨t, List.mem_append_left _ ht, hs ▸ hstart⟩
    · obtain ⟨t, ht, hstart⟩ := ih hx
      exact ⟨t, List.mem_append_right _ ht, hstart⟩

/-- **The spans are not empty and follow one another.** -/
theorem ordered (h : Blocks span w gaps xs) (ha : Apart (pre ++ w ++ post)) (hpost : post ≠ []) :
    (∀ x ∈ xs, (span x).start < (span x).stop) ∧
      xs.Pairwise fun x y => (span x).stop ≤ (span y).start := by
  induction h generalizing pre with
  | nil => exact ⟨fun x hx => (nomatch hx), .nil⟩
  | @between u w gaps xs _ ih =>
    have hshift : pre ++ u :: w ++ post = (pre ++ [u]) ++ w ++ post := by simp
    exact ih (hshift ▸ ha)
  | @block w v gaps x xs hw hs hv ih =>
    have hshift : pre ++ (w ++ v) ++ post = (pre ++ w) ++ v ++ post := by simp
    have hsplit : pre ++ (w ++ v) ++ post = pre ++ w ++ (v ++ post) := by simp
    have hrest : v ++ post ≠ [] := List.append_ne_nil_of_right_ne_nil _ hpost
    obtain ⟨hne, hpair⟩ := ih (hshift ▸ ha)
    obtain ⟨last, hlast, hstop⟩ := Token.exists_hull_stop hw
    obtain ⟨hchars, -, hbehind⟩ := Apart.middle (hsplit ▸ ha) hrest hlast
    obtain ⟨hstart, -⟩ := Apart.hull_bounds (hsplit ▸ ha) hrest hlast
    refine ⟨List.forall_mem_cons.2 ⟨?_, hne⟩, List.pairwise_cons.2 ⟨fun y hy => ?_, hpair⟩⟩
    · rw [hs]
      omega
    · obtain ⟨t, ht, hy⟩ := hv.exists_start hy
      rw [hs, hstop, hy]
      exact hbehind t (List.mem_append_left _ ht)

end Blocks

end Blocks

/-! ### Tokens between two cursors -/

namespace Cursor

/-- The token at a cursor and those ahead. -/
def rest (c : Cursor) : List Token := c.current :: c.ahead

/-- **All tokens around a cursor.** -/
def tokens (c : Cursor) : List Token := c.behind.reverse ++ c.rest

theorem rest_ne_nil (c : Cursor) : c.rest ≠ [] := List.cons_ne_nil _ _

/-- Moving on, no token is met that was not ahead. -/
theorem mem_rest_of_advance {c : Cursor} {t : Token} (h : t ∈ c.advance.rest) : t ∈ c.rest := by
  cases ha : c.ahead with
  | nil => rwa [advance_of_ahead_eq_nil ha] at h
  | cons u us =>
    rw [advance_of_ahead_eq_cons ha] at h
    exact List.mem_cons_of_mem _ (ha ▸ h)

theorem mem_closed {t u : Token} {ts : List Token} (h : u ∈ closed t ts) :
    u ∈ ts ∨ u.kind = .endOfInput := by
  induction ts generalizing t with
  | nil =>
    unfold closed at h
    split at h
    · cases h
    · rw [List.mem_singleton.1 h]
      exact .inr rfl
  | cons v vs ih =>
    rcases List.mem_cons.1 h with rfl | h
    · exact .inl List.mem_cons_self
    · exact (ih h).imp_left (List.mem_cons_of_mem v)

/-- All tokens ahead at the start are given, but perhaps for the end of the text. -/
theorem mem_rest_ofTokens {tokens : List Token} {t : Token} (h : t ∈ (ofTokens tokens).rest) :
    t ∈ tokens ∨ t.kind = .endOfInput := by
  suffices hmem : t ∈ tokens.filter (fun t => t.kind ≠ .invalid) ∨ t.kind = .endOfInput from
    hmem.imp_left fun hmem => (List.mem_filter.1 hmem).1
  unfold ofTokens at h
  cases hf : tokens.filter fun t => t.kind ≠ .invalid with
  | nil =>
    rw [hf] at h
    rw [List.mem_singleton.1 h]
    exact .inr rfl
  | cons u us =>
    rw [hf] at h
    rcases List.mem_cons.1 h with rfl | h
    · exact .inl List.mem_cons_self
    · exact (mem_closed h).imp_left (List.mem_cons_of_mem u)

theorem current_mem_tokens (c : Cursor) : c.current ∈ c.tokens :=
  List.mem_append_right _ List.mem_cons_self

/-- The token at a cursor and the next one stand in a row. -/
theorem infix_tokens {c : Cursor} (h : c.ahead ≠ []) :
    [c.current, c.advance.current] <:+: c.tokens := by
  obtain ⟨t, ts, ha⟩ := List.exists_cons_of_ne_nil h
  refine ⟨c.behind.reverse, ts, ?_⟩
  rw [advance_of_ahead_eq_cons ha, tokens, rest, ha, List.append_assoc]
  rfl

/-- **Tokens between two cursors** of which the one has moved on to the other. -/
def Across (c : Cursor) (w : List Token) (c' : Cursor) : Prop :=
  c.rest = w ++ c'.rest ∧ c'.behind.reverse = c.behind.reverse ++ w

namespace Across

variable {c c' c'' : Cursor} {w w' : List Token}

theorem refl (c : Cursor) : c.Across [] c := ⟨rfl, (List.append_nil _).symm⟩

theorem trans (h : c.Across w c') (h' : c'.Across w' c'') : c.Across (w ++ w') c'' :=
  ⟨by rw [h.1, h'.1, List.append_assoc], by rw [h'.2, h.2, List.append_assoc]⟩

theorem tokens_eq (h : c.Across w c') : c.tokens = c.behind.reverse ++ w ++ c'.rest := by
  rw [tokens, h.1, List.append_assoc]

/-- The token behind has been passed first. -/
theorem advance {t : Token} {ts : List Token} (h : c.ahead = t :: ts) :
    c.Across [c.current] c.advance := by
  rw [advance_of_ahead_eq_cons h]
  exact ⟨by rw [rest, h]; rfl, by simp⟩

end Across

theorem closed_of_rest {c : Cursor} {w : List Token} {stop : Token}
    (h : c.rest = w ++ [stop]) (hs : stop.kind = .endOfInput) : c.Closed := by
  intro t ht
  rw [show c.current :: c.ahead = w ++ [stop] from h, List.getLast?_concat] at ht
  rw [← Option.some.inj ht]
  exact hs

theorem Across.rest_eq {c c' : Cursor} {w tail : List Token} (h : c.Across w c')
    (hr : c.rest = w ++ tail) : c'.rest = tail := List.append_cancel_left (h.1.symm.trans hr)

/-- One token is passed where there are others. -/
theorem across_advance {c : Cursor} {t : Token} {tail : List Token} (hr : c.rest = t :: tail)
    (ht : tail ≠ []) : c.Across [t] c.advance ∧ c.kind = t.kind := by
  obtain ⟨rfl, ha⟩ := List.cons.inj hr
  obtain ⟨u, us, rfl⟩ := List.exists_cons_of_ne_nil ht
  exact ⟨.advance ha, rfl⟩

/-- **Moving on passes some tokens.** -/
theorem Onward.exists_across {c c' : Cursor} (h : c.Onward c') : ∃ w, c.Across w c' := by
  refine h.induct (p := fun x => ∃ w, c.Across w x) (fun x hx => ?_) ⟨[], .refl c⟩
  obtain ⟨w, hw⟩ := hx
  cases ha : x.ahead with
  | nil =>
    rw [advance_of_ahead_eq_nil ha]
    exact ⟨w, hw⟩
  | cons t ts => exact ⟨w ++ [x.current], hw.trans (.advance ha)⟩

/-- **A cursor over given tokens**, the last of which is the end of the text. -/
structure Over (all : List Token) (c : Cursor) : Prop where
  /-- The tokens around the cursor are these. -/
  tokens_eq : c.tokens = all
  /-- The last of them is the end of the text. -/
  closed : c.Closed

theorem Over.onward {all : List Token} {c c' : Cursor} (h : c.Over all) (ho : c.Onward c') :
    c'.Over all := by
  obtain ⟨w, hw⟩ := ho.exists_across
  exact ⟨by rw [← h.tokens_eq, hw.tokens_eq, tokens, hw.2], h.closed.onward ho⟩

theorem Over.advance {all : List Token} {c : Cursor} (h : c.Over all) : c.advance.Over all :=
  h.onward c.onward_advance

/-- **A cursor at the first of some tokens has those on either side of it behind and ahead**, as the
token is in no other place. -/
theorem Over.sides_eq {c : Cursor} {before v after : List Token} {t : Token}
    (h : c.Over (before ++ (t :: v) ++ after)) (ha : Token.Apart (before ++ (t :: v) ++ after))
    (ht : c.current = t) : c.behind = before.reverse ∧ c.ahead = v ++ after := by
  have htokens := h.tokens_eq
  have hnodup := ha.nodup
  rw [← htokens, tokens, rest, ht] at hnodup
  rw [tokens, rest, ht, List.append_assoc, List.cons_append] at htokens
  have hnot := (List.nodup_cons.1 (List.nodup_middle.1 hnodup)).1
  rw [List.mem_append, not_or] at hnot
  obtain ⟨hbehind, -, hahead⟩ := (List.append_cons_inj_of_notMem hnot.1 hnot.2).1 htokens
  exact ⟨by rw [← hbehind, List.reverse_reverse], hahead⟩

open Token (hull Apart)

namespace Across

variable {c c' : Cursor} {w : List Token}

/-- Two cursors with nothing between them are at the same token. -/
theorem eq_of_nil (h : c.Across [] c') : c' = c := by
  obtain ⟨behind, current, ahead⟩ := c
  obtain ⟨behind', current', ahead'⟩ := c'
  obtain ⟨hrest, hbehind⟩ := h
  rw [List.append_nil, List.reverse_inj] at hbehind
  obtain ⟨hcurrent, hahead⟩ := List.cons.inj hrest
  dsimp only at hbehind hcurrent hahead
  rw [hbehind, hcurrent, hahead]

/-- **From the front of one cursor to the rear of another lie the tokens between them.** -/
theorem spanFrom_eq (h : c.Across w c') (ha : Apart c.tokens) (hw : w ≠ []) :
    c'.spanFrom c.front = hull w := by
  obtain ⟨first, ts, rfl⟩ := List.exists_cons_of_ne_nil hw
  have hbounds := Apart.hull_bounds (h.tokens_eq ▸ ha) c'.rest_ne_nil
    (List.getLast_mem (List.cons_ne_nil first ts))
  have hfront : c.front = first.span.start := congrArg (fun t => t.span.start) (List.cons.inj h.1).1
  have hmiddle := Apart.middle (h.tokens_eq ▸ ha) c'.rest_ne_nil
    (List.getLast_mem (List.cons_ne_nil first ts))
  have hbehind : c'.behind = ((first :: ts).dropLast ++
      [(first :: ts).getLast (List.cons_ne_nil _ _)]).reverse ++ c.behind := by
    rw [List.dropLast_concat_getLast, ← List.reverse_inj, h.2]
    simp
  have hrear : c'.rear = ((first :: ts).getLast (List.cons_ne_nil _ _)).span.stop := by
    rw [rear, previousSpan, hbehind, List.reverse_append, List.reverse_singleton]
    rfl
  change Span.mk c.front (max c'.rear c.front) = _
  rw [hrear, hfront, hull, Nat.max_eq_left]
  exact Nat.le_of_lt (Nat.lt_of_le_of_lt hbounds.1 hmiddle.1)

/-- **A token lies between two cursors if and only if it has been passed.** -/
theorem isIn_spanFrom (h : c.Across w c') (ha : Apart c.tokens) {t : Token} (ht : t ∈ c.tokens) :
    t.isIn (c'.spanFrom c.front) = true ↔ t ∈ w := by
  by_cases hw : w = []
  · subst hw
    obtain rfl := h.eq_of_nil
    have hle : c'.rear ≤ c'.front := by
      unfold rear previousSpan
      cases hb : c'.behind with
      | nil => exact Nat.le_refl _
      | cons u us =>
        have hmem : u ∈ c'.behind.reverse := by simp [hb]
        exact ((List.pairwise_append.1 ha).2.2 u hmem _ List.mem_cons_self).2
    refine iff_of_false (fun hin => ?_) List.not_mem_nil
    obtain ⟨hchars, hstart, hstop⟩ := Token.isIn_iff.1 hin
    change c'.front ≤ t.span.start at hstart
    change t.span.stop ≤ max c'.rear c'.front at hstop
    omega
  · rw [h.spanFrom_eq ha hw]
    rw [h.tokens_eq] at ha ht
    exact Apart.isIn_hull ha hw c'.rest_ne_nil ht

end Across

end Cursor

end Cypher
