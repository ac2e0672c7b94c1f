import Cypher.Proofs.Provenance.Basic

/-!
# Brackets that are paired

Brackets are paired if they are properly nested and each is closed by one of its own kind. Whether
this is so is found out by keeping the open ones on a stack (`Cypher.Token.pair`), and two things
come of it: every bracket has a partner (`Cypher.Token.exists_partner`), and the number of open
braces, counted from any place on, never sinks below zero for as long as no brace from before is
closed.

So a pair of braces are partners if and only if this number does not sink between them and comes
back to where it was (`Cypher.Token.paired_between`, `Cypher.Token.closesOwn_iff_rise`). That is
what reading a subquery should bring about. It does the first of the two, since the skipping that
makes up for a failure closes no brace that it has not seen open (`Cypher.Token.held_of_skips`).
-/

namespace Cypher

/-! ### Pairs of brackets -/

/-- The bracket that closes an opening one. -/
def Sign.closing? : Sign → Option Sign
  | leftParen => some rightParen
  | leftBracket => some rightBracket
  | leftBrace => some rightBrace
  | _ => none

/-- **The brackets that are open behind a token**, the innermost first, given those open before it.
There is no telling if the token closes what is not open. -/
def TokenKind.pair (kind : TokenKind) (opened : List Sign) : Option (List Sign) :=
  match kind with
  | sign s =>
    if kind.isOpening then some (s :: opened)
    else if kind.isClosing then
      match opened with
      | o :: outer => if o.closing? = some s then some outer else none
      | [] => none
    else some opened
  | _ => some opened

/-- By how much a token changes the number of open braces. -/
def TokenKind.rise : TokenKind → Int
  | sign .leftBrace => 1
  | sign .rightBrace => -1
  | _ => 0

namespace Token

/-- The brackets that are open behind some tokens. -/
def pair : List Sign → List Token → Option (List Sign)
  | opened, [] => some opened
  | opened, t :: ts => (t.kind.pair opened).bind fun opened => pair opened ts

/-- **Tokens whose brackets are paired**: properly nested, and each closed by one of its kind. -/
def Paired (tokens : List Token) : Prop := pair [] tokens = some []

instance (tokens : List Token) : Decidable (Paired tokens) :=
  inferInstanceAs (Decidable (pair [] tokens = some []))

/-- By how much some tokens change the number of open braces. -/
def rise : List Token → Int
  | [] => 0
  | t :: ts => t.kind.rise + rise ts

/-- **The number of open braces is held**: it never sinks below zero from a given number on. -/
def Held : Int → List Token → Prop
  | height, [] => 0 ≤ height
  | height, t :: ts => 0 ≤ height ∧ Held (height + t.kind.rise) ts

end Token

/-! ### One token -/

namespace TokenKind

variable {kind : TokenKind} {opened own outer after : List Sign}

/-- What a token does to the open brackets. -/
theorem pair_cases (h : kind.pair opened = some after) :
    (∃ s, kind = .sign s ∧ kind.isOpening = true ∧ after = s :: opened) ∨
    (∃ s o, kind = .sign s ∧ kind.isClosing = true ∧ opened = o :: after ∧ o.closing? = some s) ∨
    (kind.isOpening = false ∧ kind.isClosing = false ∧ after = opened) := by
  unfold pair at h
  split at h
  · next s =>
    split at h
    · next ho => exact Or.inl ⟨s, rfl, ho, (Option.some.inj h).symm⟩
    · next ho =>
      split at h
      · next hc =>
        split at h
        · split at h
          · next hpair => exact Or.inr (Or.inl ⟨s, _, rfl, hc, by rw [Option.some.inj h], hpair⟩)
          · cases h
        · cases h
      · next hc =>
        exact Or.inr (Or.inr ⟨Bool.eq_false_iff.2 ho, Bool.eq_false_iff.2 hc,
          (Option.some.inj h).symm⟩)
  · next hsign =>
    refine Or.inr (Or.inr ⟨?_, ?_, (Option.some.inj h).symm⟩)
    · cases kind <;> first | rfl | exact absurd rfl (hsign _)
    · cases kind <;> first | rfl | exact absurd rfl (hsign _)

theorem rise_of_plain (ho : kind.isOpening = false) (hc : kind.isClosing = false) :
    kind.rise = 0 := by
  unfold rise
  split
  · cases ho
  · cases hc
  · rfl

/-- The number of open braces on the stack. -/
theorem count_pair (h : kind.pair opened = some after) :
    (opened.count .leftBrace : Int) + kind.rise = after.count .leftBrace := by
  rcases pair_cases h with ⟨s, rfl, ho, rfl⟩ | ⟨s, o, rfl, hc, rfl, hpair⟩ | ⟨ho, hc, rfl⟩
  · cases s <;> first | (simp [rise]; done) | cases ho
  · cases o with
    | leftParen => cases hpair; simp [rise]
    | leftBracket => cases hpair; simp [rise]
    | leftBrace =>
      cases hpair
      simp only [List.count_cons_self, rise]
      omega
    | _ => cases hpair
  · rw [rise_of_plain ho hc, Int.add_zero]

/-- **Either a token does the same with fewer open brackets**, or it closes the last of them. -/
theorem pair_append (h : kind.pair (own ++ outer) = some after) :
    (∃ own', kind.pair own = some own' ∧ after = own' ++ outer ∧
      own'.length = Cursor.depthAfter own.length kind) ∨
    (own = [] ∧ kind.isClosing = true ∧ ∃ o s, outer = o :: after ∧ kind = .sign s ∧
      o.closing? = some s) := by
  rcases pair_cases h with ⟨s, rfl, ho, rfl⟩ | ⟨s, o, rfl, hc, hown, hpair⟩ | ⟨ho, hc, rfl⟩
  · refine Or.inl ⟨s :: own, ?_, rfl, ?_⟩
    · simp [pair, ho]
    · simp [Cursor.depthAfter, ho]
  · have ho : (TokenKind.sign s).isOpening = false := by
      cases s <;> first | rfl | cases hc
    cases own with
    | nil => exact Or.inr ⟨rfl, hc, o, s, hown, rfl, hpair⟩
    | cons p own =>
      obtain ⟨rfl, rfl⟩ := List.cons.inj hown
      refine Or.inl ⟨own, ?_, rfl, ?_⟩
      · simp [pair, ho, hc, hpair]
      · simp [Cursor.depthAfter, ho, hc]
  · refine Or.inl ⟨own, ?_, rfl, ?_⟩
    · unfold pair
      split
      · simp [ho, hc]
      · rfl
    · simp [Cursor.depthAfter, ho, hc]

end TokenKind

/-! ### Many tokens -/

namespace Token

variable {opened after own outer : List Sign} {u v w pre post all : List Token} {height : Int}

theorem pair_append (opened : List Sign) (u v : List Token) :
    pair opened (u ++ v) = (pair opened u).bind fun after => pair after v := by
  induction u generalizing opened with
  | nil => rfl
  | cons t u ih =>
    rw [List.cons_append, pair, pair, Option.bind_assoc]
    exact congrArg _ (funext fun _ => ih _)

/-- What is open in front of some of the tokens and behind them. -/
theorem exists_pair_of_append (h : pair opened (u ++ v) = some after) :
    ∃ between, pair opened u = some between ∧ pair between v = some after :=
  Option.bind_eq_some_iff.1 (pair_append opened u v ▸ h)

@[simp] theorem rise_append (u v : List Token) : rise (u ++ v) = rise u + rise v := by
  induction u with
  | nil => simp [rise]
  | cons t u ih =>
    rw [List.cons_append, rise, rise, ih]
    omega

theorem rise_of_isPlain {t : Token} (h : t.kind.isPlain = true) : t.kind.rise = 0 := by
  unfold TokenKind.isPlain at h
  unfold TokenKind.rise
  split <;> first | rfl | (split at h <;> simp_all)

theorem Held.nonneg (h : Held height w) : 0 ≤ height := by
  cases w with
  | nil => exact h
  | cons t w => exact h.1

theorem Held.mono {higher : Int} (h : Held height w) (hh : height ≤ higher) : Held higher w := by
  induction w generalizing height higher with
  | nil => exact Int.le_trans h hh
  | cons t w ih => exact ⟨Int.le_trans h.1 hh, ih h.2 (Int.add_le_add_right hh _)⟩

theorem held_append : Held height (u ++ v) ↔ Held height u ∧ Held (height + rise u) v := by
  induction u generalizing height with
  | nil =>
    rw [List.nil_append, rise, Int.add_zero]
    exact ⟨fun h => ⟨h.nonneg, h⟩, fun h => h.2⟩
  | cons t u ih =>
    rw [List.cons_append, Held, Held, ih, rise, Int.add_assoc, and_assoc]

/-- What is held ends at no less than zero. -/
theorem Held.rise_nonneg (h : Held height w) : 0 ≤ height + rise w := by
  have hall : Held height (w ++ []) := by rwa [List.append_nil]
  exact (held_append.1 hall).2

/-- Of two lists that are held, one may follow the other. -/
theorem Held.append (hu : Held 0 u) (hv : Held 0 v) : Held 0 (u ++ v) :=
  held_append.2 ⟨hu, hv.mono hu.rise_nonneg⟩

/-- **Paired brackets hold the number of open braces.** -/
theorem held_of_pair (h : pair opened w = some after) :
    Held (opened.count .leftBrace) w ∧
      (opened.count .leftBrace : Int) + rise w = after.count .leftBrace := by
  induction w generalizing opened with
  | nil =>
    obtain rfl := Option.some.inj h
    exact ⟨Int.natCast_nonneg _, Int.add_zero _⟩
  | cons t w ih =>
    obtain ⟨between, ht, hw⟩ := Option.bind_eq_some_iff.1 h
    have hcount := TokenKind.count_pair ht
    obtain ⟨hheld, hrise⟩ := ih hw
    refine ⟨⟨Int.natCast_nonneg _, hcount ▸ hheld⟩, ?_⟩
    rw [rise]
    omega

theorem Paired.held (h : Paired w) : Held 0 w := (held_of_pair h).1

theorem Paired.rise_eq (h : Paired w) : rise w = 0 := by
  have hrise := (held_of_pair h).2
  simpa using hrise

/-- **So does skipping**, where the brackets around are paired: it closes no brace but those that it
has counted. -/
theorem held_of_skips (h : pair (own ++ outer) w = some after) (hs : Skips own.length w) :
    Held (own.count .leftBrace) w := by
  induction w generalizing own outer with
  | nil => exact Int.natCast_nonneg _
  | cons t w ih =>
    obtain ⟨hbrace, hs⟩ := hs
    obtain ⟨between, ht, hw⟩ := Option.bind_eq_some_iff.1 h
    refine ⟨Int.natCast_nonneg _, ?_⟩
    rcases TokenKind.pair_append ht with ⟨own', hown, rfl, hlength⟩ |
      ⟨rfl, hclose, o, s, rfl, hk, -⟩
    · rw [TokenKind.count_pair hown]
      exact ih hw (hlength ▸ hs)
    · -- a bracket from before is closed, which is not a brace
      have hrise : t.kind.rise = 0 := by
        rw [hk] at hclose hbrace ⊢
        cases s <;> first | rfl | exact absurd (hbrace rfl) (Nat.lt_irrefl 0) | cases hclose
      have hdepth : Cursor.depthAfter 0 t.kind = 0 := by
        rw [hk] at hclose ⊢
        cases s <;> first | rfl | cases hclose
      rw [hrise, Int.add_zero]
      rw [List.length_nil, hdepth] at hs
      rw [← List.nil_append between] at hw
      exact ih hw hs

/-- **Every open bracket has a partner**, and what is between is paired. -/
theorem exists_partner {o : Sign} (h : pair (own ++ o :: outer) w = some []) :
    ∃ inside c post, w = inside ++ c :: post ∧ pair own inside = some [] ∧
      ∃ s, c.kind = .sign s ∧ o.closing? = some s := by
  induction w generalizing own with
  | nil => exact absurd (Option.some.inj h) (by simp)
  | cons t w ih =>
    obtain ⟨between, ht, hw⟩ := Option.bind_eq_some_iff.1 h
    rcases TokenKind.pair_append ht with ⟨own', hown, rfl, -⟩ | ⟨rfl, -, p, s, hp, hk, hpair⟩
    · obtain ⟨inside, c, post, rfl, hinside, hc⟩ := ih hw
      refine ⟨t :: inside, c, post, rfl, ?_, hc⟩
      rw [pair, hown]
      exact hinside
    · obtain ⟨rfl, -⟩ := List.cons.inj hp
      exact ⟨[], t, w, rfl, rfl, s, hk, hpair⟩

/-! ### Braces that are partners -/

variable {left right : Token}

/-- A pair of braces between which the number of open braces is held and comes back to zero are
partners. -/
theorem paired_between (h : Paired (pre ++ left :: w ++ right :: post))
    (hl : left.kind = .sign .leftBrace) (hr : right.kind = .sign .rightBrace) (hw : Held 0 w)
    (hrise : rise w = 0) : Paired w := by
  rw [List.append_assoc, List.cons_append] at h
  obtain ⟨opened, -, h⟩ := exists_pair_of_append h
  obtain ⟨between, hleft, h⟩ := Option.bind_eq_some_iff.1 h
  obtain rfl : between = .leftBrace :: opened :=
    Option.some.inj (hleft.symm.trans (by rw [hl]; rfl))
  rw [← List.nil_append (.leftBrace :: opened)] at h
  obtain ⟨inside, c, rest, heq, hinside, s, hc, hs⟩ := exists_partner h
  obtain rfl : _ = s := Option.some.inj hs
  rcases List.append_eq_append_iff.1 heq with ⟨x, rfl, hx⟩ | ⟨x, rfl, hx⟩
  · cases x with
    | nil => rwa [List.append_nil] at hinside
    | cons t x =>
      -- the closing brace would sink below what is between partners
      obtain ⟨rfl, -⟩ := List.cons.inj hx
      have hsinks := (held_append.1 (Paired.held hinside)).2.2.nonneg
      rw [hr, hrise] at hsinks
      exact absurd hsinks (by decide)
  · cases x with
    | nil => rwa [List.append_nil]
    | cons t x =>
      obtain ⟨rfl, -⟩ := List.cons.inj hx
      have hsinks := (held_append.1 hw).2.2.nonneg
      rw [hc, Paired.rise_eq hinside] at hsinks
      exact absurd hsinks (by decide)

/-- Every token but the end of the text has characters. -/
theorem Apart.start_lt_stop (ha : Apart all) (hend : ∃ ts e, all = ts ++ [e] ∧ e.kind = .endOfInput)
    {t : Token} (ht : t ∈ all) (hk : t.kind ≠ .endOfInput) : t.span.start < t.span.stop := by
  obtain ⟨ts, e, rfl, he⟩ := hend
  rcases List.mem_append.1 ht with ht | ht
  · exact ((List.pairwise_append.1 ha).2.2 t ht e List.mem_cons_self).1
  · rw [List.mem_singleton.1 ht] at hk
    exact absurd he hk

/-- Tokens with characters are told apart by where they stop. -/
theorem Apart.eq_of_stop (ha : Apart all) {t u : Token} (ht : t ∈ all) (hu : u ∈ all)
    (ht' : t.span.start < t.span.stop) (hu' : u.span.start < u.span.stop)
    (heq : t.span.stop = u.span.stop) : t = u := by
  have hstops : ((all.filter fun t => t.span.start < t.span.stop).map (·.span.stop)).Nodup := by
    refine List.pairwise_map.2 ((ha.filter _).imp_of_mem fun _ hu htu => Nat.ne_of_lt ?_)
    exact Nat.lt_of_le_of_lt htu.2 (of_decide_eq_true (List.mem_filter.1 hu).2)
  exact List.inj_on_of_nodup_map hstops (List.mem_filter.2 ⟨ht, decide_eq_true ht'⟩)
    (List.mem_filter.2 ⟨hu, decide_eq_true hu'⟩) heq

/-- A token is in one place only. -/
theorem Apart.front_eq {t : Token} {pre' post' : List Token} (ha : Apart all)
    (h : all = pre ++ t :: post) (h' : all = pre' ++ t :: post') : pre = pre' := by
  have hnodup := ha.nodup
  rw [h] at hnodup
  obtain ⟨hnot, -⟩ := List.nodup_cons.1 (List.nodup_middle.1 hnodup)
  rw [List.mem_append, not_or] at hnot
  exact ((List.append_cons_inj_of_notMem hnot.1 hnot.2).1 (h.symm.trans h')).1

/-- **Whether a span is that of a word and a pair of braces behind it that are partners.** -/
def ClosesOwn (all : List Token) (span : Span) : Prop :=
  ∃ pre word left inside right post, all = pre ++ word :: left :: inside ++ right :: post ∧
    left.kind = .sign .leftBrace ∧ right.kind = .sign .rightBrace ∧ Paired inside ∧
    span = ⟨word.span.start, right.span.stop⟩

/-- **Braces behind a word are partners** if and only if the number of open braces comes back to
zero between them, given that it is held. -/
theorem closesOwn_iff_rise {word : Token} (ha : Apart all) (hp : Paired all)
    (hend : ∃ ts e, all = ts ++ [e] ∧ e.kind = .endOfInput)
    (hall : all = pre ++ (word :: left :: w ++ [right]) ++ post)
    (hl : left.kind = .sign .leftBrace) (hr : right.kind = .sign .rightBrace) (hw : Held 0 w) :
    ClosesOwn all (hull (word :: left :: w ++ [right])) ↔ rise w = 0 := by
  have hsplit : all = (pre ++ [word]) ++ left :: w ++ right :: post := by
    rw [hall]
    simp
  have hspan : hull (word :: left :: w ++ [right]) = ⟨word.span.start, right.span.stop⟩ := by
    simp [hull]
  constructor
  · rintro ⟨pre', word', left', inside, right', post', hall', hl', hr', hinside, heq⟩
    obtain ⟨hstart, hstop⟩ := Span.mk.inj (hspan.symm.trans heq)
    have hnonempty {t : Token} (ht : t ∈ all) (hk : t.kind = .sign .rightBrace) :
        t.span.start < t.span.stop := ha.start_lt_stop hend ht (hk ▸ TokenKind.noConfusion)
    have hright : right ∈ all := by simp [hall]
    have hright' : right' ∈ all := by simp [hall']
    obtain rfl := ha.eq_of_start (t := word) (u := word') (by simp [hall]) (by simp [hall']) hstart
    obtain rfl := ha.eq_of_stop hright hright' (hnonempty hright hr) (hnonempty hright' hr') hstop
    -- both tokens are in one place only, and so is what is between them
    have hword : pre = pre' := ha.front_eq
      (show all = pre ++ word :: (left :: w ++ right :: post) by rw [hsplit]; simp)
      (show all = pre' ++ word :: (left' :: inside ++ right :: post') by rw [hall']; simp)
    have hbrace : pre ++ word :: left :: w = pre' ++ word :: left' :: inside := ha.front_eq
      (show all = pre ++ word :: left :: w ++ right :: post by rw [hsplit]; simp)
      (show all = pre' ++ word :: left' :: inside ++ right :: post' by rw [hall'])
    rw [hword] at hbrace
    obtain ⟨-, hbehind⟩ := List.cons.inj (List.append_cancel_left hbrace)
    obtain ⟨-, rfl⟩ := List.cons.inj hbehind
    exact hinside.rise_eq
  · intro hrise
    exact ⟨pre, word, left, w, right, post, by rw [hall]; simp, hl, hr,
      paired_between (hsplit ▸ hp) hl hr hw hrise, hspan⟩

end Token

end Cypher
