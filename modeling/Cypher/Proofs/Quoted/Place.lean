import Cypher.Proofs.Labels.Piece

/-!
# The piece behind a token

A token of a text is found where the piece it stands for begins, and that piece is what
`Cypher.Piece.front` cuts off the rest of the text there; nothing that comes before matters to it.
The problems of the text that lie within the span of the token are those of this one piece, since
pieces do not overlap and every problem is about a stretch of its own piece that is not empty
(`Cypher.exists_first_of_mem_tokenize`). So what is to be known about a kind of token, with its
problems, can be read off the front of a text.
-/

namespace Cypher

/-- The forms of a string that mean nothing stand between its ends. -/
theorem Fragment.bounds_of_mem_unknowns {fragments : List Fragment} {lo offset : Nat}
    {cs : List Char} (h : (offset, cs) ∈ unknowns lo fragments) :
    lo ≤ offset ∧ 0 < Text.size cs ∧
      offset + Text.size cs ≤ lo + Text.size (writtenAll fragments) := by
  induction fragments generalizing lo with
  | nil => cases h
  | cons fragment fragments ih =>
    have hsize : Text.size (writtenAll (fragment :: fragments)) =
        Text.size fragment.written + Text.size (writtenAll fragments) := Text.size_append _ _
    have hrest (h : (offset, cs) ∈ unknowns (lo + Text.size fragment.written) fragments) :
        lo ≤ offset ∧ 0 < Text.size cs ∧
          offset + Text.size cs ≤ lo + Text.size (writtenAll (fragment :: fragments)) := by
      obtain ⟨hlo, hpos, hhi⟩ := ih h
      exact ⟨by omega, hpos, by omega⟩
    rcases fragment with c | ⟨letter, digits, meaning⟩ | letter | -
    case unknown =>
      rcases List.mem_cons.1 h with h | h
      · obtain ⟨rfl, rfl⟩ := Prod.mk.inj h
        rw [hsize]
        exact ⟨Nat.le_refl _, Text.size_pos (List.cons_ne_nil _ _), by
          change offset + Text.size ['\\', letter] ≤ offset + (Text.size ['\\', letter] + _)
          omega⟩
      · exact hrest h
    all_goals exact hrest h

/-- **A stretch between two offsets** that is not empty. -/
structure Span.Amid (lo hi : Nat) (span : Span) : Prop where
  /-- It does not start before the first offset. -/
  lower : lo ≤ span.start
  /-- It is not empty. -/
  nonempty : span.start < span.stop
  /-- It does not end behind the second offset. -/
  upper : span.stop ≤ hi

namespace Span

theorem Amid.widen {lo lo' hi hi' : Nat} {span : Span} (h : span.Amid lo hi) (hlo : lo' ≤ lo)
    (hhi : hi ≤ hi') : span.Amid lo' hi' :=
  ⟨Nat.le_trans hlo h.lower, h.nonempty, Nat.le_trans h.upper hhi⟩

theorem Amid.contains {outer inner : Span} (h : inner.Amid outer.start outer.stop) :
    outer.contains inner = true := by
  simp [Span.contains, h.lower, h.upper]

theorem contains_self (span : Span) : span.contains span = true := by
  simp [Span.contains]

/-- A stretch that is not empty is not within one that starts behind it. -/
theorem not_contains_before {outer inner : Span} {lo : Nat} (h : inner.Amid lo outer.start) :
    ¬ outer.contains inner = true := by
  have hnonempty := h.nonempty
  have hupper := h.upper
  simp only [Span.contains, Bool.and_eq_true, decide_eq_true_eq]
  omega

/-- A stretch that is not empty is not within one that ends before it. -/
theorem not_contains_behind {outer inner : Span} {hi : Nat} (h : inner.Amid outer.stop hi) :
    ¬ outer.contains inner = true := by
  have hnonempty := h.nonempty
  have hlower := h.lower
  simp only [Span.contains, Bool.and_eq_true, decide_eq_true_eq]
  omega

end Span

namespace Piece

/-! ### Problems of one piece -/

/-- **A problem of a piece is about a stretch of it.** -/
theorem amid_of_mem_problems {x : Piece} (hx : x.Apt) (hw : x.written ≠ []) {p : Place}
    {d : Diagnostic} (hd : d ∈ x.problems p) :
    d.span.Amid p.offset (p.offset + Text.size x.written) := by
  have hpos := Text.size_pos hw
  have hwhole : (p.span x.written).Amid p.offset (p.offset + Text.size x.written) :=
    ⟨Nat.le_refl _, Nat.lt_add_of_pos_right hpos, Nat.le_refl _⟩
  obtain ⟨shape, written⟩ := x
  rcases shape with - | (- | -) | - | ⟨name, - | -⟩ | ⟨quote, fragments, closed⟩ | (- | - | -) |
    - | sign | -
  case comment.false =>
    obtain ⟨rest, rfl⟩ := hx
    rw [List.mem_singleton.1 hd]
    exact ⟨Nat.le_refl _, Nat.lt_add_of_pos_right (by decide), Nat.add_le_add_left
      (Text.size_append _ _ ▸ Nat.le_add_right _ _) _⟩
  case string =>
    obtain ⟨hquote, rest, rfl⟩ := hx
    rcases List.mem_append.1 hd with hd | hd
    · obtain ⟨⟨offset, cs⟩, hmem, rfl⟩ := List.mem_map.1 hd
      obtain ⟨hlo, hcs, hhi⟩ := Fragment.bounds_of_mem_unknowns hmem
      have hsize : Text.size ([quote] ++ Fragment.writtenAll fragments ++ rest) =
          1 + Text.size (Fragment.writtenAll fragments) + Text.size rest := by
        simp [hquote, Nat.add_assoc]
      refine ⟨Nat.le_trans (Nat.le_add_right _ 1) hlo, Nat.lt_add_of_pos_right hcs, ?_⟩
      change offset + Text.size cs ≤ _
      rw [hsize]
      omega
    · rcases closed with - | -
      · rw [List.mem_singleton.1 hd]
        exact hwhole
      · cases hd
  case quotedName.false | number.malformed | unknown =>
    rw [List.mem_singleton.1 hd]
    exact hwhole
  all_goals cases hd

/-! ### The piece at the front -/

/-- **The piece at the front of a text.** -/
def first (c : Char) (rest : List Char) : Piece :=
  ⟨(front c rest).1, c :: rest.take (front c rest).2⟩

theorem split_cons (c : Char) (rest : List Char) :
    split (c :: rest) = first c rest :: split (rest.drop (front c rest).2) := by
  rw [split]
  rfl

/-- The piece at the front is followed by the rest of the text. -/
theorem cons_eq_first_append (c : Char) (rest : List Char) :
    c :: rest = (first c rest).written ++ rest.drop (front c rest).2 := by
  rw [first, List.cons_append, List.take_append_drop]

theorem amid_of_mem_first {c : Char} {rest : List Char} {p : Place} {d : Diagnostic}
    (hd : d ∈ (first c rest).problems p) :
    d.span.Amid p.offset (p.offset + Text.size (first c rest).written) :=
  amid_of_mem_problems (apt_front c rest) (List.cons_ne_nil _ _) hd

/-- The problems of the pieces of a text lie between its ends. -/
theorem amid_of_mem_allProblems {cs : List Char} {p : Place} {d : Diagnostic}
    (hd : d ∈ allProblems p (split cs)) : d.span.Amid p.offset (p.offset + Text.size cs) := by
  induction hn : cs.length using Nat.strongRecOn generalizing cs p with
  | ind n ih =>
    rcases cs with - | ⟨c, rest⟩
    · rw [split] at hd
      cases hd
    · have hsize := congrArg Text.size (cons_eq_first_append c rest)
      rw [Text.size_append] at hsize
      rw [split_cons] at hd
      rcases List.mem_append.1 hd with hd | hd
      · exact (amid_of_mem_first hd).widen (Nat.le_refl _) (by omega)
      · have hlt : (rest.drop (front c rest).2).length < n := by
          rw [List.length_drop, ← hn, List.length_cons]
          omega
        have hamid := ih _ hlt hd rfl
        rw [p.offset_past] at hamid
        exact hamid.widen (by omega) (by omega)

/-- **A token stands for the piece at the front of the text from there on**, and the problems within
its span are those of this piece. -/
theorem exists_first_of_mem_tokens {reserved : Keyword → Bool} {cs : List Char} {p : Place}
    {t : Token} (ht : t ∈ tokens reserved p (split cs)) (hkind : t.kind ≠ .endOfInput) :
    ∃ before c rest, cs = before ++ c :: rest ∧
      (first c rest).token? reserved (p.past before) = some t ∧
      (allProblems p (split cs)).filter (fun d => t.span.contains d.span) =
        (first c rest).problems (p.past before) := by
  induction hn : cs.length using Nat.strongRecOn generalizing cs p with
  | ind n ih =>
    rcases cs with - | ⟨c, rest⟩
    · rw [split] at ht
      rw [List.mem_singleton.1 ht] at hkind
      exact absurd rfl hkind
    · have hstop := p.offset_past (first c rest).written
      rw [split_cons] at ht ⊢
      rw [allProblems, List.filter_append]
      rcases List.mem_append.1 ht with ht | ht
      · -- the token of the first piece: the problems behind it do not lie in its span
        have ht := Option.mem_toList.1 ht
        obtain ⟨kind, -, rfl⟩ := Option.map_eq_some_iff.1 ht
        refine ⟨[], c, rest, rfl, ht, ?_⟩
        rw [List.filter_eq_self.2 fun d hd => (amid_of_mem_first hd).contains,
          List.filter_eq_nil_iff.2 fun d hd => ?_, List.append_nil]
        · rfl
        · have hamid := amid_of_mem_allProblems hd
          rw [hstop] at hamid
          exact Span.not_contains_behind hamid
      · -- a token further on: the problems of the first piece come before it
        have hlt : (rest.drop (front c rest).2).length < n := by
          rw [List.length_drop, ← hn, List.length_cons]
          omega
        obtain ⟨before, c', rest', hcs, htoken, hproblems⟩ := ih _ hlt ht rfl
        refine ⟨(first c rest).written ++ before, c', rest', ?_, ?_, ?_⟩
        · rw [List.append_assoc, ← hcs]
          exact cons_eq_first_append c rest
        · rw [Place.past_append]
          exact htoken
        · rw [List.filter_eq_nil_iff.2 fun d hd => ?_, List.nil_append, hproblems,
            Place.past_append]
          obtain ⟨kind, -, rfl⟩ := Option.map_eq_some_iff.1 htoken
          refine Span.not_contains_before ((amid_of_mem_first hd).widen (Nat.le_refl _) ?_)
          change _ ≤ ((p.past _).past before).offset
          rw [Place.offset_past _ before, hstop]
          exact Nat.le_add_right _ _

/-! ### What quotes start -/

end Piece

/-- Whether a piece of the shape starts with a quote of either kind. -/
def Shape.isQuoted : Shape → Bool
  | .quotedName _ _ | .string _ _ _ => true
  | _ => false

namespace Piece

open QuotedName (quote)

/-- A quote of names starts a quoted name. -/
theorem front_quote (rest : List Char) : front quote rest =
    (.quotedName (QuotedName.read rest).1 (QuotedName.read rest).2.2,
      (QuotedName.read rest).2.1) := by
  have hgap : ¬ isGap quote = true := by decide
  have hslash : quote ≠ '/' := by decide
  have hstart : ¬ Text.isNameStart quote = true := by decide +kernel
  rw [front, if_neg hgap, if_neg fun h => hslash h.1, if_neg fun h => hslash h.1, if_neg hstart,
    if_pos rfl]

/-- A quote of strings starts a string. -/
theorem front_stringQuote {c : Char} (hc : c = '\x27' ∨ c = '\x22') (rest : List Char) :
    front c rest = (.string c (Fragment.read c rest).1 (Fragment.read c rest).2,
      (Fragment.writtenAll (Fragment.read c rest).1).length +
        if (Fragment.read c rest).2 then 1 else 0) := by
  have hgap : ¬ isGap c = true := by rcases hc with rfl | rfl <;> decide
  have hslash : c ≠ '/' := by rcases hc with rfl | rfl <;> decide
  have hstart : ¬ Text.isNameStart c = true := by rcases hc with rfl | rfl <;> decide +kernel
  have hquote : c ≠ quote := by rcases hc with rfl | rfl <;> decide
  rw [front, if_neg hgap, if_neg fun h => hslash h.1, if_neg fun h => hslash h.1, if_neg hstart,
    if_neg hquote, if_pos hc]

/-- Nothing else starts a quoted piece. -/
theorem quote_of_isQuoted {c : Char} {rest : List Char} (h : (front c rest).1.isQuoted = true) :
    c = quote ∨ c = '\x27' ∨ c = '\x22' := by
  by_cases hname : c = quote
  · exact .inl hname
  by_cases hstring : c = '\x27' ∨ c = '\x22'
  · exact .inr hstring
  refine absurd h ?_
  rw [front, if_neg hname, if_neg hstring]
  unfold parameter sign
  repeat' split
  all_goals exact Bool.false_ne_true

/-- The piece of a token that is a quoted name. -/
theorem shape_of_quotedIdentifier {reserved : Keyword → Bool} {x : Piece} {name : String}
    (h : x.kind? reserved = some (.quotedIdentifier name)) :
    ∃ cs closed, x.shape = .quotedName cs closed ∧ name = String.ofList cs := by
  unfold kind? wordKind at h
  split at h
  case h_4 cs closed hshape =>
    injection Option.some.inj h with hname
    exact ⟨cs, closed, hshape, hname.symm⟩
  all_goals (try split at h) <;> cases h

/-- The piece of a token that is a string. -/
theorem shape_of_string {reserved : Keyword → Bool} {x : Piece} {value : String}
    (h : x.kind? reserved = some (.string value)) :
    ∃ q fragments closed, x.shape = .string q fragments closed ∧
      value = String.ofList (Fragment.values fragments) := by
  unfold kind? wordKind at h
  split at h
  case h_5 q fragments closed hshape =>
    injection Option.some.inj h with hvalue
    exact ⟨q, fragments, closed, hshape, hvalue.symm⟩
  all_goals (try split at h) <;> cases h

end Piece

/-- **A token of a text stands for the piece at the front of the text from there on**, and the
problems within its span are those of this piece. -/
theorem exists_first_of_mem_tokenize {source : String} {dialect : Dialect} {t : Token}
    (ht : t ∈ (tokenize source dialect).tokens) (hkind : t.kind ≠ .endOfInput) :
    ∃ before c rest, source.toList = before ++ c :: rest ∧
      (Piece.first c rest).token? dialect.rules.reserves (Place.origin.past before) = some t ∧
      (tokenize source dialect).problems.filter (fun d => t.span.contains d.span) =
        (Piece.first c rest).problems (Place.origin.past before) :=
  Piece.exists_first_of_mem_tokens ht hkind

end Cypher
