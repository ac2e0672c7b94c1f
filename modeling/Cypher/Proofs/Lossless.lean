import Mathlib.Data.List.Induction
import Cypher.Proofs.Layout.Source

/-!
# Nothing of a text is lost in its tokens

The tokens of a text and the blanks and comments between them are the whole text: each token holds
the characters at its span, with the line and the column of the first of them, and what lies between
two tokens would not have made a third (`Cypher.lossless_tokenize`).

Blanks and comments are described by `Cypher.Text.Gap` without the cutting of a text into pieces. A
comment to the end of a line must reach that end, and one between markers must not hold its closing
marker, so a gap is judged together with the text behind it. `Cypher.Token.Spell` puts gaps and
tokens in turn, and each part of the result is read off it by induction.
-/

namespace Cypher

/-! ### Blanks and comments -/

namespace Text

/-- **Blanks and comments before a text** `rest`. -/
inductive Gap : List Char → List Char → Prop
  /-- Nothing at all. -/
  | nil (rest : List Char) : Gap [] rest
  /-- A blank. -/
  | blank {c : Char} {gap rest : List Char} (mem : c ∈ [' ', '\t', '\r', '\n', '\x0c'])
      (behind : Gap gap rest) : Gap (c :: gap) rest
  /-- A comment to the end of the line. -/
  | line {body gap rest : List Char} (inside : '\n' ∉ body)
      (stop : ∀ c ∈ (gap ++ rest).head?, c = '\n') (behind : Gap gap rest) :
      Gap ('/' :: '/' :: body ++ gap) rest
  /-- A comment between markers. -/
  | closed {body gap rest : List Char} (inside : ¬ ['*', '/'] <:+: body ++ ['*'])
      (behind : Gap gap rest) : Gap ('/' :: '*' :: body ++ ['*', '/'] ++ gap) rest
  /-- A comment without its closing marker, up to the end of the text. -/
  | unclosed {body : List Char} (inside : ¬ ['*', '/'] <:+: body) : Gap ('/' :: '*' :: body) []

/-- A run of blanks before a gap. -/
theorem Gap.blanks {run gap rest : List Char} (h : ∀ c ∈ run, Piece.isGap c = true)
    (behind : Gap gap rest) : Gap (run ++ gap) rest := by
  induction run with
  | nil => exact behind
  | cons c run ih =>
    refine .blank ?_ (ih fun d hd => h d (List.mem_cons_of_mem c hd))
    simpa [Piece.isGap, or_assoc] using h c List.mem_cons_self

end Text

/-- Whether a piece of the shape stands for no token. -/
def Shape.isMute : Shape → Bool
  | .blank | .comment _ => true
  | _ => false

namespace Piece

/-- **A comment ends at the first closing marker.** -/
theorem commentLength_closed {cs : List Char} {count : Nat} (h : commentLength cs = (count, true)) :
    ∃ body rest, cs = body ++ ['*', '/'] ++ rest ∧ count = (body ++ ['*', '/']).length ∧
      ¬ ['*', '/'] <:+: body ++ ['*'] := by
  fun_induction commentLength cs generalizing count with
  | case1 => cases h
  | case2 rest =>
    cases h
    exact ⟨[], rest, rfl, rfl, by decide⟩
  | case3 c cs hmark count' closed hlength ih =>
    obtain ⟨rfl, rfl⟩ := Prod.mk.inj h
    obtain ⟨body, rest, rfl, rfl, hinside⟩ := ih hlength
    refine ⟨c :: body, rest, rfl, rfl, fun hmem => ?_⟩
    rcases List.infix_cons_iff.1 hmem with hfront | hmem
    · -- a marker at the front would have been taken for the end
      have hwhole : body ++ ['*'] <+: body ++ ['*', '/'] ++ rest := ⟨'/' :: rest, by simp⟩
      obtain ⟨rfl, hslash⟩ := List.cons_prefix_cons.1 hfront
      obtain ⟨behind, hbehind⟩ := List.IsPrefix.trans hslash hwhole
      exact hmark behind rfl hbehind.symm
    · exact hinside hmem

/-- Without a closing marker a comment goes on to the end. -/
theorem commentLength_unclosed {cs : List Char} {count : Nat}
    (h : commentLength cs = (count, false)) : count = cs.length ∧ ¬ ['*', '/'] <:+: cs := by
  fun_induction commentLength cs generalizing count with
  | case1 =>
    cases h
    exact ⟨rfl, by decide⟩
  | case2 => cases h
  | case3 c cs hmark count' closed hlength ih =>
    obtain ⟨rfl, rfl⟩ := Prod.mk.inj h
    obtain ⟨rfl, hinside⟩ := ih hlength
    refine ⟨rfl, fun hmem => ?_⟩
    rcases List.infix_cons_iff.1 hmem with hfront | hmem
    · obtain ⟨rfl, after, hafter⟩ := List.cons_prefix_cons.1 hfront
      exact hmark after rfl hafter.symm
    · exact hinside hmem

/-- The longest run of characters with a property, and what follows it. -/
theorem exists_run (p : Char → Bool) (cs : List Char) :
    ∃ run behind, cs = run ++ behind ∧ (cs.takeWhile p).length = run.length ∧
      (∀ c ∈ run, p c = true) ∧ ∀ c ∈ behind.head?, p c = false := by
  refine ⟨cs.takeWhile p, cs.dropWhile p, List.takeWhile_append_dropWhile.symm, rfl, ?_, ?_⟩
  · exact List.all_eq_true.1 List.all_takeWhile
  · intro c hc
    have hnot := List.head?_dropWhile_not p cs
    rwa [Option.mem_def.1 hc] at hnot

theorem isMute_of_kind?_eq_none {reserved : Keyword → Bool} {x : Piece}
    (h : x.kind? reserved = none) : x.shape.isMute = true := by
  unfold kind? at h
  split at h
  case h_1 hshape => rw [hshape]; rfl
  case h_2 hshape => rw [hshape]; rfl
  all_goals cases h

theorem isMute_parameter (cs : List Char) : (parameter cs).1.isMute = false := by
  unfold parameter
  repeat' split
  all_goals rfl

theorem isMute_sign (c : Char) (cs : List Char) : (sign c cs).1.isMute = false := by
  unfold sign
  repeat' split
  all_goals rfl

/-- Only a blank or a slash can start a piece that stands for no token. -/
theorem opens_of_isMute {c : Char} {cs : List Char} (h : (front c cs).1.isMute = true) :
    isGap c = true ∨ (c = '/' ∧ cs.head? = some '/') ∨ (c = '/' ∧ cs.head? = some '*') := by
  by_contra hnone
  simp only [not_or] at hnone
  obtain ⟨hblank, hline, hmark⟩ := hnone
  rw [front, if_neg hblank, if_neg hline, if_neg hmark] at h
  repeat' split at h
  all_goals first | exact Bool.false_ne_true h | skip
  · rw [isMute_parameter] at h
    cases h
  · rw [isMute_sign] at h
    cases h

/-- **A piece that stands for no token goes on a gap** when it is put in front of it. -/
theorem gap_front {c : Char} {cs gap behind : List Char} {shape : Shape} {count : Nat}
    (hfront : front c cs = (shape, count)) (hmute : shape.isMute = true)
    (hcs : cs.drop count = gap ++ behind) (h : Text.Gap gap behind) :
    Text.Gap (c :: cs.take count ++ gap) behind := by
  rcases opens_of_isMute (by rwa [hfront]) with hblank | ⟨rfl, hhead⟩ | ⟨rfl, hhead⟩
  -- blanks, a comment up to the end of its line and a comment between marks
  · obtain ⟨run, after, rfl, hlength, hrun, -⟩ := exists_run isGap cs
    rw [front, if_pos hblank, hlength] at hfront
    obtain ⟨-, rfl⟩ := Prod.mk.inj hfront
    rw [List.take_left]
    exact .blanks (List.forall_mem_cons.2 ⟨hblank, hrun⟩) h
  · obtain ⟨run, after, rfl, hlength, hrun, hafter⟩ := exists_run (· ≠ '\n') cs
    rw [front, if_neg (by decide), if_pos ⟨rfl, hhead⟩, hlength] at hfront
    obtain ⟨-, rfl⟩ := Prod.mk.inj hfront
    rw [List.drop_left] at hcs
    rw [List.take_left]
    rcases run with - | ⟨d, body⟩
    · -- the second slash is no newline
      cases hafter _ hhead
    · obtain rfl := Option.some.inj hhead
      refine .line (fun hmem => ?_) (fun d hd => ?_) h
      · simpa using hrun _ (List.mem_cons_of_mem _ hmem)
      · simpa using hafter d (hcs ▸ hd)
  · obtain ⟨body, rfl⟩ := List.head?_eq_some_iff.1 hhead
    rw [front, if_neg (by decide), if_neg (by simp), if_pos ⟨rfl, rfl⟩] at hfront
    rcases hlength : commentLength body with ⟨length, - | -⟩ <;>
      obtain rfl : length + 1 = count := by
        rw [List.drop_one, List.tail_cons, hlength] at hfront
        exact (Prod.mk.inj hfront).2
    · -- nothing is left behind a comment that is not closed, not even a gap
      obtain ⟨rfl, hinside⟩ := commentLength_unclosed hlength
      rw [List.drop_succ_cons, List.drop_length] at hcs
      obtain ⟨rfl, rfl⟩ := List.append_eq_nil_iff.1 hcs.symm
      rw [List.take_succ_cons, List.take_length, List.append_nil]
      exact .unclosed hinside
    · obtain ⟨body, rest, rfl, rfl, hinside⟩ := commentLength_closed hlength
      rw [List.take_succ_cons, List.take_left]
      exact .closed hinside h

end Piece

/-! ### Lines and columns -/

namespace Place

theorem line_past (p : Place) (cs : List Char) : (p.past cs).line = p.line + cs.count '\n' := by
  induction cs generalizing p with
  | nil => rfl
  | cons c cs ih =>
    rw [past_cons, ih, List.count_cons]
    unfold step
    split
    · next hc =>
      subst hc
      simp only [BEq.rfl, if_true]
      omega
    · next hc => simp [hc]

/-- **The line counts the newlines.** -/
theorem line_past_origin (cs : List Char) : (origin.past cs).line = cs.count '\n' + 1 := by
  rw [line_past, origin, Nat.add_comm]

/-- **The column counts the characters since the last newline.** -/
theorem column_past_origin (cs : List Char) :
    (origin.past cs).column = (cs.reverse.takeWhile (· ≠ '\n')).length + 1 := by
  induction cs using List.reverseRecOn with
  | nil => rfl
  | append_singleton cs c ih =>
    rw [past_append, List.reverse_concat, List.takeWhile_cons]
    change ((origin.past cs).step c).column = _
    unfold step
    split
    · next hc => simp [hc]
    · next hc => simp [hc, ih]

end Place

/-! ### Tokens and gaps in turn -/

namespace Token

/-- The token that some characters at a place stand for. -/
def ofWord (p : Place) (kind : TokenKind) (word : List Char) : Token :=
  ⟨kind, String.ofList word, p.span word, p.line, p.column⟩

/-- **Tokens that spell out a text** together with the gaps between them, given what comes before
it: first a gap, then the characters of a token, and so on up to a last gap. -/
inductive Spell : List Char → List Char → List Token → Prop
  /-- A gap up to the end. -/
  | done {before gap : List Char} (fits : Text.Gap gap []) :
      Spell before gap [Piece.endToken (Place.origin.past (before ++ gap))]
  /-- A gap and a token. -/
  | token {before gap word rest : List Char} {kind : TokenKind} {ts : List Token}
      (fits : Text.Gap gap (word ++ rest)) (nonempty : word ≠ []) (inside : kind ≠ .endOfInput)
      (behind : Spell (before ++ gap ++ word) rest ts) :
      Spell before (gap ++ word ++ rest)
        (ofWord (Place.origin.past (before ++ gap)) kind word :: ts)

namespace Spell

variable {before word rest : List Char} {ts : List Token}

/-- A token without a gap before it. -/
theorem first {kind : TokenKind} (nonempty : word ≠ []) (inside : kind ≠ .endOfInput)
    (h : Spell (before ++ word) rest ts) :
    Spell before (word ++ rest) (ofWord (Place.origin.past before) kind word :: ts) := by
  have hbehind : Spell (before ++ [] ++ word) rest ts := by rwa [List.append_nil]
  have htoken := token (.nil _) nonempty inside hbehind
  rwa [List.append_nil] at htoken

/-- Characters that make any gap longer. -/
theorem skip (hword : ∀ gap behind, rest = gap ++ behind → Text.Gap gap behind →
    Text.Gap (word ++ gap) behind) (h : Spell (before ++ word) rest ts) :
    Spell before (word ++ rest) ts := by
  rcases h with fits | ⟨fits, nonempty, inside, behind⟩
  · rw [List.append_assoc]
    exact .done (hword _ _ (List.append_nil _).symm fits)
  · rw [List.append_assoc before] at behind ⊢
    rw [← List.append_assoc, ← List.append_assoc]
    exact .token (hword _ _ (List.append_assoc _ _ _) fits) nonempty inside behind

end Spell

end Token

/-- **The tokens of a text spell it out.** -/
theorem Piece.spell_tokens (reserved : Keyword → Bool) (before text : List Char) :
    Token.Spell before text (tokens reserved (Place.origin.past before) (split text)) := by
  fun_induction split text generalizing before with
  | case1 =>
    have hdone : Token.Spell before [] [endToken (Place.origin.past (before ++ []))] :=
      .done (.nil [])
    rwa [List.append_nil] at hdone
  | case2 c cs shape count hfront ih =>
    have ih := ih (before ++ c :: cs.take count)
    rw [Place.past_append] at ih
    have hcs : c :: cs = (c :: cs.take count) ++ cs.drop count := by
      rw [List.cons_append, List.take_append_drop]
    rw [tokens, hcs]
    cases htoken : token? reserved (Place.origin.past before) ⟨shape, c :: cs.take count⟩ with
    | none =>
      refine ih.skip fun gap behind hrest h => ?_
      have hkind := Option.map_eq_none_iff.1 htoken
      exact gap_front hfront (isMute_of_kind?_eq_none hkind) hrest h
    | some t =>
      have hinside := kind_ne_of_mem_token? htoken
      obtain ⟨kind, -, rfl⟩ := Option.map_eq_some_iff.1 htoken
      exact .first (List.cons_ne_nil _ _) hinside ih

/-! ### What a spelling says -/

namespace Token

theorem span_endToken (a : List Char) :
    (Piece.endToken (Place.origin.past a)).span = .empty (Text.size a) := by
  rw [Piece.endToken, Place.offset_past, Place.origin, Nat.zero_add]

theorem span_ofWord (a : List Char) (kind : TokenKind) (word : List Char) :
    (ofWord (Place.origin.past a) kind word).span = ⟨Text.size a, Text.size (a ++ word)⟩ := by
  rw [ofWord, Place.span, Place.offset_past, Place.origin, Nat.zero_add, Text.size_append]

namespace Spell

variable {before text : List Char} {ts : List Token}

/-- The end of the text comes last and only there. -/
theorem last (h : Spell before text ts) : ∃ words e, ts = words ++ [e] ∧
    e.kind = .endOfInput ∧ e.span = .empty (Text.size (before ++ text)) ∧
    ∀ t ∈ words, t.kind ≠ .endOfInput ∧ t.span.start < t.span.stop := by
  induction h with
  | done => exact ⟨[], _, rfl, rfl, span_endToken _, fun t ht => absurd ht List.not_mem_nil⟩
  | @token before gap word rest kind ts fits nonempty inside behind ih =>
    obtain ⟨words, e, rfl, hkind, hspan, hwords⟩ := ih
    refine ⟨_ :: words, e, rfl, hkind, ?_, List.forall_mem_cons.2 ⟨⟨inside, ?_⟩, hwords⟩⟩
    · rw [hspan]
      simp only [List.append_assoc]
    · rw [span_ofWord, Text.size_append _ word]
      exact Nat.lt_add_of_pos_right (Text.size_pos nonempty)

/-- No token starts before the text, and each but the last has characters and ends before the next
one starts. -/
theorem ordered (h : Spell before text ts) : (∀ t ∈ ts, Text.size before ≤ t.span.start) ∧
    ts.Pairwise fun t u => t.span.start < t.span.stop ∧ t.span.stop ≤ u.span.start := by
  induction h with
  | @done before gap fits =>
    refine ⟨fun t ht => ?_, List.pairwise_singleton _ _⟩
    rw [List.mem_singleton.1 ht, span_endToken, Text.size_append]
    exact Nat.le_add_right _ _
  | @token before gap word rest kind ts fits nonempty inside behind ih =>
    have hword := Text.size_pos nonempty
    rw [List.forall_mem_cons, List.pairwise_cons, span_ofWord]
    simp only [Text.size_append] at ih ⊢
    refine ⟨⟨by omega, fun t ht => ?_⟩, fun t ht => ?_, ih.2⟩
    all_goals
      have hle := ih.1 t ht
      omega

/-- Each token stands for characters of the text, at the place where they are. -/
theorem exists_split (h : Spell before text ts) {t : Token} (ht : t ∈ ts) :
    ∃ a word b, before ++ text = a ++ word ++ b ∧ t.lexeme = String.ofList word ∧
      t.span = ⟨Text.size a, Text.size (a ++ word)⟩ ∧
      t.line = (Place.origin.past a).line ∧ t.column = (Place.origin.past a).column := by
  induction h with
  | @done before gap fits =>
    obtain rfl := List.mem_singleton.1 ht
    refine ⟨before ++ gap, [], [], by simp, rfl, ?_, rfl, rfl⟩
    rw [span_endToken, List.append_nil, Span.empty]
  | @token before gap word rest kind ts fits nonempty inside behind ih =>
    rcases List.mem_cons.1 ht with rfl | ht
    · exact ⟨before ++ gap, word, rest, by simp, rfl, span_ofWord _ _ _, rfl, rfl⟩
    · obtain ⟨a, word, b, hsplit, h⟩ := ih ht
      exact ⟨a, word, b, by rw [← hsplit]; simp, h⟩

/-- Between the end of one token and the start of the next there is a gap. -/
theorem gap (h : Spell before text ts) :
    ∀ p ∈ (Text.size before :: ts.map fun t => t.span.stop).zip ts, ∃ gap rest,
      Text.slice? (before ++ text) p.1 p.2.span.start = some gap ∧
        Text.after? (before ++ text) p.2.span.start = some rest ∧ Text.Gap gap rest := by
  induction h with
  | @done before gap fits =>
    intro p hp
    obtain rfl : p = _ := by simpa using hp
    rw [span_endToken, Span.empty]
    refine ⟨gap, [], ?_, ?_, fits⟩
    · simpa using Text.slice?_append before gap []
    · simpa using Text.after?_append (before ++ gap) []
  | @token before gap word rest kind ts fits nonempty inside behind ih =>
    intro p hp
    rw [List.map_cons, List.zip_cons_cons] at hp
    rcases List.mem_cons.1 hp with rfl | hp
    · refine ⟨gap, word ++ rest, ?_, ?_, fits⟩
      · simpa [span_ofWord] using Text.slice?_append before gap (word ++ rest)
      · simpa [span_ofWord] using Text.after?_append (before ++ gap) (word ++ rest)
    · rw [span_ofWord] at hp
      simpa using ih p hp

end Spell

end Token

/-! ### Characters that start no token -/

namespace Piece

/-- The problems of a string literal are other ones. -/
theorem code_of_mem_stringProblems {p : Place} {x : Piece} {quote : Char}
    {fragments : List Fragment} {closed : Bool} {d : Diagnostic}
    (h : d ∈ stringProblems p x quote fragments closed) :
    d.code ≠ some .unrecognizedCharacter := by
  rcases List.mem_append.1 h with h | h
  · obtain ⟨unknown, -, rfl⟩ := List.mem_map.1 h
    simp [invalidEscape]
  · split at h
    · cases h
    · obtain rfl := List.mem_singleton.1 h
      simp [unterminatedString]

/-- A piece stands for an unknown character if and only if that is its problem. -/
theorem unknown_token? (reserved : Keyword → Bool) (p : Place) (x : Piece) :
    ((x.token? reserved p).toList.filter fun t => t.kind = .invalid).map Token.span =
      ((x.problems p).filter fun d => d.code = some .unrecognizedCharacter).map
        Diagnostic.span := by
  obtain ⟨shape, word⟩ := x
  cases shape with
  | blank | parameter | sign | unknown => rfl
  | comment closed | quotedName name closed => cases closed <;> rfl
  | number form => cases form <;> rfl
  | word =>
    simp only [token?, kind?, wordKind, problems]
    split <;> rfl
  | string quote fragments closed =>
    have hnone : (stringProblems p ⟨.string quote fragments closed, word⟩ quote fragments
        closed).filter (fun d => d.code = some .unrecognizedCharacter) = [] :=
      List.filter_eq_nil_iff.2 fun d hd => by simpa using code_of_mem_stringProblems hd
    simp only [problems, hnone]
    rfl

/-- **Unknown characters are reported one by one.** -/
theorem unknown_tokens (reserved : Keyword → Bool) (p : Place) (xs : List Piece) :
    ((tokens reserved p xs).filter fun t => t.kind = .invalid).map Token.span =
      ((allProblems p xs).filter fun d => d.code = some .unrecognizedCharacter).map
        Diagnostic.span := by
  induction xs generalizing p with
  | nil => rfl
  | cons x xs ih =>
    rw [tokens, allProblems, List.filter_append, List.map_append, List.filter_append,
      List.map_append, ih, unknown_token?]

end Piece

/-! ### Lossless tokens -/

/-- **Tokens that lose nothing of a text**, and nothing of what is wrong with its characters. -/
structure Lexed.Lossless (text : List Char) (lexed : Lexed) : Prop where
  /-- The last token, and no other, stands for the end of the text and is empty. -/
  last : ∃ words e, lexed.tokens = words ++ [e] ∧ e.kind = .endOfInput ∧
    e.span = .empty (Text.size text) ∧
    ∀ t ∈ words, t.kind ≠ .endOfInput ∧ t.span.start < t.span.stop
  /-- Each token ends before the next one starts. -/
  ordered : lexed.tokens.Pairwise fun t u =>
    t.span.start < u.span.start ∧ t.span.stop ≤ u.span.start
  /-- A token holds the characters at its span. -/
  lexeme : ∀ t ∈ lexed.tokens,
    Text.slice? text t.span.start t.span.stop = some t.lexeme.toList
  /-- Only blanks and comments lie between the end of one token and the start of the next. -/
  gap : ∀ p ∈ (0 :: lexed.tokens.map fun t => t.span.stop).zip lexed.tokens, ∃ gap rest,
    Text.slice? text p.1 p.2.span.start = some gap ∧
      Text.after? text p.2.span.start = some rest ∧ Text.Gap gap rest
  /-- The line counts the newlines before a token, and the column the characters since the last of
  them. Neither exceeds the size of the text by more than one. -/
  place : ∀ t ∈ lexed.tokens, ∃ before, Text.before? text t.span.start = some before ∧
    t.line = before.count '\n' + 1 ∧
    t.column = (before.reverse.takeWhile (· ≠ '\n')).length + 1 ∧
    t.line ≤ Text.size text + 1 ∧ t.column ≤ Text.size text + 1
  /-- The tokens for unknown characters are those that are reported. -/
  unknown : (lexed.tokens.filter fun t => t.kind = .invalid).map Token.span =
    (lexed.problems.filter fun d => d.code = some .unrecognizedCharacter).map Diagnostic.span

/-- **Nothing of a text is lost in its tokens.** -/
theorem lossless_tokenize (source : String) (dialect : Dialect) :
    (tokenize source dialect).Lossless source.toList := by
  have hspell := Piece.spell_tokens dialect.rules.reserves [] source.toList
  refine ⟨hspell.last, hspell.ordered.2.imp fun h => ⟨Nat.lt_of_lt_of_le h.1 h.2, h.2⟩,
    fun t ht => ?_, hspell.gap, fun t ht => ?_, Piece.unknown_tokens _ _ _⟩
  · obtain ⟨a, word, b, hsplit, hlexeme, hspan, -, -⟩ := hspell.exists_split ht
    rw [List.nil_append] at hsplit
    rw [hsplit, hlexeme, hspan, String.toList_ofList, Text.size_append, Text.slice?_append]
  · obtain ⟨a, word, b, hsplit, -, hspan, hline, hcolumn⟩ := hspell.exists_split ht
    rw [List.nil_append, List.append_assoc] at hsplit
    -- neither number counts more than the characters before the token
    have hlength : a.length ≤ Text.size source.toList := by
      rw [hsplit, Text.size_append]
      exact Nat.le_trans (Text.length_le_size a) (Nat.le_add_right _ _)
    have hcount := List.count_le_length (a := '\n') (l := a)
    have htake := (List.takeWhile_sublist (fun c => c ≠ '\n') (l := a.reverse)).length_le
    rw [List.length_reverse] at htake
    rw [Place.line_past_origin] at hline
    rw [Place.column_past_origin] at hcolumn
    refine ⟨a, ?_, hline, hcolumn, by omega, ?_⟩
    · rw [hspan, hsplit, Text.before?_append]
    · rw [hcolumn]
      exact Nat.succ_le_succ (Nat.le_trans htake hlength)

end Cypher
