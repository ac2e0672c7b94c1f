import Cypher.Proofs.Quoted.Place

/-!
# Strings

What the body of a string says is described here without the reader of bodies.
`Cypher.Text.Escape` lists the escapes: a backslash and a letter that take no digits, and the two
letters that take as many hexadecimal digits as it takes to write the number of a character.
`Cypher.Text.Body` takes a body apart from its front: a character that is neither the quote nor a
backslash stands for itself, an escape for what it means, and any other backslash form for itself,
and then it is noted down with its offset. The first quote that is reached in this way closes the
string.

A body can be taken apart in one way only, and it is the way in which the lexer does it
(`Cypher.Text.Body.read_eq`), so value, end and problems of a string are what the description says
(`Cypher.strings_read_back`).
-/

namespace Cypher

namespace Text

/-! ### Bodies of strings -/

/-- **The escapes**: a letter behind a backslash, the digits it takes, and what they mean. -/
inductive Escape : Char → List Char → Char → Prop
  /-- An escape without digits. -/
  | letter {letter meaning : Char}
      (mem : (letter, meaning) ∈ [('t', '\t'), ('b', '\x08'), ('n', '\n'), ('r', '\r'),
        ('f', '\x0c'), ('\x27', '\x27'), ('\x22', '\x22'), ('\\', '\\')]) :
      Escape letter [] meaning
  /-- The number of a character in hexadecimal digits. -/
  | number {letter meaning : Char} {digits : List Char}
      (mem : (letter, digits.length) ∈ [('u', 4), ('U', 8)])
      (hexadecimal : ∀ d ∈ digits, Number.isHexadecimal d = true)
      (number : Number.ofDigits 16 digits = meaning.toNat) : Escape letter digits meaning

/-- **The body of a string** that starts at an offset: its value, the backslash forms in it that
mean nothing, each with its offset, whether there is a closing quote, and the text behind that. -/
inductive Body (quote : Char) : Nat → List Char → List Char → List (Nat × List Char) → Bool →
    List Char → Prop
  /-- The closing quote. -/
  | close (offset : Nat) (behind : List Char) : Body quote offset (quote :: behind) [] [] true behind
  /-- The end of the text. -/
  | stop (offset : Nat) : Body quote offset [] [] [] false []
  /-- A backslash that ends the text. -/
  | backslash (offset : Nat) : Body quote offset ['\\'] ['\\'] [] false []
  /-- A character that stands for itself. -/
  | plain {offset : Nat} {c : Char} {cs value behind : List Char} {forms : List (Nat × List Char)}
      {closed : Bool} (inside : c ≠ quote) (bare : c ≠ '\\')
      (rest : Body quote (offset + c.utf8Size) cs value forms closed behind) :
      Body quote offset (c :: cs) (c :: value) forms closed behind
  /-- An escape. -/
  | escape {offset : Nat} {letter meaning : Char} {digits cs value behind : List Char}
      {forms : List (Nat × List Char)} {closed : Bool} (means : Escape letter digits meaning)
      (rest : Body quote (offset + size ('\\' :: letter :: digits)) cs value forms closed behind) :
      Body quote offset ('\\' :: letter :: (digits ++ cs)) (meaning :: value) forms closed behind
  /-- A backslash form that means nothing. -/
  | meaningless {offset : Nat} {letter : Char} {cs value behind : List Char}
      {forms : List (Nat × List Char)} {closed : Bool}
      (nothing : ∀ digits meaning, digits <+: cs → ¬ Escape letter digits meaning)
      (rest : Body quote (offset + size ['\\', letter]) cs value forms closed behind) :
      Body quote offset ('\\' :: letter :: cs) ('\\' :: letter :: value)
        ((offset, ['\\', letter]) :: forms) closed behind

end Text

/-! ### Escapes as they are read -/

namespace Fragment

open Text (Escape)

/-- A number has a character if it is the number of one. -/
theorem scalar?_eq_some_iff {n : Nat} {c : Char} : scalar? n = some c ↔ n = c.toNat := by
  unfold scalar?
  constructor
  · intro h
    split at h
    · next hvalid =>
      obtain rfl := Option.some.inj h
      rw [Char.ofNat, dif_pos hvalid]
      rfl
    · cases h
  · rintro rfl
    rw [Char.ofNat_toNat]
    exact if_pos c.valid

theorem simpleMeaning?_eq_some_iff {letter meaning : Char} :
    simpleMeaning? letter = some meaning ↔
      (letter, meaning) ∈ [('t', '\t'), ('b', '\x08'), ('n', '\n'), ('r', '\r'),
        ('f', '\x0c'), ('\x27', '\x27'), ('\x22', '\x22'), ('\\', '\\')] := by
  constructor
  · unfold simpleMeaning?
    intro h
    split at h
    all_goals first
      | (obtain rfl := Option.some.inj h; decide)
      | cases h
  · intro h
    simp only [List.mem_cons, Prod.mk.injEq, List.not_mem_nil, or_false] at h
    rcases h with h | h | h | h | h | h | h | h
    all_goals
      obtain ⟨rfl, rfl⟩ := h
      rfl

theorem digitCount?_eq_some_iff {letter : Char} {count : Nat} :
    digitCount? letter = some count ↔ (letter, count) ∈ [('u', 4), ('U', 8)] := by
  constructor
  · unfold digitCount?
    intro h
    split at h
    all_goals first
      | (obtain rfl := Option.some.inj h; decide)
      | cases h
  · intro h
    simp only [List.mem_cons, Prod.mk.injEq, List.not_mem_nil, or_false] at h
    rcases h with ⟨rfl, rfl⟩ | ⟨rfl, rfl⟩
    · rfl
    · rfl

/-- The letter of a number has no meaning by itself. -/
theorem simpleMeaning?_of_digitCount? {letter : Char} {count : Nat}
    (h : digitCount? letter = some count) : simpleMeaning? letter = none := by
  rw [digitCount?_eq_some_iff] at h
  simp only [List.mem_cons, Prod.mk.injEq, List.not_mem_nil, or_false] at h
  rcases h with ⟨rfl, -⟩ | ⟨rfl, -⟩
  · rfl
  · rfl

/-- **A backslash form is read as an escape if and only if it is one.** -/
theorem ofLetter_eq_escape_iff {letter meaning : Char} {rest digits : List Char} :
    ofLetter letter rest = .escape letter digits meaning ↔
      digits <+: rest ∧ Escape letter digits meaning := by
  constructor
  · intro h
    unfold ofLetter at h
    split at h
    · next hsimple =>
      injection h with _ hdigits hmeaning
      subst hdigits hmeaning
      exact ⟨List.nil_prefix, .letter (simpleMeaning?_eq_some_iff.1 hsimple)⟩
    split at h
    · cases h
    next count hcount =>
    dsimp only at h
    split at h
    · next hdigits =>
      split at h
      · next hscalar =>
        injection h with _ hrest hmeaning
        subst hrest hmeaning
        refine ⟨List.take_prefix count rest, .number ?_ ?_ (scalar?_eq_some_iff.1 hscalar)⟩
        · rw [hdigits.1]
          exact digitCount?_eq_some_iff.1 hcount
        · exact List.all_eq_true.1 hdigits.2
      · cases h
    · cases h
  · rintro ⟨⟨behind, rfl⟩, hmem | ⟨hmem, hexadecimal, hnumber⟩⟩
    · rw [ofLetter, simpleMeaning?_eq_some_iff.2 hmem]
    · have hcount := digitCount?_eq_some_iff.2 hmem
      have hall : digits.all Number.isHexadecimal = true := List.all_eq_true.2 hexadecimal
      rw [ofLetter, simpleMeaning?_of_digitCount? hcount, hcount]
      dsimp only
      rw [List.take_left, if_pos ⟨rfl, hall⟩, scalar?_eq_some_iff.2 hnumber]

theorem unknown_or_escape (letter : Char) (rest : List Char) :
    ofLetter letter rest = .unknown letter ∨
      ∃ digits meaning, ofLetter letter rest = .escape letter digits meaning := by
  unfold ofLetter
  repeat' split
  · exact .inr ⟨_, _, rfl⟩
  · exact .inl rfl
  · dsimp only
    split
    · split
      · exact .inr ⟨_, _, rfl⟩
      · exact .inl rfl
    · exact .inl rfl

/-- A backslash form that is no escape is read as one that means nothing. -/
theorem ofLetter_eq_unknown_iff {letter : Char} {rest : List Char} :
    ofLetter letter rest = .unknown letter ↔
      ∀ digits meaning, digits <+: rest → ¬ Escape letter digits meaning := by
  constructor
  · intro h digits meaning hfront hmeans
    have hescape := ofLetter_eq_escape_iff.2 ⟨hfront, hmeans⟩
    rw [h] at hescape
    cases hescape
  · intro h
    refine (unknown_or_escape letter rest).resolve_right ?_
    rintro ⟨digits, meaning, hescape⟩
    obtain ⟨hfront, hmeans⟩ := ofLetter_eq_escape_iff.1 hescape
    exact h digits meaning hfront hmeans

variable {quote : Char}

theorem read_close (behind : List Char) : read quote (quote :: behind) = ([], true) := by
  rw [read.eq_def]
  exact if_pos rfl

theorem read_plain {c : Char} (hc : c ≠ quote) (hb : c ≠ '\\') (cs : List Char) :
    read quote (c :: cs) = (.plain c :: (read quote cs).1, (read quote cs).2) := by
  rw [read.eq_def]
  dsimp only
  rw [if_neg hc, if_neg hb]

theorem read_backslash (hquote : quote ≠ '\\') : read quote ['\\'] = ([.backslash], false) := by
  rw [read.eq_def]
  dsimp only
  rw [if_neg hquote.symm, if_pos rfl]

theorem read_ofLetter (hquote : quote ≠ '\\') (letter : Char) (cs : List Char) :
    read quote ('\\' :: letter :: cs) =
      (ofLetter letter cs :: (read quote (cs.drop (ofLetter letter cs).extra)).1,
        (read quote (cs.drop (ofLetter letter cs).extra)).2) := by
  rw [read.eq_def]
  dsimp only
  rw [if_neg hquote.symm, if_pos rfl]

end Fragment

/-! ### Bodies as they are read -/

namespace Text.Body

open Fragment (values unknowns writtenAll)

variable {quote : Char}

/-- **A body is read as it is described**: its value, the forms that mean nothing, its end and what
is behind it. -/
theorem read_eq (hquote : quote ≠ '\\') {offset : Nat} {cs value behind : List Char}
    {forms : List (Nat × List Char)} {closed : Bool}
    (h : Body quote offset cs value forms closed behind) :
    values (Fragment.read quote cs).1 = value ∧
      unknowns offset (Fragment.read quote cs).1 = forms ∧ (Fragment.read quote cs).2 = closed ∧
      writtenAll (Fragment.read quote cs).1 ++ (if closed then [quote] else []) ++ behind = cs := by
  induction h with
  | close offset behind =>
    rw [Fragment.read_close]
    exact ⟨rfl, rfl, rfl, rfl⟩
  | stop offset =>
    rw [Fragment.read]
    exact ⟨rfl, rfl, rfl, rfl⟩
  | backslash offset =>
    rw [Fragment.read_backslash hquote]
    exact ⟨rfl, rfl, rfl, rfl⟩
  | @plain offset c _ _ _ _ _ inside bare _ ih =>
    obtain ⟨hvalue, hforms, hclosed, hwritten⟩ := ih
    rw [Fragment.read_plain inside bare]
    exact ⟨congrArg (c :: ·) hvalue, hforms, hclosed, congrArg (c :: ·) hwritten⟩
  | @escape offset letter meaning digits cs _ _ _ _ means _ ih =>
    obtain ⟨hvalue, hforms, hclosed, hwritten⟩ := ih
    have hletter := Fragment.ofLetter_eq_escape_iff.2 ⟨List.prefix_append digits cs, means⟩
    have hdrop : (digits ++ cs).drop (Fragment.escape letter digits meaning).extra = cs :=
      List.drop_left
    rw [Fragment.read_ofLetter hquote, hletter, hdrop]
    refine ⟨congrArg (meaning :: ·) hvalue, hforms, hclosed, ?_⟩
    simp only [writtenAll, List.flatMap_cons, Fragment.written, List.append_assoc,
      List.cons_append] at hwritten ⊢
    rw [hwritten]
  | @meaningless offset letter cs _ _ _ _ nothing _ ih =>
    obtain ⟨hvalue, hforms, hclosed, hwritten⟩ := ih
    rw [Fragment.read_ofLetter hquote, Fragment.ofLetter_eq_unknown_iff.2 nothing]
    exact ⟨congrArg (['\\', letter] ++ ·) hvalue, congrArg (_ :: ·) hforms, hclosed,
      congrArg (['\\', letter] ++ ·) hwritten⟩

/-- **Every body can be taken apart.** -/
theorem exists_body (hquote : quote ≠ '\\') (offset : Nat) (cs : List Char) :
    ∃ value forms closed behind, Body quote offset cs value forms closed behind := by
  induction hn : cs.length using Nat.strongRecOn generalizing offset cs with
  | ind n ih =>
    rcases cs with - | ⟨c, cs⟩
    · exact ⟨_, _, _, _, .stop offset⟩
    by_cases hc : c = quote
    · subst hc
      exact ⟨_, _, _, _, .close offset cs⟩
    by_cases hb : c = '\\'
    · subst hb
      rcases cs with - | ⟨letter, cs⟩
      · exact ⟨_, _, _, _, .backslash offset⟩
      rcases Fragment.unknown_or_escape letter cs with hletter | ⟨digits, meaning, hletter⟩
      · obtain ⟨value, forms, closed, behind, hrest⟩ :=
          ih cs.length (by simp only [← hn, List.length_cons]; omega)
            (offset + size ['\\', letter]) cs rfl
        have nothing := Fragment.ofLetter_eq_unknown_iff.1 hletter
        exact ⟨_, _, _, _, .meaningless nothing hrest⟩
      · obtain ⟨⟨tail, rfl⟩, hmeans⟩ := Fragment.ofLetter_eq_escape_iff.1 hletter
        obtain ⟨value, forms, closed, behind, hrest⟩ :=
          ih tail.length (by simp only [← hn, List.length_cons, List.length_append]; omega)
            (offset + size ('\\' :: letter :: digits)) tail rfl
        exact ⟨_, _, _, _, .escape hmeans hrest⟩
    · obtain ⟨value, forms, closed, behind, hrest⟩ :=
        ih cs.length (hn ▸ Nat.lt_succ_self _) (offset + c.utf8Size) cs rfl
      exact ⟨_, _, _, _, .plain hc hb hrest⟩

end Text.Body

/-! ### Strings in a text -/

namespace Text

/-- A quote of strings is no backslash. -/
theorem ne_backslash {quote : Char} (h : quote = '\x27' ∨ quote = '\x22') : quote ≠ '\\' := by
  rcases h with rfl | rfl
  · decide
  · decide

/-- A text as it is written between quotes: a backslash before every quote and every backslash. -/
def backslashed (quote : Char) (value : List Char) : List Char :=
  value.flatMap fun c => if c = quote ∨ c = '\\' then ['\\', c] else [c]

/-- **What is written with backslashes is read back.** -/
theorem body_backslashed {quote : Char} (hquote : quote = '\x27' ∨ quote = '\x22') (offset : Nat)
    (value behind : List Char) :
    Body quote offset (backslashed quote value ++ quote :: behind) value [] true behind := by
  induction value generalizing offset with
  | nil => exact .close offset behind
  | cons c value ih =>
    rw [backslashed, List.flatMap_cons, List.append_assoc]
    split
    · next hc =>
      refine Body.escape (Escape.letter ?_ : Escape c [] c) (ih _)
      rcases hc with rfl | rfl
      · rcases hquote with rfl | rfl <;> decide
      · decide
    · next hc =>
      obtain ⟨inside, bare⟩ := not_or.1 hc
      exact .plain inside bare (ih _)

end Text

namespace Piece

open Text (Body)

variable {quote : Char}

/-- **The piece that a string is.** -/
theorem first_string (hquote : quote = '\x27' ∨ quote = '\x22') {offset : Nat}
    {cs value behind : List Char} {forms : List (Nat × List Char)} {closed : Bool}
    (h : Body quote offset cs value forms closed behind) :
    (first quote cs).shape = .string quote (Fragment.read quote cs).1 closed ∧
      (first quote cs).written ++ behind = quote :: cs ∧
      split (quote :: cs) = first quote cs :: split behind := by
  obtain ⟨-, -, hclosed, hwritten⟩ := h.read_eq (Text.ne_backslash hquote)
  obtain ⟨word, rfl, hcount⟩ : ∃ word, cs = word ++ behind ∧ (front quote cs).2 = word.length := by
    refine ⟨_, hwritten.symm, ?_⟩
    rw [front_stringQuote hquote, hclosed, List.length_append]
    cases closed with
    | true => rfl
    | false => rfl
  refine ⟨?_, ?_, ?_⟩
  · rw [first, front_stringQuote hquote, hclosed]
  · rw [first, hcount, List.take_left]
    rfl
  · rw [split_cons, hcount, List.drop_left]

end Piece

open Text (Body)

/-- A string of a text begins with a quote, and its value, its end and its problems are what its
body says. -/
theorem Token.string_eq {source : String} {dialect : Dialect} {t : Token} {value : String}
    (ht : t ∈ (tokenize source dialect).tokens) (hkind : t.kind = .string value) :
    ∃ before quote cs, (quote = '\x27' ∨ quote = '\x22') ∧
      source.toList = before ++ quote :: cs ∧ t.span.start = Text.size before ∧
      ∀ v forms closed behind, Body quote (Text.size before + 1) cs v forms closed behind →
        value = String.ofList v ∧ t.span.stop + Text.size behind = Text.size source.toList ∧
        (tokenize source dialect).problems.filter (fun d => t.span.contains d.span) =
          forms.map (fun (offset, form) =>
              Piece.invalidEscape ⟨offset, offset + Text.size form⟩ form) ++
            if closed then [] else [Piece.unterminatedString t.span quote] := by
  obtain ⟨before, c, cs, hsource, htoken, hproblems⟩ :=
    exists_first_of_mem_tokenize ht (by rw [hkind]; exact TokenKind.noConfusion)
  obtain ⟨kind, hpiece, rfl⟩ := Option.map_eq_some_iff.1 htoken
  obtain rfl : kind = .string value := hkind
  obtain ⟨q, fragments, closed', hshape, hvalue⟩ := Piece.shape_of_string hpiece
  -- of the quotes that may stand at the front it is one of those of strings
  have hquote : c = '\x27' ∨ c = '\x22' := by
    refine (Piece.quote_of_isQuoted (congrArg Shape.isQuoted hshape)).resolve_left fun hc => ?_
    rw [hc, Piece.first, Piece.front_quote] at hshape
    cases hshape
  have hoffset : (Place.origin.past before).offset = Text.size before := by
    rw [Place.offset_past, Place.origin, Nat.zero_add]
  refine ⟨before, c, cs, hquote, hsource, hoffset, fun v forms closed behind hbody => ?_⟩
  obtain ⟨hfirst, hwritten, -⟩ := Piece.first_string hquote hbody
  obtain ⟨hv, hforms, -, -⟩ := hbody.read_eq (Text.ne_backslash hquote)
  rw [hfirst] at hshape
  obtain ⟨rfl, rfl, rfl⟩ := Shape.string.inj hshape
  refine ⟨by rw [hvalue, hv], ?_, ?_⟩
  · rw [hsource, ← hwritten, Text.size_append, Text.size_append, ← hoffset]
    exact Nat.add_assoc _ _ _
  · rw [hproblems]
    unfold Piece.problems
    rw [hfirst, ← hforms, ← hoffset]
    rfl

/-- **Strings say what is written in them.** The token of a string has the value that its body
spells, it ends where the body ends, and the problems reported within it are the backslash forms of
the body that mean nothing, each at its place and in order, and then that the quote is missing if it
is. And a text is the value of the string that is written with a backslash before every quote and
every backslash. -/
theorem strings_read_back (dialect : Dialect) :
    (∀ source, ∀ t ∈ (tokenize source dialect).tokens, ∀ value, t.kind = .string value →
      ∃ before quote cs, (quote = '\x27' ∨ quote = '\x22') ∧
        source.toList = before ++ quote :: cs ∧ t.span.start = Text.size before ∧
        (∃ v forms closed behind, Body quote (Text.size before + 1) cs v forms closed behind) ∧
        ∀ v forms closed behind, Body quote (Text.size before + 1) cs v forms closed behind →
          value = String.ofList v ∧ t.span.stop + Text.size behind = Text.size source.toList ∧
          (tokenize source dialect).problems.filter (fun d => t.span.contains d.span) =
            forms.map (fun (offset, form) =>
                Piece.invalidEscape ⟨offset, offset + Text.size form⟩ form) ++
              if closed then [] else [Piece.unterminatedString t.span quote]) ∧
    ∀ quote : Char, quote = '\x27' ∨ quote = '\x22' → ∀ value : List Char,
      let literal := quote :: Text.backslashed quote value ++ [quote]
      let lexed := tokenize (String.ofList literal) dialect
      lexed.tokens = [⟨.string (String.ofList value), String.ofList literal,
          ⟨0, Text.size literal⟩, 1, 1⟩, Piece.endToken (Place.origin.past literal)] ∧
        lexed.problems = [] := by
  refine ⟨fun source t ht value hkind => ?_, fun quote hquote value => ?_⟩
  · obtain ⟨before, quote, cs, hquote, hsource, hstart, hbody⟩ := Token.string_eq ht hkind
    exact ⟨before, quote, cs, hquote, hsource, hstart,
      Text.Body.exists_body (Text.ne_backslash hquote) _ cs, hbody⟩
  · intro literal lexed
    have hbody := Text.body_backslashed hquote 1 value []
    obtain ⟨hshape, hwritten, hsplit⟩ := Piece.first_string hquote hbody
    obtain ⟨hv, hforms, -, -⟩ := hbody.read_eq (Text.ne_backslash hquote)
    have hliteral : (Piece.first quote (Text.backslashed quote value ++ [quote])).written =
        literal := by rw [← List.append_nil (Piece.written _), hwritten]; rfl
    have hpieces : Piece.split (String.ofList literal).toList =
        [Piece.first quote (Text.backslashed quote value ++ [quote])] := by
      rw [String.toList_ofList, ← Piece.split.eq_1]
      exact hsplit
    constructor
    · change Piece.tokens _ _ (Piece.split _) = _
      rw [hpieces, Piece.tokens, Piece.tokens, Piece.token?, Piece.kind?, hshape, hliteral]
      dsimp only
      rw [hv, Place.span, Place.origin, Nat.zero_add]
      rfl
    · change Piece.allProblems _ (Piece.split _) = _
      rw [hpieces, Piece.allProblems, Piece.allProblems, Piece.problems, hshape]
      dsimp only
      rw [Piece.stringProblems, show Place.origin.offset + 1 = 1 from rfl, hforms]
      rfl

/-- A string without its closing quote, with a number, a form that means nothing and an escaped
quote in it, is a case in point, and so is a text of a quote and a backslash. -/
theorem strings_read_back_unclosed :
    let source := "\x27a\\u00e9\\q\\\x27b"
    let t : Token := ⟨.string "a\u00e9\\q\x27b", source, ⟨0, 13⟩, 1, 1⟩
    let literal := '\x22' :: Text.backslashed '\x22' ['\x22', '\\'] ++ ['\x22']
    t ∈ (tokenize source .openCypher).tokens ∧
      (∃ before quote cs, source.toList = before ++ quote :: cs ∧
        ∃ v forms closed behind, Body quote (Text.size before + 1) cs v forms closed behind ∧
          "a\u00e9\\q\x27b" = String.ofList v ∧
          (tokenize source .openCypher).problems.filter (fun d => t.span.contains d.span) =
            forms.map (fun (offset, form) =>
                Piece.invalidEscape ⟨offset, offset + Text.size form⟩ form) ++
              if closed then [] else [Piece.unterminatedString t.span quote]) ∧
      (tokenize (String.ofList literal) .openCypher).problems = [] := by
  intro source t literal
  have ht : t ∈ (tokenize source .openCypher).tokens := by decide +kernel
  obtain ⟨hread, hwritten⟩ := strings_read_back .openCypher
  obtain ⟨before, quote, cs, -, hsource, -, ⟨v, forms, closed, behind, hbody⟩, hsays⟩ :=
    hread source t ht _ rfl
  obtain ⟨hvalue, -, hproblems⟩ := hsays v forms closed behind hbody
  exact ⟨ht, ⟨before, quote, cs, hsource, v, forms, closed, behind, hbody, hvalue, hproblems⟩,
    (hwritten '\x22' (.inr rfl) ['\x22', '\\']).2⟩

end Cypher
