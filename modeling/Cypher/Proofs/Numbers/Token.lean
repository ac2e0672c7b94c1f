import Cypher.Proofs.Depth
import Cypher.Proofs.Numbers.Pattern
import Cypher.Proofs.Quoted.Place

/-!
# Numbers are the longest matches of their patterns

Where a token begins with a digit, or with a point before a digit, nothing but a number can begin: a
digit starts no name, no quoted piece and no comment, and a point before a digit is no sign. So the
piece that is cut off there is what the scan of numbers finds, which is the longest match of a
pattern, and its form decides the kind of the token and whether something is wrong with it
(`Cypher.numbers_longest_match`).

Two points are a sign of their own, and a point without a digit behind it is one as well. Neither
belongs to the digits before it, so the bounds of a range may be written without blanks between
them.
-/

namespace Cypher

namespace Numeral

open Number (DecimalDigit)

/-! ### The beginning of a number -/

/-- **A text that begins like a number.** -/
inductive Begins : List Char → Prop
  | digit {c : Char} (h : DecimalDigit c) (rest : List Char) : Begins (c :: rest)
  | point {c : Char} (h : DecimalDigit c) (rest : List Char) : Begins ('.' :: c :: rest)

theorem mem_of_decimalDigit {c : Char} (h : DecimalDigit c) :
    c ∈ ['0', '1', '2', '3', '4', '5', '6', '7', '8', '9'] := by
  have hbounds : 48 ≤ c.toNat ∧ c.toNat ≤ 57 := h
  have hall : ∀ n < 58, 48 ≤ n →
      Char.ofNat n ∈ ['0', '1', '2', '3', '4', '5', '6', '7', '8', '9'] := by decide
  rw [← Char.ofNat_toNat c]
  exact hall c.toNat (by omega) hbounds.1

theorem starts_cons {c : Char} (hc : c ≠ '.') (rest : List Char) :
    starts (c :: rest) = Number.isDecimal c := by
  unfold starts
  split
  · next h => exact absurd (List.cons.inj h).1 hc
  · next h => rw [(List.cons.inj h).1]
  · next h => cases h

theorem Begins.starts {text : List Char} (h : Begins text) : starts text = true := by
  cases h with
  | @digit c h rest =>
    have hc : c ≠ '.' := by
      rintro rfl
      exact absurd h (by unfold DecimalDigit; decide)
    rw [starts_cons hc, Number.isDecimal_iff]
    exact h
  | @point c h rest => exact (Number.isDecimal_iff c).2 h

end Numeral

/-- A point makes a pair with another point only. -/
theorem Sign.ofPair?_point {c : Char} (hc : c ≠ '.') : ofPair? '.' c = none := by
  unfold ofPair?
  split
  all_goals simp_all

namespace Piece

open Numeral (Begins digits)
open Number (DecimalDigit)

/-- A character that begins a number begins nothing else. -/
theorem front_of_begins {c : Char} {rest : List Char} (h : Begins (c :: rest)) :
    front c rest =
      (.number (Numeral.read (c :: rest)).1, (Numeral.read (c :: rest)).2 - 1) := by
  have hmem : c ∈ ['.', '0', '1', '2', '3', '4', '5', '6', '7', '8', '9'] := by
    cases h with
    | digit h => exact List.mem_cons_of_mem _ (Numeral.mem_of_decimalDigit h)
    | point => exact List.mem_cons_self
  have hall : ['.', '0', '1', '2', '3', '4', '5', '6', '7', '8', '9'].all (fun c =>
      !(isGap c || c == '/' || Text.isNameStart c || c == QuotedName.quote || c == '\x27' ||
        c == '\x22')) = true := by decide +kernel
  have hother := List.all_eq_true.1 hall c hmem
  simp only [Bool.not_eq_true', Bool.or_eq_false_iff, beq_eq_false_iff_ne] at hother
  obtain ⟨⟨⟨⟨⟨hgap, hslash⟩, hstart⟩, hquote⟩, hsingle⟩, hdouble⟩ := hother
  rw [front, hgap, hstart, if_neg Bool.false_ne_true, if_neg fun h => hslash h.1,
    if_neg fun h => hslash h.1, if_neg Bool.false_ne_true, if_neg hquote,
    if_neg (not_or.2 ⟨hsingle, hdouble⟩), if_pos h.starts]

/-- The piece of a number is what the scan finds. -/
theorem first_number {c : Char} {rest w x : List Char} {form : Numeral.Form}
    (h : Begins (c :: rest)) (hcs : c :: rest = w ++ x) (hne : w ≠ [])
    (hread : Numeral.read (c :: rest) = (form, w.length)) :
    first c rest = ⟨.number form, w⟩ ∧ rest.drop (front c rest).2 = x := by
  obtain ⟨c', v, rfl⟩ := List.exists_cons_of_ne_nil hne
  rw [List.cons_append] at hcs
  obtain ⟨rfl, rfl⟩ := List.cons.inj hcs
  have hfront : front c (v ++ x) = (.number form, v.length) := by
    rw [front_of_begins h, hread]
    rfl
  rw [first, hfront]
  exact ⟨by rw [List.take_left], List.drop_left⟩

/-- A number and what is behind it are cut apart. -/
theorem split_number {w x : List Char} {form : Numeral.Form} (h : Begins (w ++ x)) (hne : w ≠ [])
    (hread : Numeral.read (w ++ x) = (form, w.length)) :
    split (w ++ x) = ⟨.number form, w⟩ :: split x := by
  obtain ⟨c, v, rfl⟩ := List.exists_cons_of_ne_nil hne
  rw [List.cons_append] at h hread ⊢
  obtain ⟨hfirst, hdrop⟩ := first_number h (List.cons_append ..) hne hread
  rw [split_cons, hfirst, hdrop]

/-- A point before anything but a digit is a sign, or half of one. -/
theorem split_point {rest : List Char} (h : ∀ c ∈ rest.head?, ¬ DecimalDigit c) :
    ∃ n, split ('.' :: rest) =
      ⟨.sign (if rest.head? = some '.' then .dotDot else .dot), '.' :: rest.take n⟩ ::
        split (rest.drop n) := by
  have hsign : front '.' rest = sign '.' rest := by
    have hstarts : ¬ Numeral.starts ('.' :: rest) = true := by
      rcases rest with - | ⟨c, rest⟩
      · exact Bool.false_ne_true
      · exact fun hc => h c rfl ((Number.isDecimal_iff c).1 hc)
    rw [front, if_neg (by decide), if_neg (fun h => absurd h.1 (by decide)),
      if_neg (fun h => absurd h.1 (by decide)), if_neg (by decide +kernel), if_neg (by decide),
      if_neg (by decide), if_neg hstarts, if_neg (by decide)]
  refine ⟨(sign '.' rest).2, ?_⟩
  rw [split_cons, first, hsign]
  congr 2
  unfold sign
  by_cases hpoint : rest.head? = some '.'
  · rw [hpoint]
    rfl
  · have hpair : rest.head?.bind (Sign.ofPair? '.') = none := by
      rcases rest with - | ⟨c, rest⟩
      · rfl
      · exact Sign.ofPair?_point fun hc => hpoint (congrArg some hc)
    rw [hpair, if_neg hpoint]
    rfl

end Piece

/-! ### Digits before a point -/

namespace Numeral

open Number (DecimalDigit)

variable {a : List Char} (ha : a ∈ digits)

include ha

theorem begins_append (x : List Char) : Begins (a ++ x) := by
  obtain ⟨c, v, rfl⟩ := List.exists_cons_of_ne_nil ha.1
  exact .digit (ha.2 c List.mem_cons_self) (v ++ x)

/-- Behind digits, a point is no marker and no digit, and then a number is a decimal one. -/
theorem read_append {x : List Char} (hx : ∀ c ∈ x.head?, c = '.')
    (hnone : exponentLength? (x.drop (fractionLength x)) = none) :
    read (a ++ x) = (if fractionLength x = 0 then .integer else .float,
      a.length + fractionLength x) := by
  have hdecimal : read (a ++ x) = decimal (a ++ x) := by
    refine read_eq_decimal fun marker rest hcs => ?_
    have hall : ['.', '0', '1', '2', '3', '4', '5', '6', '7', '8', '9'].all (fun c =>
        (markedDigit? c).isNone) = true := by decide +kernel
    refine Option.isNone_iff_eq_none.1 (List.all_eq_true.1 hall marker ?_)
    rcases a with - | ⟨c, - | ⟨d, v⟩⟩
    · exact absurd rfl ha.1
    · -- the only digit is followed by what comes behind
      have hmarker : x = marker :: rest := (List.cons.inj hcs).2
      rw [hx marker (by rw [hmarker]; rfl)]
      exact List.mem_cons_self
    · rw [← (List.cons.inj (List.cons.inj hcs).2).1]
      exact List.mem_cons_of_mem _ (mem_of_decimalDigit
        (ha.2 d (List.mem_cons_of_mem _ List.mem_cons_self)))
  have hwhole : (a ++ x).takeWhile Number.isDecimal = a := by
    rw [takeWhile_digits ha.2]
    rcases x with - | ⟨c, rest⟩
    · rw [List.takeWhile_nil, List.append_nil]
    · rw [hx c rfl, takeWhile_cons_of_not (by decide), List.append_nil]
  have hlength : mantissaLength (a ++ x) = a.length + fractionLength x := by
    rw [mantissaLength, hwhole, List.drop_left]
  rw [hdecimal, decimal_of_none (by rw [hlength, ← List.drop_drop, List.drop_left, hnone]),
    hwhole, List.drop_left, hlength]

omit ha in
theorem head_point (rest : List Char) : ∀ c ∈ ('.' :: rest).head?, c = '.' := by
  rintro c ⟨⟩
  rfl

/-- **A point that no digit follows does not belong to the digits before it.** -/
theorem read_append_point {rest : List Char} (hrest : ∀ c ∈ rest.head?, ¬ DecimalDigit c) :
    read (a ++ '.' :: rest) = (.integer, a.length) := by
  have hzero : fractionLength ('.' :: rest) = 0 := by
    rw [fractionLength, show rest.takeWhile Number.isDecimal = [] from ?_]
    · rfl
    · rcases rest with - | ⟨c, rest⟩
      · rfl
      · exact takeWhile_cons_of_not (Bool.eq_false_iff.2 fun hc =>
          hrest c rfl ((Number.isDecimal_iff c).1 hc)) rest
  rw [read_append ha (head_point _) (by rw [hzero]; rfl), hzero]
  rfl

/-- Digits up to the end of the text are an integer. -/
theorem read_digits : read a = (.integer, a.length) := by
  have h := read_append ha (x := []) nofun rfl
  rwa [List.append_nil] at h

/-- Digits on both sides of a point are a float. -/
theorem read_append_fraction {b : List Char} (hb : b ∈ digits) :
    read (a ++ '.' :: b) = (.float, (a ++ '.' :: b).length) := by
  have hf : '.' :: b ∈ point * digits := mem_fraction.2 ⟨b, hb, rfl⟩
  have hlength : fractionLength ('.' :: b) = ('.' :: b).length := by
    have h := fractionLength_append hf []
    rwa [List.append_nil] at h
  rw [read_append ha (head_point _)
    (by rw [hlength, List.drop_length]; rfl), hlength,
    if_neg (by rw [List.length_cons]; exact Nat.succ_ne_zero _), List.length_append]

end Numeral

/-! ### The tokens of numbers -/

open Numeral (Begins Longest digits)
open Number (DecimalDigit)

/-- The kind of the token of a number. -/
def Numeral.Form.kind (form : Numeral.Form) (w : List Char) : TokenKind :=
  if form = .integer then .integer (String.ofList w) else .float (String.ofList w)

theorem Piece.kind?_number (reserved : Keyword → Bool) (form : Numeral.Form) (w : List Char) :
    kind? reserved ⟨.number form, w⟩ = some (form.kind w) := by
  cases form <;> rfl

theorem Piece.problems_number (p : Place) (form : Numeral.Form) (w : List Char) :
    problems p ⟨.number form, w⟩ =
      if form = .malformed then [malformedNumber (p.span w) w] else [] := by
  cases form <;> rfl

/-- **The token of a number.** -/
theorem Token.number_eq {source : String} {dialect : Dialect} {t : Token}
    (ht : t ∈ (tokenize source dialect).tokens) {before rest : List Char}
    (hsource : source.toList = before ++ rest) (hstart : t.span.start = Text.size before)
    (hbegins : Begins rest) :
    ∃ w form, Longest rest w form ∧ t.kind = form.kind w ∧ t.lexeme = String.ofList w ∧
      t.span = ⟨Text.size before, Text.size (before ++ w)⟩ ∧
      (tokenize source dialect).problems.filter (fun d => t.span.contains d.span) =
        if form = .malformed then [Piece.malformedNumber t.span w] else [] := by
  have hafter {before rest : List Char} (h : source.toList = before ++ rest) :
      Text.after? source.toList (Text.size before) = some rest := by
    rw [h]
    exact Text.after?_append before rest
  -- behind the token for the end of the text there is nothing
  have hkind : t.kind ≠ .endOfInput := by
    intro hend
    obtain ⟨words, e, htokens, -, hspan, hwords⟩ := (lossless_tokenize source dialect).last
    rw [htokens] at ht
    rcases List.mem_append.1 ht with ht | ht
    · exact (hwords t ht).1 hend
    · rw [List.mem_singleton.1 ht, hspan, hsource, Text.size_append] at hstart
      have hsize : Text.size rest = 0 := by
        change Text.size before + Text.size rest = Text.size before at hstart
        omega
      have hpos : 0 < Text.size rest := Text.size_pos (by rintro rfl; cases hbegins)
      omega
  obtain ⟨before', c, rest', hsource', htoken, hproblems⟩ := exists_first_of_mem_tokenize ht hkind
  obtain ⟨kind, hpiece, rfl⟩ := Option.map_eq_some_iff.1 htoken
  have hoffset : (Place.origin.past before').offset = Text.size before' := by
    rw [Place.offset_past, Place.origin, Nat.zero_add]
  have hsame : Text.size before' = Text.size before := hoffset.symm.trans hstart
  obtain rfl : rest = c :: rest' := by
    have h := hafter hsource'
    rw [hsame, hafter hsource] at h
    exact Option.some.inj h
  obtain ⟨w, x, form, hcs, hread, hlongest⟩ := Numeral.exists_longest hbegins.starts
  obtain ⟨p, hp⟩ := hlongest.matched
  obtain ⟨hfirst, -⟩ := Piece.first_number hbegins hcs (p.ne_nil hp) hread
  rw [hfirst] at hpiece hproblems ⊢
  rw [Piece.kind?_number] at hpiece
  refine ⟨w, form, hlongest, (Option.some.inj hpiece).symm, rfl, ?_, ?_⟩
  · rw [Place.span, hoffset, hsame, Text.size_append]
  · rw [hproblems, Piece.problems_number]

/-- **Numbers are the longest matches of their patterns.** A token that begins like a number is the
longest stretch of the text from there on that matches a pattern, and it is an integer or a float as
the pattern says; it is malformed if that is what the pattern says, and then this is the one problem
within it. Two points between digits are a sign between two integers, one point makes a float of
them, and a point that no digit follows does not belong to the digits before it. -/
theorem numbers_longest_match (dialect : Dialect) :
    (∀ source, ∀ t ∈ (tokenize source dialect).tokens, ∀ before rest,
      source.toList = before ++ rest → t.span.start = Text.size before → Begins rest →
      ∃ w form, Longest rest w form ∧ t.kind = form.kind w ∧ t.lexeme = String.ofList w ∧
        t.span = ⟨Text.size before, Text.size (before ++ w)⟩ ∧
        (tokenize source dialect).problems.filter (fun d => t.span.contains d.span) =
          if form = .malformed then [Piece.malformedNumber t.span w] else []) ∧
    ∀ a ∈ digits,
      (∀ b ∈ digits,
        (let lexed := tokenize (String.ofList (a ++ '.' :: '.' :: b)) dialect
         lexed.tokens.map Token.kind = [.integer (String.ofList a), .sign .dotDot,
            .integer (String.ofList b), .endOfInput] ∧ lexed.problems = []) ∧
        (let lexed := tokenize (String.ofList (a ++ '.' :: b)) dialect
         lexed.tokens.map Token.kind =
            [.float (String.ofList (a ++ '.' :: b)), .endOfInput] ∧ lexed.problems = [])) ∧
      ∀ rest : List Char, (∀ c ∈ rest.head?, ¬ DecimalDigit c) →
        ∃ kinds, (tokenize (String.ofList (a ++ '.' :: rest)) dialect).tokens.map Token.kind =
          .integer (String.ofList a) ::
            .sign (if rest.head? = some '.' then .dotDot else .dot) :: kinds := by
  refine ⟨fun source t ht before rest hsource hstart hbegins =>
    Token.number_eq ht hsource hstart hbegins, fun a ha => ⟨fun b hb => ⟨?_, ?_⟩, ?_⟩⟩
  · have hpieces : Piece.split (String.ofList (a ++ '.' :: '.' :: b)).toList =
        [⟨.number .integer, a⟩, ⟨.sign .dotDot, ['.', '.']⟩, ⟨.number .integer, b⟩] := by
      have hpoint : Piece.front '.' ('.' :: b) = (.sign .dotDot, 1) := rfl
      have hlast := Piece.split_number (x := []) (Numeral.begins_append hb []) hb.1
        (by rw [List.append_nil]; exact Numeral.read_digits hb)
      rw [List.append_nil, Piece.split] at hlast
      rw [String.toList_ofList, Piece.split_number (Numeral.begins_append ha _) ha.1
        (Numeral.read_append_point ha (by rintro c ⟨⟩; unfold DecimalDigit; decide)),
        Piece.split_of_front hpoint, List.take_succ_cons, List.take_zero, List.drop_succ_cons,
        List.drop_zero, hlast]
    constructor
    · change (Piece.tokens _ _ (Piece.split _)).map _ = _
      rw [Piece.map_kind_tokens, hpieces]
      rfl
    · change Piece.allProblems _ (Piece.split _) = _
      rw [hpieces]
      rfl
  · have hpieces : Piece.split (String.ofList (a ++ '.' :: b)).toList =
        [⟨.number .float, a ++ '.' :: b⟩] := by
      have hne : a ++ '.' :: b ≠ [] := fun h => ha.1 (List.append_eq_nil_iff.1 h).1
      have hlast := Piece.split_number (x := []) (w := a ++ '.' :: b)
        (by rw [List.append_nil]; exact Numeral.begins_append ha _) hne
        (by rw [List.append_nil]; exact Numeral.read_append_fraction ha hb)
      rw [String.toList_ofList]
      rwa [List.append_nil, Piece.split] at hlast
    constructor
    · change (Piece.tokens _ _ (Piece.split _)).map _ = _
      rw [Piece.map_kind_tokens, hpieces]
      rfl
    · change Piece.allProblems _ (Piece.split _) = _
      rw [hpieces]
      rfl
  · intro rest hrest
    obtain ⟨n, hpoint⟩ := Piece.split_point hrest
    refine ⟨(Piece.split (rest.drop n)).filterMap (Piece.kind? dialect.rules.reserves) ++
      [.endOfInput], ?_⟩
    change (Piece.tokens _ _ (Piece.split _)).map _ = _
    rw [Piece.map_kind_tokens, String.toList_ofList,
      Piece.split_number (Numeral.begins_append ha _) ha.1 (Numeral.read_append_point ha hrest),
      hpoint]
    rfl

/-- Before two points a marked integer, and behind them a number whose exponent has no digits. -/
theorem numbers_longest_match_malformed :
    let source := "0xF..2e+"
    let t : Token := ⟨.float "2e+", "2e+", ⟨5, 8⟩, 1, 6⟩
    t ∈ (tokenize source .openCypher).tokens ∧
      (∃ w form, Longest ['2', 'e', '+'] w form ∧ t.kind = form.kind w ∧
        (tokenize source .openCypher).problems.filter (fun d => t.span.contains d.span) =
          if form = .malformed then [Piece.malformedNumber t.span w] else []) ∧
      (tokenize (String.ofList ['0', '.', '.', '7']) .openCypher).tokens.map Token.kind =
        [.integer "0", .sign .dotDot, .integer "7", .endOfInput] ∧
      ∃ kinds, (tokenize (String.ofList ['0', '.', 'x']) .openCypher).tokens.map Token.kind =
        .integer "0" :: .sign .dot :: kinds := by
  intro source t
  obtain ⟨hlongest, hpoints⟩ := numbers_longest_match .openCypher
  have ht : t ∈ (tokenize source .openCypher).tokens := by decide +kernel
  have hdigit {c : Char} (hc : DecimalDigit c) : [c] ∈ digits :=
    ⟨List.cons_ne_nil _ _, List.forall_mem_singleton.2 hc⟩
  have hzero := hpoints ['0'] (hdigit (by unfold DecimalDigit; decide))
  obtain ⟨w, form, hw, hkind, -, -, hproblems⟩ :=
    hlongest source t ht ['0', 'x', 'F', '.', '.'] ['2', 'e', '+'] (by decide +kernel) rfl
      (.digit (by unfold DecimalDigit; decide) _)
  exact ⟨ht, ⟨w, form, hw, hkind, hproblems⟩,
    (hzero.1 ['7'] (hdigit (by unfold DecimalDigit; decide))).1.1,
    hzero.2 ['x'] (by rintro c ⟨⟩; unfold DecimalDigit; decide)⟩

end Cypher
