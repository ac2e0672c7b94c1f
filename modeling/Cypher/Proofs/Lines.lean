import Cypher.Proofs.Labels.Piece
import Cypher.Proofs.Lossless

/-!
# Lexing line by line

Where a text ends inside no string, quoted name or comment between markers, a newline behind it cuts
the work of the lexer in two: what comes before the newline is split as if it were the whole text,
and what comes behind is split as if it were a text of its own, only further down
(`Cypher.tokenize_append_newline`).

There are two things to see to.

* No piece but a blank one looks over the newline. A newline continues no word, no number, no
  parameter and no sign, it ends a comment that goes to the end of the line, and it is no digit, so
  that not even a backslash form cut short by the end of its text takes on a meaning. A string, a
  quoted name or a comment that is closed does not look beyond the mark that closes it.
* Blanks at the end of the first text, the newline, and blanks at the start of the second text
  become one piece. So it is not the pieces that are put together but what is found in them, and in
  a blank nothing is found (`Cypher.Piece.Blind`).
-/

namespace Cypher

/-! ### Further down -/

/-- A span that many bytes further on. -/
def Span.shift (offset : Nat) (span : Span) : Span := ⟨span.start + offset, span.stop + offset⟩

/-- A token that many bytes further on and that many lines further down, in the same column. -/
def Token.shift (offset lines : Nat) (t : Token) : Token :=
  { t with span := t.span.shift offset, line := t.line + lines }

/-- A diagnostic with all it points at that many bytes further on. -/
def Diagnostic.shift (offset : Nat) (d : Diagnostic) : Diagnostic :=
  { d with labels := d.labels.map fun l => { l with span := l.span.shift offset } }

namespace Place

/-- A place that many bytes further on and that many lines further down, in the same column. -/
def shift (offset lines : Nat) (p : Place) : Place :=
  ⟨p.offset + offset, p.line + lines, p.column⟩

variable (offset lines : Nat)

theorem step_shift (p : Place) (c : Char) :
    (p.shift offset lines).step c = (p.step c).shift offset lines := by
  unfold step
  split
  · simp only [shift, Nat.add_right_comm]
  · simp only [shift, Nat.add_right_comm]

theorem past_shift (p : Place) (cs : List Char) :
    (p.shift offset lines).past cs = (p.past cs).shift offset lines := by
  induction cs generalizing p with
  | nil => rfl
  | cons c cs ih => rw [past_cons, past_cons, step_shift, ih]

theorem span_shift (p : Place) (cs : List Char) :
    (p.shift offset lines).span cs = (p.span cs).shift offset := by
  simp only [span, shift, Span.shift, Nat.add_right_comm]

/-- **Behind a newline** a text starts over, further down. -/
theorem past_newline (cs : List Char) : (origin.past cs).step '\n' =
    origin.shift (Text.size cs + 1) (cs.count '\n' + 1) := by
  have hoffset : (origin.past cs).offset = Text.size cs := by
    rw [offset_past, origin, Nat.zero_add]
  have hsize : Char.utf8Size '\n' = 1 := rfl
  rw [step, if_pos rfl, hoffset, line_past_origin, hsize, shift]
  simp only [origin, Nat.zero_add, Nat.add_comm 1]

end Place

/-! ### A newline behind a piece -/

/-- Whether a piece of the shape ends with the mark that it has to end with. -/
def Shape.isClosed : Shape → Bool
  | .comment closed | .quotedName _ closed | .string _ _ closed => closed
  | _ => true

variable (behind : List Char)

/-- A run of characters that a newline does not continue ends before it. -/
theorem takeWhile_append_newline {p : Char → Bool} (hp : p '\n' = false) (cs : List Char) :
    (cs ++ '\n' :: behind).takeWhile p = cs.takeWhile p := by
  induction cs with
  | nil => rw [List.nil_append, List.takeWhile_cons, hp]; rfl
  | cons c cs ih => rw [List.cons_append, List.takeWhile_cons, List.takeWhile_cons, ih]

/-- A run of characters is not longer than the text it is taken from. -/
theorem length_takeWhile_le (p : Char → Bool) (cs : List Char) :
    (cs.takeWhile p).length ≤ cs.length :=
  (List.takeWhile_prefix p).length_le

/-- What is dropped from the front of a text is not more than there is of it. -/
theorem drop_append_newline {cs : List Char} {n : Nat} (h : n ≤ cs.length) :
    (cs ++ '\n' :: behind).drop n = cs.drop n ++ '\n' :: behind :=
  List.drop_append_of_le_length h

namespace Numeral

theorem signLength_le (cs : List Char) : signLength cs ≤ cs.length := by
  unfold signLength
  split <;> simp

theorem signLength_append_newline (cs : List Char) :
    signLength (cs ++ '\n' :: behind) = signLength cs := by
  rcases cs with - | ⟨c, cs⟩
  · rfl
  · rw [List.cons_append]
    unfold signLength
    split <;> simp_all

theorem takeWhile_isDecimal_append_newline (cs : List Char) :
    (cs ++ '\n' :: behind).takeWhile Number.isDecimal = cs.takeWhile Number.isDecimal :=
  takeWhile_append_newline behind (by decide) cs

theorem fractionLength_le (cs : List Char) : fractionLength cs ≤ cs.length := by
  unfold fractionLength
  split
  · next rest =>
    have hle := length_takeWhile_le Number.isDecimal rest
    dsimp only
    rw [List.length_cons]
    split <;> omega
  · exact Nat.zero_le _

theorem fractionLength_append_newline (cs : List Char) :
    fractionLength (cs ++ '\n' :: behind) = fractionLength cs := by
  rcases cs with - | ⟨c, cs⟩
  · rfl
  by_cases hc : c = '.'
  · rw [hc, List.cons_append, fractionLength, fractionLength, takeWhile_isDecimal_append_newline]
  · have hpoint (rest : List Char) : fractionLength (c :: rest) = 0 := by
      unfold fractionLength
      split
      · next h => exact absurd (List.cons.inj h).1 hc
      · rfl
    rw [List.cons_append, hpoint, hpoint]

theorem exponentLength?_le {cs : List Char} {length : Nat} {digits : Bool}
    (h : exponentLength? cs = some (length, digits)) : length ≤ cs.length := by
  rcases cs with - | ⟨marker, rest⟩
  · cases h
  · rw [exponentLength?] at h
    split at h
    · obtain ⟨rfl, -⟩ := Prod.mk.inj (Option.some.inj h)
      have hsign := signLength_le rest
      have hdigits := length_takeWhile_le Number.isDecimal (rest.drop (signLength rest))
      rw [List.length_drop] at hdigits
      rw [List.length_cons]
      omega
    · cases h

theorem exponentLength?_append_newline (cs : List Char) :
    exponentLength? (cs ++ '\n' :: behind) = exponentLength? cs := by
  rcases cs with - | ⟨marker, rest⟩
  · rfl
  · simp only [List.cons_append, exponentLength?, signLength_append_newline,
      drop_append_newline behind (signLength_le rest), takeWhile_isDecimal_append_newline]

/-- A decimal number ends before a newline. -/
theorem decimal_append_newline (cs : List Char) :
    decimal (cs ++ '\n' :: behind) = decimal cs ∧ (decimal cs).2 ≤ cs.length := by
  have hwhole := length_takeWhile_le Number.isDecimal cs
  have hfraction := fractionLength_le (cs.drop (cs.takeWhile Number.isDecimal).length)
  rw [List.length_drop] at hfraction
  have hboth : (cs.takeWhile Number.isDecimal).length +
      fractionLength (cs.drop (cs.takeWhile Number.isDecimal).length) ≤ cs.length := by omega
  refine ⟨?_, ?_⟩
  · simp only [decimal, takeWhile_isDecimal_append_newline, drop_append_newline behind hwhole,
      fractionLength_append_newline, drop_append_newline behind hboth,
      exponentLength?_append_newline]
  · unfold decimal
    dsimp only
    split
    all_goals first
      | next h =>
        have hle := exponentLength?_le h
        rw [List.length_drop] at hle
        dsimp only
        omega
      | dsimp only; omega

/-- A digit behind a marker is no newline. -/
theorem isDigit_newline {marker : Char} {isDigit : Char → Bool}
    (h : markedDigit? marker = some isDigit) : isDigit '\n' = false := by
  unfold markedDigit? at h
  split at h
  all_goals cases h
  all_goals decide

/-- A number that no marker announces is a decimal one. -/
theorem read_eq_decimal {cs : List Char}
    (h : ∀ marker rest, cs = '0' :: marker :: rest → markedDigit? marker = none) :
    read cs = decimal cs := by
  unfold read
  split
  · next marker rest => rw [h marker rest rfl]
  · rfl

/-- **A number ends before a newline.** -/
theorem read_append_newline (cs : List Char) :
    read (cs ++ '\n' :: behind) = read cs ∧ (read cs).2 ≤ cs.length := by
  have hdecimal := decimal_append_newline behind cs
  by_cases hmarked : ∃ marker rest isDigit,
      cs = '0' :: marker :: rest ∧ markedDigit? marker = some isDigit
  · obtain ⟨marker, rest, isDigit, rfl, hmarker⟩ := hmarked
    have hrun := takeWhile_append_newline behind (isDigit_newline hmarker) rest
    have hle := length_takeWhile_le isDigit rest
    simp only [List.cons_append, read, hmarker, hrun] at hdecimal ⊢
    split
    · exact hdecimal
    · exact ⟨rfl, by simp only [List.length_cons]; omega⟩
  · have hplain {marker : Char} {rest : List Char} (hcs : cs = '0' :: marker :: rest) :
        markedDigit? marker = none := by
      by_contra hne
      obtain ⟨isDigit, hsome⟩ := Option.ne_none_iff_exists'.1 hne
      exact hmarked ⟨marker, rest, isDigit, hcs, hsome⟩
    rw [read_eq_decimal fun _ _ => hplain, read_eq_decimal fun marker rest hcs => ?_]
    · exact hdecimal
    -- the character behind a leading zero is that of the first text, or the newline
    · rcases cs with - | ⟨c, - | ⟨d, cs⟩⟩
      · cases hcs
      · obtain ⟨-, hcs⟩ := List.cons.inj hcs
        rw [← (List.cons.inj hcs).1]
        rfl
      · obtain ⟨hzero, hcs⟩ := List.cons.inj hcs
        rw [hzero] at hplain
        rw [← (List.cons.inj hcs).1]
        exact hplain rfl

theorem starts_append_newline (cs : List Char) :
    starts (cs ++ '\n' :: behind) = starts cs := by
  rcases cs with - | ⟨c, - | ⟨d, cs⟩⟩
  · rfl
  · by_cases hc : c = '.'
    · subst hc
      rfl
    · simp [starts, hc]
  · by_cases hc : c = '.'
    · simp [starts, hc]
    · simp [starts, hc]

end Numeral

namespace QuotedName

/-- **A quoted name that is closed ends before a newline.** -/
theorem read_append_newline {cs name : List Char} {count : Nat}
    (h : read cs = (name, count, true)) :
    read (cs ++ '\n' :: behind) = (name, count, true) ∧ count ≤ cs.length := by
  fun_induction read cs generalizing name count with
  | case1 => cases h
  | case2 =>
    -- a newline behind the quote does not double it
    obtain ⟨rfl, rfl, -⟩ := h
    exact ⟨rfl, Nat.le_refl _⟩
  | case3 => cases h
  | case4 rest name' count' closed hread ih =>
    obtain ⟨rfl, rfl, rfl⟩ := h
    obtain ⟨hread, hle⟩ := ih hread
    simp only [List.cons_append, read, hread, if_true]
    exact ⟨trivial, Nat.add_le_add_right hle 2⟩
  | case5 d rest hd =>
    obtain ⟨rfl, rfl, -⟩ := h
    simp [read, hd]
  | case6 c d rest hc name' count' closed hread ih =>
    obtain ⟨rfl, rfl, rfl⟩ := h
    obtain ⟨hread, hle⟩ := ih hread
    rw [List.cons_append] at hread
    simp only [List.cons_append, read, hread, if_neg hc]
    exact ⟨trivial, Nat.succ_le_succ hle⟩

end QuotedName

namespace Fragment

/-- A newline is no digit, so it gives no meaning to a form that the end of the text cut short. -/
theorem ofLetter_append_newline (letter : Char) (cs : List Char) :
    ofLetter letter (cs ++ '\n' :: behind) = ofLetter letter cs := by
  unfold ofLetter
  split
  · rfl
  split
  · rfl
  next count _ =>
  by_cases hlength : count ≤ cs.length
  · rw [List.take_append_of_le_length hlength]
  · have hshort : ¬ (cs.take count).length = count := by
      rw [List.length_take]
      omega
    have hnewline : ¬ ((cs ++ '\n' :: behind).take count).all Number.isHexadecimal = true := by
      intro hall
      have hmem : '\n' ∈ (cs ++ '\n' :: behind).take count := by
        refine List.mem_take_iff_getElem.2 ⟨cs.length, by simp; omega, by simp⟩
      have hdigit := List.all_eq_true.1 hall _ hmem
      revert hdigit
      decide
    dsimp only
    rw [if_neg fun h => hnewline h.2, if_neg fun h => hshort h.1]

theorem extra_ofLetter_le (letter : Char) (cs : List Char) :
    (ofLetter letter cs).extra ≤ cs.length := by
  unfold ofLetter
  split
  · exact Nat.zero_le _
  split
  · exact Nat.zero_le _
  dsimp only
  split
  · split
    · exact List.length_take_le' _ _
    · exact Nat.zero_le _
  · exact Nat.zero_le _

theorem read_of_escape {quote : Char} (hquote : ¬ '\\' = quote) (letter : Char) (cs : List Char) :
    read quote ('\\' :: letter :: cs) =
      (ofLetter letter cs :: (read quote (cs.drop (ofLetter letter cs).extra)).1,
        (read quote (cs.drop (ofLetter letter cs).extra)).2) := by
  rw [read.eq_3, if_neg hquote, if_pos rfl]

theorem read_of_plain {quote c : Char} (hquote : ¬ c = quote) (hbackslash : ¬ c = '\\')
    (cs : List Char) : read quote (c :: cs) = (plain c :: (read quote cs).1, (read quote cs).2) := by
  rw [read.eq_def]
  dsimp only
  rw [if_neg hquote, if_neg hbackslash]

/-- **A string that is closed ends before a newline.** -/
theorem read_append_newline {quote : Char} {cs : List Char} {fragments : List Fragment}
    (h : read quote cs = (fragments, true)) :
    read quote (cs ++ '\n' :: behind) = (fragments, true) ∧
      (writtenAll fragments).length + 1 ≤ cs.length := by
  fun_induction read quote cs generalizing fragments with
  | case1 => cases h
  | case2 =>
    obtain ⟨rfl, -⟩ := h
    refine ⟨?_, Nat.succ_le_succ (Nat.zero_le _)⟩
    rw [List.cons_append, read.eq_def]
    dsimp only
    rw [if_pos rfl]
  | case3 => cases h
  | case4 letter after fragment fragments' closed hread hquote =>
    rename_i ih
    obtain ⟨rfl, rfl⟩ := h
    obtain ⟨hread, hle⟩ := ih hread
    have hwritten := congrArg List.length (written_ofLetter letter after)
    rw [List.length_append] at hwritten
    rw [← drop_append_newline behind (extra_ofLetter_le letter after)] at hread
    refine ⟨?_, ?_⟩
    · rw [List.cons_append, List.cons_append, read_of_escape hquote, ofLetter_append_newline, hread]
    · rw [writtenAll, List.flatMap_cons, List.length_append]
      change (ofLetter letter after).written.length + (writtenAll fragments').length + 1 ≤ _
      exact Nat.le_trans (Nat.add_le_add_left hle _) (Nat.le_of_eq hwritten)
  | case5 c after hquote hbackslash fragments' closed hread ih =>
    obtain ⟨rfl, rfl⟩ := h
    obtain ⟨hread, hle⟩ := ih hread
    refine ⟨?_, Nat.succ_le_succ hle⟩
    rw [List.cons_append, read_of_plain hquote hbackslash, hread]

/-- Forms that mean nothing are found at the same distance from the start of their string. -/
theorem unknowns_shift (further offset : Nat) (fragments : List Fragment) :
    unknowns (offset + further) fragments =
      (unknowns offset fragments).map fun form => (form.1 + further, form.2) := by
  induction fragments generalizing offset with
  | nil => rfl
  | cons fragment fragments ih =>
    have ih := ih (offset + Text.size fragment.written)
    rw [Nat.add_right_comm] at ih
    cases fragment with
    | unknown letter => exact congrArg ((offset + further, ['\\', letter]) :: ·) ih
    | plain c => exact ih
    | escape letter digits meaning => exact ih
    | backslash => exact ih

end Fragment

namespace Piece

/-- **A comment that is closed ends before a newline.** -/
theorem commentLength_append_newline {cs : List Char} {count : Nat}
    (h : commentLength cs = (count, true)) :
    commentLength (cs ++ '\n' :: behind) = (count, true) ∧ count ≤ cs.length := by
  fun_induction commentLength cs generalizing count with
  | case1 => cases h
  | case2 rest =>
    obtain ⟨rfl, -⟩ := h
    exact ⟨rfl, by simp⟩
  | case3 c cs hmark count' closed hlength ih =>
    obtain ⟨rfl, rfl⟩ := h
    obtain ⟨hlength, hle⟩ := ih hlength
    refine ⟨?_, Nat.succ_le_succ hle⟩
    rw [List.cons_append, commentLength, hlength]
    -- a closing marker does not come about by the newline
    rintro rest rfl hrest
    rcases cs with - | ⟨d, cs⟩
    · cases (List.cons.inj hrest).1
    · obtain ⟨rfl, -⟩ := List.cons.inj hrest
      exact hmark cs rfl rfl

theorem parameter_append_newline (cs : List Char) :
    parameter (cs ++ '\n' :: behind) = parameter cs ∧ (parameter cs).2 ≤ cs.length := by
  rcases cs with - | ⟨c, cs⟩
  · exact ⟨rfl, Nat.le_refl _⟩
  · have hname := takeWhile_append_newline behind (show Text.isNamePart '\n' = false by decide) cs
    have hnameLe := length_takeWhile_le Text.isNamePart cs
    have hdigits := takeWhile_append_newline behind (show Number.isDecimal '\n' = false by decide) cs
    have hdigitsLe := length_takeWhile_le Number.isDecimal cs
    simp only [List.cons_append, parameter, hname, hdigits, List.length_cons, true_and]
    repeat' split
    all_goals first
      | exact Nat.succ_le_succ hnameLe
      | exact Nat.succ_le_succ hdigitsLe
      | exact Nat.zero_le _

/-- No sign goes on with a newline. -/
theorem ofPair?_newline (c : Char) : Sign.ofPair? c '\n' = none := by
  unfold Sign.ofPair?
  split <;> simp_all

theorem sign_append_newline (c : Char) (cs : List Char) :
    sign c (cs ++ '\n' :: behind) = sign c cs ∧ (sign c cs).2 ≤ cs.length := by
  rcases cs with - | ⟨d, cs⟩
  · simp [sign, ofPair?_newline]
    split <;> simp
  · refine ⟨rfl, ?_⟩
    unfold sign
    repeat' split
    all_goals simp

/-- The first character behind another is no newline, unless there is a newline behind it. -/
theorem head?_append_newline {d : Char} (hd : d ≠ '\n') (cs : List Char) :
    (cs ++ '\n' :: behind).head? = some d ↔ cs.head? = some d := by
  rcases cs with - | ⟨c, cs⟩
  · simp [hd.symm]
  · simp

/-- **No piece but a blank one looks over a newline**, as long as it is closed. -/
theorem front_append_newline {c : Char} {rest : List Char} (hgap : isGap c = false)
    (hclosed : (front c rest).1.isClosed = true) :
    front c (rest ++ '\n' :: behind) = front c rest ∧ (front c rest).2 ≤ rest.length := by
  have hslash := head?_append_newline behind (show '/' ≠ '\n' by decide) rest
  have hstar := head?_append_newline behind (show '*' ≠ '\n' by decide) rest
  have hrun (p : Char → Bool) (hp : p '\n' = false) := takeWhile_append_newline behind hp rest
  have hnumber := Numeral.read_append_newline behind (c :: rest)
  have hstarts := Numeral.starts_append_newline behind (c :: rest)
  rw [List.cons_append] at hnumber hstarts
  unfold front at hclosed ⊢
  simp only [hgap, hslash, hstar, hstarts, Bool.false_eq_true, if_false] at hclosed ⊢
  split
  · rw [hrun _ (by decide)]
    exact ⟨rfl, length_takeWhile_le _ _⟩
  split
  · next hmarks =>
    obtain ⟨body, rfl⟩ := List.head?_eq_some_iff.1 hmarks.2
    rw [if_neg (by simp), if_pos hmarks] at hclosed
    simp only [List.cons_append, List.drop_one, List.tail_cons] at hclosed ⊢
    rcases hlength : commentLength body with ⟨length, closed⟩
    rw [hlength] at hclosed
    obtain rfl : closed = true := hclosed
    obtain ⟨hbehind, hle⟩ := commentLength_append_newline behind hlength
    rw [hbehind]
    exact ⟨rfl, Nat.succ_le_succ hle⟩
  split
  · rw [hrun _ (by decide)]
    exact ⟨rfl, length_takeWhile_le _ _⟩
  split
  · next hline hmark hname hquote =>
    rw [if_neg hline, if_neg hmark, if_neg hname, if_pos hquote] at hclosed
    rcases hread : QuotedName.read rest with ⟨name, count, closed⟩
    rw [hread] at hclosed
    obtain rfl : closed = true := hclosed
    obtain ⟨hbehind, hle⟩ := QuotedName.read_append_newline behind hread
    rw [hbehind]
    exact ⟨rfl, hle⟩
  split
  · next hline hmark hname hquote hstring =>
    rw [if_neg hline, if_neg hmark, if_neg hname, if_neg hquote, if_pos hstring] at hclosed
    rcases hread : Fragment.read c rest with ⟨fragments, closed⟩
    rw [hread] at hclosed
    obtain rfl : closed = true := hclosed
    obtain ⟨hbehind, hle⟩ := Fragment.read_append_newline behind hread
    rw [hbehind]
    exact ⟨rfl, hle⟩
  split
  · rw [hnumber.1]
    exact ⟨rfl, Nat.sub_le_of_le_add hnumber.2⟩
  split
  · exact parameter_append_newline behind rest
  · exact sign_append_newline behind c rest

/-! ### Pieces in turn -/

/-- **What is found in pieces** of which the first starts at a place, one piece after the other. -/
def along {α : Type} (find : Place → Piece → List α) : Place → List Piece → List α
  | _, [] => []
  | p, x :: xs => find p x ++ along find (p.past x.written) xs

/-- A search that finds nothing in blanks. -/
def Blind {α : Type} (find : Place → Piece → List α) : Prop :=
  ∀ p word, find p ⟨.blank, word⟩ = []

variable {α : Type} {find : Place → Piece → List α}

/-- A run of blanks is taken as one piece, or there is none. -/
theorem along_split_takeWhile (hfind : Blind find) (p : Place) (cs : List Char) :
    along find p (split cs) =
      along find (p.past (cs.takeWhile isGap)) (split (cs.dropWhile isGap)) := by
  rcases cs with - | ⟨c, cs⟩
  · rfl
  by_cases hc : isGap c = true
  · have htake := @List.take_left _ (cs.takeWhile isGap) (cs.dropWhile isGap)
    have hdrop := @List.drop_left _ (cs.takeWhile isGap) (cs.dropWhile isGap)
    rw [List.takeWhile_append_dropWhile] at htake hdrop
    rw [split, front, if_pos hc]
    dsimp only
    rw [along, hfind, List.nil_append, List.takeWhile_cons, if_pos hc, List.dropWhile_cons,
      if_pos hc, htake, hdrop]
  · rw [List.takeWhile_cons, if_neg hc, List.dropWhile_cons, if_neg hc, Place.past_nil]

/-- **A run of blanks before a text** makes no difference to what is found behind it. -/
theorem along_split_append (hfind : Blind find) (run : List Char)
    (hrun : ∀ c ∈ run, isGap c = true) (p : Place) (cs : List Char) :
    along find p (split (run ++ cs)) = along find (p.past run) (split cs) := by
  rw [along_split_takeWhile hfind, along_split_takeWhile hfind _ cs,
    List.takeWhile_append_of_pos hrun, List.dropWhile_append_of_pos hrun, Place.past_append]

/-- **What is found in two texts with a newline between them** is what is found in the first,
followed by what is found in the second where it starts. -/
theorem along_split_append_newline (hfind : Blind find) (b : List Char) (p : Place) {a : List Char}
    (hclosed : ∀ x ∈ split a, x.shape.isClosed = true) :
    along find p (split (a ++ '\n' :: b)) =
      along find p (split a) ++ along find ((p.past a).step '\n') (split b) := by
  fun_induction split a generalizing p with
  | case1 => exact along_split_append hfind ['\n'] (List.forall_mem_singleton.2 rfl) p b
  | case2 c rest shape count hfront ih =>
    obtain ⟨hhead, hclosed⟩ := List.forall_mem_cons.1 hclosed
    have hrest : c :: rest = (c :: rest.take count) ++ rest.drop count := by
      rw [List.cons_append, List.take_append_drop]
    have ih := ih (p.past (c :: rest.take count)) hclosed
    rw [← Place.past_append, ← hrest] at ih
    rw [along, List.append_assoc, ← ih]
    by_cases hgap : isGap c = true
    · -- the blanks that the piece consists of are passed one way or the other
      obtain ⟨run, after, rfl, hlength, hrun, -⟩ := exists_run isGap rest
      rw [front, if_pos hgap, hlength] at hfront
      obtain ⟨rfl, rfl⟩ := Prod.mk.inj hfront
      rw [hfind, List.nil_append, List.take_left, List.drop_left, ← List.cons_append,
        List.append_assoc]
      exact along_split_append hfind _ (List.forall_mem_cons.2 ⟨hgap, hrun⟩) p _
    · obtain ⟨hbehind, hle⟩ := front_append_newline b (eq_false_of_ne_true hgap)
        (by rw [hfront]; exact hhead)
      rw [hfront] at hbehind hle
      rw [List.cons_append, split, hbehind]
      dsimp only
      rw [along, drop_append_newline b hle, List.take_append_of_le_length hle]

/-- A search that is the same further down finds the same there, further down. -/
theorem along_shift {offset lines : Nat} {move : α → α}
    (hfind : ∀ p x, find (p.shift offset lines) x = (find p x).map move) (p : Place)
    (xs : List Piece) : along find (p.shift offset lines) xs = (along find p xs).map move := by
  induction xs generalizing p with
  | nil => rfl
  | cons x xs ih => rw [along, along, List.map_append, hfind, Place.past_shift, ih]

/-! ### Tokens and problems -/

variable (reserved : Keyword → Bool)

theorem token?_shift (offset lines : Nat) (p : Place) (x : Piece) :
    x.token? reserved (p.shift offset lines) =
      (x.token? reserved p).map (Token.shift offset lines) := by
  rw [token?, token?, Option.map_map]
  refine congrFun (congrArg Option.map (funext fun kind => ?_)) _
  simp only [Function.comp_apply, Token.shift, Place.span_shift]
  rfl

theorem endToken_shift (offset lines : Nat) (p : Place) :
    endToken (p.shift offset lines) = (endToken p).shift offset lines := rfl

/-- The tokens of pieces are what is found in them, and a token for the end. -/
theorem tokens_eq_along (p : Place) (xs : List Piece) :
    tokens reserved p xs = along (fun p x => (x.token? reserved p).toList) p xs ++
      [endToken (p.past (xs.flatMap written))] := by
  induction xs generalizing p with
  | nil => rfl
  | cons x xs ih => rw [tokens, along, ih, List.flatMap_cons, Place.past_append, List.append_assoc]

/-- Without the token for the end the tokens are what is found in the pieces. -/
theorem filter_tokens (p : Place) (xs : List Piece) :
    (tokens reserved p xs).filter (fun t => t.kind ≠ .endOfInput) =
      along (fun p x => (x.token? reserved p).toList) p xs := by
  induction xs generalizing p with
  | nil => rfl
  | cons x xs ih =>
    have hfirst : (x.token? reserved p).toList.filter (fun t => t.kind ≠ .endOfInput) =
        (x.token? reserved p).toList :=
      List.filter_eq_self.2 fun t ht => decide_eq_true (kind_ne_of_mem_token? (by simpa using ht))
    rw [tokens, along, List.filter_append, hfirst, ih]

theorem problems_shift (offset lines : Nat) (p : Place) (x : Piece) :
    x.problems (p.shift offset lines) = (x.problems p).map (Diagnostic.shift offset) := by
  obtain ⟨shape, word⟩ := x
  have hspan := p.span_shift offset lines word
  cases shape with
  | blank | word | parameter | sign => rfl
  | comment closed =>
    cases closed with
    | true => rfl
    | false =>
      have hmarks : (⟨p.offset + offset, p.offset + offset + 2⟩ : Span) =
          Span.shift offset ⟨p.offset, p.offset + 2⟩ := by rw [Nat.add_right_comm]; rfl
      simp only [problems, Place.shift, hmarks]
      rfl
  | quotedName name closed =>
    cases closed with
    | true => rfl
    | false =>
      simp only [problems, hspan]
      rfl
  | string quote fragments closed =>
    have hforms : Fragment.unknowns ((p.shift offset lines).offset + 1) fragments = _ :=
      (congrArg (Fragment.unknowns · fragments) (Nat.add_right_comm ..)).trans
        (Fragment.unknowns_shift offset (p.offset + 1) fragments)
    simp only [problems, stringProblems, hspan, hforms, List.map_append, List.map_map]
    refine congrArg₂ (· ++ ·) (List.map_congr_left fun form _ => ?_) ?_
    · have hform : (⟨form.1 + offset, form.1 + offset + Text.size form.2⟩ : Span) =
          Span.shift offset ⟨form.1, form.1 + Text.size form.2⟩ := by rw [Nat.add_right_comm]; rfl
      simp only [Function.comp_apply, hform]
      rfl
    · split <;> rfl
  | number form =>
    cases form with
    | integer | float => rfl
    | malformed =>
      simp only [problems, hspan]
      rfl
  | unknown =>
    simp only [problems, hspan]
    rfl

theorem allProblems_eq_along (p : Place) (xs : List Piece) :
    allProblems p xs = along (fun p x => x.problems p) p xs := by
  induction xs generalizing p with
  | nil => rfl
  | cons x xs ih => rw [allProblems, along, ih]

/-- **Pieces without a problem of a missing mark are closed.** -/
theorem isClosed_of_problems {p : Place} {xs : List Piece}
    (h : ∀ d ∈ allProblems p xs, d.code ≠ some .unterminatedString ∧
      d.code ≠ some .unterminatedQuotedIdentifier ∧ d.code ≠ some .unterminatedComment) :
    ∀ x ∈ xs, x.shape.isClosed = true := by
  induction xs generalizing p with
  | nil => exact fun x hx => absurd hx List.not_mem_nil
  | cons x xs ih =>
    obtain ⟨hhead, htail⟩ := List.forall_mem_append.1 h
    refine List.forall_mem_cons.2 ⟨?_, ih htail⟩
    obtain ⟨shape, word⟩ := x
    rcases shape with - | ⟨- | -⟩ | - | ⟨name, - | -⟩ | ⟨quote, fragments, - | -⟩ | - | - | - | -
    all_goals try rfl
    · exact absurd rfl (hhead _ List.mem_cons_self).2.2
    · exact absurd rfl (hhead _ List.mem_cons_self).2.1
    · exact absurd rfl (hhead _ (List.mem_append_right _ List.mem_cons_self)).1

end Piece

/-- **A newline behind a text starts over.** Where a text ends inside no string, quoted name or
comment between markers, the tokens of that text, a newline and another text are the tokens of the
first without that for its end, followed by the tokens of the second, further down by what comes
before it; and so are the problems. -/
theorem tokenize_append_newline (a b : String) (dialect : Dialect)
    (h : ∀ d ∈ (tokenize a dialect).problems, d.code ≠ some .unterminatedString ∧
      d.code ≠ some .unterminatedQuotedIdentifier ∧ d.code ≠ some .unterminatedComment) :
    (tokenize (a ++ "\n" ++ b) dialect).tokens =
        (tokenize a dialect).tokens.filter (fun t => t.kind ≠ .endOfInput) ++
          (tokenize b dialect).tokens.map
            (Token.shift (Text.size a.toList + 1) (a.toList.count '\n' + 1)) ∧
      (tokenize (a ++ "\n" ++ b) dialect).problems = (tokenize a dialect).problems ++
        (tokenize b dialect).problems.map (Diagnostic.shift (Text.size a.toList + 1)) := by
  have hsource : (a ++ "\n" ++ b).toList = a.toList ++ '\n' :: b.toList := by simp
  have hclosed := Piece.isClosed_of_problems h
  have hstart := Place.past_newline a.toList
  simp only [tokenize, Lexed.ofText, hsource, Piece.filter_tokens, Piece.allProblems_eq_along]
  refine ⟨?_, ?_⟩
  · -- the token for the end of the whole is that of the second text, further down
    rw [Piece.tokens_eq_along, Piece.tokens_eq_along,
      Piece.along_split_append_newline (fun _ _ => rfl) _ _ hclosed, hstart,
      Piece.along_shift fun p x => by rw [Piece.token?_shift, Option.toList_map],
      Piece.flatMap_written_split, Piece.flatMap_written_split, Place.past_append, Place.past_cons,
      hstart, Place.past_shift, Piece.endToken_shift, List.map_append, List.append_assoc]
    rfl
  · rw [Piece.along_split_append_newline (fun _ _ => rfl) _ _ hclosed, hstart,
      Piece.along_shift fun p x => Piece.problems_shift ..]

/-- A parameter without a name and a comment at the end of the first text are such a case. -/
theorem tokenize_append_newline_parameter :
    (∀ d ∈ (tokenize "RETURN $ //" .openCypher).problems, d.code ≠ some .unterminatedString ∧
      d.code ≠ some .unterminatedQuotedIdentifier ∧ d.code ≠ some .unterminatedComment) ∧
    (tokenize ("RETURN $ //" ++ "\n" ++ "x '") .openCypher).tokens =
        (tokenize "RETURN $ //" .openCypher).tokens.filter (fun t => t.kind ≠ .endOfInput) ++
          (tokenize "x '" .openCypher).tokens.map (Token.shift 12 1) ∧
      (tokenize ("RETURN $ //" ++ "\n" ++ "x '") .openCypher).problems =
        (tokenize "RETURN $ //" .openCypher).problems ++
          (tokenize "x '" .openCypher).problems.map (Diagnostic.shift 12) := by
  have h : ∀ d ∈ (tokenize "RETURN $ //" .openCypher).problems,
      d.code ≠ some .unterminatedString ∧ d.code ≠ some .unterminatedQuotedIdentifier ∧
        d.code ≠ some .unterminatedComment := by decide +kernel
  exact ⟨h, tokenize_append_newline _ _ _ h⟩

end Cypher
