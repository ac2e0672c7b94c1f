import Mathlib.Computability.Language
import Mathlib.Data.List.TakeWhile
import Cypher.Proofs.Lines

/-!
# The longest number at the front of a text

Numbers are declared by patterns (`Cypher.Numeral.Pattern`), and a number in a text is meant to be
as long a match as there is at its front. The scan does not try the patterns one by one: it goes
through the text once, from the digits to the fraction and on to the exponent, and decides at each
of these on what comes next. That it finds the longest match all the same, and the form of the
pattern that it matches, is `Cypher.Numeral.matches_read` and `Cypher.Numeral.longest_read`.

All decimal patterns are cut from one piece of cloth: digits, a fraction and an exponent, of which
some may be missing (`Cypher.Numeral.Parts`). Digits end where something else begins, so that a
match that goes on behind its digits has taken all of them, and the same is true of the fraction.
Only the last part of a match may have been cut short, and then the scan goes further. Behind a
marker, which is neither a digit nor the beginning of a fraction or an exponent, a decimal match is
a lone zero.
-/

namespace Cypher

/-! ### Digits -/

namespace Number

/-- A decimal digit. -/
def DecimalDigit (c : Char) : Prop := '0' ≤ c ∧ c ≤ '9'

/-- An octal digit. -/
def OctalDigit (c : Char) : Prop := '0' ≤ c ∧ c ≤ '7'

/-- A hexadecimal digit, in either case. -/
def HexadecimalDigit (c : Char) : Prop :=
  DecimalDigit c ∨ ('a' ≤ c ∧ c ≤ 'f') ∨ ('A' ≤ c ∧ c ≤ 'F')

/-- The values of the digits. -/
theorem digit?_eq (c : Char) : digit? c =
    if 48 ≤ c.toNat ∧ c.toNat ≤ 57 then some (c.toNat - 48)
    else if 97 ≤ c.toNat ∧ c.toNat ≤ 102 then some (c.toNat - 97 + 10)
    else if 65 ≤ c.toNat ∧ c.toNat ≤ 70 then some (c.toNat - 65 + 10)
    else none := rfl

theorem isDecimal_iff (c : Char) : isDecimal c = true ↔ DecimalDigit c := by
  have hdigit : DecimalDigit c ↔ 48 ≤ c.toNat ∧ c.toNat ≤ 57 := Iff.rfl
  rw [isDecimal, isDigitOf, digit?_eq, hdigit]
  split_ifs <;> simp <;> omega

theorem isOctal_iff (c : Char) : isOctal c = true ↔ OctalDigit c := by
  have hdigit : OctalDigit c ↔ 48 ≤ c.toNat ∧ c.toNat ≤ 55 := Iff.rfl
  rw [isOctal, isDigitOf, digit?_eq, hdigit]
  split_ifs <;> simp <;> omega

theorem isHexadecimal_iff (c : Char) : isHexadecimal c = true ↔ HexadecimalDigit c := by
  have hdigit : HexadecimalDigit c ↔ (48 ≤ c.toNat ∧ c.toNat ≤ 57) ∨
      (97 ≤ c.toNat ∧ c.toNat ≤ 102) ∨ 65 ≤ c.toNat ∧ c.toNat ≤ 70 := Iff.rfl
  rw [isHexadecimal, isDigitOf, digit?_eq, hdigit]
  split_ifs <;> simp <;> omega

end Number

/-! ### The declared patterns -/

namespace Numeral

open Number (DecimalDigit OctalDigit HexadecimalDigit)

/-- One or more digits of a kind. -/
def run (isDigit : Char → Prop) : Language Char := {w | w ≠ [] ∧ ∀ c ∈ w, isDigit c}

/-- One or more decimal digits. -/
def digits : Language Char := run DecimalDigit

/-- A decimal point. -/
def point : Language Char := {['.']}

/-- What announces an exponent. -/
def exponentMarker : Language Char := {['e'], ['E']}

/-- A sign or none. -/
def sign : Language Char := {[], ['+'], ['-']}

/-- An exponent. -/
def exponent : Language Char := exponentMarker * sign * digits

/-- The beginning of an exponent up to its digits. -/
def bareExponent : Language Char := exponentMarker * sign

/-- **The patterns of numbers.** -/
inductive Pattern
  | decimal
  | hexadecimal
  | octal
  /-- Digits with a fraction and perhaps an exponent. -/
  | fraction
  /-- A fraction without digits before it, and perhaps an exponent. -/
  | bareFraction
  /-- Digits with an exponent. -/
  | exponent
  /-- Digits, perhaps a fraction, and an exponent without digits. -/
  | cut
  /-- A fraction without digits before it, and an exponent without digits. -/
  | cutFraction
deriving DecidableEq, Repr

namespace Pattern

/-- **What a pattern matches.** -/
def language : Pattern → Language Char
  | decimal => digits
  | hexadecimal => {['0', 'x'], ['0', 'X']} * run HexadecimalDigit
  | octal => {['0', 'o']} * run OctalDigit
  | fraction => digits * point * digits * (1 + Numeral.exponent)
  | bareFraction => point * digits * (1 + Numeral.exponent)
  | exponent => digits * Numeral.exponent
  | cut => digits * (1 + point * digits) * bareExponent
  | cutFraction => point * digits * bareExponent

/-- The form of the numbers that match a pattern. -/
def form : Pattern → Form
  | decimal | hexadecimal | octal => .integer
  | fraction | bareFraction | exponent => .float
  | cut | cutFraction => .malformed

end Pattern

theorem mem_exponentMarker {w : List Char} :
    w ∈ exponentMarker ↔ ∃ c, w = [c] ∧ (c = 'e' ∨ c = 'E') := by
  constructor
  · rintro (rfl | rfl)
    · exact ⟨_, rfl, .inl rfl⟩
    · exact ⟨_, rfl, .inr rfl⟩
  · rintro ⟨c, rfl, rfl | rfl⟩
    · exact .inl rfl
    · exact .inr rfl

theorem mem_fraction {w : List Char} :
    w ∈ point * digits ↔ ∃ d ∈ digits, w = '.' :: d := by
  constructor
  · rintro ⟨_, rfl, d, hd, rfl⟩
    exact ⟨d, hd, rfl⟩
  · rintro ⟨d, hd, rfl⟩
    exact ⟨_, rfl, d, hd, rfl⟩

/-! ### The parts of a decimal number -/

/-- **The parts of a decimal number** behind its whole digits: a fraction or nothing, and an
exponent, the beginning of one, or nothing. They settle the form of the number. -/
inductive Parts : List Char → List Char → Form → Prop
  | whole : Parts [] [] .integer
  | fraction {f : List Char} (hf : f ∈ point * digits) : Parts f [] .float
  | exponent {f e : List Char} (hf : f = [] ∨ f ∈ point * digits) (he : e ∈ exponent) :
    Parts f e .float
  | cut {f e : List Char} (hf : f = [] ∨ f ∈ point * digits) (he : e ∈ bareExponent) :
    Parts f e .malformed

/-- **A decimal number**: digits and the parts behind them, of which a fraction may do without
digits before it. -/
def Decimal (w : List Char) (form : Form) : Prop :=
  ∃ d f e, w = d ++ f ++ e ∧ (∀ c ∈ d, DecimalDigit c) ∧ (d = [] → f ≠ []) ∧ Parts f e form

/-- **What a pattern matches** is a decimal number, or digits behind the marker of their base. -/
theorem Pattern.mem_language {p : Pattern} {w : List Char} (h : w ∈ p.language) :
    Decimal w p.form ∨ p.form = .integer ∧ ∃ marker isDigit d, w = '0' :: marker :: d ∧
      markedDigit? marker = some isDigit ∧ d ≠ [] ∧ ∀ c ∈ d, isDigit c = true := by
  cases p with
  | decimal => exact .inl ⟨w, [], [], by simp, h.2, fun hn => absurd hn h.1, .whole⟩
  | hexadecimal =>
    obtain ⟨m, hm, d, ⟨hne, hd⟩, rfl⟩ := h
    refine .inr ⟨rfl, ?_⟩
    have hall : ∀ c ∈ d, Number.isHexadecimal c = true := fun c hc =>
      (Number.isHexadecimal_iff c).2 (hd c hc)
    obtain rfl | rfl := hm
    · exact ⟨'x', _, d, rfl, rfl, hne, hall⟩
    · exact ⟨'X', _, d, rfl, rfl, hne, hall⟩
  | octal =>
    obtain ⟨m, rfl, d, ⟨hne, hd⟩, rfl⟩ := h
    exact .inr ⟨rfl, 'o', _, d, rfl, rfl, hne, fun c hc => (Number.isOctal_iff c).2 (hd c hc)⟩
  | fraction =>
    obtain ⟨_, ⟨_, ⟨d, hd, _, rfl, rfl⟩, k, hk, rfl⟩, e, he, rfl⟩ := h
    have hf : '.' :: k ∈ point * digits := mem_fraction.2 ⟨k, hk, rfl⟩
    refine .inl ⟨d, '.' :: k, e, by simp, hd.2, fun _ => List.cons_ne_nil _ _, ?_⟩
    obtain rfl | he := he
    · exact .fraction hf
    · exact .exponent (.inr hf) he
  | bareFraction =>
    obtain ⟨f, hf, e, he, rfl⟩ := h
    have hne : f ≠ [] := by
      obtain ⟨k, -, rfl⟩ := mem_fraction.1 hf
      exact List.cons_ne_nil _ _
    refine .inl ⟨[], f, e, rfl, nofun, fun _ => hne, ?_⟩
    obtain rfl | he := he
    · exact .fraction hf
    · exact .exponent (.inr hf) he
  | exponent =>
    obtain ⟨d, hd, e, he, rfl⟩ := h
    exact .inl ⟨d, [], e, by simp, hd.2, fun hn => absurd hn hd.1, .exponent (.inl rfl) he⟩
  | cut =>
    obtain ⟨_, ⟨d, hd, f, hf, rfl⟩, e, he, rfl⟩ := h
    exact .inl ⟨d, f, e, rfl, hd.2, fun hn => absurd hn hd.1, .cut hf he⟩
  | cutFraction =>
    obtain ⟨f, hf, e, he, rfl⟩ := h
    have hne : f ≠ [] := by
      obtain ⟨k, -, rfl⟩ := mem_fraction.1 hf
      exact List.cons_ne_nil _ _
    exact .inl ⟨[], f, e, rfl, nofun, fun _ => hne, .cut (.inr hf) he⟩

/-- No pattern matches nothing. -/
theorem Pattern.ne_nil {p : Pattern} {w : List Char} (h : w ∈ p.language) : w ≠ [] := by
  rintro rfl
  obtain ⟨d, f, e, hnil, -, hne, -⟩ | ⟨-, marker, isDigit, d, hcons, -⟩ := p.mem_language h
  · obtain ⟨hboth, -⟩ := List.append_eq_nil_iff.1 hnil.symm
    obtain ⟨hd, hf⟩ := List.append_eq_nil_iff.1 hboth
    exact hne hd hf
  · cases hcons

/-- **A decimal number matches a pattern** of its form. -/
theorem Decimal.exists_pattern {w : List Char} {form : Form} (h : Decimal w form) :
    ∃ p : Pattern, w ∈ p.language ∧ p.form = form := by
  obtain ⟨d, f, e, rfl, hd, hne, hparts⟩ := h
  by_cases hnil : d = []
  · subst hnil
    have hf : f = [] ∨ f ∈ point * digits → f ∈ point * digits :=
      fun h => h.resolve_left (hne rfl)
    cases hparts with
    | whole => exact absurd rfl (hne rfl)
    | fraction hf => exact ⟨.bareFraction, ⟨f, hf, [], .inl rfl, by simp⟩, rfl⟩
    | exponent hf' he => exact ⟨.bareFraction, ⟨f, hf hf', e, .inr he, rfl⟩, rfl⟩
    | cut hf' he => exact ⟨.cutFraction, ⟨f, hf hf', e, he, rfl⟩, rfl⟩
  · have hd : d ∈ digits := ⟨hnil, hd⟩
    have hjoin {f : List Char} (hf : f ∈ point * digits) : d ++ f ∈ digits * point * digits := by
      obtain ⟨k, hk, rfl⟩ := mem_fraction.1 hf
      exact ⟨d ++ ['.'], ⟨d, hd, _, rfl, rfl⟩, k, hk, by simp⟩
    cases hparts with
    | whole => exact ⟨.decimal, by rw [List.append_nil, List.append_nil]; exact hd, rfl⟩
    | fraction hf => exact ⟨.fraction, ⟨_, hjoin hf, [], .inl rfl, rfl⟩, rfl⟩
    | exponent hf he =>
      obtain rfl | hf := hf
      · exact ⟨.exponent, ⟨d, hd, e, he, by simp⟩, rfl⟩
      · exact ⟨.fraction, ⟨_, hjoin hf, e, .inr he, rfl⟩, rfl⟩
    | cut hf he => exact ⟨.cut, ⟨_, ⟨d, hd, f, hf, rfl⟩, e, he, rfl⟩, rfl⟩

/-! ### Digits in a row -/

theorem takeWhile_digits {d : List Char} (hd : ∀ c ∈ d, DecimalDigit c) (x : List Char) :
    (d ++ x).takeWhile Number.isDecimal = d ++ x.takeWhile Number.isDecimal :=
  List.takeWhile_append_of_pos fun c hc => (Number.isDecimal_iff c).2 (hd c hc)

theorem takeWhile_cons_of_not {c : Char} (hc : Number.isDecimal c = false) (x : List Char) :
    (c :: x).takeWhile Number.isDecimal = [] := by
  rw [List.takeWhile_cons, hc]
  rfl

/-- The digits at the front of a text. -/
theorem forall_takeWhile (cs : List Char) :
    ∀ c ∈ cs.takeWhile Number.isDecimal, DecimalDigit c :=
  fun c hc => (Number.isDecimal_iff c).1 (List.mem_takeWhile_imp hc)

theorem isDecimal_exponentMarker {c : Char} (hc : c = 'e' ∨ c = 'E') :
    Number.isDecimal c = false := by
  rcases hc with rfl | rfl <;> decide

/-! ### Fractions -/

theorem fractionLength_append {f : List Char} (hf : f ∈ point * digits) (x : List Char) :
    fractionLength (f ++ x) = f.length + (x.takeWhile Number.isDecimal).length := by
  obtain ⟨d, hd, rfl⟩ := mem_fraction.1 hf
  have hpos := List.length_pos_of_ne_nil hd.1
  rw [List.cons_append, fractionLength, takeWhile_digits hd.2, List.length_append,
    List.length_cons, if_neg (by omega)]
  omega

theorem fractionLength_of_ne {c : Char} (hc : c ≠ '.') (x : List Char) :
    fractionLength (c :: x) = 0 := by
  unfold fractionLength
  split
  · next h => exact absurd (List.cons.inj h).1 hc
  · rfl

/-- A fraction is found, or nothing. -/
theorem exists_fraction (cs : List Char) : ∃ f x, cs = f ++ x ∧ fractionLength cs = f.length ∧
    (f = [] ∨ f ∈ point * digits) := by
  rcases cs with - | ⟨c, rest⟩
  · exact ⟨[], [], rfl, rfl, .inl rfl⟩
  by_cases hc : c = '.'
  · subst hc
    by_cases hnil : rest.takeWhile Number.isDecimal = []
    · refine ⟨[], _, rfl, ?_, .inl rfl⟩
      rw [fractionLength, hnil]
      rfl
    · refine ⟨'.' :: rest.takeWhile Number.isDecimal, rest.dropWhile Number.isDecimal, ?_, ?_,
        .inr (mem_fraction.2 ⟨_, ⟨hnil, forall_takeWhile rest⟩, rfl⟩)⟩
      · rw [List.cons_append, List.takeWhile_append_dropWhile]
      · rw [fractionLength, List.length_cons, if_neg (mt List.length_eq_zero_iff.1 hnil)]
  · exact ⟨[], _, rfl, fractionLength_of_ne hc rest, .inl rfl⟩

/-! ### Exponents -/

/-- A sign is found, or nothing. -/
theorem exists_sign (cs : List Char) :
    ∃ s x, cs = s ++ x ∧ signLength cs = s.length ∧ s ∈ sign := by
  unfold signLength
  split
  · exact ⟨['+'], _, rfl, rfl, .inr (.inl rfl)⟩
  · exact ⟨['-'], _, rfl, rfl, .inr (.inr rfl)⟩
  · exact ⟨[], _, rfl, rfl, .inl rfl⟩

theorem le_signLength {s : List Char} (hs : s ∈ sign) (x : List Char) :
    s.length ≤ signLength (s ++ x) := by
  obtain rfl | rfl | rfl := hs
  · exact Nat.zero_le _
  · exact Nat.le_refl _
  · exact Nat.le_refl _

/-- Before a digit, a sign is all there is. -/
theorem signLength_append {s d : List Char} (hs : s ∈ sign) (hd : d ∈ digits) (x : List Char) :
    signLength (s ++ (d ++ x)) = s.length := by
  obtain rfl | rfl | rfl := hs
  · obtain ⟨c, k, rfl⟩ := List.exists_cons_of_ne_nil hd.1
    have hc : DecimalDigit c := hd.2 c List.mem_cons_self
    have hplus : c ≠ '+' := by
      rintro rfl
      exact absurd hc (by unfold DecimalDigit; decide)
    have hminus : c ≠ '-' := by
      rintro rfl
      exact absurd hc (by unfold DecimalDigit; decide)
    rw [List.nil_append, List.cons_append]
    unfold signLength
    split
    · next h => exact absurd (List.cons.inj h).1 hplus
    · next h => exact absurd (List.cons.inj h).1 hminus
    · rfl
  · rfl
  · rfl

theorem exponentLength?_cons {c : Char} (hc : c = 'e' ∨ c = 'E') (rest : List Char) :
    exponentLength? (c :: rest) = some
      (1 + signLength rest + ((rest.drop (signLength rest)).takeWhile Number.isDecimal).length,
        ((rest.drop (signLength rest)).takeWhile Number.isDecimal).length != 0) := if_pos hc

/-- **An exponent goes on for as long as there are digits.** -/
theorem exponentLength?_append {e : List Char} (he : e ∈ exponent) (x : List Char) :
    exponentLength? (e ++ x) =
      some (e.length + (x.takeWhile Number.isDecimal).length, true) := by
  obtain ⟨_, ⟨m, hm, s, hs, rfl⟩, d, hd, rfl⟩ := he
  obtain ⟨c, rfl, hc⟩ := mem_exponentMarker.1 hm
  have hpos := List.length_pos_of_ne_nil hd.1
  have hassoc : [c] ++ s ++ d ++ x = c :: (s ++ (d ++ x)) := by simp
  rw [hassoc, exponentLength?_cons hc, signLength_append hs hd, List.drop_left,
    takeWhile_digits hd.2]
  simp only [List.length_append, List.length_cons, List.length_nil]
  rw [show (d.length + (x.takeWhile Number.isDecimal).length != 0) = true by
    rw [bne_iff_ne]; omega]
  congr 2
  omega

/-- The beginning of an exponent goes on if there is more of it. -/
theorem exponentLength?_append_bare {e : List Char} (he : e ∈ bareExponent) (x : List Char) :
    ∃ n b, exponentLength? (e ++ x) = some (n, b) ∧ e.length ≤ n ∧ (e.length = n → b = false) := by
  obtain ⟨m, hm, s, hs, rfl⟩ := he
  obtain ⟨c, rfl, hc⟩ := mem_exponentMarker.1 hm
  have hle := le_signLength hs x
  rw [List.append_assoc, List.singleton_append, exponentLength?_cons hc, List.length_append,
    List.length_singleton]
  refine ⟨_, _, rfl, by omega, fun heq => ?_⟩
  rw [bne_eq_false_iff_eq]
  omega

/-- What is found is an exponent, or the beginning of one. -/
theorem exists_exponent {cs : List Char} {n : Nat} {b : Bool}
    (h : exponentLength? cs = some (n, b)) :
    ∃ e x, cs = e ++ x ∧ e.length = n ∧ if b then e ∈ exponent else e ∈ bareExponent := by
  rcases cs with - | ⟨c, rest⟩
  · cases h
  by_cases hc : c = 'e' ∨ c = 'E'
  · obtain ⟨s, y, rfl, hlength, hs⟩ := exists_sign rest
    rw [exponentLength?_cons hc, hlength, List.drop_left] at h
    obtain ⟨rfl, rfl⟩ := Prod.mk.inj (Option.some.inj h)
    have hm : [c] ∈ exponentMarker := mem_exponentMarker.2 ⟨c, rfl, hc⟩
    have hbare : [c] ++ s ∈ bareExponent := ⟨_, hm, s, hs, rfl⟩
    refine ⟨[c] ++ s ++ y.takeWhile Number.isDecimal, y.dropWhile Number.isDecimal, ?_, ?_, ?_⟩
    · simp [List.takeWhile_append_dropWhile]
    · simp only [List.length_append, List.length_singleton]
    · by_cases hnil : y.takeWhile Number.isDecimal = []
      · rw [hnil, List.append_nil]
        exact hbare
      · rw [if_pos (bne_iff_ne.2 (mt List.length_eq_zero_iff.1 hnil))]
        exact ⟨_, hbare, _, ⟨hnil, forall_takeWhile y⟩, rfl⟩
  · rw [exponentLength?, if_neg hc] at h
    cases h

/-- An exponent begins with its marker. -/
theorem exists_exponentMarker {e : List Char} (he : e ∈ exponent ∨ e ∈ bareExponent) :
    ∃ c rest, e = c :: rest ∧ (c = 'e' ∨ c = 'E') := by
  have hbare {e : List Char} (he : e ∈ bareExponent) :
      ∃ c rest, e = c :: rest ∧ (c = 'e' ∨ c = 'E') := by
    obtain ⟨m, hm, s, -, rfl⟩ := he
    obtain ⟨c, rfl, hc⟩ := mem_exponentMarker.1 hm
    exact ⟨c, s, rfl, hc⟩
  obtain he | he := he
  · obtain ⟨_, he, d, -, rfl⟩ := he
    obtain ⟨c, rest, rfl, hc⟩ := hbare he
    exact ⟨c, rest ++ d, rfl, hc⟩
  · exact hbare he

/-! ### Decimal numbers -/

/-- The number of characters of a number before its exponent. -/
def mantissaLength (cs : List Char) : Nat :=
  (cs.takeWhile Number.isDecimal).length +
    fractionLength (cs.drop (cs.takeWhile Number.isDecimal).length)

theorem decimal_of_none {cs : List Char}
    (h : exponentLength? (cs.drop (mantissaLength cs)) = none) :
    decimal cs = (if fractionLength (cs.drop (cs.takeWhile Number.isDecimal).length) = 0
      then .integer else .float, mantissaLength cs) := by
  rw [mantissaLength] at h
  simp only [decimal, h, mantissaLength]

theorem decimal_of_some {cs : List Char} {n : Nat} {b : Bool}
    (h : exponentLength? (cs.drop (mantissaLength cs)) = some (n, b)) :
    decimal cs = (if b then .float else .malformed, mantissaLength cs + n) := by
  rw [mantissaLength] at h
  cases b <;> simp only [decimal, h, mantissaLength] <;> rfl

section Parts

variable {d f : List Char} (hd : ∀ c ∈ d, DecimalDigit c) (hf : f = [] ∨ f ∈ point * digits)

include hd hf

/-- Before a part of another kind, digits and a fraction are all there is. -/
theorem mantissaLength_append {c : Char} (hc : c = 'e' ∨ c = 'E') (x : List Char) :
    mantissaLength (d ++ f ++ c :: x) = d.length + f.length := by
  have hstop := takeWhile_cons_of_not (isDecimal_exponentMarker hc) x
  obtain rfl | hf := hf
  · have hpoint : c ≠ '.' := by rcases hc with rfl | rfl <;> decide
    rw [mantissaLength, List.append_nil, takeWhile_digits hd, hstop, List.append_nil,
      List.drop_left, fractionLength_of_ne hpoint]
    rfl
  · obtain ⟨k, -, rfl⟩ := mem_fraction.1 hf
    rw [mantissaLength, List.append_assoc, takeWhile_digits hd, List.cons_append,
      takeWhile_cons_of_not (by decide), List.append_nil, List.drop_left, ← List.cons_append,
      fractionLength_append hf, hstop]
    rfl

/-- At the end of a match, there may be more of the last part. -/
theorem le_mantissaLength (x : List Char) :
    d.length + f.length ≤ mantissaLength (d ++ f ++ x) ∧
      (d.length + f.length = mantissaLength (d ++ f ++ x) →
        (fractionLength ((d ++ f ++ x).drop
          ((d ++ f ++ x).takeWhile Number.isDecimal).length) = 0 ↔ f = [])) := by
  rw [mantissaLength]
  obtain rfl | hf := hf
  · rw [List.append_nil, takeWhile_digits hd, List.length_append, List.length_nil]
    exact ⟨by omega, fun heq => iff_of_true (by omega) rfl⟩
  · obtain ⟨k, hk, rfl⟩ := mem_fraction.1 hf
    rw [List.append_assoc, takeWhile_digits hd, List.cons_append,
      takeWhile_cons_of_not (by decide), List.append_nil, List.drop_left, ← List.cons_append,
      fractionLength_append hf]
    refine ⟨by omega, fun _ => iff_of_false ?_ (List.cons_ne_nil _ _)⟩
    rw [List.length_cons]
    omega

end Parts

/-- **No decimal match is longer than what the scan finds**, and one that is as long has its form.
-/
theorem longest_decimal {w : List Char} {form : Form} (h : Decimal w form) (x : List Char) :
    w.length ≤ (decimal (w ++ x)).2 ∧
      (w.length = (decimal (w ++ x)).2 → (decimal (w ++ x)).1 = form) := by
  obtain ⟨d, f, e, rfl, hd, -, hparts⟩ := h
  -- without an exponent in the match, there may be one behind it
  have hplain {form : Form} (hf : f = [] ∨ f ∈ point * digits)
      (hform : form = if f = [] then .integer else .float) :
      (d ++ f).length ≤ (decimal (d ++ f ++ x)).2 ∧
        ((d ++ f).length = (decimal (d ++ f ++ x)).2 → (decimal (d ++ f ++ x)).1 = form) := by
    obtain ⟨hle, heq⟩ := le_mantissaLength hd hf x
    rw [List.length_append]
    cases he : exponentLength? ((d ++ f ++ x).drop (mantissaLength (d ++ f ++ x))) with
    | none =>
      rw [decimal_of_none he]
      exact ⟨hle, fun h => by rw [hform, if_congr (heq h) rfl rfl]⟩
    | some result =>
      obtain ⟨n, b⟩ := result
      obtain ⟨e, -, -, rfl, hmem⟩ := exists_exponent he
      obtain ⟨c, rest, rfl, -⟩ := exists_exponentMarker
        (show e ∈ exponent ∨ e ∈ bareExponent by
          split at hmem
          · exact .inl hmem
          · exact .inr hmem)
      rw [decimal_of_some he, List.length_cons]
      exact ⟨by dsimp only; omega, fun h => by dsimp only at h; omega⟩
  -- with one, the scan has come to its beginning
  have hdrop (hf : f = [] ∨ f ∈ point * digits) (he : e ∈ exponent ∨ e ∈ bareExponent) :
      mantissaLength (d ++ f ++ e ++ x) = (d ++ f).length ∧
        (d ++ f ++ e ++ x).drop (mantissaLength (d ++ f ++ e ++ x)) = e ++ x := by
    obtain ⟨c, rest, rfl, hc⟩ := exists_exponentMarker he
    have hlength : mantissaLength (d ++ f ++ (c :: rest) ++ x) = (d ++ f).length := by
      rw [List.append_assoc, List.cons_append, mantissaLength_append hd hf hc, List.length_append]
    exact ⟨hlength, by rw [hlength, List.append_assoc, List.drop_left]⟩
  cases hparts with
  | whole =>
    rw [List.append_nil]
    exact hplain (.inl rfl) rfl
  | fraction hf =>
    have hne : f ≠ [] := by
      obtain ⟨k, -, rfl⟩ := mem_fraction.1 hf
      exact List.cons_ne_nil _ _
    rw [List.append_nil]
    exact hplain (.inr hf) (if_neg hne).symm
  | exponent hf he =>
    obtain ⟨hlength, hrest⟩ := hdrop hf (.inl he)
    have hfound := exponentLength?_append he x
    rw [← hrest] at hfound
    rw [decimal_of_some hfound, hlength, List.length_append]
    exact ⟨by dsimp only; omega, fun _ => rfl⟩
  | cut hf he =>
    obtain ⟨hlength, hrest⟩ := hdrop hf (.inr he)
    obtain ⟨n, b, hfound, hle, hform⟩ := exponentLength?_append_bare he x
    rw [← hrest] at hfound
    rw [decimal_of_some hfound, hlength, List.length_append]
    refine ⟨by dsimp only; omega, fun heq => ?_⟩
    rw [hform (by dsimp only at heq; omega)]
    rfl

/-- A text that starts like a number has digits at its front, or a fraction. -/
theorem fractionLength_ne_zero {cs : List Char} (h : starts cs = true)
    (hnil : cs.takeWhile Number.isDecimal = []) : fractionLength cs ≠ 0 := by
  have hfirst {c : Char} {rest : List Char} (hcs : cs = c :: rest)
      (hc : Number.isDecimal c = true) : False := by
    rw [hcs, List.takeWhile_cons, if_pos hc] at hnil
    cases hnil
  unfold starts at h
  split at h
  · next c rest =>
    rw [fractionLength, List.takeWhile_cons, if_pos h]
    exact Nat.succ_ne_zero _
  · exact (hfirst rfl h).elim
  · cases h

/-- **What the scan finds is a decimal number**, if the text starts like a number. -/
theorem exists_decimal {cs : List Char} (h : starts cs = true) :
    ∃ w x form, cs = w ++ x ∧ decimal cs = (form, w.length) ∧ Decimal w form := by
  obtain ⟨d, hd⟩ : ∃ d, cs.takeWhile Number.isDecimal = d := ⟨_, rfl⟩
  have hall : ∀ c ∈ d, DecimalDigit c := hd ▸ forall_takeWhile cs
  obtain ⟨f, y, hfraction, hlength, hf⟩ := exists_fraction (cs.drop d.length)
  have hsplit : cs = d ++ (f ++ y) := by
    rw [← hfraction]
    exact (List.prefix_iff_eq_append.1 (hd ▸ List.takeWhile_prefix _)).symm
  have hmantissa : mantissaLength cs = (d ++ f).length := by
    rw [mantissaLength, hd, hlength, List.length_append]
  have hdrop : cs.drop (mantissaLength cs) = y := by
    rw [hmantissa, hsplit, ← List.append_assoc, List.drop_left]
  have hne : d = [] → f ≠ [] := by
    rintro rfl rfl
    exact fractionLength_ne_zero h hd hlength
  cases he : exponentLength? (cs.drop (mantissaLength cs)) with
  | none =>
    rw [decimal_of_none he, hd, hlength, hmantissa]
    refine ⟨d ++ f, y, _, by rw [hsplit, List.append_assoc], rfl, d, f, [],
      (List.append_nil _).symm, hall, hne, ?_⟩
    obtain rfl | hf := hf
    · exact .whole
    · obtain ⟨k, -, rfl⟩ := mem_fraction.1 hf
      exact .fraction hf
  | some result =>
    obtain ⟨n, b⟩ := result
    rw [decimal_of_some he, hmantissa]
    rw [hdrop] at he
    obtain ⟨e, x, rfl, rfl, hmem⟩ := exists_exponent he
    refine ⟨d ++ f ++ e, x, if b then .float else .malformed,
      by rw [hsplit]; simp only [List.append_assoc], ?_, d, f, e, rfl, hall, hne, ?_⟩
    · rw [← List.length_append]
    · cases b
      · exact .cut hf hmem
      · exact .exponent hf hmem

/-! ### Numbers in any base -/

section Marked

variable {marker : Char} {isDigit : Char → Bool} (h : markedDigit? marker = some isDigit)

include h

theorem read_marked (rest : List Char) : read ('0' :: marker :: rest) =
    if (rest.takeWhile isDigit).length = 0 then decimal ('0' :: marker :: rest)
      else (.integer, (rest.takeWhile isDigit).length + 2) := by
  simp only [read, h]

/-- **Before a marker**, a decimal number is a lone zero. -/
theorem decimal_marked (rest : List Char) : decimal ('0' :: marker :: rest) = (.integer, 1) := by
  have hmarker : Number.isDecimal marker = false ∧ marker ≠ '.' ∧ marker ≠ 'e' ∧ marker ≠ 'E' := by
    unfold markedDigit? at h
    split at h
    all_goals first
      | cases h
        decide
      | cases h
  obtain ⟨hdigit, hpoint, he⟩ := hmarker
  have hwhole : ('0' :: marker :: rest).takeWhile Number.isDecimal = ['0'] := by
    rw [List.takeWhile_cons, if_pos (by decide), takeWhile_cons_of_not hdigit]
  have hnone : fractionLength (marker :: rest) = 0 := fractionLength_of_ne hpoint rest
  have hlength : mantissaLength ('0' :: marker :: rest) = 1 := by
    rw [mantissaLength, hwhole]
    exact congrArg (1 + ·) hnone
  rw [decimal_of_none (by rw [hlength]; exact if_neg (not_or.2 he)), hlength, hwhole]
  exact congrArg (·, 1) (if_pos hnone)

/-- Digits behind a marker match a pattern of integers. -/
theorem exists_marked {d : List Char} (hne : d ≠ []) (hd : ∀ c ∈ d, isDigit c = true) :
    ∃ p : Pattern, '0' :: marker :: d ∈ p.language ∧ p.form = .integer := by
  unfold markedDigit? at h
  split at h
  · cases h
    exact ⟨.hexadecimal, ⟨['0', 'x'], .inl rfl, d,
      ⟨hne, fun c hc => (Number.isHexadecimal_iff c).1 (hd c hc)⟩, rfl⟩, rfl⟩
  · cases h
    exact ⟨.hexadecimal, ⟨['0', 'X'], .inr rfl, d,
      ⟨hne, fun c hc => (Number.isHexadecimal_iff c).1 (hd c hc)⟩, rfl⟩, rfl⟩
  · cases h
    exact ⟨.octal, ⟨['0', 'o'], rfl, d,
      ⟨hne, fun c hc => (Number.isOctal_iff c).1 (hd c hc)⟩, rfl⟩, rfl⟩
  · cases h

end Marked

/-- The scan goes on behind a marker with digits, and takes the number for a decimal one elsewhere.
-/
theorem read_cases (cs : List Char) :
    (∃ marker isDigit rest, cs = '0' :: marker :: rest ∧ markedDigit? marker = some isDigit ∧
      rest.takeWhile isDigit ≠ [] ∧ read cs = (.integer, (rest.takeWhile isDigit).length + 2)) ∨
    ((∀ marker isDigit rest, cs = '0' :: marker :: rest → markedDigit? marker = some isDigit →
      rest.takeWhile isDigit = []) ∧ read cs = decimal cs) := by
  by_cases h : ∃ marker isDigit rest, cs = '0' :: marker :: rest ∧
      markedDigit? marker = some isDigit ∧ rest.takeWhile isDigit ≠ []
  · obtain ⟨marker, isDigit, rest, rfl, hmarker, hne⟩ := h
    refine .inl ⟨marker, isDigit, rest, rfl, hmarker, hne, ?_⟩
    rw [read_marked hmarker, if_neg (mt List.length_eq_zero_iff.1 hne)]
  · push Not at h
    refine .inr ⟨h, ?_⟩
    by_cases hmarked : ∃ marker isDigit rest, cs = '0' :: marker :: rest ∧
        markedDigit? marker = some isDigit
    · obtain ⟨marker, isDigit, rest, rfl, hmarker⟩ := hmarked
      rw [read_marked hmarker, h marker isDigit rest rfl hmarker]
      rfl
    · push Not at hmarked
      exact read_eq_decimal fun marker rest hcs =>
        Option.eq_none_iff_forall_ne_some.2 fun isDigit => hmarked marker isDigit rest hcs

/-- **What the scan finds matches a pattern**, and has its form. -/
theorem matches_read {cs : List Char} (h : starts cs = true) :
    ∃ (w x : List Char) (p : Pattern), cs = w ++ x ∧ w ∈ p.language ∧ read cs = (p.form, w.length) := by
  rcases read_cases cs with ⟨marker, isDigit, rest, rfl, hmarker, hne, hread⟩ | ⟨-, hread⟩
  · obtain ⟨p, hp, hform⟩ := exists_marked hmarker hne fun c hc => List.mem_takeWhile_imp hc
    refine ⟨_, rest.dropWhile isDigit, p, ?_, hp, ?_⟩
    · rw [List.cons_append, List.cons_append, List.takeWhile_append_dropWhile]
    · rw [hread, hform]
      rfl
  · obtain ⟨w, x, form, hcs, hdecimal, hw⟩ := exists_decimal h
    obtain ⟨p, hp, rfl⟩ := hw.exists_pattern
    exact ⟨w, x, p, hcs, hp, hread.trans hdecimal⟩

/-- **No match is longer than what the scan finds**, and one that is as long has its form. -/
theorem longest_read {p : Pattern} {w : List Char} (h : w ∈ p.language) (x : List Char) :
    w.length ≤ (read (w ++ x)).2 ∧
      (w.length = (read (w ++ x)).2 → (read (w ++ x)).1 = p.form) := by
  rcases read_cases (w ++ x) with ⟨marker, isDigit, rest, hcs, hmarker, hne, hread⟩ |
      ⟨hnone, hread⟩
  · have hpos := List.length_pos_of_ne_nil hne
    rw [hread]
    obtain hw | ⟨hform, marker', isDigit', d, rfl, hmarker', -, hd⟩ := p.mem_language h
    · -- a decimal match stops before the marker
      have hle := (longest_decimal hw x).1
      rw [hcs, decimal_marked hmarker] at hle
      exact ⟨by dsimp only at hle ⊢; omega, fun heq => by dsimp only at hle heq; omega⟩
    · obtain ⟨rfl, hrest⟩ := List.cons.inj (List.cons.inj hcs).2
      obtain rfl : isDigit' = isDigit := Option.some.inj (hmarker'.symm.trans hmarker)
      have hrun : rest.takeWhile isDigit' = d ++ x.takeWhile isDigit' := by
        rw [← hrest]
        exact List.takeWhile_append_of_pos hd
      rw [hrun, List.length_append, hform]
      exact ⟨by simp only [List.length_cons]; omega, fun _ => rfl⟩
  · rw [hread]
    obtain hw | ⟨-, marker, isDigit, d, rfl, hmarker, hne, hd⟩ := p.mem_language h
    · exact longest_decimal hw x
    · have hrun := hnone marker isDigit (d ++ x) rfl hmarker
      rw [List.takeWhile_append_of_pos hd] at hrun
      exact absurd (List.append_eq_nil_iff.1 hrun).1 hne

/-- **The longest match at the front of a text**, with the form of its patterns. -/
structure Longest (text w : List Char) (form : Form) : Prop where
  front : w <+: text
  matched : ∃ p : Pattern, w ∈ p.language
  /-- Patterns that match the same characters agree on what they are. -/
  agreed : ∀ p : Pattern, w ∈ p.language → p.form = form
  longest : ∀ (p : Pattern) (v : List Char), v ∈ p.language → v <+: text → v.length ≤ w.length

/-- **The scan finds the longest match.** -/
theorem exists_longest {text : List Char} (h : starts text = true) :
    ∃ w x form, text = w ++ x ∧ read text = (form, w.length) ∧ Longest text w form := by
  obtain ⟨w, x, p, rfl, hw, hread⟩ := matches_read h
  refine ⟨w, x, p.form, rfl, hread, List.prefix_append w x, ⟨p, hw⟩, fun q hq => ?_, ?_⟩
  · have hform := (longest_read hq x).2
    rw [hread] at hform
    exact (hform rfl).symm
  · rintro q v hv ⟨y, hy⟩
    have hle := (longest_read hv y).1
    rwa [hy, hread] at hle

end Numeral

end Cypher
