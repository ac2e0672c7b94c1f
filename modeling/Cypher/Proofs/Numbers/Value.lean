import Mathlib.Data.Nat.Digits.Defs
import Cypher.Proofs.Numbers.Token

/-!
# What integers say

An integer is written in one of three bases, and what it says is the sum of its digits by the weight
of their positions (`Cypher.Numeral.Denotes`), however many digits there are and whether or not they
begin with zeros. This is the number it is read as, as long as it fits in sixty-four bits
(`Cypher.Number.unsigned?_of_denotes`), and every integer that is cut out of a text says one
(`Cypher.Token.exists_denotes`).
-/

namespace Cypher

namespace Number

/-! ### Digits by their positions -/

/-- The digits in the order of their values. -/
def digits : List Char :=
  ['0', '1', '2', '3', '4', '5', '6', '7', '8', '9', 'a', 'b', 'c', 'd', 'e', 'f']

/-- The value of a digit in either case. -/
def value (c : Char) : Nat := digits.idxOf c.toLower

/-- **The number that digits say in a base**, the last of them being the ones. -/
def positional (base : Nat) (w : List Char) : Nat := Nat.ofDigits base (w.reverse.map value)

theorem digit?_of_hexadecimalDigit {c : Char} (h : HexadecimalDigit c) :
    digit? c = some (value c) := by
  have hbounds : (48 ≤ c.toNat ∧ c.toNat ≤ 57) ∨
      (97 ≤ c.toNat ∧ c.toNat ≤ 102) ∨ 65 ≤ c.toNat ∧ c.toNat ≤ 70 := h
  have hall : ∀ n < 103, (48 ≤ n ∧ n ≤ 57) ∨ (97 ≤ n ∧ n ≤ 102) ∨ (65 ≤ n ∧ n ≤ 70) →
      digit? (Char.ofNat n) = some (value (Char.ofNat n)) := by decide
  rw [← Char.ofNat_toNat c]
  exact hall c.toNat (by omega) hbounds

theorem hexadecimalDigit_of_isDigitOf {base : Nat} {c : Char} (h : isDigitOf base c = true) :
    HexadecimalDigit c := by
  refine (isHexadecimal_iff c).1 ?_
  obtain ⟨v, hv, -⟩ := (Option.any_eq_true ..).1 h
  rw [isHexadecimal, isDigitOf, hv, Option.any_some, decide_eq_true_eq]
  rw [digit?_eq] at hv
  split_ifs at hv
  all_goals
    cases hv
    omega

/-- **Digits are read from the front as their positions say.** -/
theorem ofDigits_eq_positional (base : Nat) {w : List Char} (h : ∀ c ∈ w, HexadecimalDigit c) :
    ofDigits base w = positional base w := by
  induction w using List.reverseRecOn with
  | nil => rfl
  | append_singleton w c ih =>
    have hc : digit? c = some (value c) :=
      digit?_of_hexadecimalDigit (h c (List.mem_append_right _ List.mem_cons_self))
    have ih := ih fun d hd => h d (List.mem_append_left _ hd)
    rw [positional, List.reverse_concat, List.map_cons, Nat.ofDigits_cons]
    calc ofDigits base (w ++ [c]) = ofDigits base w * base + value c := by
          rw [ofDigits, List.foldl_append, List.foldl_cons, hc]
          rfl
      _ = value c + base * positional base w := by rw [ih, Nat.mul_comm, Nat.add_comm]

theorem numeral?_eq {base : Nat} {w : List Char} (hne : w ≠ [])
    (h : ∀ c ∈ w, isDigitOf base c = true) : numeral? base w = some (positional base w) := by
  rw [numeral?, if_pos ⟨hne, List.all_eq_true.2 h⟩,
    ofDigits_eq_positional base fun c hc => hexadecimalDigit_of_isDigitOf (h c hc)]

/-- Digits have no sign before them. -/
theorem signedNumeral?_eq {base : Nat} {w : List Char} (hne : w ≠ [])
    (h : ∀ c ∈ w, isDigitOf base c = true) : signedNumeral? base w = some (positional base w) := by
  unfold signedNumeral?
  split
  · have hplus := hexadecimalDigit_of_isDigitOf (h '+' List.mem_cons_self)
    exact absurd hplus (by unfold HexadecimalDigit DecimalDigit; decide)
  · exact numeral?_eq hne h

end Number

/-! ### What an integer says -/

namespace Numeral

open Number (DecimalDigit OctalDigit HexadecimalDigit positional)

/-- **The number that the characters of an integer say.** -/
inductive Denotes : List Char → Nat → Prop
  | decimal {w : List Char} (h : w ∈ run DecimalDigit) : Denotes w (positional 10 w)
  | hexadecimal {marker : Char} {w : List Char} (hm : marker = 'x' ∨ marker = 'X')
      (h : w ∈ run HexadecimalDigit) : Denotes ('0' :: marker :: w) (positional 16 w)
  | octal {w : List Char} (h : w ∈ run OctalDigit) : Denotes ('0' :: 'o' :: w) (positional 8 w)

end Numeral

namespace Number

open Numeral (Denotes)

/-- The number that an integer stands for, whatever room there is for it. -/
def magnitude? (cs : List Char) : Option Nat :=
  match cs with
  | '0' :: 'x' :: rest => signedNumeral? 16 rest
  | '0' :: 'X' :: rest => signedNumeral? 16 rest
  | '0' :: 'o' :: rest => signedNumeral? 8 rest
  | _ => signedNumeral? 10 cs

theorem unsigned?_eq (cs : List Char) :
    unsigned? cs = (magnitude? cs).filter (· < unsignedLimit) := rfl

theorem magnitude?_of_denotes {cs : List Char} {n : Nat} (h : Denotes cs n) :
    magnitude? cs = some n := by
  cases h with
  | decimal h =>
    have hmarked {marker : Char} {rest : List Char} (hcs : cs = '0' :: marker :: rest) :
        DecimalDigit marker :=
      h.2 marker (hcs ▸ List.mem_cons_of_mem _ List.mem_cons_self)
    unfold magnitude?
    split
    · exact absurd (hmarked rfl) (by unfold DecimalDigit; decide)
    · exact absurd (hmarked rfl) (by unfold DecimalDigit; decide)
    · exact absurd (hmarked rfl) (by unfold DecimalDigit; decide)
    · exact signedNumeral?_eq h.1 fun c hc => (isDecimal_iff c).2 (h.2 c hc)
  | hexadecimal hm h =>
    have hall := signedNumeral?_eq h.1 fun c hc => (isHexadecimal_iff c).2 (h.2 c hc)
    obtain rfl | rfl := hm
    · exact hall
    · exact hall
  | octal h => exact signedNumeral?_eq h.1 fun c hc => (isOctal_iff c).2 (h.2 c hc)

/-- **An integer is read if it fits in sixty-four bits.** -/
theorem unsigned?_of_denotes {cs : List Char} {n : Nat} (h : Denotes cs n) :
    unsigned? cs = if n < 18446744073709551616 then some n else none := by
  rw [unsigned?_eq, magnitude?_of_denotes h]
  simp only [Option.filter_some, decide_eq_true_eq]
  rfl

end Number

namespace Numeral

/-- An integer says one number. -/
theorem Denotes.unique {cs : List Char} {m n : Nat} (hm : Denotes cs m) (hn : Denotes cs n) :
    m = n := by
  have hm := Number.magnitude?_of_denotes hm
  rw [Number.magnitude?_of_denotes hn] at hm
  exact (Option.some.inj hm).symm

/-- What matches a pattern of integers says a number. -/
theorem Pattern.exists_denotes {p : Pattern} {w : List Char} (h : w ∈ p.language)
    (hform : p.form = .integer) : ∃ n, Denotes w n := by
  cases p with
  | decimal => exact ⟨_, .decimal h⟩
  | hexadecimal =>
    obtain ⟨m, rfl | rfl, d, hd, rfl⟩ := h
    · exact ⟨_, .hexadecimal (.inl rfl) hd⟩
    · exact ⟨_, .hexadecimal (.inr rfl) hd⟩
  | octal =>
    obtain ⟨m, rfl, d, hd, rfl⟩ := h
    exact ⟨_, .octal hd⟩
  | fraction | bareFraction | exponent | cut | cutFraction => cases hform

theorem begins_of_starts {cs : List Char} (h : starts cs = true) : Begins cs := by
  unfold starts at h
  split at h
  · exact .point ((Number.isDecimal_iff _).1 h) _
  · exact .digit ((Number.isDecimal_iff _).1 h) _
  · cases h

end Numeral

namespace Piece

open Numeral (Begins)

/-- Only a number is read as one. -/
theorem begins_of_front {c : Char} {rest : List Char} {form : Numeral.Form}
    (h : (front c rest).1 = .number form) : Begins (c :: rest) := by
  by_contra hnot
  have hstarts : ¬ Numeral.starts (c :: rest) = true := mt Numeral.begins_of_starts hnot
  rw [front, if_neg hstarts] at h
  unfold parameter sign at h
  repeat' split at h
  all_goals cases h

/-- The piece of a token that is an integer. -/
theorem shape_of_integer {reserved : Keyword → Bool} {x : Piece} {text : String}
    (h : x.kind? reserved = some (.integer text)) :
    x.shape = .number .integer ∧ text = String.ofList x.written := by
  unfold kind? wordKind at h
  split at h
  case h_6 hshape =>
    injection Option.some.inj h with htext
    exact ⟨hshape, htext.symm⟩
  all_goals (try split at h) <;> cases h

end Piece

/-- **Every integer that is cut out of a text says a number.** -/
theorem Token.exists_denotes {source : String} {dialect : Dialect} {t : Token}
    (ht : t ∈ (tokenize source dialect).tokens) {text : String} (hkind : t.kind = .integer text) :
    t.lexeme = text ∧ ∃ n, Numeral.Denotes text.toList n := by
  obtain ⟨before, c, rest, -, htoken, -⟩ :=
    exists_first_of_mem_tokenize ht (by rw [hkind]; exact TokenKind.noConfusion)
  obtain ⟨kind, hpiece, rfl⟩ := Option.map_eq_some_iff.1 htoken
  obtain rfl : kind = .integer text := hkind
  obtain ⟨hshape, rfl⟩ := Piece.shape_of_integer hpiece
  have hbegins := Piece.begins_of_front hshape
  obtain ⟨w, x, form, hcs, hread, hlongest⟩ := Numeral.exists_longest hbegins.starts
  obtain ⟨p, hp⟩ := hlongest.matched
  obtain ⟨hfirst, -⟩ := Piece.first_number hbegins hcs (p.ne_nil hp) hread
  rw [hfirst] at hshape ⊢
  obtain rfl := Shape.number.inj hshape
  refine ⟨rfl, ?_⟩
  rw [String.toList_ofList]
  exact p.exists_denotes hp (hlongest.agreed p hp)

end Cypher
