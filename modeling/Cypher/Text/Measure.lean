/-!
# Measuring a text in bytes

Offsets count the bytes of the UTF-8 form of a text, while the text itself is worked on as a list
of characters. This file goes from one to the other: `Cypher.Text.size` is the length in bytes, and
`Cypher.Text.slice?` cuts out the characters between two byte offsets, provided both fall between
characters.
-/

namespace Cypher.Text

/-- The length in bytes of the UTF-8 form of a list of characters. -/
def size : List Char → Nat
  | [] => 0
  | c :: cs => c.utf8Size + size cs

/-- The characters before a byte offset, if the offset is a boundary between characters. -/
def before? : List Char → Nat → Option (List Char)
  | _, 0 => some []
  | [], _ + 1 => none
  | c :: cs, n + 1 =>
    if c.utf8Size ≤ n + 1 then (before? cs (n + 1 - c.utf8Size)).map (c :: ·) else none

/-- The characters from a byte offset on, if the offset is a boundary between characters. -/
def after? : List Char → Nat → Option (List Char)
  | cs, 0 => some cs
  | [], _ + 1 => none
  | c :: cs, n + 1 => if c.utf8Size ≤ n + 1 then after? cs (n + 1 - c.utf8Size) else none

/-- The characters between two byte offsets, if both are boundaries and they are in order. -/
def slice? (cs : List Char) (start stop : Nat) : Option (List Char) :=
  if start ≤ stop then (after? cs start).bind (before? · (stop - start)) else none

/-- Whether a byte offset falls between characters, or at an end of the text. -/
def isBoundary (cs : List Char) (offset : Nat) : Bool := (after? cs offset).isSome

@[simp] theorem size_nil : size [] = 0 := rfl

@[simp] theorem size_cons (c : Char) (cs : List Char) :
    size (c :: cs) = c.utf8Size + size cs := rfl

@[simp] theorem size_append (a b : List Char) : size (a ++ b) = size a + size b := by
  induction a with
  | nil => simp
  | cons c cs ih => simp [ih, Nat.add_assoc]

theorem size_pos {cs : List Char} (h : cs ≠ []) : 0 < size cs := by
  obtain ⟨c, cs, rfl⟩ := List.exists_cons_of_ne_nil h
  exact Nat.lt_of_lt_of_le c.utf8Size_pos (Nat.le_add_right _ _)

/-- No character is smaller than a byte. -/
theorem length_le_size (cs : List Char) : cs.length ≤ size cs := by
  induction cs with
  | nil => exact Nat.le_refl _
  | cons c cs ih =>
    have hpos := c.utf8Size_pos
    rw [List.length_cons, size_cons]
    omega

/-! ### Texts put together

Where a text is written as one part behind another, the parts are found at their sizes. -/

/-- The bytes of a text that begins with a character, with one of them split off. -/
theorem exists_size_cons (c : Char) (cs : List Char) :
    ∃ n, size (c :: cs) = n + 1 ∧ c.utf8Size ≤ n + 1 ∧ n + 1 - c.utf8Size = size cs := by
  obtain ⟨n, hn⟩ := Nat.exists_eq_add_of_lt c.utf8Size_pos
  exact ⟨n + size cs, by rw [size_cons]; omega, by omega, by omega⟩

theorem after?_append (a b : List Char) : after? (a ++ b) (size a) = some b := by
  induction a with
  | nil => cases b <;> rfl
  | cons c cs ih =>
    obtain ⟨n, hn, hle, hrest⟩ := exists_size_cons c cs
    rw [List.cons_append, hn, after?, if_pos hle, hrest, ih]

theorem before?_append (a b : List Char) : before? (a ++ b) (size a) = some a := by
  induction a with
  | nil => cases b <;> rfl
  | cons c cs ih =>
    obtain ⟨n, hn, hle, hrest⟩ := exists_size_cons c cs
    rw [List.cons_append, hn, before?, if_pos hle, hrest, ih, Option.map_some]

theorem slice?_append (a w b : List Char) :
    slice? (a ++ w ++ b) (size a) (size a + size w) = some w := by
  rw [slice?, if_pos (Nat.le_add_right _ _), List.append_assoc, after?_append, Option.bind_some,
    Nat.add_sub_cancel_left, before?_append]

/-- The offset behind the first characters of a text is between characters. -/
theorem isBoundary_append (a b : List Char) : isBoundary (a ++ b) (size a) = true := by
  rw [isBoundary, after?_append, Option.isSome_some]

end Cypher.Text
