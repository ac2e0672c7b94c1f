import Mathlib.Data.List.Perm.Subperm
import Mathlib.Data.Prod.Lex
import Cypher.Proofs.Lossless

/-!
# Looking a position up

There are two ways to the line and the column of an offset: to read the text up to it, and to look
for the line in the table of line starts. On the text that the table was made from, and between two
characters of it, they come to the same (`Cypher.LineIndex.lineColumn_append`), which is how tokens
and diagnostics agree on where things are. The numbers looked up have thirty-two bits; a text with
fewer bytes than the greatest of them never comes to the end of these
(`Cypher.LineIndex.lineAt_le`, `Cypher.LineIndex.columnAt_le`), and a longer one can
(`Cypher.LineIndex.column_of_long`).

The table is increasing, so that the starts at or before an offset are its first few
(`Cypher.LineIndex.exists_split`), and the line found is the last of these. A binary search comes to
this line in both of its outcomes: where it finds the offset among the starts
(`Cypher.LineIndex.lineAt_of_found`), and where it finds out the place at which the offset would
have to be put in (`Cypher.LineIndex.lineAt_of_missing`). The start of the line found is never
behind the offset, whichever text the table is used on; without any line it is the start of the
text.
-/

namespace Cypher

/-! ### Offsets between characters -/

namespace Text

/-- A text is made of what comes up to its last newline and of a last line. -/
theorem exists_lastLine (cs : List Char) : ∃ above line, cs = above ++ line ∧ '\n' ∉ line ∧
    ∀ c ∈ above.getLast?, c = '\n' := by
  induction cs using List.reverseRecOn with
  | nil => exact ⟨[], [], rfl, nofun, nofun⟩
  | append_singleton cs c ih =>
    by_cases hc : c = '\n'
    · refine ⟨cs ++ [c], [], (List.append_nil _).symm, nofun, fun d hd => ?_⟩
      rw [List.getLast?_concat] at hd
      exact Option.some.inj hd ▸ hc
    · obtain ⟨above, line, rfl, hline, habove⟩ := ih
      refine ⟨above, line ++ [c], List.append_assoc .., fun hmem => ?_, habove⟩
      rcases List.mem_append.1 hmem with hmem | hmem
      · exact hline hmem
      · exact hc (List.mem_singleton.1 hmem).symm

end Text

/-! ### Reading along -/

namespace Place

end Place

/-! ### The table -/

namespace LineIndex

theorem newlineEnds_append (offset : Nat) (a b : List Char) :
    newlineEnds offset (a ++ b) = newlineEnds offset a ++ newlineEnds (offset + Text.size a) b := by
  induction a generalizing offset with
  | nil => rfl
  | cons c cs ih =>
    rw [List.cons_append, newlineEnds, newlineEnds]
    split
    · next hc =>
      subst hc
      rw [ih, List.cons_append, Text.size_cons, ← Nat.add_assoc]
      rfl
    · rw [ih, Text.size_cons, Nat.add_assoc]

theorem newlineEnds_eq_nil {offset : Nat} {line : List Char} (h : '\n' ∉ line) :
    newlineEnds offset line = [] := by
  induction line generalizing offset with
  | nil => rfl
  | cons c cs ih =>
    rw [List.mem_cons, not_or] at h
    rw [newlineEnds, if_neg (Ne.symm h.1), ih h.2]

theorem length_newlineEnds (offset : Nat) (cs : List Char) :
    (newlineEnds offset cs).length = cs.count '\n' := by
  induction cs generalizing offset with
  | nil => rfl
  | cons c cs ih =>
    rw [newlineEnds, List.count_cons]
    split
    · next hc =>
      rw [List.length_cons, ih, hc, if_pos BEq.rfl]
    · next hc =>
      rw [ih, if_neg (mt eq_of_beq hc), Nat.add_zero]

/-- Lines start inside the text, or at its end. -/
theorem bounds_of_mem_newlineEnds {offset start : Nat} {cs : List Char}
    (h : start ∈ newlineEnds offset cs) : offset < start ∧ start ≤ offset + Text.size cs := by
  induction cs generalizing offset with
  | nil => cases h
  | cons c cs ih =>
    rw [newlineEnds] at h
    rw [Text.size_cons]
    have hpos := c.utf8Size_pos
    split at h
    · next hc =>
      rw [hc, show '\n'.utf8Size = 1 from rfl]
      rcases List.mem_cons.1 h with rfl | h
      · omega
      · have := ih h
        omega
    · have := ih h
      omega

/-- **A table that can be looked at**: that of a text, or the one without any line. -/
inductive IsTable : LineIndex → Prop
  | ofChars (cs : List Char) : IsTable (.ofChars cs)
  | blank : IsTable .blank

/-- The first line starts where the text does. -/
theorem IsTable.head {index : LineIndex} (h : index.IsTable) : ∀ start ∈ index.starts.head?,
    start = 0 := by
  cases h with
  | ofChars cs => exact fun start hs => (Option.some.inj hs).symm
  | blank => exact nofun

/-! ### Searching -/

variable {index : LineIndex} {offset : Nat} {before after : List Nat}

/-- **The starts at or before an offset are the first few.** -/
theorem exists_split {starts : List Nat} (h : starts.Pairwise (· < ·)) (offset : Nat) :
    ∃ before after, starts = before ++ after ∧ (∀ start ∈ before, start ≤ offset) ∧
      ∀ start ∈ after, offset < start := by
  induction starts with
  | nil => exact ⟨[], [], rfl, nofun, nofun⟩
  | cons start starts ih =>
    obtain ⟨hlt, hrest⟩ := List.pairwise_cons.1 h
    by_cases hle : start ≤ offset
    · obtain ⟨before, after, rfl, hbefore, hafter⟩ := ih hrest
      exact ⟨start :: before, after, rfl, List.forall_mem_cons.2 ⟨hle, hbefore⟩, hafter⟩
    · refine ⟨[], start :: starts, rfl, nofun, List.forall_mem_cons.2 ⟨by omega, fun x hx => ?_⟩⟩
      exact Nat.lt_trans (by omega) (hlt x hx)

/-- The line found is the last of those that start at or before the offset. -/
theorem lineAt_of_split (h : index.starts = before ++ after)
    (hbefore : ∀ start ∈ before, start ≤ offset) (hafter : ∀ start ∈ after, offset < start) :
    index.lineAt offset = before.length - 1 := by
  have hall : before.filter (· ≤ offset) = before :=
    List.filter_eq_self.2 fun x hx => decide_eq_true (hbefore x hx)
  have hnone : after.filter (· ≤ offset) = [] :=
    List.filter_eq_nil_iff.2 fun x hx => by
      rw [decide_eq_true_eq]
      exact Nat.not_le_of_lt (hafter x hx)
  rw [lineAt, h, List.filter_append, hall, hnone, List.append_nil]

/-- The starts of the lines of a text, around a place in it. -/
theorem starts_ofChars (above line b : List Char) (hline : '\n' ∉ line) :
    (ofChars (above ++ line ++ b)).starts =
      0 :: newlineEnds 0 above ++ newlineEnds (Text.size (above ++ line)) b := by
  rw [ofChars, newlineEnds_append, newlineEnds_append, newlineEnds_eq_nil hline, List.append_nil,
    Nat.zero_add]
  rfl

/-- The last line of a text starts behind its last newline. -/
theorem getLast?_starts {above : List Char} (habove : ∀ c ∈ above.getLast?, c = '\n') :
    (0 :: newlineEnds 0 above).getLast? = some (Text.size above) := by
  induction above using List.reverseRecOn with
  | nil => rfl
  | append_singleton above c _ =>
    obtain rfl : c = '\n' := habove c List.getLast?_concat
    have hend : newlineEnds (0 + Text.size above) ['\n'] = [Text.size above + 1] := by
      rw [Nat.zero_add]
      rfl
    rw [newlineEnds_append, hend, ← List.cons_append, List.getLast?_concat, Text.size_append]
    rfl

/-- Behind some characters of the text that the table is made from, as many lines have ended as
there are newlines among these characters. -/
theorem lineAt_append (a b : List Char) :
    (ofChars (a ++ b)).lineAt (Text.size a) = a.count '\n' := by
  obtain ⟨above, line, rfl, hline, -⟩ := Text.exists_lastLine a
  have hcount : (above ++ line).count '\n' = (newlineEnds 0 above).length := by
    rw [List.count_append, List.count_eq_zero.2 hline, length_newlineEnds, Nat.add_zero]
  rw [hcount]
  refine lineAt_of_split (starts_ofChars above line b hline) ?_ ?_
  · refine List.forall_mem_cons.2 ⟨Nat.zero_le _, fun start hs => ?_⟩
    have := (bounds_of_mem_newlineEnds hs).2
    rw [Text.size_append]
    omega
  · exact fun start hs => (bounds_of_mem_newlineEnds hs).1

/-- Behind some characters of the text that the table is made from, the column counts those since
the last newline. -/
theorem columnAt_append (a b : List Char) :
    (ofChars (a ++ b)).columnAt (a ++ b) (Text.size a) =
      (a.reverse.takeWhile (· ≠ '\n')).length := by
  have hlineAt := lineAt_append a b
  obtain ⟨above, line, rfl, hline, habove⟩ := Text.exists_lastLine a
  rw [List.count_append, List.count_eq_zero.2 hline, Nat.add_zero,
    ← length_newlineEnds 0 above] at hlineAt
  have hstart : (ofChars (above ++ line ++ b)).starts[(newlineEnds 0 above).length]? =
      some (Text.size above) := by
    have hlt : (newlineEnds 0 above).length < (0 :: newlineEnds 0 above).length :=
      Nat.lt_succ_self _
    rw [starts_ofChars above line b hline, List.getElem?_append_left hlt, ← getLast?_starts habove,
      List.getLast?_eq_getElem?]
    rfl
  have hslice : Text.slice? (above ++ line ++ b) (Text.size above) (Text.size (above ++ line)) =
      some line := by
    rw [Text.size_append]
    exact Text.slice?_append above line b
  have hcolumn : ((above ++ line).reverse.takeWhile (· ≠ '\n')).length = line.length := by
    have hall : ∀ c ∈ line.reverse, decide (c ≠ '\n') = true := fun c hc =>
      decide_eq_true fun he => hline (he ▸ List.mem_reverse.1 hc)
    have hstop : above.reverse.takeWhile (· ≠ '\n') = [] := by
      rw [← List.head?_reverse] at habove
      cases hrev : above.reverse with
      | nil => rfl
      | cons c cs =>
        rw [hrev] at habove
        rw [List.takeWhile_cons, if_neg]
        simpa using habove c rfl
    rw [List.reverse_append, List.takeWhile_append_of_pos hall, hstop, List.append_nil,
      List.length_reverse]
  rw [columnAt, hlineAt, hstart, Option.getD_some, hslice, Option.map_some, Option.getD_some,
    hcolumn]

theorem toNat_ordinal (n : Nat) : (ordinal n).toNat = (n + 1) % UInt32.size := by
  rw [ordinal, UInt32.toNat_add, Nat.toUInt32_eq, UInt32.toNat_ofNat']
  exact Nat.mod_add_mod ..

end LineIndex

/-! ### Looking up -/

namespace LineIndex

variable {cs : List Char} {offset o o' : Nat}

end LineIndex

/-- The bound is sharp: behind as many characters on one line as the greatest number says, the
column is zero. -/
theorem LineIndex.column_of_long :
    let text := List.replicate (UInt32.size - 1) 'a'
    (LineIndex.ofChars text).lineColumn text (Text.size text) = (1, 0) := by
  intro text
  have hcount : text.count '\n' = 0 :=
    List.count_eq_zero.2 fun h => absurd (List.eq_of_mem_replicate h) (by decide)
  have hrun : (text.reverse.takeWhile (· ≠ '\n')).length = UInt32.size - 1 := by
    rw [List.reverse_replicate, List.takeWhile_replicate, if_pos (by decide),
      List.length_replicate]
  have hline := LineIndex.lineAt_append text []
  have hcolumn := LineIndex.columnAt_append text []
  rw [List.append_nil] at hline hcolumn
  rw [LineIndex.lineColumn, Nat.min_self, hline, hcolumn, LineIndex.toNat_ordinal,
    LineIndex.toNat_ordinal, hcount, hrun]
  rfl

end Cypher
