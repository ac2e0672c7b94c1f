import Cypher.Proofs.Layout.Source

/-!
# Where lexical problems point

A diagnostic is well placed (`Cypher.Diagnostic.Placed`) if it has labels and the span of each of
them is in order and ends at fit offsets; for a text these are the offsets between its characters.

Most lexical problems are about a piece as a whole. Two are not: a comment without an end is marked
at the two characters that open it, and a backslash form that means nothing is marked where it
stands in its string. Both are inside their piece, because of what the piece starts with
(`Cypher.Piece.Apt`): the characters that open the comment are there, and what the fragments of a
string are written with stands right behind the quote.
-/

namespace Cypher

/-! ### Spans between fit offsets -/

/-- **A span in order between fit offsets.** -/
structure Span.Fits (fit : Nat → Prop) (span : Span) : Prop where
  /-- The span does not end before it starts. -/
  ordered : span.start ≤ span.stop
  /-- It starts at a fit offset. -/
  start : fit span.start
  /-- It ends at a fit offset. -/
  stop : fit span.stop

/-- **A diagnostic that is well placed**: it has labels, and their spans fit. -/
structure Diagnostic.Placed (fit : Nat → Prop) (d : Diagnostic) : Prop where
  /-- There is a label. -/
  labelled : d.labels ≠ []
  /-- Every label marks a span that fits. -/
  fits : ∀ l ∈ d.labels, l.span.Fits fit

variable {fit : Nat → Prop}

theorem Diagnostic.placed_of_label {d : Diagnostic} {l : Label} (hd : d.labels = [l])
    (h : l.span.Fits fit) : d.Placed fit := by
  refine ⟨by simp [hd], fun l' hl => ?_⟩
  rw [hd, List.mem_singleton] at hl
  exact hl ▸ h

theorem Diagnostic.placed_of_labels {d : Diagnostic} {l l' : Label} (hd : d.labels = [l, l'])
    (h : l.span.Fits fit) (h' : l'.span.Fits fit) : d.Placed fit := by
  refine ⟨by simp [hd], fun x hx => ?_⟩
  rw [hd] at hx
  rcases List.mem_cons.1 hx with rfl | hx
  · exact h
  · exact List.mem_singleton.1 hx ▸ h'

/-- A word in a text takes up a span that fits. -/
theorem Text.fits_word (before word behind : List Char) :
    Span.Fits (IsOffset (before ++ word ++ behind)) ⟨size before, size before + size word⟩ := by
  refine ⟨Nat.le_add_right _ _, ?_, ?_⟩
  · rw [List.append_assoc]
    exact isOffset_append before _
  · rw [← size_append]
    exact isOffset_append _ behind

/-! ### Fragments of strings -/

namespace Fragment

/-- The fragment that a backslash opens takes from the text what it is written with. -/
theorem written_ofLetter (letter : Char) (rest : List Char) :
    (ofLetter letter rest).written ++ rest.drop (ofLetter letter rest).extra =
      '\\' :: letter :: rest := by
  unfold ofLetter
  split
  · rfl
  · split
    · rfl
    · next count _ =>
      dsimp only
      split
      · next hdigits =>
        split
        · simp only [written, extra, hdigits.1, List.cons_append, List.take_append_drop]
        · rfl
      · rfl

/-- **The fragments of a string are written at its front.** -/
theorem exists_read_append (quote : Char) (cs : List Char) :
    ∃ rest, cs = writtenAll (read quote cs).1 ++ rest := by
  fun_induction read quote cs with
  | case1 => exact ⟨[], rfl⟩
  | case2 rest => exact ⟨quote :: rest, rfl⟩
  | case3 => exact ⟨[], rfl⟩
  | case4 letter after fragment fragments closed hread hquote ih =>
    obtain ⟨rest, hrest⟩ := ih
    rw [hread] at hrest
    refine ⟨rest, ?_⟩
    rw [← written_ofLetter letter after, hrest, ← List.append_assoc]
    rfl
  | case5 c rest hquote hbackslash fragments closed hread ih =>
    obtain ⟨tail, htail⟩ := ih
    rw [hread] at htail
    exact ⟨tail, congrArg (c :: ·) htail⟩

/-- Forms that mean nothing are marked where they stand. -/
theorem fits_of_mem_unknowns (fragments : List Fragment) (before behind : List Char)
    {offset : Nat} {cs : List Char} (h : (offset, cs) ∈ unknowns (Text.size before) fragments) :
    Span.Fits (Text.IsOffset (before ++ writtenAll fragments ++ behind))
      ⟨offset, offset + Text.size cs⟩ := by
  induction fragments generalizing before with
  | nil => cases h
  | cons fragment fragments ih =>
    have hrest (h : (offset, cs) ∈
        unknowns (Text.size before + Text.size fragment.written) fragments) :
        Span.Fits (Text.IsOffset (before ++ writtenAll (fragment :: fragments) ++ behind))
          ⟨offset, offset + Text.size cs⟩ := by
      rw [← Text.size_append] at h
      have hfits := ih (before ++ fragment.written) h
      rwa [List.append_assoc before] at hfits
    cases fragment with
    | unknown letter =>
      rcases List.mem_cons.1 h with h | h
      · obtain ⟨rfl, rfl⟩ := Prod.mk.inj h
        have hfits := Text.fits_word before ['\\', letter] (writtenAll fragments ++ behind)
        rwa [List.append_assoc, ← List.append_assoc _ _ behind, ← List.append_assoc before] at hfits
      · exact hrest h
    | plain c => exact hrest h
    | escape letter digits meaning => exact hrest h
    | backslash => exact hrest h

end Fragment

/-! ### Pieces -/

namespace Piece

/-- **A piece that starts as its shape says**, as far as its problems point into it. -/
def Apt (x : Piece) : Prop :=
  match x.shape with
  | .comment _ => ∃ rest, x.written = ['/', '*'] ++ rest
  | .string quote fragments _ =>
    quote.utf8Size = 1 ∧ ∃ rest, x.written = [quote] ++ Fragment.writtenAll fragments ++ rest
  | _ => True

theorem apt_parameter (cs word : List Char) : Apt ⟨(parameter cs).1, word⟩ := by
  unfold parameter
  repeat' split
  all_goals exact trivial

theorem apt_sign (c : Char) (cs word : List Char) : Apt ⟨(sign c cs).1, word⟩ := by
  unfold sign
  repeat' split
  all_goals exact trivial

/-- What is cut off the front of a text starts as its shape says. -/
theorem apt_front (c : Char) (cs : List Char) :
    Apt ⟨(front c cs).1, c :: cs.take (front c cs).2⟩ := by
  unfold front
  split
  · exact trivial
  split
  · exact trivial
  split
  · next hmarks =>
    obtain ⟨rest, rfl⟩ : ∃ rest, cs = '*' :: rest := List.head?_eq_some_iff.1 hmarks.2
    exact ⟨rest.take (commentLength rest).1, by rw [hmarks.1]; rfl⟩
  split
  · exact trivial
  split
  · exact trivial
  split
  · next hquote =>
    obtain ⟨rest, hrest⟩ := Fragment.exists_read_append c cs
    cases hread : Fragment.read c cs with
    | mk fragments closed =>
      rw [hread] at hrest
      refine ⟨by rcases hquote with rfl | rfl <;> rfl, rest.take (if closed then 1 else 0), ?_⟩
      -- the characters taken are those of the fragments, and the closing quote if it is there
      dsimp only
      rw [hrest, List.take_length_add_append]
      rfl
  split
  · exact trivial
  split
  · exact apt_parameter ..
  · exact apt_sign ..

/-- The pieces of a text start as their shapes say. -/
theorem apt_of_mem_split {cs : List Char} {x : Piece} (h : x ∈ split cs) : x.Apt := by
  fun_induction split cs with
  | case1 => cases h
  | case2 c rest shape count hfront ih =>
    rcases List.mem_cons.1 h with rfl | h
    · have hapt := apt_front c rest
      rwa [hfront] at hapt
    · exact ih h

/-- **The problems of a piece are well placed** in a text in which the piece stands. -/
theorem placed_of_mem_problems {x : Piece} (hx : x.Apt) (before behind : List Char) {p : Place}
    (hp : p.offset = Text.size before) {d : Diagnostic} (hd : d ∈ x.problems p) :
    d.Placed (Text.IsOffset (before ++ x.written ++ behind)) := by
  have hwhole : Span.Fits (Text.IsOffset (before ++ x.written ++ behind)) (p.span x.written) := by
    rw [Place.span, hp]
    exact Text.fits_word before x.written behind
  obtain ⟨shape, written⟩ := x
  cases shape with
  | blank | word | parameter | sign => cases hd
  | comment closed =>
    cases closed with
    | true => cases hd
    | false =>
      obtain ⟨rest, rfl⟩ := hx
      rw [List.mem_singleton.1 hd]
      have hopening := Text.fits_word before ['/', '*'] (rest ++ behind)
      rw [← List.append_assoc, List.append_assoc before] at hopening
      exact Diagnostic.placed_of_label rfl (hp ▸ hopening)
  | quotedName name closed =>
    cases closed with
    | true => cases hd
    | false =>
      rw [List.mem_singleton.1 hd]
      exact Diagnostic.placed_of_label rfl hwhole
  | string quote fragments closed =>
    obtain ⟨hquote, rest, rfl⟩ := hx
    rcases List.mem_append.1 hd with hd | hd
    · obtain ⟨⟨offset, cs⟩, hmem, rfl⟩ := List.mem_map.1 hd
      have hsize : p.offset + 1 = Text.size (before ++ [quote]) := by simp [hp, hquote]
      rw [hsize] at hmem
      have hform :=
        Fragment.fits_of_mem_unknowns fragments (before ++ [quote]) (rest ++ behind) hmem
      refine Diagnostic.placed_of_label rfl ?_
      simpa using hform
    · cases closed with
      | true => cases hd
      | false =>
        rw [List.mem_singleton.1 hd]
        exact Diagnostic.placed_of_label rfl hwhole
  | number form =>
    cases form with
    | integer | float => cases hd
    | malformed =>
      rw [List.mem_singleton.1 hd]
      exact Diagnostic.placed_of_label rfl hwhole
  | unknown =>
    rw [List.mem_singleton.1 hd]
    exact Diagnostic.placed_of_label rfl hwhole

/-- The problems of the pieces of a text are well placed, given what comes before the pieces. -/
theorem placed_of_mem_allProblems {xs : List Piece} (hxs : ∀ x ∈ xs, x.Apt) (before : List Char)
    {p : Place} (hp : p.offset = Text.size before) {d : Diagnostic} (hd : d ∈ allProblems p xs) :
    d.Placed (Text.IsOffset (before ++ xs.flatMap written)) := by
  induction xs generalizing before p with
  | nil => cases hd
  | cons x xs ih =>
    rw [List.flatMap_cons, ← List.append_assoc]
    rcases List.mem_append.1 hd with hd | hd
    · exact placed_of_mem_problems (hxs x List.mem_cons_self) before _ hp hd
    · have hsize : (p.past x.written).offset = Text.size (before ++ x.written) := by
        rw [p.offset_past, Text.size_append, hp]
      exact ih (fun y hy => hxs y (List.mem_cons_of_mem x hy)) _ hsize hd

end Piece

/-- **Lexical problems are well placed.** -/
theorem placed_of_mem_tokenize {source : String} {dialect : Dialect} {d : Diagnostic}
    (hd : d ∈ (tokenize source dialect).problems) : d.Placed (Text.IsOffset source.toList) := by
  have hplaced := Piece.placed_of_mem_allProblems (fun x hx => Piece.apt_of_mem_split hx) [] rfl hd
  rwa [List.nil_append, Piece.flatMap_written_split] at hplaced

end Cypher
