import Mathlib.Algebra.Ring.Parity
import Cypher.Proofs.Quoted.Place

/-!
# Quoted names

A quote inside a quoted name is written twice, so where a name ends is a question of the number of
quotes in a row: quotes go together in pairs from the left, and a run of them that is odd has one
left over, which closes the name. The name is not closed if all runs are even
(`Cypher.Text.EvenRuns`), and then it takes the rest of the text.

Reading looks at two characters at a time and knows nothing of runs. It is tied to them by two
steps: a character that is no quote starts no run, and two quotes at the front make a run longer by
two (`Cypher.Text.evenRuns_cons_of_ne`, `Cypher.Text.evenRuns_cons_cons`). A name that is written
with its quotes doubled is read back whatever stands behind it, as long as that is not one more
quote (`Cypher.QuotedName.read_doubled`).
-/

namespace Cypher

/-! ### Runs of one character -/

namespace Text

/-- **Every run of a character is even**, where a run is as long as it can be: the character stands
neither before nor behind it. -/
def EvenRuns (c : Char) (cs : List Char) : Prop :=
  ∀ before n behind, cs = before ++ List.replicate n c ++ behind → before.getLast? ≠ some c →
    behind.head? ≠ some c → Even n

variable {c d : Char} {cs : List Char}

theorem evenRuns_nil : EvenRuns c [] := by
  intro before n behind h _ _
  obtain ⟨hbefore, -⟩ := List.append_eq_nil_iff.1 h.symm
  obtain rfl := (List.replicate_eq_nil_iff c).1 (List.append_eq_nil_iff.1 hbefore).2
  exact Even.zero

/-- Another character starts no run. -/
theorem evenRuns_cons_of_ne (hd : d ≠ c) : EvenRuns c (d :: cs) ↔ EvenRuns c cs := by
  constructor
  · intro h before n behind hcs hbefore hbehind
    refine h (d :: before) n behind (congrArg (d :: ·) hcs) ?_ hbehind
    rcases before with - | ⟨b, before⟩
    · exact fun heq => hd (Option.some.inj heq)
    · rwa [List.getLast?_cons_cons]
  · intro h before n behind hcs hbefore hbehind
    rcases before with - | ⟨b, before⟩
    · -- a run at the front would start with the other character
      rcases n with - | n
      · exact Even.zero
      · exact absurd (List.cons.inj hcs).1 hd
    · refine h before n behind (List.cons.inj hcs).2 ?_ hbehind
      rcases before with - | ⟨b, before⟩
      · exact Option.some_ne_none c |>.symm
      · rwa [List.getLast?_cons_cons] at hbefore

/-- Two of the character at the front make a run longer by two. -/
theorem evenRuns_cons_cons : EvenRuns c (c :: c :: cs) ↔ EvenRuns c cs := by
  constructor
  · intro h before n behind hcs hbefore hbehind
    rcases before with - | ⟨b, before⟩
    · have heven := h [] (n + 2) behind (congrArg (c :: c :: ·) hcs) hbefore hbehind
      exact (Nat.even_add.1 heven).2 even_two
    · refine h (c :: c :: b :: before) n behind (congrArg (c :: c :: ·) hcs) ?_ hbehind
      rwa [List.getLast?_cons_cons, List.getLast?_cons_cons]
  · intro h before n behind hcs hbefore hbehind
    rcases before with - | ⟨b, before⟩
    · rcases n with - | - | n
      · exact Even.zero
      · -- one of the two alone is no run
        exact absurd (congrArg List.head? (List.cons.inj hcs).2).symm hbehind
      · have heven := h [] n behind (List.cons.inj (List.cons.inj hcs).2).2 hbefore hbehind
        exact heven.add even_two
    · obtain ⟨hb, hcs⟩ := List.cons.inj hcs
      rcases before with - | ⟨b', before⟩
      · exact absurd (congrArg some hb.symm) hbefore
      · obtain ⟨hb', hcs⟩ := List.cons.inj hcs
        refine h before n behind hcs ?_ hbehind
        rcases before with - | ⟨b'', before⟩
        · exact absurd (congrArg some hb'.symm) hbefore
        · rwa [List.getLast?_cons_cons, List.getLast?_cons_cons] at hbefore

/-- One of the character alone at the front is a run that is odd. -/
theorem not_evenRuns_cons (hcs : cs.head? ≠ some c) : ¬ EvenRuns c (c :: cs) := by
  intro h
  have heven := h [] 1 cs rfl (Option.some_ne_none c).symm hcs
  exact absurd heven (by decide)

end Text

/-! ### Reading a quoted name -/

namespace QuotedName

/-- A name as it is written between quotes: every quote twice. -/
def doubled (name : List Char) : List Char :=
  name.flatMap fun c => if c = quote then [quote, quote] else [c]

theorem read_of_ne {c : Char} (hc : c ≠ quote) (cs : List Char) :
    read (c :: cs) = (c :: (read cs).1, (read cs).2.1 + 1, (read cs).2.2) := by
  rcases cs with - | ⟨d, cs⟩
  · rw [read, read, if_neg hc]
  · rw [read, if_neg hc]

theorem read_pair (cs : List Char) :
    read (quote :: quote :: cs) = (quote :: (read cs).1, (read cs).2.1 + 2, (read cs).2.2) := by
  rw [read, if_pos rfl, if_pos rfl]

theorem read_close {cs : List Char} (hcs : cs.head? ≠ some quote) :
    read (quote :: cs) = ([], 1, true) := by
  rcases cs with - | ⟨d, cs⟩
  · rfl
  · rw [read, if_pos rfl, if_neg fun hd => hcs (congrArg some hd)]

/-- **The ways in which a text goes on** inside a quoted name. -/
theorem read_induct {motive : List Char → Prop} (nil : motive [])
    (close : ∀ cs, cs.head? ≠ some quote → motive (quote :: cs))
    (pair : ∀ cs, motive cs → motive (quote :: quote :: cs))
    (plain : ∀ c cs, c ≠ quote → motive cs → motive (c :: cs)) (cs : List Char) : motive cs := by
  induction hn : cs.length using Nat.strongRecOn generalizing cs with
  | ind n ih =>
    rcases cs with - | ⟨c, cs⟩
    · exact nil
    by_cases hc : c = quote
    · subst hc
      by_cases hcs : cs.head? = some quote
      · obtain ⟨cs, rfl⟩ := List.head?_eq_some_iff.1 hcs
        refine pair cs (ih cs.length ?_ cs rfl)
        simp only [← hn, List.length_cons]
        omega
      · exact close cs hcs
    · exact plain c cs hc (ih cs.length (hn ▸ Nat.lt_succ_self _) cs rfl)

/-- **A name is not closed if and only if all runs of quotes are even**, and then it takes the whole
text. -/
theorem open_iff (cs : List Char) : (read cs).2.2 = false ↔ Text.EvenRuns quote cs := by
  induction cs using read_induct with
  | nil => exact iff_of_true rfl Text.evenRuns_nil
  | close cs hcs =>
    rw [read_close hcs]
    exact iff_of_false (by decide) (Text.not_evenRuns_cons hcs)
  | pair cs ih => rw [read_pair, Text.evenRuns_cons_cons, ih]
  | plain c cs hc ih => rw [read_of_ne hc, Text.evenRuns_cons_of_ne hc, ih]

theorem length_of_open {cs : List Char} (h : (read cs).2.2 = false) :
    (read cs).2.1 = cs.length := by
  induction cs using read_induct with
  | nil => rfl
  | close cs hcs =>
    rw [read_close hcs] at h
    exact absurd h (by decide)
  | pair cs ih =>
    rw [read_pair] at h ⊢
    exact congrArg (· + 2) (ih h)
  | plain c cs hc ih =>
    rw [read_of_ne hc] at h ⊢
    exact congrArg (· + 1) (ih h)

/-- **A name whose quotes are doubled is read back.** -/
theorem read_doubled (name : List Char) {behind : List Char} (h : behind.head? ≠ some quote) :
    read (doubled name ++ quote :: behind) = (name, (doubled name).length + 1, true) := by
  induction name with
  | nil => exact read_close h
  | cons c name ih =>
    rw [doubled, List.flatMap_cons, List.append_assoc]
    change read (_ ++ (doubled name ++ _)) = _
    split
    · next hc =>
      change read (quote :: quote :: (doubled name ++ quote :: behind)) =
        (c :: name, (doubled name).length + 2 + 1, true)
      rw [read_pair, ih, hc]
    · next hc =>
      change read (c :: (doubled name ++ quote :: behind)) =
        (c :: name, (doubled name).length + 1 + 1, true)
      rw [read_of_ne hc, ih]

end QuotedName

open QuotedName (quote doubled)

/-! ### Quoted names in a text -/

/-- A name with its quotes doubled, between quotes, is cut off as a piece of its own. -/
theorem Piece.split_doubled (name : List Char) {behind : List Char}
    (h : behind.head? ≠ some quote) :
    split (quote :: doubled name ++ [quote] ++ behind) =
      ⟨.quotedName name true, quote :: doubled name ++ [quote]⟩ :: split behind := by
  have htext : doubled name ++ [quote] ++ behind = doubled name ++ quote :: behind := by
    rw [List.append_assoc]
    rfl
  have hlength : (doubled name).length + 1 = (doubled name ++ [quote]).length := by
    rw [List.length_append, List.length_singleton]
  change split (quote :: (doubled name ++ [quote] ++ behind)) = _
  rw [split_cons, first, front_quote, htext, QuotedName.read_doubled name h, ← htext]
  dsimp only
  rw [hlength, List.take_left, List.drop_left]
  rfl

/-- The problem of a quoted name is that it is not closed. -/
theorem Piece.problems_quotedName (p : Place) (rest : List Char) :
    (first quote rest).problems p = if (QuotedName.read rest).2.2 then [] else
      [problem (p.span (first quote rest).written) .unterminatedQuotedIdentifier
        "unterminated quoted identifier"] := by
  unfold first
  rw [front_quote]
  cases (QuotedName.read rest).2.2 with
  | true => rfl
  | false => rfl

/-- A quoted name begins with a quote, and is reported if and only if all runs of quotes behind that
quote are even. -/
theorem Token.reported_iff_evenRuns {source : String} {dialect : Dialect} {t : Token}
    {name : String} (ht : t ∈ (tokenize source dialect).tokens)
    (hkind : t.kind = .quotedIdentifier name) :
    ∃ before behind, source.toList = before ++ quote :: behind ∧
      t.span.start = Text.size before ∧
      ((∃ d ∈ (tokenize source dialect).problems,
          d.code = some .unterminatedQuotedIdentifier ∧ d.span = t.span) ↔
        Text.EvenRuns quote behind) ∧
      (Text.EvenRuns quote behind → t.span.stop = Text.size source.toList) := by
  obtain ⟨before, c, rest, hsource, htoken, hproblems⟩ :=
    exists_first_of_mem_tokenize ht (by rw [hkind]; exact TokenKind.noConfusion)
  obtain ⟨kind, hpiece, rfl⟩ := Option.map_eq_some_iff.1 htoken
  obtain rfl : kind = .quotedIdentifier name := hkind
  obtain ⟨cs, closed, hshape, -⟩ := Piece.shape_of_quotedIdentifier hpiece
  -- of the quotes that may stand at the front it is that of names
  obtain rfl : c = quote := by
    refine (Piece.quote_of_isQuoted (congrArg Shape.isQuoted hshape)).resolve_right fun hc => ?_
    rw [Piece.first, Piece.front_stringQuote hc] at hshape
    cases hshape
  let span := (Place.origin.past before).span (Piece.first quote rest).written
  have hmem (d : Diagnostic) :
      (d ∈ (tokenize source dialect).problems ∧ span.contains d.span = true) ↔
        d ∈ if (QuotedName.read rest).2.2 then [] else
          [Piece.problem span .unterminatedQuotedIdentifier "unterminated quoted identifier"] := by
    rw [← Piece.problems_quotedName, ← hproblems, List.mem_filter]
  have hreported : (∃ d ∈ (tokenize source dialect).problems,
      d.code = some .unterminatedQuotedIdentifier ∧ d.span = span) ↔
      (QuotedName.read rest).2.2 = false := by
    constructor
    · rintro ⟨d, hd, -, hspan⟩
      have hfound := (hmem d).1 ⟨hd, hspan ▸ Span.contains_self span⟩
      by_contra hclosed
      rw [Bool.not_eq_false] at hclosed
      rw [hclosed] at hfound
      cases hfound
    · intro hopen
      rw [hopen] at hmem
      exact ⟨_, ((hmem _).2 List.mem_cons_self).1, rfl, rfl⟩
  have hoffset : (Place.origin.past before).offset = Text.size before := by
    rw [Place.offset_past, Place.origin, Nat.zero_add]
  refine ⟨before, rest, hsource, hoffset, hreported.trans (QuotedName.open_iff rest), ?_⟩
  intro heven
  have hlength := QuotedName.length_of_open ((QuotedName.open_iff rest).2 heven)
  have hwritten : (Piece.first quote rest).written = quote :: rest := by
    rw [Piece.first, Piece.front_quote, hlength, List.take_length]
  rw [hsource, Text.size_append, ← hwritten, ← hoffset]
  rfl

/-- **Quoted names are read back, and end where they are closed.** A name between quotes, with the
quotes inside doubled, is one token whatever stands behind it, as long as that does not begin with
one more quote; the rest is read as if nothing had been before, and no problem touches the name. And
a quoted name of any text is reported as not closed, and goes on to the end, if and only if all runs
of quotes behind its first are even. -/
theorem quotedNames_read_back (dialect : Dialect) :
    (∀ name behind : List Char, behind.head? ≠ some quote →
      let literal := quote :: doubled name ++ [quote]
      let lexed := tokenize (String.ofList (literal ++ behind)) dialect
      lexed.tokens = ⟨.quotedIdentifier (String.ofList name), String.ofList literal,
          ⟨0, Text.size literal⟩, 1, 1⟩ ::
        Piece.tokens dialect.rules.reserves (Place.origin.past literal) (Piece.split behind) ∧
      lexed.problems = Piece.allProblems (Place.origin.past literal) (Piece.split behind) ∧
      ∀ d ∈ lexed.problems, Text.size literal ≤ d.span.start) ∧
    ∀ source, ∀ t ∈ (tokenize source dialect).tokens, ∀ name, t.kind = .quotedIdentifier name →
      ∃ before behind, source.toList = before ++ quote :: behind ∧
        t.span.start = Text.size before ∧
        ((∃ d ∈ (tokenize source dialect).problems,
            d.code = some .unterminatedQuotedIdentifier ∧ d.span = t.span) ↔
          Text.EvenRuns quote behind) ∧
        (Text.EvenRuns quote behind → t.span.stop = Text.size source.toList) := by
  refine ⟨fun name behind hbehind => ?_, fun source t ht name hkind =>
    Token.reported_iff_evenRuns ht hkind⟩
  intro literal lexed
  have hsplit : Piece.split (String.ofList (literal ++ behind)).toList =
      ⟨.quotedName name true, literal⟩ :: Piece.split behind := by
    rw [String.toList_ofList]
    exact Piece.split_doubled name hbehind
  have hproblems : lexed.problems =
      Piece.allProblems (Place.origin.past literal) (Piece.split behind) := by
    change Piece.allProblems _ (Piece.split _) = _
    rw [hsplit]
    rfl
  refine ⟨?_, hproblems, fun d hd => ?_⟩
  · change Piece.tokens _ _ (Piece.split _) = _
    rw [hsplit, Piece.tokens, Piece.token?, Place.span, Place.origin, Nat.zero_add]
    rfl
  · rw [hproblems] at hd
    have hlower := (Piece.amid_of_mem_allProblems hd).lower
    rwa [Place.offset_past, Place.origin, Nat.zero_add] at hlower

/-- A name of quotes and a letter before a name that is not closed is a case in point. -/
theorem quotedNames_read_back_unclosed :
    let literal := quote :: doubled [quote, 'a', quote, quote] ++ [quote]
    let behind := ['.', quote, 'b', quote, quote]
    let source := String.ofList (literal ++ behind)
    let t : Token := ⟨.quotedIdentifier "b\x60", "\x60b\x60\x60", ⟨10, 14⟩, 1, 11⟩
    behind.head? ≠ some quote ∧ t ∈ (tokenize source .openCypher).tokens ∧
      (∀ d ∈ (tokenize source .openCypher).problems, 9 ≤ d.span.start) ∧
      ∃ before after, source.toList = before ++ quote :: after ∧
        ((∃ d ∈ (tokenize source .openCypher).problems,
            d.code = some .unterminatedQuotedIdentifier ∧ d.span = t.span) ↔
          Text.EvenRuns quote after) := by
  intro literal behind source t
  have hbehind : behind.head? ≠ some quote := by decide
  have ht : t ∈ (tokenize source .openCypher).tokens := by decide +kernel
  obtain ⟨hnames, hends⟩ := quotedNames_read_back .openCypher
  obtain ⟨before, after, hsource, -, hreported, -⟩ := hends source t ht _ rfl
  exact ⟨hbehind, ht, (hnames _ behind hbehind).2.2, before, after, hsource, hreported⟩

end Cypher
