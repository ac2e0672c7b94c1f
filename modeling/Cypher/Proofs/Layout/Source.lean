import Cypher.Parse
import Cypher.Proofs.Layout.Document

/-!
# Spans in a text

The tokens of a text follow one another, and each begins and ends between two characters, since the
pieces of a text give the text back when they are put together. Leaving out tokens and closing the
list by an end token does not change that. So every document that is read from a text is laid out
well: `Cypher.laid_of_parse`.
-/

namespace Cypher

/-! ### Offsets between characters -/

namespace Text

/-- An offset that is between two characters of a text, or at an end of it. -/
def IsOffset (text : List Char) (offset : Nat) : Prop :=
  offset ≤ size text ∧ isBoundary text offset = true

theorem isOffset_append (a b : List Char) : IsOffset (a ++ b) (size a) :=
  ⟨by rw [size_append]; exact Nat.le_add_right _ _, isBoundary_append a b⟩

end Text

theorem Place.offset_past (p : Place) (cs : List Char) :
    (p.past cs).offset = p.offset + Text.size cs := by
  induction cs generalizing p with
  | nil => rfl
  | cons c cs ih =>
    rw [past_cons, ih, Text.size_cons, ← Nat.add_assoc]
    unfold step
    split <;> rfl

/-! ### Tokens of a text -/

/-- **Tokens that follow one another** from an offset on, with spans that end at fit offsets. -/
def Token.Follow (fit : Nat → Prop) (lo : Nat) (tokens : List Token) : Prop :=
  tokens.Pairwise (fun t u => t.span.stop ≤ u.span.start) ∧
    ∀ t ∈ tokens, lo ≤ t.span.start ∧ t.span.start ≤ t.span.stop ∧ fit t.span.start ∧
      fit t.span.stop

namespace Token.Follow

variable {fit : Nat → Prop} {lo : Nat} {t : Token} {ts : List Token}

theorem filter (h : Follow fit lo ts) (p : Token → Bool) : Follow fit lo (ts.filter p) :=
  ⟨h.1.filter p, fun t ht => h.2 t (List.mem_filter.1 ht).1⟩

theorem cons (h : Follow fit t.span.stop ts) (hlo : lo ≤ t.span.start)
    (hle : t.span.start ≤ t.span.stop) (hs : fit t.span.start) (ht : fit t.span.stop) :
    Follow fit lo (t :: ts) := by
  refine ⟨List.pairwise_cons.2 ⟨fun u hu => (h.2 u hu).1, h.1⟩, fun u hu => ?_⟩
  rcases List.mem_cons.1 hu with rfl | hu
  · exact ⟨hlo, hle, hs, ht⟩
  · obtain ⟨hfrom, hu⟩ := h.2 u hu
    exact ⟨Nat.le_trans hlo (Nat.le_trans hle hfrom), hu⟩

theorem tail (h : Follow fit lo (t :: ts)) : Follow fit t.span.stop ts := by
  obtain ⟨hfrom, hpair⟩ := List.pairwise_cons.1 h.1
  exact ⟨hpair, fun u hu => ⟨hfrom u hu, (h.2 u (List.mem_cons_of_mem _ hu)).2⟩⟩

/-- An end token may be put behind. -/
theorem closed (h : Follow fit lo (t :: ts)) : Follow fit lo (t :: Cursor.closed t ts) := by
  obtain ⟨hlo, hle, hs, ht⟩ := h.2 t List.mem_cons_self
  induction ts generalizing t lo with
  | nil =>
    unfold Cursor.closed
    split
    · exact h
    · refine cons (cons ⟨.nil, fun u hu => absurd hu List.not_mem_nil⟩ ?_ ?_ ht ht) hlo hle hs ht
      · exact Nat.le_refl _
      · exact Nat.le_refl _
  | cons u us ih =>
    obtain ⟨hlo', hle', hs', ht'⟩ := h.tail.2 u List.mem_cons_self
    exact cons (ih h.tail hlo' hle' hs' ht') hlo hle hs ht

/-- **The cursor over tokens that follow one another.** -/
theorem laid_ofTokens (h0 : fit 0) (h : Follow fit lo ts) : (Cursor.ofTokens ts).Laid fit := by
  have hclosed := Cursor.closed_ofTokens ts
  have hfilter := h.filter fun t => t.kind ≠ .invalid
  unfold Cursor.ofTokens at hclosed ⊢
  cases hts : ts.filter fun t => t.kind ≠ .invalid with
  | nil =>
    rw [hts] at hclosed
    refine ⟨hclosed, fun t ht => ?_, List.pairwise_singleton _ _, Nat.le_refl _, h0⟩
    rw [List.mem_singleton.1 ht]
    exact ⟨Nat.le_refl _, h0, h0⟩
  | cons t us =>
    rw [hts] at hclosed hfilter
    obtain ⟨hpair, hall⟩ := hfilter.closed
    exact ⟨hclosed, fun u hu => (hall u hu).2, hpair, Nat.le_refl _,
      (hall t List.mem_cons_self).2.2.1⟩

end Token.Follow

/-- The token of a piece is not that for the end of the text. -/
theorem Piece.kind_ne_of_mem_token? {reserved : Keyword → Bool} {p : Place} {x : Piece} {t : Token}
    (h : t ∈ x.token? reserved p) : t.kind ≠ .endOfInput := by
  obtain ⟨kind, hk, rfl⟩ := Option.map_eq_some_iff.1 h
  rintro rfl
  unfold kind? wordKind at hk
  split at hk <;> (try split at hk) <;> cases hk

/-- **The tokens of the pieces of a text follow one another**, given what comes before the
pieces. -/
theorem Piece.follow_tokens {fit : Nat → Prop} (reserved : Keyword → Bool) {text : List Char}
    (hfit : ∀ a b, text = a ++ b → fit (Text.size a)) (before : List Char) (xs : List Piece)
    (ht : text = before ++ xs.flatMap written) (p : Place) (hp : p.offset = Text.size before) :
    Token.Follow fit p.offset (tokens reserved p xs) := by
  induction xs generalizing before p with
  | nil =>
    have hend : fit p.offset := hp ▸ hfit before [] ht
    exact .cons ⟨.nil, fun t ht => absurd ht List.not_mem_nil⟩ (Nat.le_refl _) (Nat.le_refl _)
      hend hend
  | cons x xs ih =>
    rw [List.flatMap_cons] at ht
    have hstart : fit p.offset := hp ▸ hfit before _ ht
    rw [← List.append_assoc] at ht
    have hoffset := p.offset_past x.written
    have hsize : (p.past x.written).offset = Text.size (before ++ x.written) := by
      rw [hoffset, Text.size_append, hp]
    have hstop : fit (p.offset + Text.size x.written) := by
      rw [← hoffset, hsize]
      exact hfit _ _ ht
    have hrest := ih (before ++ x.written) ht (p.past x.written) hsize
    rw [hoffset] at hrest
    unfold tokens token?
    cases x.kind? reserved with
    | none => exact ⟨hrest.1, fun t ht =>
        let ⟨hle, h⟩ := hrest.2 t ht
        ⟨Nat.le_trans (Nat.le_add_right _ _) hle, h⟩⟩
    | some kind => exact .cons hrest (Nat.le_refl _) (Nat.le_add_right _ _) hstart hstop

/-- The tokens of a text follow one another. -/
theorem follow_tokenize (source : String) (dialect : Dialect) :
    Token.Follow (Text.IsOffset source.toList) 0 (tokenize source dialect).tokens :=
  Piece.follow_tokens _ (fun a b h => h ▸ Text.isOffset_append a b) [] _
    (Piece.flatMap_written_split _).symm .origin rfl

/-! ### Documents of a text -/

/-- The document found in a text is what the grammar reads from its tokens. -/
theorem document_parse (source : String) (options : Options) :
    (parse source options).document =
      (parseTokens (tokenize source options.dialect).tokens options).document := by
  unfold parse
  dsimp only
  split
  · next h => exact h.symm
  · next h => exact h.symm

/-- A query that passes a test is found by running the test over what the grammar reads. -/
theorem exists_query_of_any (source : String) (options : Options) (test : Query → Bool)
    (h : ((parseTokens (tokenize source options.dialect).tokens options).document.map
      fun document => document.queries.any test) = some true) :
    ∃ document, (parse source options).document = some document ∧
      ∃ query ∈ document.queries, test query = true := by
  obtain ⟨document, hread, hany⟩ := Option.map_eq_some_iff.1 h
  exact ⟨document, (document_parse _ _).trans hread, List.any_eq_true.1 hany⟩

/-- **Every span of a document is well placed.** It is in order and within the text, both ends are
between characters, and it contains the spans of everything directly inside. -/
theorem laid_of_parse {source : String} {options : Options} {document : Document} {e : Element}
    (h : (parse source options).document = some document)
    (hw : (Element.document document).Within e) :
    e.span.start ≤ e.span.stop ∧ e.span.stop ≤ Text.size source.toList ∧
      Text.isBoundary source.toList e.span.start = true ∧
      Text.isBoundary source.toList e.span.stop = true ∧
      ∀ c ∈ e.children, e.span.contains c.span = true := by
  have h0 : Text.IsOffset source.toList 0 := Text.isOffset_append [] source.toList
  rw [document_parse] at h
  have hl := Grammar.laid_of_read h0 ((follow_tokenize source options.dialect).laid_ofTokens h0) h
  cases hl.within hw with
  | mk ordered start stop contains _ => exact ⟨ordered, stop.1, start.2, stop.2, contains⟩

/-- The queries of a document are in it. -/
theorem Document.within_of_mem_queries {document : Document} {query : Query}
    (h : query ∈ document.queries) : (Element.document document).Within (.query query) := by
  obtain ⟨x, hx, hxq⟩ := List.mem_filterMap.1 h
  have hstatement : .statement x ∈ (Element.document document).children :=
    List.mem_flatMap.2 ⟨x, hx, List.mem_singleton_self _⟩
  cases x with
  | query q =>
    cases hxq
    exact .tail (.single hstatement) List.mem_cons_self
  | error span => cases hxq

/-- A path that is not closed leaves a stand-in, which ends between two characters and lies in the
query around it. -/
theorem laid_of_parse_standIn :
    let source := "MATCH (é RETURN é"
    ∃ document query, ∃ standIn : Clause,
      (parse source (Options.standard.withRecoverErrors true)).document = some document ∧
      (Element.document document).Within (.query query) ∧
      standIn ∈ query.clauses ∧ standIn.isError = true ∧ standIn.span = ⟨0, 9⟩ ∧
      query.span.contains standIn.span = true ∧
      standIn.span.start ≤ standIn.span.stop ∧ standIn.span.stop ≤ Text.size source.toList ∧
      Text.isBoundary source.toList standIn.span.start = true ∧
      Text.isBoundary source.toList standIn.span.stop = true := by
  intro source
  obtain ⟨document, hparse, query, hmem, htest⟩ := exists_query_of_any source
    (Options.standard.withRecoverErrors true)
    (fun query => query.clauses.any fun c => c.isError && c.span = ⟨0, 9⟩) (by decide +kernel)
  obtain ⟨standIn, hclause, hfound⟩ := List.any_eq_true.1 htest
  obtain ⟨herror, hspan⟩ := Bool.and_eq_true_iff.1 hfound
  have hchild : .clause standIn ∈ (Element.query query).children :=
    List.mem_append_left _ (List.mem_flatMap.2 ⟨standIn, hclause, List.mem_singleton_self _⟩)
  have hquery := Document.within_of_mem_queries hmem
  obtain ⟨-, -, -, -, hcontains⟩ := laid_of_parse hparse hquery
  obtain ⟨hordered, hsize, hstart, hstop, -⟩ := laid_of_parse hparse (.tail hquery hchild)
  exact ⟨document, query, standIn, hparse, hquery, hclause, herror, of_decide_eq_true hspan,
    hcontains _ hchild, hordered, hsize, hstart, hstop⟩

end Cypher
