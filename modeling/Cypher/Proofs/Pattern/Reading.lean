import Cypher.Proofs.Pattern.Writing
import Cypher.Proofs.ReadBack
import Cypher.Proofs.Stripped.Tree

/-!
# Reading patterns back

What a rule of patterns does next is decided by one token: it opens the next part of the brackets,
or closes them. The parts come in a fixed order, and each may be missing, so a part that is not
there has to be told from one that is by a token of a later part. The order is made a number
(`Cypher.TokenKind.slot`): no token that may follow a part belongs to that part or to an earlier
one. The slots of the tokens behind a part are then found from the closing bracket backwards.

An arrow has no such order; its sign in the middle stands twice, and whether it has heads is seen at
its two ends.
-/

namespace Cypher

variable {setting : Setting} {inner : Inner} {style : Style} {s t : State} {α : Type}

/-! ### The order of parts -/

/-- **The part of a node or relationship that a token belongs to**: the name that is bound, labels
or types, the length, the properties, or what is behind all of them. -/
def TokenKind.slot : TokenKind → Nat
  | identifier _ | quotedIdentifier _ => 0
  | sign .colon | sign .pipe => 1
  | sign .star | sign .dotDot | integer _ => 2
  | sign .leftBrace | parameter _ => 3
  | _ => 4

/-- A part that is left out leaves the token behind it, one that is there begins with its own. -/
theorem State.Passes.le_slot {n : Nat} {kinds : List TokenKind} (h : s.Passes kinds t)
    (hk : ∀ kind ∈ kinds.head?, n ≤ kind.slot) (ht : n ≤ t.cursor.kind.slot) :
    n ≤ s.cursor.kind.slot := by
  cases h with
  | nil => exact ht
  | cons hkind => exact hkind ▸ hk _ rfl

theorem isVariable_nameWritten (quotes : String → Bool) (name : String) :
    (nameWritten quotes name).isVariable = true := by
  rcases nameWritten_cases quotes name with hn | hn <;> rw [hn] <;> rfl

namespace Grammar

open Rule hiding pure bind

/-! ### Sequences -/

section Sequences

variable [Strip α] {written : α → List TokenKind} {fine : State → Prop} {items : List α}

variable (fine) in
/-- **Items one behind the other are read back**, if each is where what is behind it is fine. -/
theorem run_many_written {rule : Rule (Option α)} (hi : inner.GoesOn)
    (hmoves : ∀ u, MovesOn setting inner (fun a => a.isSome) rule u)
    (hread : ∀ item ∈ items, ∀ {u v : State}, u.Passes (written item) v → u.cursor.Closed →
      fine v → ∃ found, rule.run setting inner u = .done (some found) v ∧ strip found = strip item)
    (hfine : ∀ item ∈ items, ∀ {u v : State}, u.Passes (written item) v → fine u)
    (h : s.Passes (items.flatMap written) t) (hc : s.cursor.Closed) (ht : fine t)
    (hnone : rule.run setting inner t = .done none t) (before : List α) :
    ∃ found, strip found = strip items ∧
      (many rule before).run setting inner s = .done (before ++ found) t := by
  induction items generalizing s before with
  | nil =>
    cases h
    exact ⟨[], rfl, by rw [List.append_nil, run_many_none hnone]⟩
  | cons item items ih =>
    obtain ⟨u, hsu, hut⟩ := State.Passes.of_append (a := written item) h
    have hu : fine u := by
      rcases items with - | ⟨next, items⟩
      · cases hut
        exact ht
      · obtain ⟨v, huv, -⟩ := State.Passes.of_append (a := written next) hut
        exact hfine next (by simp) huv
    obtain ⟨first, hfirst, hstrip⟩ := hread item List.mem_cons_self hsu hc hu
    obtain ⟨others, hothers, hrun⟩ := ih (fun b hb => hread b (List.mem_cons_of_mem _ hb))
      (fun b hb => hfine b (List.mem_cons_of_mem _ hb)) hut (hsu.closed hc) (before ++ [first])
    refine ⟨first :: others, by rw [Strip.strip_cons, Strip.strip_cons, hstrip, hothers], ?_⟩
    rw [run_many hi hc fun u _ => hmoves u, hfirst]
    refine hrun.trans ?_
    rw [List.append_assoc]
    rfl

/-- **Items separated by commas are read back.** -/
theorem run_separated_written {rule : Rule α} {item : α} (hi : inner.GoesOn)
    (hread : ∀ a ∈ item :: items, ∀ {u v : State}, u.Passes (written a) v → u.cursor.Closed →
      fine v → ∃ found, rule.run setting inner u = .done found v ∧ strip found = strip a)
    (hcomma : ∀ {u : State}, u.cursor.kind = .sign .comma → fine u)
    (h : s.Passes (commaWritten (.sign .comma) written (item :: items)) t) (hc : s.cursor.Closed)
    (ht : fine t) (hend : t.cursor.kind ≠ .sign .comma) :
    ∃ found, strip found = strip (item :: items) ∧
      (separated rule).run setting inner s = .done found t := by
  obtain ⟨u, hsu, hut⟩ := State.Passes.of_append (a := written item) h
  have hu : fine u := by
    rcases items with - | ⟨next, items⟩
    · cases hut
      exact ht
    · exact hcomma hut.kind_eq
  obtain ⟨first, hfirst, hstrip⟩ := hread item List.mem_cons_self hsu hc hu
  have hmore (a : α) (ha : a ∈ items) {u v : State} (h : u.Passes (.sign .comma :: written a) v)
      (hc : u.cursor.Closed) (hv : fine v) :
      ∃ found, (optionally (takeSign .comma) rule).run setting inner u = .done (some found) v ∧
        strip found = strip a := by
    obtain ⟨found, hrun, hfound⟩ :=
      hread a (List.mem_cons_of_mem _ ha) h.step (State.closed_step hc) hv
    refine ⟨found, ?_, hfound⟩
    rw [run_optionally_true (run_consume_of_eq h.kind_eq), hrun]
    rfl
  obtain ⟨others, hothers, hrun⟩ := run_many_written fine hi
    (fun u => movesOn_optionally hi (movesOn_takeSign hi .comma u)) hmore
    (fun _ _ _ _ h => hcomma h.kind_eq) hut (hsu.closed hc) ht
    (run_optionally_false (run_consume_of_ne hend)) [first]
  refine ⟨first :: others, by rw [Strip.strip_cons, Strip.strip_cons, hstrip, hothers], ?_⟩
  rw [separated, run_bind_done hfirst, hrun]
  rfl

end Sequences

/-! ### Names -/

theorem run_variableName_written (setting : Setting) (inner : Inner) {name : String}
    (h : s.Passes [nameWritten style.quotes name] t) :
    ∃ span, variableName.run setting inner s = .done ⟨name, span⟩ t := by
  obtain rfl := h.single
  have hk : s.cursor.current.kind = nameWritten style.quotes name := h.kind_eq
  rw [variableName, here, run_bind, run_look, Outcome.andThen_done, View.read, hk]
  rcases nameWritten_cases style.quotes name with hn | hn <;> rw [hn] <;> exact ⟨_, rfl⟩

/-- A name that is bound, if there is one. -/
theorem run_binder (setting : Setting) (inner : Inner) {name : Option Ident}
    (h : s.Passes ((Stroke.ofBinder name).map (Stroke.kind style)) t)
    (ht : 0 < t.cursor.kind.slot) :
    ∃ found, (optionally atVariable variableName).run setting inner s = .done found t ∧
      strip found = strip name := by
  rcases name with - | ⟨name, place⟩
  · cases h
    refine ⟨none, run_optionally_false ?_, rfl⟩
    rw [run_atVariable]
    cases hk : s.cursor.kind with
    | identifier | quotedIdentifier =>
      rw [hk] at ht
      exact absurd ht (Nat.lt_irrefl 0)
    | _ => rfl
  · obtain ⟨span, hrun⟩ := run_variableName_written setting inner h
    refine ⟨some ⟨name, span⟩, ?_, rfl⟩
    have hat : atVariable.run setting inner s = .done true s := by
      rw [run_atVariable, h.kind_eq]
      exact congrArg (Outcome.done · s) (isVariable_nameWritten style.quotes name)
    rw [run_optionally_true hat, hrun]
    rfl

/-! ### Values and properties -/

/-- **Nested rules that read values back**, where a value ends in a map. -/
def ReadsAtoms (inner : Inner) (style : Style) : Prop :=
  ∀ {e : Expression} {s t : State}, e.IsAtom style → s.Passes (e.atomWritten style) t →
    s.cursor.Closed → t.cursor.kind = .sign .comma ∨ t.cursor.kind = .sign .rightBrace →
    ∃ x, inner (.expression 0) s = .done x t ∧ strip x = strip e

/-- **A literal is read back.** -/
theorem run_leading_literal (setting : Setting) (inner : Inner) {value : Literal}
    (hv : value.Writable style) (h : s.Passes (value.written style) t) :
    ∃ span, leading.run setting inner s = .done (.literal value span) t := by
  have hoperand {kind : TokenKind} (h : s.cursor.kind = kind) (hk : unaryOperator? kind = none) :
      leading.run setting inner s = operand.run setting inner s := run_leading_of_none (h ▸ hk)
  rcases value with (n | n) | x | value | (- | -) | -
  case integer.ofNat =>
    have hn : n ≤ greatestInteger := hv
    have hvalue : integerValue? (toString n) = some n :=
      integerValue?_toString ⟨n, Nat.lt_succ_of_le hn⟩
    obtain rfl := h.single
    rw [hoperand h.kind_eq rfl, operand, here, run_bind, run_look, Outcome.andThen_done, View.read,
      show s.cursor.current.kind = _ from h.kind_eq]
    dsimp only
    rw [hvalue]
    exact ⟨_, rfl⟩
  case integer.negSucc =>
    obtain rfl : n = greatestInteger := hv
    have hleast : isLeastMagnitude s.cursor.advance.kind = true := by
      rw [show s.cursor.advance.kind = _ from h.step.kind_eq]
      decide +kernel
    have hsign : unaryOperator? s.cursor.kind = some .negate := by
      rw [h.kind_eq]
      rfl
    rw [run_leading_of_some hsign, hleast, ← h.step.single]
    exact ⟨_, rfl⟩
  all_goals
    obtain rfl := h.single
    rw [hoperand h.kind_eq rfl, operand, here, run_bind, run_look, Outcome.andThen_done, View.read,
      show s.cursor.current.kind = _ from h.kind_eq]
  case float =>
    have hx : Number.Binary64.ofLiteral (style.float x).toList = x := hv.2
    dsimp only
    rw [hx]
    exact ⟨_, rfl⟩
  all_goals exact ⟨_, rfl⟩

/-- **A value is read back as an operand.** -/
theorem run_leading_atom (setting : Setting) (inner : Inner) {e : Expression} (he : e.IsAtom style)
    (h : s.Passes (e.atomWritten style) t) (ht : Calm t.kinds) :
    ∃ x, leading.run setting inner s = .done x t ∧ strip x = strip e := by
  cases e with
  | literal value span =>
    obtain ⟨span', hrun⟩ := run_leading_literal setting inner he h
    exact ⟨_, hrun, by simp⟩
  | parameter name span =>
    have hk : s.cursor.kind.isOperand = true := by rw [h.kind_eq]; rfl
    obtain rfl := h.single
    rw [run_leading_of_isOperand hk, operand, here, run_bind, run_look, Outcome.andThen_done,
      View.read, show s.cursor.current.kind = _ from h.kind_eq]
    exact ⟨_, rfl, by simp⟩
  | reference name span =>
    have hk : s.cursor.kind.isOperand = true := h.kind_eq ▸ isOperand_nameWritten _ name
    rw [run_leading_of_isOperand hk, operand, here, run_bind, run_look, Outcome.andThen_done,
      View.read]
    rcases nameWritten_cases style.quotes name with hn | hn
    · have h : s.Passes [.identifier name] t := hn ▸ h
      rw [show s.cursor.current.kind = _ from h.kind_eq]
      exact ⟨_, run_named h ht, by simp⟩
    · have h : s.Passes [.quotedIdentifier name] t := hn ▸ h
      obtain rfl := h.single
      rw [show s.cursor.current.kind = _ from h.kind_eq]
      exact ⟨_, rfl, by simp⟩
  | _ => exact absurd he id

/-- What ends a value in a map goes on with nothing. -/
theorem ends_atom (ht : t.cursor.kind = .sign .comma ∨ t.cursor.kind = .sign .rightBrace) :
    Calm t.kinds ∧ Stops 0 t.kinds := by
  rw [State.kinds_eq_cons]
  rcases ht with ht | ht
  · rw [ht]
    exact ⟨calm_cons (by decide) (by decide) (by decide) _, by decide, by decide, nofun⟩
  · rw [ht]
    exact ⟨calm_cons (by decide) (by decide) (by decide) _, by decide, by decide, nofun⟩

/-- **One level of nesting is enough for values.** -/
theorem readsAtoms_runNested (setting : Setting) (room : Nat) (style : Style) :
    ReadsAtoms (runNested setting body (room + 1)) style := by
  intro e s t he h hc ht
  have hdeeper := h.deeper (s.depth + 1)
  obtain ⟨hcalm, hstops⟩ := ends_atom ht
  obtain ⟨x, hrun, hx⟩ := run_leading_atom setting (runNested setting body room) he hdeeper hcalm
  have hgoes : Inner.GoesOn (runNested setting body room) := goesOn_runNested setting body room
  have hstop : (loop (continuation 0) ⟨x, none⟩).run setting (runNested setting body room)
      { t with depth := s.depth + 1 } = .done ⟨x, none⟩ { t with depth := s.depth + 1 } :=
    run_loop_none (run_of_continues (.stop hstops))
  refine ⟨x, ?_, hx⟩
  refine (runNested_succ room (.expression 0) s).trans ?_
  change Outcome.mapState _ ((expressionOf 0).run setting _ _) = _
  rw [(Partway.operand hrun).run_expressionOf hgoes hc, hstop]
  have hdepth : t.depth = s.depth := h.depth_eq
  exact congrArg (Outcome.done x) (by rw [← hdepth]; rfl)

/-- The entry of a map. -/
theorem run_mapEntry_written (hatoms : ReadsAtoms inner style) {entry : MapEntry Expression}
    (he : entry.value.IsAtom style)
    (h : s.Passes (nameWritten style.quotes entry.key.value :: .sign .colon ::
      entry.value.atomWritten style) t) (hc : s.cursor.Closed)
    (ht : t.cursor.kind = .sign .comma ∨ t.cursor.kind = .sign .rightBrace) :
    ∃ found, mapEntry.run setting inner s = .done found t ∧ strip found = strip entry := by
  obtain ⟨u, hsu, hut⟩ := State.Passes.of_append (a := [nameWritten style.quotes entry.key.value]) h
  obtain ⟨span, hname⟩ := run_symbolicName setting inner "a map key" hsu
  obtain ⟨x, hvalue, hx⟩ := hatoms he hut.step (State.closed_step (hsu.closed hc)) ht
  refine ⟨⟨⟨entry.key.value, span⟩, x⟩, ?_, ?_⟩
  · rw [mapEntry, run_bind_done hname, run_bind_done (run_expect_of_eq hut.kind_eq), expression,
      run_bind_done (show (nested (.expression 0)).run setting inner _ = _ from hvalue)]
    rfl
  · obtain ⟨⟨key, place⟩, value⟩ := entry
    simp [hx]

/-- **A map is read back.** -/
theorem run_mapLiteral_written (setting : Setting) (hi : inner.GoesOn)
    (hatoms : ReadsAtoms inner style) {entries : List (MapEntry Expression)} {place : Span}
    (he : (Expression.map entries place).IsRow style)
    (h : s.Passes ((Expression.map entries place).propertiesWritten style) t)
    (hc : s.cursor.Closed) :
    ∃ x, mapLiteral.run setting inner s = .done x t ∧ strip x = strip (.map entries place) := by
  obtain ⟨u, hsu, hut⟩ := State.Passes.of_append (a := [.sign .leftBrace]) h
  obtain ⟨v, huv, hvt⟩ := State.Passes.of_append hut
  obtain rfl := hsu.single
  obtain rfl := hvt.single
  obtain ⟨found, hfound, hrun⟩ : ∃ found, strip found = strip entries ∧
      (listUntil .rightBrace mapEntry).run setting inner s.step = .done found v := by
    rw [listUntil, run_bind, run_isAt, Outcome.andThen_done]
    rcases entries with - | ⟨entry, entries⟩
    · cases huv
      rw [decide_eq_true hvt.kind_eq]
      exact ⟨[], rfl, rfl⟩
    · have hname : s.step.cursor.kind ≠ .sign .rightBrace := by
        rw [show s.step.cursor.kind = _ from huv.kind_eq]
        rcases nameWritten_cases style.quotes entry.key.value with hn | hn <;> rw [hn] <;> nofun
      rw [decide_eq_false hname]
      exact run_separated_written hi
        (fun a ha _ _ h hc hv => run_mapEntry_written hatoms (he a ha) h hc hv) .inl huv
        (State.closed_step hc) (.inr hvt.kind_eq) (by rw [hvt.kind_eq]; decide)
  refine ⟨.map found (v.step.cursor.spanFrom s.cursor.current.span.start), ?_, ?_⟩
  · rw [mapLiteral, run_bind_done (run_expect_of_eq hsu.kind_eq), run_bind_done hrun,
      run_bind_done (run_expect_of_eq hvt.kind_eq)]
    rfl
  · simp [hfound]

/-- **Properties are read back**, if there are any. -/
theorem run_properties_written (setting : Setting) (hi : inner.GoesOn)
    (hatoms : ReadsAtoms inner style) {row : Option Expression} (hrow : ∀ e ∈ row, e.IsRow style)
    (h : s.Passes (rowWritten style row) t) (hc : s.cursor.Closed) (ht : 3 < t.cursor.kind.slot) :
    ∃ found, properties.run setting inner s = .done found t ∧ strip found = strip row := by
  rcases row with - | e
  · cases h
    refine ⟨none, run_properties_none (fun hk => ?_) fun name hk => ?_, rfl⟩
    · rw [hk] at ht
      exact absurd ht (by decide)
    · rw [hk] at ht
      exact absurd ht (Nat.lt_irrefl 3)
  have h : s.Passes (e.propertiesWritten style) t := by
    rwa [rowWritten, Option.toList_some, List.flatMap_cons, List.flatMap_nil, List.append_nil] at h
  have he := hrow e rfl
  cases e with
  | parameter name place =>
    obtain rfl := h.single
    rw [properties, here, run_bind, run_look, Outcome.andThen_done, View.read,
      show s.cursor.current.kind = _ from h.kind_eq]
    exact ⟨_, rfl, by simp⟩
  | map entries place =>
    obtain ⟨x, hrun, hx⟩ := run_mapLiteral_written setting hi hatoms he h hc
    refine ⟨some x, ?_, by simp [hx]⟩
    rw [properties, here, run_bind, run_look, Outcome.andThen_done, View.read,
      show s.cursor.current.kind = _ from h.kind_eq]
    exact run_bind_done hrun
  | _ => exact absurd he id

/-! ### Lengths -/

theorem run_lengthBound_none (h : ∀ text, s.cursor.kind ≠ .integer text) :
    lengthBound.run setting inner s = .done none s := by
  rw [lengthBound, here, run_bind, run_look, Outcome.andThen_done, View.read,
    show s.cursor.current.kind = s.cursor.kind from rfl]
  split
  · next text hk => exact absurd hk (h text)
  · rfl

theorem run_lengthBound_some {n : Nat} (hn : n < Number.unsignedLimit)
    (h : s.Passes [.integer (toString n)] t) :
    lengthBound.run setting inner s = .done (some n) t := by
  obtain rfl := h.single
  rw [lengthBound, here, run_bind, run_look, Outcome.andThen_done, View.read,
    show s.cursor.current.kind = _ from h.kind_eq]
  dsimp only
  rw [Number.unsigned?_toString hn]
  rfl

/-- Behind the length there is neither a bound nor two dots. -/
theorem not_bound_of_slot (h : 2 < s.cursor.kind.slot) :
    (∀ text, s.cursor.kind ≠ .integer text) ∧ s.cursor.kind ≠ .sign .dotDot := by
  constructor
  · intro text hk
    rw [hk] at h
    exact absurd h (Nat.lt_irrefl 2)
  · intro hk
    rw [hk] at h
    exact absurd h (Nat.lt_irrefl 2)

/-- **A length is read back from each of its forms.** -/
theorem run_pathLength_written {length : PathLength} (hl : length.Writable)
    (h : s.Passes (length.written style) t) (ht : 2 < t.cursor.kind.slot) :
    pathLength.run setting inner s = .done length t := by
  obtain ⟨hbound, hdots⟩ := not_bound_of_slot ht
  rcases length with ⟨- | m, - | n⟩
  · cases h
    rw [pathLength, run_bind_done (run_lengthBound_none hbound),
      run_bind_done (run_consume_of_ne hdots)]
    rfl
  · obtain ⟨u, hsu, hut⟩ := State.Passes.of_append (a := [.sign .dotDot]) h
    obtain rfl := hsu.single
    rw [pathLength, run_bind_done (run_lengthBound_none fun text => by rw [hsu.kind_eq]; nofun),
      run_bind_done (run_consume_of_eq hsu.kind_eq), if_pos rfl,
      run_bind_done (run_lengthBound_some (hl.2 n rfl) hut)]
    rfl
  · obtain ⟨u, hsu, hut⟩ := State.Passes.of_append (a := [.integer (toString m)]) h
    obtain rfl := hut.single
    rw [pathLength, run_bind_done (run_lengthBound_some (hl.1 m rfl) hsu),
      run_bind_done (run_consume_of_eq hut.kind_eq), if_pos rfl,
      run_bind_done (run_lengthBound_none hbound)]
    rfl
  · rw [PathLength.written] at h
    split at h
    · next hone =>
      obtain rfl := hone.1
      rw [pathLength, run_bind_done (run_lengthBound_some (hl.1 m rfl) h),
        run_bind_done (run_consume_of_ne hdots)]
      rfl
    · obtain ⟨u, hsu, hut⟩ := State.Passes.of_append (a := [.integer (toString m)]) h
      rw [pathLength, run_bind_done (run_lengthBound_some (hl.1 m rfl) hsu),
        run_bind_done (run_consume_of_eq hut.kind_eq), if_pos rfl,
        run_bind_done (run_lengthBound_some (hl.2 n rfl) hut.step)]
      rfl

/-- A length, if there is one. -/
theorem run_length_written (setting : Setting) (inner : Inner) {length : Option PathLength}
    (hl : ∀ l ∈ length, l.Writable) (h : s.Passes (lengthWritten style length) t)
    (ht : 2 < t.cursor.kind.slot) :
    (optionally (takeSign .star) pathLength).run setting inner s = .done length t := by
  rcases length with - | l
  · cases h
    refine run_optionally_false (run_consume_of_ne fun hk => ?_)
    rw [hk] at ht
    exact absurd ht (Nat.lt_irrefl 2)
  · have h : s.Passes (.sign .star :: l.written style) t := by
      rwa [lengthWritten, Option.toList_some, List.flatMap_cons, List.flatMap_nil,
        List.append_nil] at h
    rw [run_optionally_true (run_consume_of_eq h.kind_eq),
      run_pathLength_written (hl l rfl) h.step ht]
    rfl

/-! ### Labels and types -/

/-- Names that are the same are the same but for their spans. -/
theorem strip_eq_of_map_value {xs ys : List Ident}
    (h : xs.map Located.value = ys.map Located.value) : strip xs = strip ys := by
  have hstrip (zs : List Ident) : strip zs = (zs.map Located.value).map fun x => ⟨x, ⟨0, 0⟩⟩ := by
    rw [List.map_map]
    rfl
  rw [hstrip, hstrip, h]

/-- **The labels of a node are read back.** -/
theorem run_nodeLabels_written (setting : Setting) (hi : inner.GoesOn) {names : List Ident}
    (h : s.Passes (labelsWritten style.quotes (names.map Located.value)) t)
    (hc : s.cursor.Closed) (ht : 1 < t.cursor.kind.slot) :
    ∃ found, nodeLabels.run setting inner s = .done found t ∧ strip found = strip names := by
  have hcolon : t.cursor.kind ≠ .sign .colon := fun hk => by
    rw [hk] at ht
    exact absurd ht (Nat.lt_irrefl 1)
  rcases names with - | ⟨name, names⟩
  · cases h
    exact ⟨[], run_nodeLabels_of_ne hcolon, rfl⟩
  · obtain ⟨found, hfound, hrun⟩ := run_labels setting hi hc h hcolon
    refine ⟨found, (run_nodeLabels_of_eq ?_).trans hrun, strip_eq_of_map_value hfound⟩
    exact h.kind_eq

/-- A further type behind a bar, with or without a colon. -/
theorem run_furtherType_written (setting : Setting) (inner : Inner) {name : Ident}
    (h : s.Passes (.sign .pipe :: ((if style.colons then [.sign .colon] else []) ++
      [nameWritten style.quotes name.value])) t) :
    ∃ found, (optionally (takeSign .pipe) furtherType).run setting inner s =
      .done (some found) t ∧ strip found = strip name := by
  obtain ⟨u, hsu, hut⟩ := State.Passes.of_append h.step
  obtain ⟨span, hname⟩ := run_symbolicName setting inner "a relationship type" hut
  have hcolon : ∃ b, (takeSign .colon).run setting inner s.step = .done b u := by
    cases hcolons : style.colons with
    | true =>
      rw [hcolons] at hsu
      exact ⟨true, (run_consume_of_eq hsu.kind_eq).trans (congrArg _ hsu.single)⟩
    | false =>
      rw [hcolons] at hsu
      cases hsu
      refine ⟨false, run_consume_of_ne ?_⟩
      rw [hut.kind_eq]
      rcases nameWritten_cases style.quotes name.value with hn | hn <;> rw [hn] <;> nofun
  obtain ⟨b, hcolon⟩ := hcolon
  refine ⟨⟨name.value, span⟩, ?_, rfl⟩
  rw [run_optionally_true (run_consume_of_eq h.kind_eq), furtherType, run_bind_done hcolon,
    relationshipType, hname]
  rfl

/-- **The types of a relationship are read back.** -/
theorem run_types_written (setting : Setting) (hi : inner.GoesOn) {names : List Ident}
    (h : s.Passes (typesWritten style names) t) (hc : s.cursor.Closed)
    (ht : 1 < t.cursor.kind.slot) :
    ∃ found, relationshipTypes.run setting inner s = .done found t ∧
      strip found = strip names := by
  have hne {sign : Sign} (hs : (TokenKind.sign sign).slot = 1) : t.cursor.kind ≠ .sign sign :=
    fun hk => by
      rw [hk, hs] at ht
      exact absurd ht (Nat.lt_irrefl 1)
  rcases names with - | ⟨name, names⟩
  · cases h
    rw [relationshipTypes, run_bind_done (run_consume_of_ne (hne rfl))]
    exact ⟨[], rfl, rfl⟩
  · obtain ⟨u, hsu, hut⟩ :=
      State.Passes.of_append (a := [.sign .colon, nameWritten style.quotes name.value]) h
    obtain ⟨span, hname⟩ := run_symbolicName setting inner "a relationship type" hsu.step
    obtain ⟨others, hothers, hrun⟩ := run_many_written (fun _ => True) hi
      (fun u => movesOn_optionally hi (movesOn_takeSign hi .pipe u))
      (fun _ _ _ _ h _ _ => run_furtherType_written setting inner h)
      (fun _ _ _ _ _ => trivial) hut (hsu.closed hc) trivial
      (run_optionally_false (run_consume_of_ne (hne rfl))) [⟨name.value, span⟩]
    refine ⟨⟨name.value, span⟩ :: others, ?_, ?_⟩
    · rw [relationshipTypes, run_bind_done (run_consume_of_eq hsu.kind_eq), if_pos rfl,
        relationshipType, run_bind_done hname]
      exact hrun
    · rw [Strip.strip_cons, Strip.strip_cons, hothers]
      rfl

end Grammar

end Cypher
