import Cypher.Proofs.Pattern.Reading

/-!
# Reading paths back

A node and a relationship are their parts in a fixed order, and what tells one part from the next
is the slot of the token behind it. A path is then a node and steps, and goes on for as long as
there is a dash, or a head with a dash behind it; a pattern is paths with commas between them.
Whatever ends a pattern must be none of these.
-/

namespace Cypher

variable {setting : Setting} {inner : Inner} {style : Style} {s t : State}

namespace Grammar

open Rule hiding pure bind

/-! ### Brackets and parentheses -/

/-! Each part begins with a token of its own slot, if it is there. -/

theorem slot_typesWritten (names : List Ident) :
    ∀ kind ∈ (typesWritten style names).head?, 1 ≤ kind.slot := by
  intro kind hk
  rcases names with - | ⟨first, others⟩
  · cases hk
  · cases hk
    exact Nat.le_refl 1

theorem slot_labelsWritten (quotes : String → Bool) (names : List String) :
    ∀ kind ∈ (labelsWritten quotes names).head?, 1 ≤ kind.slot := by
  intro kind hk
  rcases names with - | ⟨first, others⟩
  · cases hk
  · cases hk
    exact Nat.le_refl 1

theorem slot_lengthWritten (length : Option PathLength) :
    ∀ kind ∈ (lengthWritten style length).head?, 2 ≤ kind.slot := by
  intro kind hk
  rcases length with - | l
  · cases hk
  · cases hk
    exact Nat.le_refl 2

theorem slot_rowWritten {row : Option Expression} (hrow : ∀ e ∈ row, e.IsRow style) :
    ∀ kind ∈ (rowWritten style row).head?, 3 ≤ kind.slot := by
  intro kind hk
  rcases row with - | e
  · cases hk
  have he := hrow e rfl
  rw [rowWritten, Option.toList_some, List.flatMap_cons, List.flatMap_nil, List.append_nil] at hk
  cases e with
  | parameter | map =>
    cases hk
    exact Nat.le_refl 3
  | _ => exact absurd he id

/-- **The detail of a relationship**, apart from its direction. -/
structure Detail.IsOf (detail : Detail) (relationship : RelationshipPattern Expression) : Prop where
  /-- The name is that of the relationship. -/
  binder : strip detail.binder = strip relationship.binder
  /-- So are the types. -/
  types : strip detail.types = strip relationship.types
  /-- So is the length. -/
  length : detail.length = relationship.length
  /-- So are the properties. -/
  properties : strip detail.properties = strip relationship.properties

/-- **What stands in the brackets of a relationship is read back.** -/
theorem run_detail_written (setting : Setting) (hi : inner.GoesOn) (hatoms : ReadsAtoms inner style)
    {arrow : RelationshipPattern Expression} (ha : arrow.Writable style)
    (h : s.Passes ((arrow.detailStrokes style).map (Stroke.kind style)) t)
    (hc : s.cursor.Closed) : ∃ found, detail.run setting inner s = .done found t ∧
      found.IsOf arrow := by
  rw [RelationshipPattern.detailStrokes, List.map_append, Stroke.map_kind_others] at h
  obtain ⟨u, hsu, hut⟩ := State.Passes.of_append h
  obtain ⟨v, huv, hvt⟩ := State.Passes.of_append hut
  obtain ⟨w, hvw, hwt⟩ := State.Passes.of_append hvt
  obtain ⟨x, hwx, hxt⟩ := State.Passes.of_append hwt
  -- the slots are found from the closing bracket backwards
  have hx : 3 < x.cursor.kind.slot := by rw [hxt.kind_eq]; decide
  have hw : 3 ≤ w.cursor.kind.slot :=
    hwx.le_slot (slot_rowWritten ha.properties) (Nat.le_of_lt hx)
  have hv : 2 ≤ v.cursor.kind.slot := hvw.le_slot (slot_lengthWritten _) (Nat.le_of_lt hw)
  have hu : 1 ≤ u.cursor.kind.slot := huv.le_slot (slot_typesWritten _) (Nat.le_of_lt hv)
  obtain ⟨binder, hbinder, hname⟩ := run_binder setting inner hsu hu
  obtain ⟨types, htypes, hsame⟩ :=
    run_types_written setting hi huv (hsu.closed hc) hv
  have hlength := run_length_written setting inner ha.length hvw hw
  obtain ⟨row, hrow, hrows⟩ := run_properties_written setting hi hatoms
    ha.properties hwx (hvw.closed (huv.closed (hsu.closed hc))) hx
  obtain rfl := hxt.single
  refine ⟨⟨binder, types, arrow.length, row⟩, ?_, ⟨hname, hsame, rfl, hrows⟩⟩
  rw [detail, run_bind_done hbinder, run_bind_done htypes, run_bind_done hlength,
    run_bind_done hrow, run_bind_done (run_expect_of_eq hxt.kind_eq)]
  rfl

/-- **A node is read back.** -/
theorem run_pathNode_written (setting : Setting) (hi : inner.GoesOn)
    (hatoms : ReadsAtoms inner style) {node : NodePattern Expression} (hn : node.Writable style)
    (h : s.Passes ((node.strokes style).map (Stroke.kind style)) t) (hc : s.cursor.Closed) :
    ∃ found, pathNode.run setting inner s = .done found t ∧ strip found = strip node := by
  rw [NodePattern.strokes, List.map_append, List.map_append, Stroke.map_kind_others,
    Stroke.map_kind_others, List.append_assoc] at h
  obtain ⟨u, hsu, hut⟩ := State.Passes.of_append h
  obtain ⟨v, huv, hvt⟩ := State.Passes.of_append hut
  obtain ⟨w, hvw, hwt⟩ := State.Passes.of_append hvt
  obtain ⟨x, hwx, hxt⟩ := State.Passes.of_append hwt
  have hx : 3 < x.cursor.kind.slot := by rw [hxt.kind_eq]; decide
  have hw : 3 ≤ w.cursor.kind.slot := hwx.le_slot (slot_rowWritten hn) (Nat.le_of_lt hx)
  have hv : 1 ≤ v.cursor.kind.slot :=
    hvw.le_slot (slot_labelsWritten _ _) (Nat.le_trans (by decide) hw)
  have hcu := hsu.closed hc
  obtain ⟨binder, hbinder, hname⟩ := run_binder setting inner huv hv
  obtain ⟨labels, hlabels, hsame⟩ := run_nodeLabels_written setting hi hvw
    (huv.closed hcu) (Nat.lt_of_lt_of_le (by decide) hw)
  obtain ⟨row, hrow, hrows⟩ := run_properties_written setting hi hatoms hn hwx
    (hvw.closed (huv.closed hcu)) hx
  obtain rfl := hsu.single
  obtain rfl := hxt.single
  refine ⟨⟨binder, labels, row, x.step.cursor.spanFrom s.cursor.current.span.start⟩, ?_, ?_⟩
  · rw [pathNode, run_bind_done (run_expect_of_eq hsu.kind_eq), run_bind_done hbinder,
      run_bind_done hlabels, run_bind_done hrow, run_bind_done (run_expect_of_eq hxt.kind_eq)]
    rfl
  · obtain ⟨name, names, values, place⟩ := node
    simp [hname, hsame, hrows]

/-! ### Arrows -/

/-- A sign that may be left out is seen, if what follows it is another. -/
theorem run_signIf (setting : Setting) (inner : Inner) {present : Bool} {sign : Sign}
    (h : s.Passes (signIf present sign) t) (ht : t.cursor.kind ≠ .sign sign) :
    (takeSign sign).run setting inner s = .done present t := by
  rcases present with - | -
  · cases h
    exact run_consume_of_ne ht
  · exact (run_consume_of_eq h.kind_eq).trans (congrArg _ h.single)

/-- **The direction of an arrow is where its heads are.** -/
theorem directionOf_heads (direction : Direction) :
    directionOf (direction.heads style).1 (direction.heads style).2 = direction := by
  rcases direction with - | - | -
  · rfl
  · rfl
  · change directionOf style.heads style.heads = _
    cases style.heads <;> rfl

/-- The detail of a relationship, with or without brackets. -/
theorem run_detailIfAny_written (setting : Setting) (hi : inner.GoesOn)
    (hatoms : ReadsAtoms inner style) {arrow : RelationshipPattern Expression}
    (ha : arrow.Writable style) (h : s.Passes ((if arrow.isBare && !style.brackets then []
      else .other (.sign .leftBracket) :: arrow.detailStrokes style).map (Stroke.kind style)) t)
    (hc : s.cursor.Closed) (ht : t.cursor.kind ≠ .sign .leftBracket) :
    ∃ found, detailIfAny.run setting inner s = .done found t ∧ found.IsOf arrow := by
  split at h
  · next hbare =>
    cases h
    refine ⟨.absent, ?_, ?_⟩
    · rw [detailIfAny, run_bind_done (run_consume_of_ne ht)]
      rfl
    · -- nothing is said about a bare relationship
      simp only [RelationshipPattern.isBare, Bool.and_eq_true, Option.isNone_iff_eq_none,
        List.isEmpty_iff] at hbare
      obtain ⟨⟨⟨⟨hname, htypes⟩, hlength⟩, hrow⟩, -⟩ := hbare
      constructor
      · rw [hname]; rfl
      · rw [htypes]; rfl
      · rw [hlength]; rfl
      · rw [hrow]; rfl
  · have hopen : s.cursor.kind = .sign .leftBracket := h.kind_eq
    obtain ⟨found, hrun, hfound⟩ :=
      run_detail_written setting hi hatoms ha h.step (State.closed_step hc)
    refine ⟨found, ?_, hfound⟩
    rw [detailIfAny, run_bind_done (run_consume_of_eq hopen)]
    exact hrun

/-- **A relationship is read back**, if what follows is not a head. -/
theorem run_relationship_written (setting : Setting) (hi : inner.GoesOn)
    (hatoms : ReadsAtoms inner style) {arrow : RelationshipPattern Expression}
    (ha : arrow.Writable style) (h : s.Passes ((arrow.strokes style).map (Stroke.kind style)) t)
    (hc : s.cursor.Closed) (ht : t.cursor.kind ≠ .sign .gt) :
    ∃ found, relationship.run setting inner s = .done found t ∧ strip found = strip arrow := by
  rw [RelationshipPattern.strokes, List.map_append, List.map_append, Stroke.map_kind_others,
    Stroke.map_kind_others, List.append_assoc] at h
  obtain ⟨u, hsu, hut⟩ := State.Passes.of_append h
  obtain ⟨v, huv, hvt⟩ := State.Passes.of_append hut
  obtain ⟨w, hvw, hwt⟩ := State.Passes.of_append hvt
  have hleft := run_signIf setting inner hsu
    (by rw [huv.kind_eq]; decide)
  obtain ⟨found, hdetail, hfound⟩ := run_detailIfAny_written setting hi hatoms ha hvw
    (huv.closed (hsu.closed hc)) (by rw [hwt.kind_eq]; decide)
  have hright := run_signIf setting inner hwt.step ht
  obtain rfl := huv.single
  refine ⟨⟨arrow.direction, found.binder, found.types, found.length, found.properties,
    t.cursor.spanFrom s.cursor.current.span.start⟩, ?_, ?_⟩
  · rw [relationship, startHere, here, run_bind, run_bind, run_look, Outcome.andThen_done, run_pure,
      Outcome.andThen_done, run_bind_done hleft, run_bind_done (run_expect_of_eq huv.kind_eq),
      run_bind_done hdetail, run_bind_done (run_expect_of_eq hwt.kind_eq), run_bind_done hright,
      directionOf_heads]
    rfl
  · obtain ⟨direction, name, types, length, values, place⟩ := arrow
    obtain ⟨hname, htypes, hlength, hrow⟩ := hfound
    simp [hname, htypes, hlength, hrow]

/-! ### Paths -/

/-- The first token of a node. -/
theorem kind_of_passes_node {node : NodePattern Expression} {kinds : List TokenKind}
    (h : s.Passes ((node.strokes style).map (Stroke.kind style) ++ kinds) t) :
    s.cursor.kind = .sign .leftParen := by
  rw [NodePattern.strokes, List.append_assoc, List.map_append, Stroke.map_kind_others] at h
  exact h.kind_eq

/-- **A relationship is recognized** by the dash at its left end, or by the head before it. -/
theorem run_atRelationship_of_arrow {arrow : RelationshipPattern Expression}
    {kinds : List TokenKind}
    (h : s.Passes ((arrow.strokes style).map (Stroke.kind style) ++ kinds) t) :
    atRelationship.run setting inner s = .done true s := by
  rw [RelationshipPattern.strokes, List.map_append, Stroke.map_kind_others, List.append_assoc,
    List.append_assoc] at h
  rw [run_atRelationship]
  cases hhead : (arrow.direction.heads style).1 with
  | false =>
    rw [hhead] at h
    rw [show s.cursor.kind = _ from h.kind_eq]
    rfl
  | true =>
    rw [hhead] at h
    have hnext : s.cursor.peek 1 = .sign .minus := State.peek_one h.kinds_eq
    rw [hnext, show s.cursor.kind = _ from h.kind_eq]
    rfl

/-- Where a path ends, no relationship is recognized. -/
theorem run_atRelationship_of_ne (hminus : s.cursor.kind ≠ .sign .minus)
    (hlt : s.cursor.kind ≠ .sign .lt) : atRelationship.run setting inner s = .done false s := by
  rw [run_atRelationship, decide_eq_false hminus, decide_eq_false hlt]
  rfl

/-- **A further step of a path is read back.** -/
theorem run_furtherStep_written (hi : inner.GoesOn) (hatoms : ReadsAtoms inner style)
    {further : PatternStep Expression}
    (hw : further.relationship.Writable style ∧ further.node.Writable style)
    (h : s.Passes ((further.strokes style).map (Stroke.kind style)) t) (hc : s.cursor.Closed) :
    ∃ found, (optionally atRelationship step).run setting inner s = .done (some found) t ∧
      strip found = strip further := by
  rw [PatternStep.strokes, List.map_append] at h
  obtain ⟨u, hsu, hut⟩ := State.Passes.of_append h
  have hu : u.cursor.kind = .sign .leftParen :=
    kind_of_passes_node (t := t) (by rwa [List.append_nil])
  obtain ⟨arrow, harrow, hsame⟩ := run_relationship_written setting hi hatoms hw.1
    hsu hc (by rw [hu]; decide)
  obtain ⟨node, hnode, hsames⟩ := run_pathNode_written setting hi hatoms hw.2
    hut (hsu.closed hc)
  refine ⟨⟨arrow, node⟩, ?_, ?_⟩
  · rw [run_optionally_true (run_atRelationship_of_arrow h), Grammar.step, run_bind_done harrow,
      run_bind_done hnode]
    rfl
  · obtain ⟨given, target⟩ := further
    simp [hsame, hsames]

/-- The name of a path, if it has one, with the sign behind it. -/
theorem run_pathName_written (setting : Setting) (inner : Inner) {name : Option Ident}
    (h : s.Passes ((name.toList.flatMap fun x =>
      [Stroke.binder x.value, .other (.sign .eq)]).map (Stroke.kind style)) t)
    (ht : t.cursor.kind = .sign .leftParen) :
    ∃ found, (optionally (atVariableBefore (.sign .eq)) pathName).run setting inner s =
      .done found t ∧ strip found = strip name := by
  rcases name with - | ⟨name, place⟩
  · cases h
    refine ⟨none, run_optionally_false ?_, rfl⟩
    rw [run_atVariableBefore, ht]
    rfl
  · obtain ⟨u, hsu, hut⟩ := State.Passes.of_append (a := [nameWritten style.quotes name]) h
    obtain ⟨span, hrun⟩ := run_variableName_written setting inner hsu
    have hat : (atVariableBefore (.sign .eq)).run setting inner s = .done true s := by
      have hnext : s.cursor.peek 1 = .sign .eq := State.peek_one h.kinds_eq
      rw [run_atVariableBefore, hsu.kind_eq, hnext, isVariable_nameWritten]
      rfl
    refine ⟨some ⟨name, span⟩, ?_, rfl⟩
    rw [run_optionally_true hat, pathName, run_bind_done hrun, run_bind_done (run_move u),
      hut.single]
    rfl

/-- **Where a path ends**: no relationship follows. -/
def EndsPath (s : State) : Prop := s.cursor.kind ≠ .sign .minus ∧ s.cursor.kind ≠ .sign .lt

/-- **A path is read back.** -/
theorem run_patternPart_written (setting : Setting) (hi : inner.GoesOn)
    (hatoms : ReadsAtoms inner style) {part : PatternPart Expression} (hp : part.Writable style)
    (h : s.Passes ((part.strokes style).map (Stroke.kind style)) t) (hc : s.cursor.Closed)
    (ht : EndsPath t) :
    ∃ found, patternPart.run setting inner s = .done found t ∧ strip found = strip part := by
  rw [PatternPart.strokes, List.map_append, List.map_append] at h
  obtain ⟨u, hsu, hut⟩ := State.Passes.of_append h
  obtain ⟨v, huv, hvt⟩ := State.Passes.of_append hut
  have hcu := hsu.closed hc
  obtain ⟨binder, hbinder, hname⟩ :=
    run_pathName_written setting inner hsu (kind_of_passes_node hut)
  obtain ⟨node, hnode, hstart⟩ := run_pathNode_written setting hi hatoms hp.start huv hcu
  rw [List.map_flatMap] at hvt
  obtain ⟨chain, hchain, hrun⟩ := run_many_written (fun _ => True) hi (movesOn_furtherStep hi)
    (fun further hmem _ _ h hc _ => run_furtherStep_written hi hatoms (hp.chain further hmem) h hc)
    (fun _ _ _ _ _ => trivial) hvt (huv.closed hcu) trivial
    (run_optionally_false (run_atRelationship_of_ne ht.1 ht.2)) []
  refine ⟨⟨binder, node, chain, t.cursor.spanFrom s.cursor.current.span.start⟩, ?_, ?_⟩
  · rw [patternPart, startHere, here, run_bind, run_bind, run_look, Outcome.andThen_done, run_pure,
      Outcome.andThen_done, run_bind_done hbinder, run_bind_done hnode, run_bind_done hrun]
    rfl
  · obtain ⟨name, first, steps, place⟩ := part
    simp [hname, hstart, hchain]

/-- **A pattern is read back.** -/
theorem run_pattern_written (setting : Setting) (hi : inner.GoesOn)
    (hatoms : ReadsAtoms inner style) {given : Pattern Expression} (hp : given.Writable style)
    (h : s.Passes ((given.strokes style).map (Stroke.kind style)) t) (hc : s.cursor.Closed)
    (ht : EndsPath t) (hend : t.cursor.kind ≠ .sign .comma) :
    ∃ found, pattern.run setting inner s = .done found t ∧ strip found = strip given := by
  obtain ⟨parts, place⟩ := given
  rcases parts with - | ⟨part, parts⟩
  · exact absurd rfl hp.nonempty
  rw [Pattern.strokes, map_commaWritten] at h
  obtain ⟨found, hfound, hrun⟩ := run_separated_written hi
    (fun a ha _ _ h hc hv => run_patternPart_written setting hi hatoms (hp.parts a ha) h hc hv)
    (fun hk => ⟨by rw [hk]; decide, by rw [hk]; decide⟩) h hc ht hend
  refine ⟨⟨found, t.cursor.spanFrom s.cursor.current.span.start⟩, ?_, ?_⟩
  · rw [pattern, startHere, here, run_bind, run_bind, run_look, Outcome.andThen_done, run_pure,
      Outcome.andThen_done, run_bind_done hrun]
    rfl
  · simp [hfound]

end Grammar

end Cypher
