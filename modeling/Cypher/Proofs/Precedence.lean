import Cypher.Proofs.ReadBack

/-!
# Precedence round-trips

This file climbs the left edge of a formula. `Cypher.Grammar.Spine` says that behind the tokens of a
formula the grammar holds a chain for it and goes on from there, and
`Cypher.Formula.readBack` is the induction: an operand in front of everything, and then one step of
the repetition for each operator of which the formula so far is the left operand. Right operands and
what stands in brackets or parentheses are read one level of nesting deeper, as a whole
(`Cypher.Grammar.reads_nested`).

That a comparison may not take a comparison for its left operand without parentheses is what keeps
chains of comparisons out: the chain held for a formula only remembers a right operand if the
formula is a comparison and stands free.
-/

namespace Cypher

open Grammar Rule

variable {setting : Setting} {inner : Inner} {α β : Type} {quotes : String → Bool}

/-! ### The right edge -/

namespace Formula

/-- **How tightly an operator has to bind to go on with the right edge of a formula** instead of the
whole. -/
def edge : Formula → Nat
  | unary operator _ => operator.strength
  | binary operator _ _ => operator.rightStrength
  | _ => 2 * (suffixLevel + 2)

/-- How deep formulas nest, counting two levels for each. -/
def height : Formula → Nat
  | reference _ | parameter _ | string _ | integer _ => 0
  | property base _ => base.height + 2
  | index base place => max base.height place.height + 2
  | hasLabels base _ _ => base.height + 2
  | unary _ operand => operand.height + 2
  | binary _ left right => max left.height right.height + 2
  | isNull operand _ => operand.height + 2

end Formula

/-! ### Following tokens -/

/-- **What may follow a formula**: nothing that goes on with its right edge, makes a name at its end
more than a variable, or adds to its labels. -/
structure Formula.FollowedBy (f : Formula) (kinds : List TokenKind) : Prop where
  /-- Its right edge ends. -/
  stops : Stops f.edge kinds
  /-- A name at its end is a variable. -/
  calm : Calm kinds
  /-- Its labels end. -/
  labels : f.isLabelTest = true → kinds.head? ≠ some (.sign .colon)

/-- **The tokens that may follow any formula** when it does not stand on the left edge of another: a
parenthesis or a bracket that is closed, or the end. -/
def TokenKind.EndsFormula (kind : TokenKind) : Prop :=
  kind = .sign .rightParen ∨ kind = .sign .rightBracket ∨ kind = .endOfInput

theorem stops_of_endsFormula {kind : TokenKind} (h : kind.EndsFormula) (strength : Nat)
    (kinds : List TokenKind) : Stops strength (kind :: kinds) := by
  rcases h with rfl | rfl | rfl <;> exact ⟨nofun, nofun, nofun⟩

theorem followedBy_of_endsFormula {kind : TokenKind} (h : kind.EndsFormula) (f : Formula)
    (kinds : List TokenKind) : f.FollowedBy (kind :: kinds) := by
  refine ⟨stops_of_endsFormula h _ _, ?_, fun _ he => ?_⟩
  · rcases h with rfl | rfl | rfl <;> exact calm_cons (by decide) (by decide) (by decide) _
  · rcases h with rfl | rfl | rfl <;> cases he

namespace Grammar

variable {strength : Nat} {s t u : State} {f g : Formula} {ok ok' : Prop} {free : Bool}

/-! ### Climbing the left edge -/

/-- The chain that an expression begins as, and goes on as. -/
def chainOf (strength : Nat) : Rule Chain := do
  let first ← leading
  loop (continuation strength) ⟨first, none⟩

theorem run_expressionOf (strength : Nat) (s : State) :
    (expressionOf strength).run setting inner s =
      ((chainOf strength).run setting inner s).andThen fun chain t => .done chain.tree t := by
  rw [expressionOf, chainOf, run_bind, run_bind]
  rcases leading.run setting inner s with ⟨first, t⟩ | ⟨d, t⟩
  · exact run_bind ..
  · rfl

/-- **Behind the tokens of a formula the grammar holds a chain for it**, and goes on from there, if
a condition holds; otherwise it has failed. The chain remembers a right operand at most if the
formula is a comparison that stands free. -/
def Spine (setting : Setting) (inner : Inner) (strength : Nat) (s t : State) (ok : Prop)
    (f : Formula) (free : Bool) : Prop :=
  (ok → ∃ chain : Chain, chain.tree.formula? = some f ∧
    (chain.last.isSome = true → f.isComparison = true ∧ free = true) ∧
    (chainOf strength).run setting inner s =
      (loop (continuation strength) chain).run setting inner t) ∧
  (¬ok → ∃ d u, (chainOf strength).run setting inner s = .failed d u)

theorem Spine.congr (h : Spine setting inner strength s t ok f free) (hok : ok ↔ ok') :
    Spine setting inner strength s t ok' f free := propext hok ▸ h

/-- The spine of what is read as a whole. -/
theorem spine_of_leading
    (h : (leading.run setting inner s).ReadsIff ok t fun x => x.formula? = some f) :
    Spine setting inner strength s t ok f free := by
  refine ⟨fun hok => ?_, fun hok => ?_⟩
  · obtain ⟨x, hr, hx⟩ := h.1 hok
    exact ⟨⟨x, none⟩, hx, nofun, run_bind_done hr⟩
  · obtain ⟨d, u, hr⟩ := h.2 hok
    exact ⟨d, u, run_bind_failed hr⟩

/-- What a step makes of the chain for a formula: the chain for a larger one. -/
def Extends (g : Formula) (next : Option Chain) : Prop :=
  ∃ chain : Chain, next = some chain ∧ chain.tree.formula? = some g ∧
    (chain.last.isSome = true → g.isComparison = true)

/-- **One step up the left edge.** -/
theorem Spine.goOn (h : Spine setting inner strength s t ok f free) (hi : inner.GoesOn)
    (hc : t.cursor.Closed)
    (hn : ∀ chain : Chain, chain.tree.formula? = some f →
      (chain.last.isSome = true → f.isComparison = true ∧ free = true) →
      ((continuation strength chain).run setting inner t).ReadsIff ok' u (Extends g)) :
    Spine setting inner strength s u (ok ∧ ok') g true := by
  have hloop : ∀ chain, (loop (continuation strength) chain).run setting inner t = _ :=
    run_loop hi hc fun chain v _ => movesOn_continuation hi strength chain v
  refine ⟨fun ⟨hok, hok'⟩ => ?_, fun hnot => ?_⟩
  · obtain ⟨chain, hf, hlast, hr⟩ := h.1 hok
    obtain ⟨_, hstep, chain', rfl, hg, hlast'⟩ := (hn chain hf hlast).1 hok'
    refine ⟨chain', hg, fun hl => ⟨hlast' hl, rfl⟩, ?_⟩
    rw [hr, hloop, hstep]
    rfl
  · by_cases hok : ok
    · obtain ⟨chain, hf, hlast, hr⟩ := h.1 hok
      obtain ⟨d, v, hstep⟩ := (hn chain hf hlast).2 fun hok' => hnot ⟨hok, hok'⟩
      refine ⟨d, v, ?_⟩
      rw [hr, hloop, hstep]
      rfl
    · exact h.2 hok

/-- **The top of the left edge**: nothing goes on with the formula. -/
theorem Spine.readsIff (h : Spine setting inner strength s t ok f free)
    (ht : Stops strength t.kinds) :
    ((expressionOf strength).run setting inner s).ReadsIff ok t fun x => x.formula? = some f := by
  rw [run_expressionOf]
  refine ⟨fun hok => ?_, fun hok => ?_⟩
  · obtain ⟨chain, hf, -, hr⟩ := h.1 hok
    rw [hr, run_loop_none (run_of_continues (.stop ht))]
    exact ⟨chain.tree, rfl, hf⟩
  · obtain ⟨d, u, hr⟩ := h.2 hok
    rw [hr]
    exact ⟨d, u, rfl⟩

/-! ### Operands one level deeper -/

/-- **A formula that is read back** wherever it stands, with enough room for nesting: the grammar
gets past its tokens if none of its parentheses is taken to open a path. -/
def ReadsBack (setting : Setting) (quotes : String → Bool) (f : Formula) : Prop :=
  ∀ {room strength : Nat} {s t : State}, f.height ≤ room → s.Passes (f.written quotes) t →
    s.cursor.Closed → strength ≤ 2 * f.level + 1 → f.FollowedBy t.kinds →
    Spine setting (runNested setting body room) strength s t (s.Clear setting (f.written quotes))
      f true

/-- What is read on the left edge can be read as a whole, one level deeper. -/
theorem reads_nested {room : Nat} (hst : t.depth = s.depth)
    (h : ∀ depth, Spine setting (runNested setting body room) strength
      { s with depth := depth } { t with depth := depth } ok f free)
    (ht : Stops strength t.kinds) :
    (runNested setting body (room + 1) (.expression strength) s).ReadsIff ok t
      fun x => x.formula? = some f := by
  have hmap := ((h (s.depth + 1)).readsIff ht).mapState
    (f := fun u => { u with depth := u.depth - 1 })
  rw [runNested_succ]
  have hback : { t with depth := s.depth + 1 - 1 } = t := by rw [Nat.add_sub_cancel, ← hst]
  exact hback ▸ hmap

theorem ReadsBack.reads_nested (h : ReadsBack setting quotes f) (strength : Nat) {room : Nat}
    (hroom : f.height ≤ room)
    (hp : s.Passes (f.written quotes) t) (hc : s.cursor.Closed)
    (hs : strength ≤ 2 * f.level + 1) (hf : f.FollowedBy t.kinds) (ht : Stops strength t.kinds) :
    (runNested setting body (room + 1) (.expression strength) s).ReadsIff
      (s.Clear setting (f.written quotes)) t fun x => x.formula? = some f :=
  Grammar.reads_nested hp.depth_eq (fun depth => (h hroom (hp.deeper depth) hc hs hf).congr
    (State.clear_congr s { s with depth := depth } rfl _)) ht

variable {chain : Chain}

theorem run_continuation_of_opensSuffix (hk : opensSuffix t.cursor.kind = true)
    (hs : strength ≤ suffixStrength) :
    (continuation strength chain).run setting inner t =
      ((suffix chain.tree).run setting inner t).andThen fun x u => .done (some ⟨x, none⟩) u := by
  rw [continuation, here, run_bind, run_look, Outcome.andThen_done]
  change run setting inner (if opensSuffix t.cursor.kind = true then _ else _) t = _
  rw [if_pos hk, if_neg (Nat.not_lt_of_le hs)]
  exact run_bind ..

/-- A suffix goes on with a formula. -/
theorem step_of_suffix (hk : opensSuffix t.cursor.kind = true) (hs : strength ≤ suffixStrength)
    (h : ((suffix chain.tree).run setting inner t).ReadsIff ok u fun x => x.formula? = some g) :
    ((continuation strength chain).run setting inner t).ReadsIff ok u (Extends g) := by
  rw [run_continuation_of_opensSuffix hk hs]
  refine ⟨fun hok => ?_, fun hok => ?_⟩
  · obtain ⟨x, hr, hx⟩ := h.1 hok
    rw [hr]
    exact ⟨some ⟨x, none⟩, rfl, ⟨x, none⟩, rfl, hx, nofun⟩
  · obtain ⟨d, v, hr⟩ := h.2 hok
    rw [hr]
    exact ⟨d, v, rfl⟩

theorem run_suffix_dot {base : Expression} (hk : t.cursor.kind = .sign .dot) :
    (suffix base).run setting inner t =
      ((symbolicName "a property name").run setting inner t.step).andThen fun key u =>
        .done (.property base key ⟨base.span.start, key.span.stop⟩) u := by
  rw [suffix, here, run_bind, run_look, Outcome.andThen_done, View.read,
    show t.cursor.current.kind = _ from hk]
  exact (run_bind_done (run_move _)).trans (run_bind ..)

theorem run_suffix_colon {base : Expression} (hk : t.cursor.kind = .sign .colon) :
    (suffix base).run setting inner t =
      (labels.run setting inner t).andThen fun names u =>
        .done (.hasLabels base names (u.cursor.spanFrom base.span.start)) u := by
  rw [suffix, here, run_bind, run_look, Outcome.andThen_done, View.read,
    show t.cursor.current.kind = _ from hk]
  exact run_bind ..

theorem reads_property {base : Expression} {key : String} (hb : base.formula? = some f)
    (hp : t.Passes [.sign .dot, nameWritten quotes key] u) :
    ((suffix base).run setting inner t).ReadsIff True u fun x =>
      x.formula? = some (.property f key) := by
  obtain ⟨span, hr⟩ := run_symbolicName setting inner "a property name" hp.step
  rw [run_suffix_dot hp.kind_eq, hr]
  refine .done ?_
  rw [Expression.formula?, hb]
  rfl

/-- A token that begins a formula is no range, nor anything that only the start of a clause may
be. -/
theorem kind_of_passes_written (f : Formula) {kinds : List TokenKind}
    (h : s.Passes (f.written quotes ++ kinds) t) :
    s.cursor.kind.opensOperand = true ∨ s.cursor.kind.isOperand = true := by
  obtain ⟨kind, more, hw, hk⟩ := f.exists_written_eq_cons quotes
  rw [hw] at h
  rwa [h.kind_eq]

theorem kind_of_passes_enclosed {needed : Bool}
    (h : s.Passes (enclosed needed (f.written quotes)) t) :
    s.cursor.kind.opensOperand = true ∨ s.cursor.kind.isOperand = true := by
  cases needed with
  | true =>
    rw [State.Passes.kind_eq h]
    exact Or.inl rfl
  | false =>
    rw [enclosed, if_neg Bool.false_ne_true, ← List.append_nil (f.written quotes)] at h
    exact kind_of_passes_written f h

end Grammar

end Cypher
