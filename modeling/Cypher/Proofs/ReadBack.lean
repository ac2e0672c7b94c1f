import Cypher.Proofs.Chain
import Cypher.Proofs.Writing

/-!
# Reading formulas back

An expression is read as an operand and then, for as long as there is something that binds strongly
enough, what goes on with it. A formula is written as a leftmost operand and then the operators of
which everything so far is the left operand. So reading goes up the left edge of the formula: after
the tokens of any formula on that edge, the grammar holds it as a chain, and is about to go on from
there (`Cypher.Grammar.Spine`). Whatever follows the formula has to be too loose for the right
operands that end with it (`Cypher.Formula.edge`).

There is one obstacle. A parenthesis is taken to open a path, rather than a group, when the tokens
after it look like a node, a relationship and another node, and that is judged from a few tokens. A
group for which this happens to be so cannot be read. Everything here is therefore said under the
condition that it happens nowhere (`Cypher.State.Clear`), and that reading fails if it does.
-/

namespace Cypher

variable {setting : Setting} {inner : Inner} {α β : Type}

/-! ### What may follow a formula -/

/-- **Tokens that leave a name before them a variable**: neither arguments nor a brace. -/
def Calm (kinds : List TokenKind) : Prop :=
  kinds.head? ≠ some (.sign .leftBrace) ∧
  ∀ ts : List Token, ts.map Token.kind = kinds → Cursor.argumentsFollow ts = false

theorem calm_cons {kind : TokenKind} (hp : kind ≠ .sign .leftParen) (hb : kind ≠ .sign .leftBrace)
    (hd : kind ≠ .sign .dot) (kinds : List TokenKind) : Calm (kind :: kinds) := by
  refine ⟨fun h => hb (Option.some.inj h), fun ts hts => ?_⟩
  rcases ts with _ | ⟨t, ts⟩
  · cases hts
  · obtain ⟨rfl, -⟩ := List.cons.inj hts
    rcases ts with _ | ⟨u, ts⟩
    · exact decide_eq_false hp
    · rw [Cursor.argumentsFollow, if_neg hp, decide_eq_false hd]
      rfl

theorem calm_dot (kind : TokenKind) {kinds : List TokenKind} (h : Calm kinds) :
    Calm (.sign .dot :: kind :: kinds) := by
  refine ⟨fun he => (by decide : TokenKind.sign .dot ≠ .sign .leftBrace) (Option.some.inj he),
    fun ts hts => ?_⟩
  rcases ts with _ | ⟨t, _ | ⟨u, ts⟩⟩
  · cases hts
  · cases (List.cons.inj hts).2
  · obtain ⟨ht, hts⟩ := List.cons.inj hts
    obtain ⟨-, hts⟩ := List.cons.inj hts
    rw [Cursor.argumentsFollow, if_neg (by rw [ht]; decide)]
    split
    · exact h.2 ts hts
    · rfl

/-! ### Groups that are taken for paths -/

/-- **Tokens among which no parenthesis is taken to open a path.** -/
def State.Clear (setting : Setting) (s : State) : List TokenKind → Prop
  | [] => True
  | _ :: kinds => setting.opensPattern s.cursor = false ∧ s.step.Clear setting kinds

/-- What is taken to open a path hangs on the cursor alone. -/
theorem State.clear_congr (s s' : State) (h : s'.cursor = s.cursor) (kinds : List TokenKind) :
    s'.Clear setting kinds ↔ s.Clear setting kinds := by
  induction kinds generalizing s s' with
  | nil => rfl
  | cons _ kinds ih =>
    rw [Clear, Clear, h]
    exact and_congr_right fun _ => ih _ _ (congrArg Cursor.advance h)

/-- Only a parenthesis is ever taken to open a path. -/
theorem Cursor.opensPattern_of_kind_ne {c : Cursor} (h : c.kind ≠ .sign .leftParen) :
    c.opensPattern = false := by
  rw [opensPattern, decide_eq_false h]
  rfl

theorem State.Passes.clear {s t : State} {kinds : List TokenKind}
    (hset : setting.opensPattern = Cursor.opensPattern) (h : s.Passes kinds t)
    (hk : ∀ kind ∈ kinds, kind ≠ .sign .leftParen) : s.Clear setting kinds := by
  induction h with
  | nil s => trivial
  | cons hkind _ _ ih =>
    refine ⟨?_, ih fun kind hmem => hk kind (List.mem_cons_of_mem _ hmem)⟩
    rw [hset]
    exact Cursor.opensPattern_of_kind_ne (hkind ▸ hk _ List.mem_cons_self)

namespace Grammar

open Rule hiding pure bind

variable {quotes : String → Bool} {s t : State}

/-! ### Names and labels -/

theorem run_symbolicName (setting : Setting) (inner : Inner) {name : String} (what : String)
    (h : s.Passes [nameWritten quotes name] t) :
    ∃ span, (symbolicName what).run setting inner s = .done ⟨name, span⟩ t := by
  obtain rfl := h.single
  have hk : s.cursor.current.kind = nameWritten quotes name := h.kind_eq
  rw [symbolicName, here, run_bind, run_look, Outcome.andThen_done, View.read, hk]
  rcases nameWritten_cases quotes name with hn | hn <;> rw [hn] <;> exact ⟨_, rfl⟩

/-- A label behind what there is, if a colon comes next. -/
theorem run_label (setting : Setting) (inner : Inner) {name : String}
    (h : s.Passes [.sign .colon, nameWritten quotes name] t) :
    ∃ span, (optionally (takeSign .colon) (symbolicName "a label name")).run setting inner s =
      .done (some ⟨name, span⟩) t := by
  obtain ⟨span, hr⟩ := run_symbolicName setting inner "a label name" h.step
  refine ⟨span, ?_⟩
  rw [run_optionally_true (run_consume_of_eq h.kind_eq), hr]
  rfl

theorem run_moreLabels (setting : Setting) (hi : inner.GoesOn) {names : List String}
    (hc : s.cursor.Closed) (h : s.Passes (labelsWritten quotes names) t)
    (ht : t.cursor.kind ≠ .sign .colon) (before : List Ident) :
    ∃ more : List Ident, more.map Located.value = names ∧
      (many (optionally (takeSign .colon) (symbolicName "a label name")) before).run setting inner
        s = .done (before ++ more) t := by
  induction names generalizing s before with
  | nil =>
    cases h
    refine ⟨[], rfl, ?_⟩
    rw [List.append_nil]
    exact run_many_none (run_optionally_false (run_consume_of_ne ht))
  | cons name names ih =>
    obtain ⟨u, hsu, hut⟩ := State.Passes.of_append (a := [.sign .colon, nameWritten quotes name]) h
    obtain ⟨span, hr⟩ := run_label setting inner hsu
    obtain ⟨more, hm, hrun⟩ := ih (hsu.closed hc) hut (before ++ [⟨name, span⟩])
    refine ⟨⟨name, span⟩ :: more, by rw [List.map_cons, hm], ?_⟩
    rw [run_many hi hc fun u _ => movesOn_optionally hi (movesOn_takeSign hi .colon u), hr]
    refine hrun.trans ?_
    rw [List.append_assoc]
    rfl

/-- **Labels are read back.** -/
theorem run_labels (setting : Setting) (hi : inner.GoesOn) {label : String} {names : List String}
    (hc : s.cursor.Closed) (h : s.Passes (labelsWritten quotes (label :: names)) t)
    (ht : t.cursor.kind ≠ .sign .colon) :
    ∃ all : List Ident, all.map Located.value = label :: names ∧
      labels.run setting inner s = .done all t := by
  obtain ⟨more, hm, hrun⟩ := run_moreLabels setting hi hc h ht []
  refine ⟨more, hm, ?_⟩
  rw [labels, run_bind_done hrun]
  cases more with
  | nil => cases hm
  | cons l ls => rfl

/-! ### Operands -/

theorem unaryOperator?_of_isOperand {kind : TokenKind} (h : kind.isOperand = true) :
    unaryOperator? kind = none := by
  cases kind with
  | keyword word => cases h
  | sign sign => cases h
  | _ => rfl

theorem run_leading_of_isOperand (h : s.cursor.kind.isOperand = true) :
    leading.run setting inner s = operand.run setting inner s :=
  run_leading_of_none (unaryOperator?_of_isOperand h)

/-- What a name stands for that nothing calls. -/
theorem run_named {name : String} (h : s.Passes [.identifier name] t) (ht : Calm t.kinds) :
    (named name).run setting inner s = .done (.reference name s.cursor.current.span) t := by
  obtain rfl := h.single
  have hkinds := h.kinds_eq
  have hcall : s.cursor.opensCall = false := ht.2 _ (List.cons.inj hkinds).2
  have hpeek : s.cursor.peek 1 ≠ .sign .leftBrace := by
    rw [State.peek_one hkinds]
    intro he
    rcases hn : s.step.kinds with _ | ⟨k, ks⟩
    · rw [hn] at he
      cases he
    · rw [hn] at he ht
      exact ht.1 (congrArg some he)
  rw [named, run_bind, run_look, Outcome.andThen_done, View.read, hcall, if_neg Bool.false_ne_true]
  split
  · rw [run_bind, run_look, Outcome.andThen_done, View.read, if_neg hpeek]
    rfl
  · rfl

/-- **An operand without operators is read back.** -/
theorem run_leading_operand (setting : Setting) (inner : Inner) {f : Formula}
    (hf : Formula.suffixLevel < f.level)
    (h : s.Passes (f.written quotes) t) (ht : Calm t.kinds) :
    ∃ x, leading.run setting inner s = .done x t ∧ x.formula? = some f := by
  have hlead : ∀ {kind}, s.Passes [kind] t → kind.isOperand = true →
      leading.run setting inner s = operand.run setting inner s := fun h hk =>
    run_leading_of_isOperand (h.kind_eq ▸ hk)
  have hop : ∀ {kind}, s.Passes [kind] t → operand.run setting inner s = _ := fun h => by
    rw [operand, here, run_bind, run_look, Outcome.andThen_done, View.read,
      show s.cursor.current.kind = _ from h.kind_eq]
  cases f with
  | reference name =>
    rw [hlead h (isOperand_nameWritten quotes name), hop h]
    rcases nameWritten_cases quotes name with hn | hn
    · rw [Formula.written, hn] at h
      rw [hn]
      exact ⟨_, run_named h ht, rfl⟩
    · obtain rfl := h.single
      rw [hn]
      exact ⟨_, rfl, rfl⟩
  | parameter name =>
    rw [hlead h rfl, hop h]
    obtain rfl := h.single
    exact ⟨_, rfl, rfl⟩
  | string value =>
    rw [hlead h rfl, hop h]
    obtain rfl := h.single
    exact ⟨_, rfl, rfl⟩
  | integer value =>
    rw [hlead h (isOperand_integer value), hop h]
    obtain rfl := h.single
    refine ⟨.literal (.integer value.val) s.cursor.current.span, ?_, ?_⟩
    · simp only [integerValue?_toString]
      rfl
    · change (if h : value.val < greatestInteger + 1 then some (Formula.integer ⟨value.val, h⟩)
        else none) = _
      rw [dif_pos value.isLt]
  | property => exact absurd hf (Nat.lt_irrefl _)
  | index => exact absurd hf (Nat.lt_irrefl _)
  | hasLabels => exact absurd hf (Nat.lt_irrefl _)
  | unary operator => exact absurd (Nat.lt_trans hf operator.level_lt) (Nat.lt_irrefl _)
  | binary operator =>
    exact absurd (Nat.lt_trans hf operator.level_lt) (by decide)
  | isNull => exact absurd (show Formula.suffixLevel < Formula.testLevel from hf) (by decide)

/-! ### Groups that look like nodes -/

theorem run_nodeLabels_of_ne (h : s.cursor.kind ≠ .sign .colon) :
    nodeLabels.run setting inner s = .done [] s := by
  rw [nodeLabels, run_bind, run_isAt, Outcome.andThen_done, decide_eq_false h]
  rfl

theorem run_nodeLabels_of_eq (h : s.cursor.kind = .sign .colon) :
    nodeLabels.run setting inner s = labels.run setting inner s := by
  rw [nodeLabels, run_bind, run_isAt, Outcome.andThen_done, decide_eq_true h]
  rfl

theorem run_properties_none (hb : s.cursor.kind ≠ .sign .leftBrace)
    (hp : ∀ name, s.cursor.kind ≠ .parameter name) :
    properties.run setting inner s = .done none s := by
  rw [properties, here, run_bind, run_look, Outcome.andThen_done, View.read,
    show s.cursor.current.kind = s.cursor.kind from rfl]
  split
  · next h => exact absurd h hb
  · next name h => exact absurd h (hp name)
  · rfl

/-- What a parenthesis opens hangs on the look ahead alone. -/
theorem run_leading_leftParen (hk : s.cursor.kind = .sign .leftParen) :
    leading.run setting inner s =
      if setting.opensPattern s.cursor then
        (patternPart.run setting inner s).andThen fun part t => .done (.pattern part) t
      else group.run setting inner s := by
  rw [leading, here, run_bind, run_look, Outcome.andThen_done, View.read,
    show s.cursor.current.kind = _ from hk]
  change operand.run setting inner s = _
  rw [operand, here, run_bind, run_look, Outcome.andThen_done, View.read,
    show s.cursor.current.kind = _ from hk]
  change run setting inner (look .opensPattern >>= _) s = _
  rw [run_bind, run_look, Outcome.andThen_done, View.read]
  cases setting.opensPattern s.cursor with
  | true => exact run_bind ..
  | false => rfl

end Grammar

end Cypher
