import Cypher.Proofs.Blocks

/-!
# Cursors stay within their tokens

A cursor is a place in a list of tokens. It holds the tokens on either side of it, so that it can be
moved and read without counting; but what is said about it is often said by counting: that it is at
a position, that some token is so many places ahead. Both views agree. All tokens around a cursor in
order are `Cypher.Cursor.tokens`, and the token at the cursor, the one just behind and those ahead
are found in this list at the positions that one would expect, with the last token for all positions
beyond the end (`Cypher.Cursor.InRange`). None of these positions is outside the list.

Whatever is done with a cursor, the list stays the same, and there is a rule for the position
(`Cypher.Cursor.Operation.Orderly`). To find a position from where one is means to go back to the
first token and then forward, so that the two ways are followed first.
-/

namespace Cypher

variable {setting : Setting} {inner : Inner}

namespace Cursor

/-! ### Positions -/

theorem length_tokens (c : Cursor) : c.tokens.length = c.position + c.ahead.length + 1 := by
  simp only [tokens, rest, position, List.length_append, List.length_reverse, List.length_cons]
  omega

/-- The tokens from the cursor on, by their positions. -/
theorem getElem?_tokens_add (c : Cursor) (n : Nat) :
    c.tokens[c.position + n]? = c.rest[n]? := by
  rw [tokens, List.getElem?_append_right (by simp [position])]
  simp [position]

theorem getElem?_tokens_position (c : Cursor) : c.tokens[c.position]? = some c.current :=
  c.getElem?_tokens_add 0

/-- The token just behind the cursor, by its position. -/
theorem getElem?_tokens_pred {c : Cursor} {t : Token} {ts : List Token} (h : c.behind = t :: ts) :
    c.tokens[c.position - 1]? = some t := by
  rw [tokens, position, h, List.reverse_cons, List.append_assoc,
    List.getElem?_append_right (by simp)]
  simp

/-- Of some tokens, the one at a place, or the last. -/
theorem getElem?_kindAt (t : Token) (ts : List Token) (n : Nat) :
    ((t :: ts)[min n ts.length]?).map Token.kind = some (kindAt t ts n) := by
  induction ts generalizing t n with
  | nil => cases n <;> simp [kindAt]
  | cons u us ih =>
    cases n with
    | zero => simp [kindAt]
    | succ n =>
      rw [kindAt, ← ih u n, List.length_cons, Nat.add_min_add_right, List.getElem?_cons_succ]

theorem getElem?_peek (c : Cursor) (n : Nat) :
    (c.tokens[min (c.position + n) (c.tokens.length - 1)]?).map Token.kind = some (c.peek n) := by
  have hindex : min (c.position + n) (c.tokens.length - 1) =
      c.position + min n c.ahead.length := by
    rw [length_tokens]
    omega
  rw [hindex, getElem?_tokens_add]
  exact getElem?_kindAt c.current c.ahead n

/-! ### Moving -/

theorem tokens_advance (c : Cursor) : c.advance.tokens = c.tokens := by
  unfold advance
  split
  · rfl
  · next t ts ha => simp [tokens, rest, ha]

theorem position_advance (c : Cursor) :
    c.advance.position = min (c.position + 1) (c.tokens.length - 1) := by
  rw [length_tokens]
  unfold advance position
  split
  · next ha => simp [ha]
  · next t ts ha =>
    rw [ha, List.length_cons, List.length_cons]
    omega

/-- All tokens are ahead of the first. -/
theorem back_eq (behind : List Token) (current : Token) (ahead : List Token) :
    (back behind current ahead).1 :: (back behind current ahead).2 =
      behind.reverse ++ current :: ahead := by
  induction behind generalizing current ahead with
  | nil => rfl
  | cons t ts ih =>
    rw [back, ih, List.reverse_cons, List.append_assoc]
    rfl

theorem tokens_forward (behind : List Token) (current : Token) (ahead : List Token) (n : Nat) :
    (forward behind current ahead n).tokens = behind.reverse ++ current :: ahead := by
  fun_induction forward behind current ahead n with
  | case1 behind current ahead => rfl
  | case2 behind current n => rfl
  | case3 behind current t ts n ih =>
    rw [ih, List.reverse_cons, List.append_assoc]
    rfl

theorem position_forward (behind : List Token) (current : Token) (ahead : List Token) (n : Nat) :
    (forward behind current ahead n).position = behind.length + min n ahead.length := by
  fun_induction forward behind current ahead n with
  | case1 behind current ahead => simp [position]
  | case2 behind current n => simp [position]
  | case3 behind current t ts n ih =>
    rw [ih, List.length_cons, List.length_cons]
    omega

theorem tokens_seek (c : Cursor) (n : Nat) : (c.seek n).tokens = c.tokens :=
  (tokens_forward [] _ _ n).trans (back_eq c.behind c.current c.ahead)

theorem position_seek (c : Cursor) (n : Nat) :
    (c.seek n).position = min n (c.tokens.length - 1) := by
  have hlength := congrArg List.length (back_eq c.behind c.current c.ahead)
  rw [List.length_cons] at hlength
  change (forward [] _ _ n).position = _
  rw [position_forward, List.length_nil, Nat.zero_add, tokens, rest, ← hlength,
    Nat.add_sub_cancel]

/-! ### At the start -/

/-- Some tokens, closed by an end token if the last of them is none. -/
theorem closed_eq (t : Token) (ts : List Token) :
    closed t ts = if ((t :: ts).getLast (List.cons_ne_nil t ts)).kind = .endOfInput then ts
      else ts ++ [endAfter ((t :: ts).getLast (List.cons_ne_nil t ts))] := by
  induction ts generalizing t with
  | nil => rfl
  | cons u us ih =>
    rw [closed, ih, List.getLast_cons_cons]
    split <;> rfl

/-- **The tokens around a cursor at the start** are those given, but for those that were reported
when they were found; and if none of these ends them, an end token behind the last. -/
theorem tokens_ofTokens (tokens : List Token) :
    (ofTokens tokens).tokens =
      let kept := tokens.filter fun t => t.kind ≠ .invalid
      match kept.getLast? with
      | none => [Piece.endToken .origin]
      | some last => if last.kind = .endOfInput then kept else kept ++ [endAfter last] := by
  unfold ofTokens
  cases tokens.filter fun t => t.kind ≠ .invalid with
  | nil => rfl
  | cons t ts =>
    dsimp only
    rw [List.getLast?_eq_some_getLast (List.cons_ne_nil t ts)]
    change t :: closed t ts = _
    rw [closed_eq]
    dsimp only
    split <;> rfl

/-- No token around the cursor at the start is one that was reported when it was found. -/
theorem kind_ne_invalid_of_mem_ofTokens {tokens : List Token} {t : Token}
    (h : t ∈ (ofTokens tokens).tokens) : t.kind ≠ .invalid := by
  have hkept : ∀ u ∈ tokens.filter (fun t => t.kind ≠ .invalid), u.kind ≠ .invalid := fun u hu =>
    of_decide_eq_true (List.mem_filter.1 hu).2
  rw [tokens_ofTokens] at h
  dsimp only at h
  split at h
  · rw [List.mem_singleton.1 h]
    exact TokenKind.noConfusion
  · next last _ =>
    split at h
    · exact hkept t h
    · rcases List.mem_append.1 h with h | h
      · exact hkept t h
      · rw [List.mem_singleton.1 h]
        exact TokenKind.noConfusion

/-- A cursor is closed if the last of all tokens around it is the end of the text. -/
theorem closed_iff (c : Cursor) :
    c.Closed ↔ ∃ t, c.tokens.getLast? = some t ∧ t.kind = .endOfInput := by
  have hlast : c.tokens.getLast? = some (c.rest.getLast c.rest_ne_nil) := by
    rw [tokens, List.getLast?_append, List.getLast?_eq_some_getLast c.rest_ne_nil]
    rfl
  rw [hlast]
  constructor
  · intro h
    exact ⟨_, rfl, h _ (List.getLast?_eq_some_getLast c.rest_ne_nil)⟩
  · rintro ⟨t, ht, hkind⟩ u hu
    obtain rfl : u = t := Option.some.inj
      (hu.symm.trans ((List.getLast?_eq_some_getLast c.rest_ne_nil).trans ht))
    exact hkind

/-! ### Cursors in range -/

/-- **A cursor that is in range.** The position is one of the list of its tokens, which ends with an
end token and has none that was reported before; whatever is looked at has a position in this list
too, or that of the last token for want of it. -/
structure InRange (c : Cursor) : Prop where
  /-- The position is one of the list. -/
  position : c.position < c.tokens.length
  /-- The list ends with an end token. -/
  last : ∃ t, c.tokens.getLast? = some t ∧ t.kind = .endOfInput
  /-- There is no token in it that was reported when it was found. -/
  proper : ∀ t ∈ c.tokens, t.kind ≠ .invalid
  /-- The token at the cursor has the position of the cursor. -/
  current : c.tokens[c.position]? = some c.current
  /-- A kind is looked up at the position that many places ahead, or at the last. -/
  peek : ∀ n, (c.tokens[min (c.position + n) (c.tokens.length - 1)]?).map Token.kind =
    some (c.peek n)
  /-- The span just behind is that of the token at the position before. -/
  previous : 0 < c.position → (c.tokens[c.position - 1]?).map Token.span = some c.previousSpan
  /-- At the first position, it is empty. -/
  first : c.position = 0 → c.previousSpan = .empty c.current.span.start
  /-- A span that goes on to the token just behind is not reversed. -/
  spanFrom : ∀ start, (c.spanFrom start).start = start ∧ start ≤ (c.spanFrom start).stop

theorem inRange {c : Cursor} (hc : c.Closed) (hp : ∀ t ∈ c.tokens, t.kind ≠ .invalid) :
    c.InRange where
  position := by
    rw [length_tokens]
    omega
  last := (closed_iff c).1 hc
  proper := hp
  current := c.getElem?_tokens_position
  peek := c.getElem?_peek
  previous h := by
    obtain ⟨t, ts, hb⟩ := List.exists_cons_of_length_pos h
    rw [getElem?_tokens_pred hb, previousSpan, hb]
    rfl
  first h := by
    rw [previousSpan, List.length_eq_zero_iff.1 h]
  spanFrom start := ⟨rfl, Nat.le_max_right _ _⟩

/-! ### Operations -/

/-- **What can be done with a cursor.** -/
inductive Operation
  /-- Moves on. -/
  | advance
  /-- Moves past a token of a kind, if there is one at the cursor. -/
  | consume (kind : TokenKind)
  /-- Moves past a token of a kind, which has to be at the cursor. -/
  | expect (kind : TokenKind)
  /-- Moves past a reserved word, if it is at the cursor. -/
  | takeWord (word : Keyword)
  /-- Moves past a reserved word, which has to be at the cursor. -/
  | expectWord (word : Keyword)
  /-- Moves to a position. -/
  | seek (n : Nat)

namespace Operation

/-- Whether a run succeeds, judged by what has been read, and the state in which it ends. -/
def ended {α : Type} (succeeds : α → Bool) : Outcome α → Bool × State
  | .done a s => (succeeds a, s)
  | .failed _ s => (false, s)

/-- Whether an operation succeeds, and the state to which it leads. -/
def run (setting : Setting) (inner : Inner) : Operation → State → Bool × State
  | advance, s => ended (fun _ => true) (Rule.advance.run setting inner s)
  | consume kind, s => ended id ((Rule.consume kind).run setting inner s)
  | expect kind, s => ended (fun _ => true) ((Rule.expect kind).run setting inner s)
  | takeWord word, s => ended id ((Rule.takeWord word).run setting inner s)
  | expectWord word, s => ended (fun _ => true) ((Rule.expectWord word).run setting inner s)
  | seek n, s => (true, { s with cursor := s.cursor.seek n })

/-- The state behind some operations, one after the other. -/
def runAll (setting : Setting) (inner : Inner) (operations : List Operation) (s : State) : State :=
  operations.foldl (fun s operation => (operation.run setting inner s).2) s

/-- The kind of token that an operation asks for. -/
def asked? : Operation → Option TokenKind
  | advance => none
  | consume kind => some kind
  | expect kind => some kind
  | takeWord word => some (.keyword word)
  | expectWord word => some (.keyword word)
  | seek _ => none

/-- The position to which an operation moves wherever it starts. -/
def target? : Operation → Option Nat
  | seek n => some n
  | _ => none

variable {s : State} {operation : Operation}

theorem run_consume (kind : TokenKind) (s : State) :
    ended id ((Rule.consume kind).run setting inner s) =
      if s.cursor.kind = kind then (true, s.step) else (false, s) := by
  split
  · next h => rw [Rule.run_consume_of_eq h]; rfl
  · next h => rw [Rule.run_consume_of_ne h]; rfl

theorem run_expect (kind : TokenKind) (s : State) :
    ended (fun _ => true) ((Rule.expect kind).run setting inner s) =
      if s.cursor.kind = kind then (true, s.step) else (false, s) := by
  split
  · next h => rw [Rule.run_expect_of_eq h]; rfl
  · next h => rw [Rule.run_expect_of_ne h]; rfl

theorem eq_seek_of_target? {n : Nat} (h : operation.target? = some n) : operation = .seek n := by
  cases operation with
  | seek m => rw [Option.some.inj h]
  | _ => cases h

/-- **What an operation comes to**: a jump, a step if the token at the cursor is of the kind asked
for, or nothing. -/
theorem run_eq (operation : Operation) (s : State) :
    operation.run setting inner s =
      match operation.target? with
      | some n => (true, { s with cursor := s.cursor.seek n })
      | none =>
        if ∀ kind ∈ operation.asked?, s.cursor.kind = kind then (true, s.step) else (false, s) := by
  cases operation with
  | advance => rfl
  | consume kind => exact (run_consume kind s).trans (by simp [asked?, target?])
  | expect kind => exact (run_expect kind s).trans (by simp [asked?, target?])
  | takeWord word => exact (run_consume (.keyword word) s).trans (by simp [asked?, target?])
  | expectWord word => exact (run_expect (.keyword word) s).trans (by simp [asked?, target?])
  | seek n => rfl

/-- **An operation that is in order** in a state: it fails where the token at the cursor is of
another kind than it asks for, and then it does nothing; a step moves on by one position, unless it
is the last one; a jump moves to the position given, or to the last one; and the tokens stay. -/
structure Orderly (setting : Setting) (inner : Inner) (operation : Operation) (s : State) :
    Prop where
  /-- When an operation succeeds. -/
  succeeds : (operation.run setting inner s).1 = true ↔
    ∀ kind ∈ operation.asked?, s.cursor.kind = kind
  /-- An operation that fails does nothing. -/
  failed : (operation.run setting inner s).1 = false → (operation.run setting inner s).2 = s
  /-- A step moves on by one, unless it is from the last position. -/
  step : operation.target? = none → (operation.run setting inner s).1 = true →
    (operation.run setting inner s).2.cursor.position =
      if s.cursor.position + 1 < s.cursor.tokens.length then s.cursor.position + 1
      else s.cursor.position
  /-- A jump moves to the position given, unless this is behind the last. -/
  jump : ∀ n ∈ operation.target?, (operation.run setting inner s).2.cursor.position =
    min n (s.cursor.tokens.length - 1)
  /-- The tokens stay. -/
  tokens : (operation.run setting inner s).2.cursor.tokens = s.cursor.tokens

/-- **Every operation is in order**, in every state. -/
theorem orderly (setting : Setting) (inner : Inner) (operation : Operation) (s : State) :
    operation.Orderly setting inner s := by
  cases ht : operation.target? with
  | some n =>
    obtain rfl := eq_seek_of_target? ht
    exact {
      succeeds := iff_of_true rfl nofun
      failed := nofun
      step := nofun
      jump := by
        rintro m ⟨⟩
        exact position_seek s.cursor n
      tokens := tokens_seek s.cursor n }
  | none =>
    have hjump {p : Nat → Prop} : ∀ n ∈ operation.target?, p n := by
      rw [ht]
      exact nofun
    by_cases hasked : ∀ kind ∈ operation.asked?, s.cursor.kind = kind
    · have hrun : operation.run setting inner s = (true, s.step) := by
        rw [run_eq, ht]
        exact if_pos hasked
      exact {
        succeeds := by
          rw [hrun]
          exact iff_of_true rfl hasked
        failed := by
          rw [hrun]
          exact nofun
        step := by
          intro _ _
          have hlt : s.cursor.position < s.cursor.tokens.length := by
            rw [length_tokens]
            omega
          have hposition : s.step.cursor.position = _ := position_advance s.cursor
          rw [hrun, hposition]
          split <;> omega
        jump := hjump
        tokens := by
          rw [hrun]
          exact tokens_advance s.cursor }
    · have hrun : operation.run setting inner s = (false, s) := by
        rw [run_eq, ht]
        exact if_neg hasked
      exact {
        succeeds := by
          rw [hrun]
          exact iff_of_false Bool.false_ne_true hasked
        failed := by
          rw [hrun]
          exact fun _ => rfl
        step := by
          rw [hrun]
          exact nofun
        jump := hjump
        tokens := by rw [hrun] }

theorem tokens_runAll (operations : List Operation) (s : State) :
    (runAll setting inner operations s).cursor.tokens = s.cursor.tokens := by
  induction operations generalizing s with
  | nil => rfl
  | cons operation operations ih =>
    exact (ih _).trans (orderly setting inner operation s).tokens

/-- **Whatever is done with a cursor, it stays in range** of the tokens it was made from. -/
theorem inRange_runAll (setting : Setting) (inner : Inner) (tokens : List Token)
    (operations : List Operation) :
    (runAll setting inner operations (.start tokens)).cursor.tokens =
        (ofTokens tokens).tokens ∧
      (runAll setting inner operations (.start tokens)).cursor.Closed ∧
      (runAll setting inner operations (.start tokens)).cursor.InRange := by
  have htokens : (runAll setting inner operations (.start tokens)).cursor.tokens =
      (ofTokens tokens).tokens := tokens_runAll operations (.start tokens)
  have hclosed : (runAll setting inner operations (.start tokens)).cursor.Closed := by
    rw [closed_iff, htokens]
    exact (closed_iff _).1 (closed_ofTokens tokens)
  refine ⟨htokens, hclosed, inRange hclosed ?_⟩
  rw [htokens]
  exact fun t => kind_ne_invalid_of_mem_ofTokens

end Operation

end Cursor

end Cypher
