import Cypher.Proofs.Range

/-!
# Searches come to an end

Three searches go on from token to token without counting them: the one for the bracket that closes
another, the one for the argument list behind a name, and the one for a token at which reading can
be taken up again. The functions that the grammar asks follow the list of the tokens ahead, and end
where it ends. A search that only has the cursor to go by does not see the end of the list: beyond
the last token it finds the last token again, as often as it looks.

So each search is written down once more round by round, with nothing but a look a number of places
ahead (`Cypher.Cursor.closeRound`, `Cypher.Cursor.callRound`) or a move to the next token
(`Cypher.Cursor.resumeRound`). The rounds come to an end because the last token is the end of the
text, at which each of the searches stops, and they arrive at the same result
(`Cypher.Cursor.Searchable`). This holds of every cursor that is made from some tokens and moved
about among them (`Cypher.Cursor.kept_in_range`).
-/

namespace Cypher

/-- **A repetition that comes to an end** with a result, after no more than a number of rounds,
given what a round makes of a state: another state, or the result. -/
inductive Terminates {σ ρ : Type} (round : σ → σ ⊕ ρ) : Nat → σ → ρ → Prop
  | stop {rounds : Nat} {s : σ} {r : ρ} (h : round s = .inr r) : Terminates round (rounds + 1) s r
  | next {rounds : Nat} {s t : σ} {r : ρ} (h : round s = .inl t)
    (ht : Terminates round rounds t r) : Terminates round (rounds + 1) s r

theorem Terminates.mono {σ ρ : Type} {round : σ → σ ⊕ ρ} {n m : Nat} {s : σ} {r : ρ}
    (h : Terminates round n s r) (hle : n ≤ m) : Terminates round m s r := by
  induction h generalizing m with
  | stop h =>
    obtain ⟨m, rfl⟩ := Nat.exists_eq_add_of_lt hle
    exact .stop h
  | next h _ ih =>
    obtain ⟨m, rfl⟩ := Nat.exists_eq_add_of_lt hle
    exact .next h (ih (by omega))

namespace Cursor

/-! ### Looking further and further ahead -/

/-- The kind of a token that is as many places ahead. -/
theorem peek_of_drop {c : Cursor} {n : Nat} {t : Token} {ts : List Token}
    (h : c.rest.drop n = t :: ts) : c.peek n = t.kind := by
  have hlt : n < c.rest.length := Nat.lt_of_not_le fun hle => by
    rw [List.drop_eq_nil_of_le hle] at h
    cases h
  have hget : c.rest[n]? = some t := by
    rw [← List.head?_drop, h]
    rfl
  have hpeek := getElem?_kindAt c.current c.ahead n
  rw [Nat.min_eq_left (Nat.le_of_lt_succ hlt)] at hpeek
  change c.rest[n]?.map Token.kind = some (c.peek n) at hpeek
  rw [hget] at hpeek
  exact (Option.some.inj hpeek).symm

/-- Beyond the last token, there is nothing but the end of the text. -/
theorem peek_of_drop_nil {c : Cursor} {n : Nat} (hc : c.Closed) (h : c.rest.drop n = []) :
    c.peek n = .endOfInput := by
  have hle : c.rest.length ≤ n := List.drop_eq_nil_iff.1 h
  have hlast : c.rest[c.ahead.length]? = c.rest.getLast? := List.getLast?_eq_getElem?.symm
  have hpeek := getElem?_kindAt c.current c.ahead n
  rw [Nat.min_eq_right (Nat.le_of_succ_le hle)] at hpeek
  change c.rest[c.ahead.length]?.map Token.kind = some (c.peek n) at hpeek
  rw [hlast, List.getLast?_eq_some_getLast c.rest_ne_nil] at hpeek
  rw [← Option.some.inj hpeek]
  exact hc _ (List.getLast?_eq_some_getLast c.rest_ne_nil)

theorem drop_succ {c : Cursor} {n : Nat} {t : Token} {ts : List Token}
    (h : c.rest.drop n = t :: ts) : c.rest.drop (n + 1) = ts := by
  rw [← List.drop_drop, h]
  rfl

/-! ### The search for a closing bracket -/

/-- **One round of the search for a closing bracket**, with some brackets open and a token looked at
that is some places ahead. It stops with the place of the bracket that closes the outermost one, or
with nothing. -/
def closeRound (c : Cursor) : Nat × Nat → (Nat × Nat) ⊕ Option Nat
  | (depth, place) =>
    if (c.peek place).isOpening then .inl (depth + 1, place + 1)
    else if (c.peek place).isClosing then
      match depth with
      | 0 => .inr none
      | 1 => .inr (some place)
      | depth + 2 => .inl (depth + 1, place + 1)
    else if c.peek place = .endOfInput then .inr none
    else .inl (depth, place + 1)

theorem closeRound_of_end {c : Cursor} {place : Nat} (h : c.peek place = .endOfInput)
    (depth : Nat) : c.closeRound (depth, place) = .inr none := by
  simp [closeRound, h, TokenKind.isOpening, TokenKind.isClosing]

theorem terminates_closeRound {c : Cursor} (hc : c.Closed) {ts : List Token} {place : Nat}
    (depth : Nat) (h : c.rest.drop place = ts) :
    ∃ close, Terminates c.closeRound (ts.length + 1) (depth, place) close ∧
      afterClose depth ts = close.map fun place => c.rest.drop (place + 1) := by
  -- one round for each token that the search along the list passes, and one at its end
  fun_induction afterClose depth ts generalizing place with
  | case1 depth =>
    exact ⟨none, .stop (closeRound_of_end (peek_of_drop_nil hc h) depth), rfl⟩
  | case2 depth t ts hopen ih =>
    obtain ⟨close, hend, heq⟩ := ih (drop_succ h)
    exact ⟨close, .next (by simp [closeRound, peek_of_drop h, hopen]) hend, heq⟩
  | case3 t ts hopen hclose =>
    exact ⟨none, .stop (by simp [closeRound, peek_of_drop h, hopen, hclose]), rfl⟩
  | case4 t ts hopen hclose =>
    refine ⟨some place, .stop (by simp [closeRound, peek_of_drop h, hopen, hclose]), ?_⟩
    rw [Option.map_some, drop_succ h]
  | case5 t ts hopen hclose depth ih =>
    obtain ⟨close, hend, heq⟩ := ih (drop_succ h)
    exact ⟨close, .next (by simp [closeRound, peek_of_drop h, hopen, hclose]) hend, heq⟩
  | case6 depth t ts hopen hclose hk =>
    exact ⟨none, .stop (closeRound_of_end ((peek_of_drop h).trans hk) depth), rfl⟩
  | case7 depth t ts hopen hclose hk ih =>
    obtain ⟨close, hend, heq⟩ := ih (drop_succ h)
    exact ⟨close, .next (by simp [closeRound, peek_of_drop h, hopen, hclose, hk]) hend, heq⟩

/-! ### The search for an argument list -/

/-- **One round of the search for an argument list**, with a token looked at that is some places
ahead. A dot and a further part of the name are passed together. -/
def callRound (c : Cursor) (place : Nat) : Nat ⊕ Bool :=
  if c.peek place = .sign .leftParen then .inr true
  else if c.peek place = .sign .dot ∧ (c.peek (place + 1)).isNamePart then .inl (place + 2)
  else .inr false

theorem terminates_callRound {c : Cursor} (hc : c.Closed) {ts : List Token} {place : Nat}
    (h : c.rest.drop place = ts) :
    Terminates c.callRound (ts.length + 1) place (argumentsFollow ts) := by
  -- a round may look at two tokens, of which the second may be the last one seen again
  fun_induction argumentsFollow ts generalizing place with
  | case1 t u rest hk =>
    exact .stop (if_pos ((peek_of_drop h).trans hk))
  | case2 t u rest hk hdot ih =>
    rw [Bool.and_eq_true, decide_eq_true_eq] at hdot
    have hu := drop_succ h
    have hround : c.callRound place = .inl (place + 2) := by
      rw [callRound, peek_of_drop h, peek_of_drop hu, if_neg hk, if_pos hdot]
    exact .next hround ((ih (drop_succ hu)).mono (Nat.le_succ _))
  | case3 t u rest hk hdot =>
    rw [Bool.and_eq_true, decide_eq_true_eq] at hdot
    have hround : c.callRound place = .inr false := by
      rw [callRound, peek_of_drop h, peek_of_drop (drop_succ h), if_neg hk, if_neg hdot]
    exact .stop hround
  | case4 t =>
    by_cases hk : t.kind = .sign .leftParen
    · rw [decide_eq_true hk]
      exact .stop (if_pos ((peek_of_drop h).trans hk))
    · have hend := peek_of_drop_nil hc (drop_succ h)
      have hround : c.callRound place = .inr false := by
        rw [callRound, peek_of_drop h, hend, if_neg hk,
          if_neg (fun hdot => Bool.noConfusion hdot.2)]
      rw [decide_eq_false hk]
      exact .stop hround
  | case5 =>
    have hround : c.callRound place = .inr false := by
      rw [callRound, peek_of_drop_nil hc h, if_neg TokenKind.noConfusion,
        if_neg (fun hdot => TokenKind.noConfusion hdot.1)]
    exact .stop hround

/-! ### The search for a place to take reading up -/

/-- **One round of the search for a token at which reading can be taken up again**, with some
brackets open. -/
def resumeRound (nested : Bool) : Cursor × Nat → (Cursor × Nat) ⊕ Cursor
  | (c, depth) =>
    if c.kind = .endOfInput then .inr c
    else if depth = 0 && resumesAt nested c.previousKind? c.kind then .inr c
    else .inl (c.advance, depthAfter depth c.kind)

theorem terminates_resumeRound (nested : Bool) {behind ahead : List Token} {current : Token}
    (hc : Closed ⟨behind, current, ahead⟩) (depth : Nat) :
    Terminates (resumeRound nested) (ahead.length + 1) (⟨behind, current, ahead⟩, depth)
      (resumeFrom nested behind current ahead depth) := by
  induction ahead generalizing behind current depth with
  | nil =>
    have hk : current.kind = .endOfInput := hc current rfl
    rw [resumeFrom, if_pos hk]
    exact .stop (if_pos hk)
  | cons t ts ih =>
    rw [resumeFrom]
    split
    · next hk => exact .stop (if_pos hk)
    · next hk =>
      split
      · next hr => exact .stop ((if_neg hk).trans (if_pos hr))
      · next hr => exact .next ((if_neg hk).trans (if_neg hr)) (ih hc.advance _)

/-! ### All in all -/

/-- **A cursor on which searches come to an end**, each within as many rounds as there are tokens
and one more, and with the result that the grammar goes by. -/
structure Searchable (c : Cursor) : Prop where
  /-- The search for a closing bracket, from any place and with any number of brackets open. -/
  close : ∀ depth place, ∃ found,
    Terminates c.closeRound (c.tokens.length + 1) (depth, place) found ∧
      afterClose depth (c.rest.drop place) = found.map fun place => c.rest.drop (place + 1)
  /-- The search for an argument list, from any place. -/
  call : ∀ place, Terminates c.callRound (c.tokens.length + 1) place
    (argumentsFollow (c.rest.drop place))
  /-- In particular, the one behind the name at the cursor. -/
  opensCall : Terminates c.callRound (c.tokens.length + 1) 1 c.opensCall
  /-- The search for a token at which reading can be taken up again. -/
  resume : ∀ nested, Terminates (resumeRound nested) (c.tokens.length + 1) (c, 0) (c.resume nested)

theorem searchable {c : Cursor} (hc : c.Closed) : c.Searchable := by
  have hrest : c.rest.length ≤ c.tokens.length := by
    rw [length_tokens, rest, List.length_cons]
    omega
  have hdrop (place : Nat) : (c.rest.drop place).length + 1 ≤ c.tokens.length + 1 := by
    rw [List.length_drop]
    omega
  have hcall (place : Nat) : Terminates c.callRound (c.tokens.length + 1) place
      (argumentsFollow (c.rest.drop place)) := (terminates_callRound hc rfl).mono (hdrop place)
  exact {
    close := by
      intro depth place
      obtain ⟨found, hend, heq⟩ := terminates_closeRound hc depth rfl
      exact ⟨found, hend.mono (hdrop place), heq⟩
    call := hcall
    opensCall := hcall 1
    resume := fun nested => (terminates_resumeRound nested hc 0).mono (by
      rw [length_tokens]
      omega) }

/-- **Cursors are kept in range.** Whatever is done with a cursor over some tokens, and however
often, it stays over the same tokens: those given, less those that were reported when they were
found, and with an end token at the end. It stays in range of these, searches come to an end on it,
and every further operation is in order. -/
theorem kept_in_range (setting : Setting) (inner : Inner) (tokens : List Token)
    (operations : List Operation) :
    let s := Operation.runAll setting inner operations (.start tokens)
    let kept := tokens.filter fun t => t.kind ≠ .invalid
    (s.cursor.tokens = match kept.getLast? with
      | none => [Piece.endToken .origin]
      | some last => if last.kind = .endOfInput then kept else kept ++ [endAfter last]) ∧
    s.cursor.InRange ∧ s.cursor.Searchable ∧
    ∀ operation : Operation, operation.Orderly setting inner s := by
  intro s kept
  obtain ⟨htokens, hclosed, hrange⟩ :=
    Operation.inRange_runAll setting inner tokens operations
  exact ⟨htokens.trans (tokens_ofTokens tokens), hrange, searchable hclosed,
    fun operation => Operation.orderly setting inner operation s⟩

end Cursor

end Cypher
