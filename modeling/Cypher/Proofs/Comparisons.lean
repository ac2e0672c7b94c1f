import Cypher.Proofs.Border
import Cypher.Proofs.Precedence

/-!
# Chains of comparisons

`a < b <= c` says that `a < b` and that `b <= c`. So a row of operands with comparisons between them
is read as the conjunction of the comparisons of neighbours (`Cypher.comparisons`), and gives the
very tree that is read if this conjunction is spelled out, with every inner operand written twice
(`Cypher.Grammar.readAs_comparisons`).

An operand of a comparison has to hold together: wherever an operator follows that binds no more
tightly than a comparison, it is read as a whole (`Cypher.Operand`). That is more than to bind more
tightly at the top. A negation such as the one in `1 + NOT a` would take the comparison behind it
for its own. An operand need only be tried with a single token behind such an operator; that it is
read alike in front of a whole row of comparisons is what `Cypher.Proofs.Border` is for, and there
it is needed that no path goes on in the row.
-/

namespace Cypher

open Grammar Rule

variable {setting : Setting} {scopes : Scopes} {room : Nat}

/-! ### Loose operators -/

/-- How strongly comparisons bind. -/
def comparisonStrength : Nat := BinaryOperator.eq.strength

theorem BinaryOperator.strength_of_isComparison {operator : BinaryOperator}
    (h : operator.isComparison = true) : operator.strength = comparisonStrength := by
  cases operator <;> first | rfl | cases h

theorem BinaryOperator.isComparison_eq_false {operator : BinaryOperator}
    (h : comparisonStrength < operator.strength) : operator.isComparison = false := by
  refine Bool.eq_false_iff.2 fun hc => ?_
  rw [strength_of_isComparison hc] at h
  exact Nat.lt_irrefl _ h

/-- Whether a token stands for an operator that binds no more tightly than comparisons. -/
def TokenKind.isLoose (kind : TokenKind) : Bool :=
  (binaryOperator? kind .endOfInput).any fun found => found.1.strength ≤ comparisonStrength

/-- What a loose operator stands for does not hang on the token behind it. -/
theorem exists_of_isLoose {kind : TokenKind} (h : kind.isLoose = true) :
    ∃ operator : BinaryOperator, operator.strength ≤ comparisonStrength ∧
      ∀ next, binaryOperator? kind next = some (operator, 1) := by
  cases kind with
  | keyword word => cases word <;> first | exact ⟨_, by decide, fun _ => rfl⟩ | cases h
  | sign sign => cases sign <;> first | exact ⟨_, by decide, fun _ => rfl⟩ | cases h
  | _ => cases h

theorem TokenKind.ne_of_isLoose {kind other : TokenKind} (h : kind.isLoose = true)
    (ho : other.isLoose = false) : kind ≠ other := by
  rintro rfl
  rw [h] at ho
  cases ho

/-- A loose operator does not go on with anything tighter. -/
theorem stops_of_isLoose {kind : TokenKind} {strength : Nat} (h : kind.isLoose = true)
    (hs : comparisonStrength < strength) (kinds : List TokenKind) :
    Stops strength (kind :: kinds) := by
  obtain ⟨operator, hle, hop⟩ := exists_of_isLoose h
  refine ⟨fun hk => ?_, fun hk => ?_, fun other width ho => ?_⟩
  · have := (hop .endOfInput).symm.trans (binaryOperator?_of_opensSuffix hk)
    cases this
  · rw [hk] at h
    cases h
  · rw [hop] at ho
    cases ho
    exact Nat.lt_of_le_of_lt hle hs

/-! ### What holds together -/

/-- **Some tokens are read as an expression** when certain others are behind them, with enough room
for nesting and wherever they stand in some scopes. Nothing is noted on the way. -/
def ReadAs (setting : Setting) (scopes : Scopes) (room strength : Nat) (w : List Token)
    (e : Expression) (tail : List Token) : Prop :=
  ∀ more, room ≤ more → ∀ s : State, s.scopes = scopes → s.cursor.rest = w ++ tail →
    ∃ c, s.cursor.Across w c ∧
      runNested setting body more (.expression strength) s = .done e { s with cursor := c }

/-- **The least that can come behind an operand**: the end of the text, or a loose operator with one
token and the end behind it. -/
inductive Following : List Token → Prop
  /-- The end. -/
  | ending {stop : Token} (ends : stop.kind = .endOfInput) : Following [stop]
  /-- An operator. -/
  | operator {sign next stop : Token} (loose : sign.kind.isLoose = true)
      (ends : stop.kind = .endOfInput) : Following [sign, next, stop]

/-- **An operand of comparisons**: an expression that binds more tightly, or any expression between
parentheses. -/
inductive Operand (setting : Setting) (scopes : Scopes) :
    Nat → List Token → Expression → Prop
  /-- Whatever follows, this is read as a whole by a rule for what binds more tightly. -/
  | tight {room : Nat} {w : List Token} {e : Expression}
      (reads : ∀ tail, Following tail →
        ReadAs setting scopes room (comparisonStrength + 1) w e tail) :
      Operand setting scopes room w e
  /-- This is an expression in front of the parenthesis that closes it. -/
  | group {room : Nat} {opening closing : Token} {w : List Token} {e : Expression}
      (opens : opening.kind = .sign .leftParen) (closes : closing.kind = .sign .rightParen)
      (reads : ∀ tail, Following tail → ReadAs setting scopes room 0 w e (closing :: tail)) :
      Operand setting scopes (room + 1) (opening :: (w ++ [closing])) e

theorem Following.stops {tail : List Token} (h : Following tail) :
    Stops (comparisonStrength + 1) (tail.map Token.kind) := by
  cases h with
  | ending ends =>
    rw [List.map_singleton, ends]
    exact stops_of_endsFormula (Or.inr (Or.inr rfl)) _ _
  | operator loose ends => exact stops_of_isLoose loose (Nat.lt_succ_self _) _

theorem Following.noPath {tail : List Token} (h : Following tail) : NoPath tail := by
  cases h with
  | ending ends => exact List.isChain_singleton _
  | @operator sign next stop loose ends =>
    exact .cons (TokenKind.ne_of_isLoose loose rfl)
      (NoPath.append_end (a := [next]) (List.isChain_singleton next) ends)

theorem Following.ne_nil {tail : List Token} (h : Following tail) : tail ≠ [] := by
  cases h <;> exact List.cons_ne_nil _ _

/-- A nested expression is read one level deeper. -/
theorem run_expression_iff {more strength : Nat} {s : State} {e : Expression} {c : Cursor} :
    runNested setting body (more + 1) (.expression strength) s = .done e { s with cursor := c } ↔
      (expressionOf strength).run setting (runNested setting body more)
        { s with depth := s.depth + 1 } =
      .done e { s with cursor := c, depth := s.depth + 1 } := by
  constructor
  · intro h
    obtain ⟨t, hr, ht⟩ := done_of_runNested h
    have hdepth := (onward_of_done (goesOn_runNested setting body more) hr).depth
    refine hr.trans (congrArg (Outcome.done e) ?_)
    obtain ⟨cursor, scopes, problems, depth⟩ := t
    cases hdepth
    cases ht
    rfl
  · intro h
    rw [runNested_succ]
    change Outcome.mapState _ ((expressionOf strength).run setting _ _) = _
    rw [h]
    rfl

/-- What is read without an operator is read as a whole in front of what follows. -/
theorem readAs_of_leading {w tail : List Token} {e : Expression} (ht : Following tail)
    (h : ∀ more, room ≤ more → ∀ s : State, s.scopes = scopes → s.cursor.rest = w ++ tail →
      ∃ c, s.cursor.Across w c ∧
        leading.run setting (runNested setting body more) s = .done e { s with cursor := c }) :
    ReadAs setting scopes (room + 1) (comparisonStrength + 1) w e tail := by
  intro more hmore s hs hrest
  obtain ⟨more, rfl⟩ : ∃ n, more = n + 1 := ⟨more - 1, by omega⟩
  obtain ⟨c, hc, hr⟩ :=
    h more (Nat.le_of_succ_le_succ hmore) { s with depth := s.depth + 1 } hs hrest
  refine ⟨c, hc, run_expression_iff.2 ?_⟩
  have hstop : Stops (comparisonStrength + 1)
      (State.kinds { s with cursor := c, depth := s.depth + 1 }) := by
    rw [State.kinds, show c.current :: c.ahead = tail from hc.rest_eq hrest]
    exact ht.stops
  rw [expressionOf, run_bind_done hr,
    run_bind_done (run_loop_none (run_of_continues (.stop hstop)))]
  rfl

namespace Operand

variable {w tail : List Token} {e : Expression}

/-- A group is read like what is between the parentheses, if it does not open a path. -/
theorem readAs_group {opening closing : Token} (hp : setting.opensPattern = Cursor.opensPattern)
    (hopen : opening.kind = .sign .leftParen) (hclose : closing.kind = .sign .rightParen)
    (h : ReadAs setting scopes room 0 w e (closing :: tail))
    (hn : NoPath (opening :: (w ++ [closing]))) (ht : Following tail) :
    ReadAs setting scopes (room + 1) (comparisonStrength + 1) (opening :: (w ++ [closing])) e
      tail := by
  refine readAs_of_leading ht fun more hmore s hs hrest => ?_
  rw [List.cons_append, List.append_assoc, List.singleton_append] at hrest
  have hcalm : NoPath s.cursor.rest := by
    have hbehind : NoPath (closing :: tail) := ht.noPath.cons (by rw [hclose]; decide)
    have hall : NoPath ((opening :: w) ++ closing :: tail) := List.isChain_split.2 ⟨hn, hbehind⟩
    exact hrest ▸ hall
  obtain ⟨hfirst, hk⟩ := Cursor.across_advance hrest
    (List.append_ne_nil_of_right_ne_nil w (List.cons_ne_nil closing tail))
  obtain ⟨c, hc, hr⟩ := h more hmore s.step hs (hfirst.rest_eq hrest)
  obtain ⟨hlast, hk'⟩ := Cursor.across_advance (hc.rest_eq (hfirst.rest_eq hrest)) ht.ne_nil
  refine ⟨c.advance, hfirst.trans (hc.trans hlast), ?_⟩
  have hread : (nested (.expression 0)).run setting (runNested setting body more) s.step =
      .done e { s with cursor := c } := hr
  rw [run_leading_leftParen (hk.trans hopen), hp, Cursor.opensPattern_eq_false hcalm,
    if_neg Bool.false_ne_true, Grammar.group, run_bind_done (run_move s), expression,
    run_bind_done hread, run_bind_done (run_expect_of_eq (hk'.trans hclose))]
  rfl

/-- **An operand is read as a whole** in front of what follows, in parentheses or not. -/
theorem readAs (hp : setting.opensPattern = Cursor.opensPattern)
    (h : Operand setting scopes room w e) (hn : NoPath w) (ht : Following tail) :
    ReadAs setting scopes room (comparisonStrength + 1) w e tail := by
  cases h with
  | tight reads => exact reads tail ht
  | group opens closes reads => exact readAs_group hp opens closes (reads tail ht) hn ht

/-- A literal text is an operand. -/
theorem of_string {t : Token} {text : String} (hk : t.kind = .string text) :
    Operand setting scopes 1 [t] (.literal (.string text) t.span) := by
  refine .tight fun tail ht => readAs_of_leading ht fun more _ s _ hrest => ?_
  obtain ⟨hac, hkind⟩ := Cursor.across_advance hrest ht.ne_nil
  have hcur : s.cursor.current = t := (List.cons.inj hrest).1
  refine ⟨s.cursor.advance, hac, ?_⟩
  rw [leading, here, run_bind, run_look, Outcome.andThen_done, View.read,
    show s.cursor.current.kind = _ from hkind.trans hk]
  change Grammar.operand.run setting _ s = _
  rw [Grammar.operand, here, run_bind, run_look, Outcome.andThen_done, View.read,
    show s.cursor.current.kind = _ from hkind.trans hk, ← hcur]
  rfl

theorem mono {more : Nat} (h : Operand setting scopes room w e) (hle : room ≤ more) :
    Operand setting scopes more w e := by
  cases h with
  | tight reads => exact .tight fun tail ht n hn => reads tail ht n (Nat.le_trans hle hn)
  | group opens closes reads =>
    obtain ⟨more, rfl⟩ : ∃ n, more = n + 1 := ⟨more - 1, by omega⟩
    exact .group opens closes fun tail ht n hn =>
      reads tail ht n (Nat.le_trans (Nat.le_of_succ_le_succ hle) hn)

/-! ### Operands in front of anything -/

/-- Nothing is read where a dot or the end comes first. -/
theorem run_leading_failed {inner : Inner} {s : State}
    (h : s.cursor.kind = .endOfInput ∨ s.cursor.kind = .sign .dot) :
    leading.run setting inner s = .failed (s.diagnostic setting (.expected "an expression")) s := by
  rw [leading, here, run_bind, run_look, Outcome.andThen_done, View.read]
  rcases h with h | h <;>
  · rw [show s.cursor.current.kind = _ from h]
    change Grammar.operand.run setting inner s = _
    rw [Grammar.operand, here, run_bind, run_look, Outcome.andThen_done, View.read,
      show s.cursor.current.kind = _ from h]
    rfl

/-- **An operand has a token**, and the first of them is no dot. -/
theorem exists_cons (h : Operand setting scopes room w e) :
    ∃ t ts, w = t :: ts ∧ t.kind ≠ .sign .dot := by
  cases h with
  | @group room opening closing w e opens closes reads =>
    exact ⟨opening, w ++ [closing], rfl, by rw [opens]; decide⟩
  | tight reads =>
    -- it can be read in front of the end, but nothing can if the first token is wrong
    obtain ⟨t, ts, hw⟩ := List.exists_cons_of_ne_nil
      (List.append_ne_nil_of_right_ne_nil w (List.cons_ne_nil (Piece.endToken .origin) []))
    have hend : (Piece.endToken .origin).kind = .endOfInput := rfl
    obtain ⟨c, hc, hr⟩ := reads _ (.ending hend) (room + 1) (Nat.le_succ room)
      ⟨⟨[], t, ts⟩, scopes, [], 0⟩ rfl hw.symm
    have hfirst : t.kind ≠ .endOfInput ∧ t.kind ≠ .sign .dot := by
      refine not_or.1 fun hk => ?_
      obtain ⟨first, u, hu, -⟩ := done_of_bind (run_expression_iff.1 hr)
      cases hu.symm.trans (run_leading_failed hk)
    cases w with
    | nil =>
      obtain ⟨rfl, -⟩ := List.cons.inj hw
      exact absurd rfl hfirst.1
    | cons u us =>
      obtain ⟨rfl, -⟩ := List.cons.inj hw
      exact ⟨_, us, rfl, hfirst.2⟩

end Operand

/-- **What may come behind an operand**: the end of the text, or a loose operator with any tokens
behind it of which the first is no dot. -/
inductive Trailing : List Token → Prop
  /-- The end. -/
  | ending {stop : Token} (ends : stop.kind = .endOfInput) : Trailing [stop]
  /-- An operator. -/
  | operator {sign next : Token} {rest : List Token} (loose : sign.kind.isLoose = true)
      (next_ne_dot : next.kind ≠ .sign .dot) : Trailing (sign :: next :: rest)

variable {w tail : List Token} {e : Expression}

/-- **An operand is read as a whole in front of anything that may come behind it**, as it is read in
front of the least of that. -/
theorem Operand.run_eq (hp : setting.opensPattern = Cursor.opensPattern)
    (h : Operand setting scopes room w e) {more : Nat} (hmore : room ≤ more) {s : State}
    (hs : s.scopes = scopes) (hrest : s.cursor.rest = w ++ tail) (ht : Trailing tail)
    (hc : s.cursor.Closed) (hn : NoPath s.cursor.rest) :
    ∃ c, s.cursor.Across w c ∧
      runNested setting body more (.expression (comparisonStrength + 1)) s =
        .done e { s with cursor := c } := by
  have hw : NoPath w := NoPath.left (hrest ▸ hn)
  cases ht with
  | ending ends => exact h.readAs hp hw (.ending ends) more hmore s hs hrest
  | @operator sign next rest loose hdot =>
    have hstop : (Cursor.endAfter next).kind = .endOfInput := rfl
    obtain ⟨t, ts, hts⟩ := List.exists_cons_of_ne_nil
      (List.append_ne_nil_of_right_ne_nil w (List.cons_ne_nil sign [next, Cursor.endAfter next]))
    -- the state with nothing behind the operator but one token and the end
    obtain ⟨s', hs'⟩ : ∃ s', s' = { s with cursor := ⟨s.cursor.behind, t, ts⟩ } := ⟨_, rfl⟩
    have hrest' : s'.cursor.rest = w ++ [sign, next, Cursor.endAfter next] := by
      rw [hs']
      exact hts.symm
    obtain ⟨c, hac, hr⟩ := h.readAs hp hw (.operator loose hstop) more hmore s'
      (by rw [hs']; exact hs) hrest'
    have hab : s'.Abreast sign next [Cursor.endAfter next] rest s := by
      refine ⟨⟨by rw [hs'], w, hrest', hrest⟩, by rw [hs'], by rw [hs'], by rw [hs'],
        Cursor.closed_of_rest (hrest'.trans (List.append_assoc w [sign, next] _).symm) hstop, hc,
        ?_, hn⟩
      rw [hrest']
      exact List.isChain_split.2 ⟨(List.isChain_split.1 (hrest ▸ hn)).1,
        (Following.operator loose hstop).noPath⟩
    have hmatch := runNested_abreast hp
      ⟨TokenKind.ne_of_isLoose loose rfl, TokenKind.ne_of_isLoose loose rfl, hdot⟩ more
      (.expression (comparisonStrength + 1)) s' s hab
    have hahead : c.ahead = [next, Cursor.endAfter next] :=
      (List.cons.inj (hac.rest_eq hrest')).2
    have hwithin : c.Within [Cursor.endAfter next] := by
      rw [Cursor.Within, hahead]
      exact Nat.lt_succ_self _
    beta_reduce at hmatch
    rw [hr] at hmatch
    have hdone := hmatch hwithin
    cases hrun : runNested setting body more (.expression (comparisonStrength + 1)) s with
    | failed d t =>
      rw [hrun] at hdone
      exact hdone.elim
    | done e' t =>
      rw [hrun] at hdone
      obtain ⟨rfl, ht⟩ := hdone
      refine ⟨t.cursor, ⟨?_, ?_⟩, congrArg (Outcome.done e) ?_⟩
      · rw [hrest, ht.cursors.rest_eq (hac.rest_eq hrest')]
      · rw [← ht.cursors.behind, hac.2, hs']
      · obtain ⟨cursor, scopes, problems, depth⟩ := t
        cases ht.scopes
        cases ht.problems
        cases ht.depth
        rw [hs']

/-! ### Rows of comparisons -/

/-- **A comparison with a further operand** in a row of comparisons. -/
structure Link where
  /-- The token that compares. -/
  sign : Token
  /-- What it stands for. -/
  operator : BinaryOperator
  /-- The tokens of the operand. -/
  tokens : List Token
  /-- The operand. -/
  tree : Expression

namespace Link

/-- A comparison as it is written. -/
def written (link : Link) : List Token := link.sign :: link.tokens

/-- **A comparison that is what it seems to be**: its token stands for it, and its operand is
one. -/
structure Holds (setting : Setting) (scopes : Scopes) (room : Nat) (link : Link) : Prop where
  /-- The token stands for the operator. -/
  stands (next : TokenKind) : binaryOperator? link.sign.kind next = some (link.operator, 1)
  /-- The operator compares. -/
  compares : link.operator.isComparison = true
  /-- The operand is one. -/
  operand : Operand setting scopes room link.tokens link.tree

/-- **A comparison of an operand with the next**, from the start of the one to the end of the
other. -/
def comparison (left : Expression) (link : Link) : Expression :=
  .binary link.operator left link.tree ⟨left.span.start, link.tree.span.stop⟩

variable {link : Link}

theorem Holds.strength_eq (h : link.Holds setting scopes room) :
    link.operator.strength = comparisonStrength := link.operator.strength_of_isComparison h.compares

theorem Holds.isLoose (h : link.Holds setting scopes room) : link.sign.kind.isLoose = true := by
  rw [TokenKind.isLoose, h.stands, Option.any_some, h.strength_eq]
  exact decide_eq_true (Nat.le_refl _)

end Link

/-- What has been compared, and further comparisons: each is joined to all that come before it, from
the start of these to the end of its own right operand. -/
def conjunction (start : Nat) (compared last : Expression) : List Link → Expression
  | [] => compared
  | link :: links =>
    conjunction start
      (.binary .and compared (link.comparison last) ⟨start, link.tree.span.stop⟩) link.tree links

/-- **The conjunction of the comparisons of neighbours** in a row of operands. -/
def comparisons (first : Expression) (link : Link) (links : List Link) : Expression :=
  conjunction first.span.start (link.comparison first) link.tree links

/-- The comparisons as they are written in a row. -/
def inRow (links : List Link) : List Token := links.flatMap Link.written

/-- Further comparisons behind a word that joins them, each with the left operand written again. -/
def spelledOut (word : Token) (last : List Token) : List Link → List Token
  | [] => []
  | link :: links => word :: (last ++ link.written ++ spelledOut word link.tokens links)

namespace Grammar

variable {link : Link} {links : List Link} {strength more : Nat} {chain : Chain} {s t : State}
variable {first : Expression}

/-- What comes behind an operand in a row of comparisons may come behind any operand. -/
theorem trailing_inRow (hl : ∀ l ∈ links, Link.Holds setting scopes room l) (ht : Trailing tail) :
    Trailing (inRow links ++ tail) := by
  cases links with
  | nil => exact ht
  | cons link links =>
    have hlink := hl link List.mem_cons_self
    obtain ⟨u, us, hu, hdot⟩ := hlink.operand.exists_cons
    rw [inRow, List.flatMap_cons, Link.written, hu]
    exact .operator hlink.isLoose hdot

/-- **A comparison goes on with a chain** up to its own right operand. -/
theorem continues_link (hp : setting.opensPattern = Cursor.opensPattern)
    (hl : link.Holds setting scopes room) (hmore : room ≤ more) (hs : strength ≤ comparisonStrength)
    (ht : t.scopes = scopes) (hrest : t.cursor.rest = link.written ++ tail) (hf : Trailing tail)
    (hc : t.cursor.Closed) (hn : NoPath t.cursor.rest) (chain : Chain) :
    ∃ c, t.cursor.Across link.written c ∧
      Continues setting (runNested setting body more) strength chain t
        (some (chain.extend link.operator link.tree)) { t with cursor := c } := by
  rw [Link.written, List.cons_append] at hrest
  obtain ⟨u, us, hu, -⟩ := hl.operand.exists_cons
  obtain ⟨hsign, hk⟩ := Cursor.across_advance hrest (by rw [hu]; exact List.cons_ne_nil _ _)
  have hnstep : NoPath t.step.cursor.rest :=
    hn.of_infix (Cursor.onward_advance t.cursor).rest_suffix.isInfix
  obtain ⟨c, hac, hr⟩ := hl.operand.run_eq (s := t.step) hp hmore ht (hsign.rest_eq hrest) hf
    hc.advance hnstep
  refine ⟨c, hsign.trans hac, .operation (hk ▸ hl.stands _) (hl.strength_eq ▸ hs) rfl ?_⟩
  rw [BinaryOperator.rightStrength, hl.strength_eq]
  exact hr

theorem extend_of_last_eq_none (hl : link.Holds setting scopes room) (h : chain.last = none) :
    chain.extend link.operator link.tree = ⟨link.comparison chain.tree, some link.tree⟩ := by
  rw [Chain.extend, if_pos hl.compares, h]
  rfl

/-- A comparison behind a comparison takes its left operand from there. -/
theorem extend_of_last_eq_some {last : Expression} (hl : link.Holds setting scopes room)
    (h : chain.last = some last) : chain.extend link.operator link.tree =
      ⟨.binary .and chain.tree (link.comparison last) ⟨chain.tree.span.start, link.tree.span.stop⟩,
        some link.tree⟩ := by
  rw [Chain.extend, if_pos hl.compares, h]
  rfl

/-- **The row of comparisons behind the first**, by induction on the row. -/
theorem run_loop_inRow (hp : setting.opensPattern = Cursor.opensPattern) {start : Nat}
    (compared last : Expression) (hstart : compared.span.start = start)
    (hl : ∀ l ∈ links, Link.Holds setting scopes room l) (hmore : room ≤ more)
    (hs : strength ≤ comparisonStrength) (ht : t.scopes = scopes)
    (hrest : t.cursor.rest = inRow links ++ tail) (hf : Trailing tail)
    (hstop : Stops strength (tail.map Token.kind)) (hc : t.cursor.Closed)
    (hn : NoPath t.cursor.rest) :
    ∃ c after, t.cursor.Across (inRow links) c ∧
      (loop (continuation strength) ⟨compared, some last⟩).run setting
          (runNested setting body more) t =
        .done ⟨conjunction start compared last links, after⟩ { t with cursor := c } := by
  have hi : Inner.GoesOn (runNested setting body more) := goesOn_runNested setting body more
  induction links generalizing compared last t with
  | nil =>
    have hkinds : Stops strength t.kinds := by
      rw [State.kinds, show t.cursor.current :: t.cursor.ahead = tail from hrest]
      exact hstop
    exact ⟨t.cursor, some last, .refl _, run_loop_none (run_of_continues (.stop hkinds))⟩
  | cons link links ih =>
    have hlink := hl link List.mem_cons_self
    have hlinks : ∀ l ∈ links, Link.Holds setting scopes room l := fun l h =>
      hl l (List.mem_cons_of_mem link h)
    rw [inRow, List.flatMap_cons, List.append_assoc] at hrest
    obtain ⟨c, hac, hcont⟩ := continues_link hp hlink hmore hs ht hrest
      (trailing_inRow hlinks hf) hc hn ⟨compared, some last⟩
    rw [extend_of_last_eq_some hlink rfl] at hcont
    have ho := onward_of_done hi (run_of_continues hcont)
    obtain ⟨d, after, hrow, hr⟩ := ih (t := { t with cursor := c })
      (.binary .and compared (link.comparison last) ⟨start, link.tree.span.stop⟩) link.tree rfl
      hlinks ht (hac.rest_eq hrest) (ho.closed hc) (hn.of_infix ho.cursor.rest_suffix.isInfix)
    refine ⟨d, after, hac.trans hrow, ?_⟩
    rw [run_loop hi hc fun chain w _ => movesOn_continuation hi strength chain w,
      run_of_continues hcont, Outcome.andThen_done, conjunction]
    subst hstart
    exact hr

/-- Nothing that binds more tightly leaves an operand for a comparison to take. -/
theorem last_eq_none_of_partway {inner : Inner} (h : Partway setting inner strength s chain t)
    (hs : comparisonStrength < strength) : chain.last = none := by
  cases h with
  | operand => rfl
  | step _ run =>
    cases continues_of_done run with
    | suffix => rfl
    | nullTest => rfl
    | operation opens binds =>
      have hc := BinaryOperator.isComparison_eq_false (Nat.lt_of_lt_of_le hs binds)
      rw [Chain.extend, if_neg (by rw [hc]; exact Bool.false_ne_true)]

/-- **The first comparison**: the rule for anything as loose as comparisons gets past the first
operand like the rule for what is tighter, and then takes the comparison. -/
theorem exists_partway_comparison (hp : setting.opensPattern = Cursor.opensPattern)
    (ho : Operand setting scopes room w first) (hl : link.Holds setting scopes room)
    (hmore : room ≤ more) (hs : strength ≤ comparisonStrength) (hscopes : s.scopes = scopes)
    (hrest : s.cursor.rest = w ++ (link.written ++ tail)) (hf : Trailing tail)
    (hc : s.cursor.Closed) (hn : NoPath s.cursor.rest) :
    ∃ c, s.cursor.Across (w ++ link.written) c ∧
      Partway setting (runNested setting body more) strength { s with depth := s.depth + 1 }
        ⟨link.comparison first, some link.tree⟩ { s with cursor := c, depth := s.depth + 1 } := by
  have hi : Inner.GoesOn (runNested setting body more) := goesOn_runNested setting body more
  have hbehind : Trailing (link.written ++ tail) := by
    have hrow : Trailing (inRow [link] ++ tail) :=
      trailing_inRow (fun l h => List.mem_singleton.1 h ▸ hl) hf
    rwa [inRow, List.flatMap_singleton] at hrow
  obtain ⟨c, hac, hr⟩ := ho.run_eq hp (Nat.le_succ_of_le hmore) hscopes hrest hbehind hc hn
  obtain ⟨chain, hpart, htree, -⟩ :=
    exists_partway (s := { s with depth := s.depth + 1 }) hi hc (run_expression_iff.1 hr)
  have hlast := last_eq_none_of_partway hpart (Nat.lt_succ_self _)
  have hon := hpart.onward hi
  obtain ⟨d, had, hcont⟩ := continues_link (t := { s with cursor := c, depth := s.depth + 1 }) hp hl
    hmore hs hscopes (hac.rest_eq hrest) hf (hon.closed hc)
    (hn.of_infix hon.cursor.rest_suffix.isInfix) chain
  rw [extend_of_last_eq_none hl hlast, htree] at hcont
  exact ⟨d, hac.trans had, (hpart.mono (Nat.le_succ_of_le hs)).step (run_of_continues hcont)⟩

/-- **A row of comparisons is read as their conjunction**, by any rule for what is as loose and in
front of anything that ends it. -/
theorem run_comparisons (hp : setting.opensPattern = Cursor.opensPattern)
    (ho : Operand setting scopes room w first)
    (hl : ∀ l ∈ link :: links, Link.Holds setting scopes room l) (hmore : room ≤ more)
    (hs : strength ≤ comparisonStrength) (hscopes : s.scopes = scopes)
    (hrest : s.cursor.rest = w ++ inRow (link :: links) ++ tail) (hf : Trailing tail)
    (hstop : Stops strength (tail.map Token.kind)) (hc : s.cursor.Closed)
    (hn : NoPath s.cursor.rest) :
    ∃ c, s.cursor.Across (w ++ inRow (link :: links)) c ∧
      runNested setting body (more + 1) (.expression strength) s =
        .done (comparisons first link links) { s with cursor := c } := by
  have hi : Inner.GoesOn (runNested setting body more) := goesOn_runNested setting body more
  have hlinks : ∀ l ∈ links, Link.Holds setting scopes room l := fun l h =>
    hl l (List.mem_cons_of_mem link h)
  rw [inRow, List.flatMap_cons, List.append_assoc, List.append_assoc] at hrest
  obtain ⟨c, hac, hpart⟩ := exists_partway_comparison hp ho (hl link List.mem_cons_self) hmore hs
    hscopes hrest (trailing_inRow hlinks hf) hc hn
  have hon := hpart.onward hi
  obtain ⟨d, after, had, hr⟩ := run_loop_inRow
    (t := { s with cursor := c, depth := s.depth + 1 }) hp (link.comparison first) link.tree rfl
    hlinks hmore hs hscopes (hac.rest_eq (by rw [hrest, List.append_assoc]; rfl)) hf hstop
    (hon.closed hc) (hn.of_infix hon.cursor.rest_suffix.isInfix)
  refine ⟨d, ?_, run_expression_iff.2 ?_⟩
  · rw [inRow, List.flatMap_cons, ← List.append_assoc]
    exact hac.trans had
  · rw [hpart.run_expressionOf hi hc, hr]
    rfl

/-! ### The conjunction spelled out -/

section SpelledOut

variable {word stop : Token} (hword : word.kind = .keyword .AND) (hend : stop.kind = .endOfInput)

include hword hend

theorem trailing_spelledOut (ho : Operand setting scopes room w first) (links : List Link) :
    Trailing (spelledOut word w links ++ [stop]) := by
  cases links with
  | nil => exact .ending hend
  | cons link links =>
    obtain ⟨u, us, rfl, hdot⟩ := ho.exists_cons
    exact .operator (by rw [hword]; rfl) hdot

/-- Neither the word nor the end goes on with the right operand of the word. -/
theorem stops_spelledOut (w : List Token) (links : List Link) :
    Stops BinaryOperator.and.rightStrength
      ((spelledOut word w links ++ [stop]).map Token.kind) := by
  cases links with
  | nil =>
    rw [spelledOut, List.nil_append, List.map_singleton, hend]
    exact stops_of_endsFormula (Or.inr (Or.inr rfl)) _ _
  | cons link links =>
    rw [spelledOut, List.cons_append, List.map_cons, hword]
    refine ⟨nofun, nofun, fun operator width h => ?_⟩
    cases h
    exact Nat.lt_succ_self _

/-- **Further comparisons that are spelled out**: each is an operand of the word before it, one
level of nesting deeper. -/
theorem run_loop_spelledOut (hp : setting.opensPattern = Cursor.opensPattern) {start : Nat}
    {last : Expression} (compared : Expression) (after : Option Expression)
    (hstart : compared.span.start = start) (ho : Operand setting scopes room w last)
    (hl : ∀ l ∈ links, Link.Holds setting scopes room l) (hmore : room ≤ more)
    (ht : t.scopes = scopes) (hrest : t.cursor.rest = spelledOut word w links ++ [stop])
    (hc : t.cursor.Closed) (hn : NoPath t.cursor.rest) :
    ∃ c after', t.cursor.Across (spelledOut word w links) c ∧
      (loop (continuation 0) ⟨compared, after⟩).run setting
          (runNested setting body (more + 1)) t =
        .done ⟨conjunction start compared last links, after'⟩ { t with cursor := c } := by
  have hi : Inner.GoesOn (runNested setting body (more + 1)) :=
    goesOn_runNested setting body (more + 1)
  induction links generalizing compared after last w t with
  | nil =>
    have hkinds : Stops 0 t.kinds := by
      rw [State.kinds, show t.cursor.current :: t.cursor.ahead = [stop] from hrest,
        List.map_singleton, hend]
      exact stops_of_endsFormula (Or.inr (Or.inr rfl)) _ _
    exact ⟨t.cursor, after, .refl _, run_loop_none (run_of_continues (.stop hkinds))⟩
  | cons link links ih =>
    have hlink := hl link List.mem_cons_self
    have hlinks : ∀ l ∈ links, Link.Holds setting scopes room l := fun l h =>
      hl l (List.mem_cons_of_mem link h)
    rw [spelledOut, List.cons_append, List.append_assoc] at hrest
    obtain ⟨hand, hk⟩ := Cursor.across_advance hrest (by simp)
    have hon := Cursor.onward_advance t.cursor
    have hone : ∀ l ∈ [link], Link.Holds setting scopes room l := fun l h =>
      List.mem_singleton.1 h ▸ hlink
    obtain ⟨c, hac, hr⟩ := run_comparisons (s := t.step) hp ho hone hmore (by decide) ht
      ((hand.rest_eq hrest).trans (by simp [inRow]))
      (trailing_spelledOut hword hend hlink.operand links)
      (stops_spelledOut hword hend link.tokens links) hc.advance
      (hn.of_infix hon.rest_suffix.isInfix)
    have hcont : Continues setting (runNested setting body (more + 1)) 0 ⟨compared, after⟩ t
        (some ⟨.binary .and compared (link.comparison last) ⟨start, link.tree.span.stop⟩, none⟩)
        { t with cursor := c } := by
      have hop : binaryOperator? t.cursor.kind (t.cursor.peek 1) = some (.and, 1) := by
        rw [hk, hword]
        rfl
      subst hstart
      exact .operation hop (Nat.zero_le _) rfl hr
    have hpast := onward_of_done hi (run_of_continues hcont)
    rw [inRow, List.flatMap_singleton] at hac
    have hrest' : c.rest = spelledOut word link.tokens links ++ [stop] :=
      hac.rest_eq ((hand.rest_eq hrest).trans (by simp))
    obtain ⟨d, after', had, hloop⟩ := ih (t := { t with cursor := c })
      (.binary .and compared (link.comparison last) ⟨start, link.tree.span.stop⟩) none rfl
      hlink.operand hlinks ht hrest' (hpast.closed hc)
      (hn.of_infix hpast.cursor.rest_suffix.isInfix)
    refine ⟨d, after', ?_, ?_⟩
    · exact hand.trans (hac.trans had)
    · rw [run_loop hi hc fun chain w _ => movesOn_continuation hi 0 chain w,
        run_of_continues hcont, Outcome.andThen_done, conjunction]
      exact hloop

end SpelledOut

/-- The tokens of an operand stand in the row. -/
theorem infix_inRow (h : link ∈ links) : link.tokens <:+: inRow links := by
  obtain ⟨before, behind, rfl⟩ := List.append_of_mem h
  rw [inRow, List.flatMap_append, List.flatMap_cons]
  exact ((List.suffix_cons link.sign link.tokens).isInfix.trans
    (List.prefix_append _ _).isInfix).trans (List.suffix_append _ _).isInfix

/-- No path goes on in what is spelled out if none does in the operands. -/
theorem noPath_spelledOut {word : Token} {before : List Token} (hword : word.kind = .keyword .AND)
    (hb : NoPath before) (hw : NoPath w)
    (hl : ∀ l ∈ links, Link.Holds setting scopes room l) (hn : ∀ l ∈ links, NoPath l.tokens) :
    NoPath (before ++ spelledOut word w links) := by
  induction links generalizing before w with
  | nil => exact (List.append_nil before).symm ▸ hb
  | cons link links ih =>
    have hloose := (hl link List.mem_cons_self).isLoose
    have htokens := hn link List.mem_cons_self
    have hrest : NoPath (link.tokens ++ spelledOut word link.tokens links) :=
      ih htokens htokens (fun l h => hl l (List.mem_cons_of_mem link h)) fun l h =>
        hn l (List.mem_cons_of_mem link h)
    have hsign : NoPath (link.written ++ spelledOut word link.tokens links) :=
      hrest.cons (TokenKind.ne_of_isLoose hloose rfl)
    have hleft : NoPath (w ++ link.written ++ spelledOut word link.tokens links) := by
      rw [List.append_assoc]
      exact hw.append_cons hsign (TokenKind.ne_of_isLoose hloose rfl)
        (TokenKind.ne_of_isLoose hloose rfl)
    exact hb.append_cons (hleft.cons (by rw [hword]; decide)) (by rw [hword]; decide)
      (by rw [hword]; decide)

/-- **Chains of comparisons.** Let operands stand in a row with comparisons between them, where no
path goes on. The row as a whole is read as the conjunction of the comparisons of neighbours, in
which every comparison spans its two operands, and every conjunction all operands up to the last
that is in it. The same tree is read, with one more level of nesting, when the conjunction is
spelled out and the inner operands are written twice. -/
theorem readAs_comparisons (hp : setting.opensPattern = Cursor.opensPattern)
    (ho : Operand setting scopes room w first)
    (hl : ∀ l ∈ link :: links, Link.Holds setting scopes room l)
    (hn : NoPath (w ++ inRow (link :: links))) {word stop : Token}
    (hword : word.kind = .keyword .AND) (hend : stop.kind = .endOfInput) :
    ReadAs setting scopes (room + 1) 0 (w ++ inRow (link :: links))
        (comparisons first link links) [stop] ∧
      ReadAs setting scopes (room + 2) 0
        (w ++ link.written ++ spelledOut word link.tokens links)
        (comparisons first link links) [stop] := by
  constructor
  · intro more hmore s hs hrest
    obtain ⟨more, rfl⟩ : ∃ n, more = n + 1 := ⟨more - 1, by omega⟩
    have hnone : Stops 0 ([stop].map Token.kind) := by
      rw [List.map_singleton, hend]
      exact stops_of_endsFormula (Or.inr (Or.inr rfl)) _ _
    exact run_comparisons hp ho hl (Nat.le_of_succ_le_succ hmore) (Nat.zero_le _) hs hrest
      (.ending hend) hnone (Cursor.closed_of_rest hrest hend) (hrest ▸ hn.append_end hend)
  · intro more hmore s hs hrest
    obtain ⟨more, rfl⟩ : ∃ n, more = n + 2 := ⟨more - 2, by omega⟩
    have hi : Inner.GoesOn (runNested setting body (more + 1)) :=
      goesOn_runNested setting body (more + 1)
    have hlink := hl link List.mem_cons_self
    have hlinks : ∀ l ∈ links, Link.Holds setting scopes room l := fun l h =>
      hl l (List.mem_cons_of_mem link h)
    have hoperands : ∀ l ∈ link :: links, NoPath l.tokens := fun l h =>
      hn.of_infix ((infix_inRow h).trans (List.suffix_append w _).isInfix)
    have hfirst : NoPath (w ++ link.written) := by
      rw [inRow, List.flatMap_cons, ← List.append_assoc] at hn
      exact hn.left
    have hcalm : NoPath s.cursor.rest := by
      rw [hrest]
      exact (noPath_spelledOut hword hfirst (hoperands link List.mem_cons_self) hlinks fun l h =>
        hoperands l (List.mem_cons_of_mem link h)).append_end hend
    have hc : s.cursor.Closed := Cursor.closed_of_rest hrest hend
    rw [List.append_assoc, List.append_assoc] at hrest
    obtain ⟨c, hac, hpart⟩ := exists_partway_comparison hp ho hlink
      (show room ≤ more + 1 by omega) (Nat.zero_le _) hs hrest
      (trailing_spelledOut hword hend hlink.operand links) hc hcalm
    have hon := hpart.onward hi
    rw [← List.append_assoc] at hrest
    obtain ⟨d, after, had, hr⟩ := run_loop_spelledOut
      (t := { s with cursor := c, depth := s.depth + 1 }) hword hend hp (link.comparison first)
      (some link.tree) rfl hlink.operand hlinks (show room ≤ more by omega) hs (hac.rest_eq hrest)
      (hon.closed hc) (hcalm.of_infix hon.cursor.rest_suffix.isInfix)
    refine ⟨d, hac.trans had, run_expression_iff.2 ?_⟩
    rw [hpart.run_expressionOf hi hc, hr]
    rfl

/-- `'a' < (TRUE OR FALSE) <= 'b'` says that `'a' < (TRUE OR FALSE)` and that
`(TRUE OR FALSE) <= 'b'`. -/
theorem readAs_comparisons_group :
    let setting : Setting := .ofOptions ⟨false, .neo4j5, 128⟩
    let text (value : String) (start : Nat) : Token :=
      ⟨.string value, "", ⟨start, start + 3⟩, 1, start⟩
    let sign (kind : TokenKind) (start stop : Nat) : Token := ⟨kind, "", ⟨start, stop⟩, 1, start⟩
    let group := [sign (.sign .leftParen) 6 7, sign (.keyword .TRUE) 7 11,
      sign (.keyword .OR) 12 14, sign (.keyword .FALSE) 15 20, sign (.sign .rightParen) 20 21]
    let choice : Expression := .binary .or (.literal (.boolean true) ⟨7, 11⟩)
      (.literal (.boolean false) ⟨15, 20⟩) ⟨7, 20⟩
    let a : Expression := .literal (.string "a") ⟨0, 3⟩
    let b : Expression := .literal (.string "b") ⟨25, 28⟩
    let less : Link := ⟨sign (.sign .lt) 4 5, .lt, group, choice⟩
    let atMost : Link := ⟨sign (.sign .ltEq) 22 24, .ltEq, [text "b" 25], b⟩
    let word := sign (.keyword .AND) 0 3
    let stop := Piece.endToken .origin
    setting.opensPattern = Cursor.opensPattern ∧
      Operand setting .outside 3 [text "a" 0] a ∧
      (∀ l ∈ [less, atMost], l.Holds setting .outside 3) ∧
      NoPath ([text "a" 0] ++ inRow [less, atMost]) ∧ word.kind = .keyword .AND ∧
      stop.kind = .endOfInput ∧
      ReadAs setting .outside 4 0 ([text "a" 0] ++ inRow [less, atMost])
        (.binary .and (.binary .lt a choice ⟨0, 20⟩) (.binary .ltEq choice b ⟨7, 28⟩) ⟨0, 28⟩)
        [stop] ∧
      ReadAs setting .outside 5 0
        ([text "a" 0] ++ less.written ++ spelledOut word group [atMost])
        (.binary .and (.binary .lt a choice ⟨0, 20⟩) (.binary .ltEq choice b ⟨7, 28⟩) ⟨0, 28⟩)
        [stop] := by
  intro setting text sign group choice a b less atMost word stop
  have hp : setting.opensPattern = Cursor.opensPattern := rfl
  have ha : Operand setting .outside 3 [text "a" 0] a := (Operand.of_string rfl).mono (by decide)
  have hb : Operand setting .outside 3 [text "b" 25] b := (Operand.of_string rfl).mono (by decide)
  have hgroup : Operand setting .outside 3 group choice := by
    refine .group (w := [_, _, _]) rfl rfl fun tail ht more hmore s hs hrest => ?_
    obtain ⟨more, rfl⟩ : ∃ n, more = n + 2 := ⟨more - 2, by omega⟩
    obtain ⟨⟨behind, current, ahead⟩, scopes, problems, depth⟩ := s
    obtain ⟨rfl, rfl⟩ := List.cons.inj hrest
    cases ht with
    | ending ends => exact ⟨_, ⟨rfl, by simp [Cursor.advance]⟩, rfl⟩
    | operator loose ends => exact ⟨_, ⟨rfl, by simp [Cursor.advance]⟩, rfl⟩
  have hlinks : ∀ l ∈ [less, atMost], l.Holds setting .outside 3 := by
    intro l hl
    rcases List.mem_cons.1 hl with rfl | hl
    · exact ⟨fun _ => rfl, rfl, hgroup⟩
    · rw [List.mem_singleton.1 hl]
      exact ⟨fun _ => rfl, rfl, hb⟩
  have hn : NoPath ([text "a" 0] ++ inRow [less, atMost]) := by decide
  exact ⟨hp, ha, hlinks, hn, rfl, rfl, readAs_comparisons hp ha hlinks hn rfl rfl⟩

end Grammar

end Cypher
