import Cypher.Proofs.Parallel.Query

/-!
# What a statement can see of its neighbours

Looking ahead stops at the end of a statement whose brackets match. A test that walks to the bracket
that closes another finds it in the statement (`Cypher.Enclosed.afterClose_append`), and all the
other tests look at a few tokens which are not there at the end of a statement. Skipping stops there
too: its count of open brackets starts at nothing and forgets brackets that it has not seen open, so
it is never above the number of brackets that are really open, which is none at the end
(`Cypher.Enclosed.resume`).

This makes for two correspondences of places. In `Cypher.Parallel.upTo`, the tokens are the same up
to the ends of statements. In `Cypher.Parallel.behind`, they are the same from the places on, but
one list has more tokens behind.
-/

namespace Cypher

/-! ### Matching brackets -/

/-- The number of brackets open behind some tokens, given how many are open before them; none if a
bracket is closed when none is open. Brackets of all kinds count alike. -/
def openBehind? : Nat → List Token → Option Nat
  | depth, [] => some depth
  | depth, t :: ts =>
    if t.kind.isOpening then openBehind? (depth + 1) ts
    else if t.kind.isClosing then if depth = 0 then none else openBehind? (depth - 1) ts
    else openBehind? depth ts

theorem openBehind?_append (depth : Nat) (a b : List Token) :
    openBehind? depth (a ++ b) = (openBehind? depth a).bind (openBehind? · b) := by
  induction a generalizing depth with
  | nil => rfl
  | cons t ts ih =>
    rw [List.cons_append, openBehind?, openBehind?]
    split
    · exact ih _
    · split
      · split
        · rfl
        · exact ih _
      · exact ih _

/-- **Brackets open behind some tokens are closed behind those**, wherever they are counted from. -/
theorem Cursor.afterClose_of_openBehind? {depth outer : Nat} {ts : List Token}
    (hend : ∀ t ∈ ts, t.kind ≠ .endOfInput) (h : openBehind? depth ts = some outer)
    (tail : List Token) : afterClose (depth + 1) (ts ++ tail) = afterClose (outer + 1) tail := by
  induction ts generalizing depth with
  | nil => rw [← Option.some.inj h, List.nil_append]
  | cons t ts ih =>
    obtain ⟨ht, hts⟩ := List.forall_mem_cons.1 hend
    rw [openBehind?] at h
    rw [List.cons_append, afterClose.eq_def]
    dsimp only
    split at h
    · next ho =>
      rw [if_pos ho]
      exact ih hts h
    · next ho =>
      rw [if_neg ho]
      split at h
      · next hc =>
        rw [if_pos hc]
        split at h
        · cases h
        · next hd =>
          obtain ⟨d, rfl⟩ := Nat.exists_eq_succ_of_ne_zero hd
          exact ih hts h
      · next hc =>
        rw [if_neg hc, if_neg ht]
        exact ih hts h

/-- **Tokens that close the brackets** that are open before them, and none besides. -/
def Balances (depth : Nat) (ts : List Token) : Prop := openBehind? depth ts = some 0

namespace Balances

variable {depth : Nat} {t : Token} {ts rest : List Token}

theorem depth_eq_zero (h : Balances depth []) : depth = 0 := Option.some.inj h

theorem of_opening (h : Balances depth (t :: ts)) (ho : t.kind.isOpening = true) :
    Balances (depth + 1) ts := by
  rwa [Balances, openBehind?, if_pos ho] at h

theorem of_closing (h : Balances depth (t :: ts)) (ho : ¬t.kind.isOpening = true)
    (hcl : t.kind.isClosing = true) : ∃ d, depth = d + 1 ∧ Balances d ts := by
  rw [Balances, openBehind?, if_neg ho, if_pos hcl] at h
  cases depth with
  | zero => cases h
  | succ d =>
    rw [if_neg (Nat.succ_ne_zero d)] at h
    exact ⟨d, rfl, h⟩

theorem of_other (h : Balances depth (t :: ts)) (ho : ¬t.kind.isOpening = true)
    (hcl : ¬t.kind.isClosing = true) : Balances depth ts := by
  rwa [Balances, openBehind?, if_neg ho, if_neg hcl] at h

theorem tail (h : Balances depth (t :: ts)) : ∃ d, Balances d ts := by
  by_cases ho : t.kind.isOpening = true
  · exact ⟨_, h.of_opening ho⟩
  · by_cases hcl : t.kind.isClosing = true
    · obtain ⟨d, -, hd⟩ := h.of_closing ho hcl
      exact ⟨d, hd⟩
    · exact ⟨depth, h.of_other ho hcl⟩

/-- **The bracket that closes an open one is among the tokens.** -/
theorem afterClose_append (h : Balances depth rest) {k : Nat} (hk : 0 < k) (hle : k ≤ depth)
    (tail : List Token) :
    Cursor.afterClose k (rest ++ tail) = (Cursor.afterClose k rest).map (· ++ tail) := by
  induction rest generalizing depth k with
  | nil =>
    have := h.depth_eq_zero
    omega
  | cons t ts ih =>
    rw [List.cons_append, Cursor.afterClose.eq_def k (t :: (ts ++ tail)),
      Cursor.afterClose.eq_def k (t :: ts)]
    dsimp only
    split
    · next ho => exact ih (h.of_opening ho) (Nat.succ_pos k) (Nat.succ_le_succ hle)
    · next ho =>
      split
      · next hcl =>
        obtain ⟨d, rfl, hd⟩ := h.of_closing ho hcl
        match k, hk, hle with
        | 1, _, _ => rfl
        | k + 2, _, hle => exact ih hd (Nat.succ_pos k) (Nat.le_of_succ_le_succ hle)
      · next hcl =>
        split
        · rfl
        · exact ih (h.of_other ho hcl) hk hle

/-- What is behind a closing bracket closes what is still open. -/
theorem of_afterClose (h : Balances depth rest) {k : Nat}
    (hr : Cursor.afterClose k rest = some ts) : ∃ d, Balances d ts := by
  induction rest generalizing depth k with
  | nil => cases hr
  | cons t us ih =>
    obtain ⟨d, hd⟩ := h.tail
    rw [Cursor.afterClose.eq_def] at hr
    dsimp only at hr
    split at hr
    · exact ih hd hr
    · split at hr
      · split at hr
        · cases hr
        · cases hr
          exact ⟨d, hd⟩
        · exact ih hd hr
      · split at hr
        · cases hr
        · exact ih hd hr

theorem of_skip? (h : Balances depth rest) {kind : TokenKind}
    (hr : Cursor.skip? kind rest = some ts) : ∃ d, Balances d ts := by
  cases rest with
  | nil => cases hr
  | cons t us =>
    rw [Cursor.skip?] at hr
    split at hr
    · cases hr
      exact h.tail
    · cases hr

theorem skipMaybe (h : Balances depth rest) (kind : TokenKind) :
    ∃ d, Balances d (Cursor.skipMaybe kind rest) := by
  rw [Cursor.skipMaybe]
  cases hr : Cursor.skip? kind rest with
  | none => exact ⟨depth, h⟩
  | some ts => exact h.of_skip? hr

end Balances

/-- **The rest of a statement** that closes the brackets that are open before it. -/
structure Enclosed (depth : Nat) (ts : List Token) : Prop where
  /-- The brackets are closed, and none besides. -/
  closes : Balances depth ts
  /-- The statement does not end before. -/
  goesOn : ∀ t ∈ ts, t.kind.isStop = false

namespace Enclosed

variable {depth : Nat} {t : Token} {ts : List Token}

theorem depth_eq_zero (h : Enclosed depth []) : depth = 0 := h.closes.depth_eq_zero

theorem goesOn_tail (h : Enclosed depth (t :: ts)) : ∀ u ∈ ts, u.kind.isStop = false :=
  (List.forall_mem_cons.1 h.goesOn).2

theorem of_opening (h : Enclosed depth (t :: ts)) (ho : t.kind.isOpening = true) :
    Enclosed (depth + 1) ts := ⟨h.closes.of_opening ho, h.goesOn_tail⟩

theorem of_closing (h : Enclosed depth (t :: ts)) (ho : ¬t.kind.isOpening = true)
    (hcl : t.kind.isClosing = true) : ∃ d, depth = d + 1 ∧ Enclosed d ts := by
  obtain ⟨d, rfl, hd⟩ := h.closes.of_closing ho hcl
  exact ⟨d, rfl, hd, h.goesOn_tail⟩

theorem of_other (h : Enclosed depth (t :: ts)) (ho : ¬t.kind.isOpening = true)
    (hcl : ¬t.kind.isClosing = true) : Enclosed depth ts :=
  ⟨h.closes.of_other ho hcl, h.goesOn_tail⟩

theorem tail (h : Enclosed depth (t :: ts)) : ∃ d, Enclosed d ts := by
  obtain ⟨d, hd⟩ := h.closes.tail
  exact ⟨d, hd, h.goesOn_tail⟩

end Enclosed

/-! ### Looking ahead -/

/-- **Whether no test that looks ahead goes on through a token.** -/
def TokenKind.isBorder : TokenKind → Bool
  | endOfInput | keyword _ => true
  | sign .semicolon | sign .comma | sign .eq | sign .rightBrace => true
  | _ => false

theorem TokenKind.isBorder_of_isStop {kind : TokenKind} (h : kind.isStop = true) :
    kind.isBorder = true := apply_of_isStop rfl rfl h

theorem TokenKind.ne_of_isBorder {kind kind' : TokenKind} (h : kind.isBorder = true)
    (h' : kind'.isBorder = false) : kind ≠ kind' := by
  rintro rfl
  rw [h] at h'
  cases h'

theorem TokenKind.not_isVariable_of_isBorder {kind : TokenKind} (h : kind.isBorder = true) :
    kind.isVariable = false := by
  cases kind <;> first | rfl | cases h

namespace Cursor

/-- Past an opening bracket, one more bracket is open. -/
theorem afterClose_opening {t : Token} (ho : t.kind.isOpening = true) {k : Nat} (ts : List Token) :
    afterClose k (t :: ts) = afterClose (k + 1) ts := by
  rw [afterClose.eq_def]
  exact if_pos ho

theorem opensDetail_of_isBorder {kind : TokenKind} (h : kind.isBorder = true) :
    opensDetail kind = false := by
  cases kind with
  | sign sign => cases sign <;> first | rfl | cases h
  | _ => first | rfl | cases h

section Border

variable {border : Token} {after : List Token} (hs : border.kind.isBorder = true)

include hs

theorem argumentsFollow_of_isBorder : argumentsFollow (border :: after) = false := by
  have hne : border.kind ≠ .sign .leftParen := TokenKind.ne_of_isBorder hs rfl
  have hdot : border.kind ≠ .sign .dot := TokenKind.ne_of_isBorder hs rfl
  cases after with
  | nil => exact decide_eq_false hne
  | cons u us => rw [argumentsFollow, if_neg hne, decide_eq_false hdot, Bool.false_and]; rfl

/-- A name goes on through a border only if that is a part of it, behind a dot. -/
theorem argumentsFollow_append {rest : List Token}
    (hlast : ∀ a t, rest = a ++ [t] → t.kind = .sign .dot → border.kind.isNamePart = false) :
    argumentsFollow (rest ++ border :: after) = argumentsFollow rest := by
  fun_induction argumentsFollow rest with
  | case1 t u rest hopen => exact if_pos hopen
  | case2 t u rest hopen hpart ih =>
    rw [List.cons_append, List.cons_append, argumentsFollow, if_neg hopen, if_pos hpart]
    refine ih fun a v hv => hlast (t :: u :: a) v ?_
    rw [hv, List.cons_append, List.cons_append]
  | case3 t u rest hopen hpart =>
    rw [List.cons_append, List.cons_append, argumentsFollow, if_neg hopen, if_neg hpart]
  | case4 t =>
    rw [List.cons_append, List.nil_append, argumentsFollow]
    by_cases hopen : t.kind = .sign .leftParen
    · rw [if_pos hopen, decide_eq_true hopen]
    · rw [if_neg hopen, decide_eq_false hopen]
      by_cases hdot : t.kind = .sign .dot
      · rw [hlast [] t rfl hdot, Bool.and_false]
        rfl
      · rw [decide_eq_false hdot, Bool.false_and]
        rfl
  | case5 => exact argumentsFollow_of_isBorder hs

theorem startsLikeNode_append (rest : List Token) :
    startsLikeNode (rest ++ border :: after) = startsLikeNode rest := by
  have hdetail : opensDetail border.kind = false := opensDetail_of_isBorder hs
  have hvariable : border.kind.isVariable = false := TokenKind.not_isVariable_of_isBorder hs
  cases rest with
  | nil =>
    rw [List.nil_append, startsLikeNode, hvariable, hdetail]
    rfl
  | cons t ts =>
    cases ts with
    | nil =>
      rw [List.cons_append, List.nil_append, startsLikeNode, startsLikeNode, List.head?_cons,
        Option.map_some, Option.any_some, hdetail]
      rfl
    | cons u us => rfl

theorem skip?_append {kind : TokenKind} (hk : kind.isBorder = false) (rest : List Token) :
    skip? kind (rest ++ border :: after) = (skip? kind rest).map (· ++ border :: after) := by
  cases rest with
  | nil => exact if_neg (TokenKind.ne_of_isBorder hs hk)
  | cons t ts =>
    rw [List.cons_append, skip?, skip?]
    split <;> rfl

theorem skipMaybe_append {kind : TokenKind} (hk : kind.isBorder = false) (rest : List Token) :
    skipMaybe kind (rest ++ border :: after) = skipMaybe kind rest ++ border :: after := by
  rw [skipMaybe, skipMaybe, skip?_append hs hk]
  cases skip? kind rest <;> rfl

theorem afterDetail?_append {depth : Nat} {rest : List Token} (h : Balances depth rest) :
    afterDetail? (rest ++ border :: after) = (afterDetail? rest).map (· ++ border :: after) := by
  cases rest with
  | nil =>
    rw [List.nil_append, afterDetail?, if_neg (TokenKind.ne_of_isBorder hs rfl),
      if_neg (TokenKind.ne_of_isBorder hs rfl)]
    rfl
  | cons t ts =>
    rw [List.cons_append, afterDetail?, afterDetail?]
    split
    · rfl
    · split
      · next hk =>
        have ho : t.kind.isOpening = true := by rw [hk]; rfl
        rw [afterClose_opening ho, afterClose_opening ho,
          (h.of_opening ho).afterClose_append Nat.one_pos (Nat.succ_pos depth)]
        cases afterClose 1 ts with
        | none => rfl
        | some us => exact skip?_append hs rfl us
      · rfl

theorem startsWithRelationship_append {depth : Nat} {rest : List Token} (h : Balances depth rest) :
    startsWithRelationship (rest ++ border :: after) = startsWithRelationship rest := by
  obtain ⟨d, hd⟩ := h.skipMaybe (.sign .lt)
  rw [startsWithRelationship, startsWithRelationship, skipMaybe_append hs rfl,
    skip?_append hs rfl]
  cases hminus : skip? (.sign .minus) (skipMaybe (.sign .lt) rest) with
  | none => rfl
  | some ts =>
    obtain ⟨e, he⟩ := hd.of_skip? hminus
    rw [Option.map_some, Option.bind_some, Option.bind_some, afterDetail?_append hs he]
    cases afterDetail? ts with
    | none => rfl
    | some us =>
      rw [Option.map_some]
      dsimp only
      rw [skipMaybe_append hs rfl, skip?_append hs rfl, Option.isSome_map]

/-- **Whether a parenthesis opens a path is decided in front of a border** where brackets match. -/
theorem opensPattern_append {depth : Nat} {t : Token} {rest : List Token}
    (h : Balances depth (t :: rest)) (behind : List Token) :
    opensPattern ⟨behind, t, rest ++ border :: after⟩ = opensPattern ⟨behind, t, rest⟩ := by
  change (decide (t.kind = .sign .leftParen) && startsLikeNode (rest ++ border :: after) &&
      (afterClose 0 (t :: (rest ++ border :: after))).any startsWithRelationship) =
    (decide (t.kind = .sign .leftParen) && startsLikeNode rest &&
      (afterClose 0 (t :: rest)).any startsWithRelationship)
  by_cases hk : t.kind = .sign .leftParen
  · have ho : t.kind.isOpening = true := by rw [hk]; rfl
    rw [startsLikeNode_append hs, afterClose_opening ho, afterClose_opening ho,
      (h.of_opening ho).afterClose_append Nat.one_pos (Nat.succ_pos depth)]
    cases hclose : afterClose 1 rest with
    | none => rfl
    | some us =>
      obtain ⟨d, hd⟩ := (h.of_opening ho).of_afterClose hclose
      rw [Option.map_some, Option.any_some, Option.any_some, startsWithRelationship_append hs hd]
  · rw [decide_eq_false hk, Bool.false_and, Bool.false_and, Bool.false_and, Bool.false_and]

end Border

/-! ### Skipping -/

variable {stop : Token} {after : List Token} (hs : stop.kind.isStop = true)

/-- **No more brackets are counted than are open.** -/
theorem depthAfter_le {depth k : Nat} {t : Token} {ts : List Token} (h : Enclosed depth (t :: ts))
    (hk : k ≤ depth) : ∃ d, Enclosed d ts ∧ depthAfter k t.kind ≤ d := by
  unfold depthAfter
  by_cases ho : t.kind.isOpening = true
  · rw [if_pos ho]
    exact ⟨depth + 1, h.of_opening ho, Nat.succ_le_succ hk⟩
  · rw [if_neg ho]
    by_cases hcl : t.kind.isClosing = true
    · obtain ⟨d, rfl, hd⟩ := h.of_closing ho hcl
      rw [if_pos hcl]
      exact ⟨d, hd, Nat.sub_le_of_le_add hk⟩
    · rw [if_neg hcl]
      exact ⟨depth, h.of_other ho hcl, hk⟩

include hs

/-- Where a statement ends, nothing is skipped when no bracket is counted. -/
theorem resumeFrom_stop (nested : Bool) (behind : List Token) :
    resumeFrom nested behind stop after 0 = ⟨behind, stop, after⟩ := by
  unfold resumeFrom
  rcases TokenKind.eq_of_isStop hs with hk | hk
  · rw [if_pos hk]
  · rw [if_neg (by rw [hk]; exact TokenKind.noConfusion), if_pos (by rw [hk]; rfl)]

/-- **Places in a statement** that are alike, however the statement ends. -/
structure UpTo (tail tail' : List Token) (c c' : Cursor) : Prop where
  /-- The tokens behind are the same. -/
  behind : c.behind = c'.behind
  /-- So are those up to the end of the statement. -/
  rest : ∃ depth rest, Enclosed depth rest ∧ c.current :: c.ahead = rest ++ tail ∧
    c'.current :: c'.ahead = rest ++ tail'

/-- Skipping stops within the statement or at its end. -/
theorem upTo_resumeFrom {stop' : Token} {after' : List Token} (hs' : stop'.kind.isStop = true)
    (nested : Bool) {depth k : Nat} {rest : List Token} (h : Enclosed depth rest) (hk : k ≤ depth)
    (behind : List Token) {current current' : Token} {ahead ahead' : List Token}
    (hc : current :: ahead = rest ++ stop :: after)
    (hc' : current' :: ahead' = rest ++ stop' :: after') :
    UpTo (stop :: after) (stop' :: after') (resumeFrom nested behind current ahead k)
      (resumeFrom nested behind current' ahead' k) := by
  induction rest generalizing depth k behind current current' ahead ahead' with
  | nil =>
    cases h.depth_eq_zero
    cases Nat.le_zero.1 hk
    obtain ⟨rfl, rfl⟩ := List.cons.inj hc
    obtain ⟨rfl, rfl⟩ := List.cons.inj hc'
    rw [resumeFrom_stop hs, resumeFrom_stop hs']
    exact ⟨rfl, 0, [], h, rfl, rfl⟩
  | cons t ts ih =>
    rw [List.cons_append] at hc hc'
    obtain ⟨rfl, rfl⟩ := List.cons.inj hc
    obtain ⟨rfl, rfl⟩ := List.cons.inj hc'
    have hend : current'.kind ≠ .endOfInput :=
      TokenKind.ne_endOfInput (h.goesOn _ List.mem_cons_self)
    obtain ⟨d, hd, hle⟩ := depthAfter_le h hk
    obtain ⟨u, us, hu⟩ := List.exists_cons_of_ne_nil
      (List.append_ne_nil_of_right_ne_nil ts (List.cons_ne_nil stop after))
    obtain ⟨u', us', hu'⟩ := List.exists_cons_of_ne_nil
      (List.append_ne_nil_of_right_ne_nil ts (List.cons_ne_nil stop' after'))
    unfold resumeFrom
    rw [if_neg hend, if_neg hend]
    split
    · exact ⟨rfl, depth, _ :: ts, h, rfl, rfl⟩
    · rw [hu, hu']
      exact ih hd hle _ hu.symm hu'.symm

omit hs in
/-- At the same token, the statement goes on behind it. -/
theorem UpTo.of_current_eq {stop' : Token} {after' : List Token} {c c' : Cursor}
    (h : UpTo (stop :: after) (stop' :: after') c c') (hne : stop ≠ stop')
    (he : c.current = c'.current) : ∃ depth rest, Enclosed depth (c.current :: rest) ∧
      c.ahead = rest ++ stop :: after ∧ c'.ahead = rest ++ stop' :: after' := by
  obtain ⟨-, depth, rest, h, hc, hc'⟩ := h
  cases rest with
  | nil => exact absurd ((List.cons.inj hc).1.symm.trans (he.trans (List.cons.inj hc').1)) hne
  | cons t ts =>
    obtain ⟨rfl, ha⟩ := List.cons.inj hc
    exact ⟨depth, ts, h, ha, (List.cons.inj hc').2⟩

omit hs in
/-- Where the statement ends in one list, it ends in the other. -/
theorem UpTo.of_isStop {stop' : Token} {after' : List Token} {c c' : Cursor}
    (h : UpTo (stop :: after) (stop' :: after') c c') (hk : c.kind.isStop = true) :
    c.current = stop ∧ c'.current = stop' ∧ c'.ahead = after' := by
  obtain ⟨-, depth, rest, h, hc, hc'⟩ := h
  cases rest with
  | nil => exact ⟨(List.cons.inj hc).1, List.cons.inj hc'⟩
  | cons t ts =>
    have hgoes := h.goesOn t List.mem_cons_self
    rw [← (List.cons.inj hc).1] at hgoes
    exact absurd hk (Bool.eq_false_iff.1 hgoes)

end Cursor

/-! ### Up to the end of a statement -/

/-- **Places up to the ends of statements** that end in different ways. Diagnostics correspond
whatever they say, since they may be about the ends. -/
def Parallel.upTo {setting : Setting} (hp : setting.opensPattern = Cursor.opensPattern)
    {stop stop' : Token} (after after' : List Token) (hs : stop.kind.isStop = true)
    (hs' : stop'.kind.isStop = true) (hne : stop ≠ stop') : Parallel setting where
  cursors := Cursor.UpTo (stop :: after) (stop' :: after')
  lost _ := False
  diagnostics _ _ := True
  problems ps ps' := ps.length = ps'.length
  shift := 0
  current := by
    rintro c c' ⟨-, depth, rest, -, hc, hc'⟩
    cases rest with
    | nil =>
      have hstop := (List.cons.inj hc).1
      have hstop' := (List.cons.inj hc').1
      exact Or.inr ⟨by rw [Cursor.kind, hstop]; exact hs, by rw [Cursor.kind, hstop']; exact hs'⟩
    | cons t ts => exact Or.inl ((List.cons.inj hc).1.trans (List.cons.inj hc').1.symm)
  lost_onward h _ := h
  advance := by
    intro c c' hc he
    obtain ⟨depth, rest, h, ha, ha'⟩ := hc.of_current_eq hne he
    obtain ⟨d, hd⟩ := h.tail
    obtain ⟨u, us, hu⟩ := List.exists_cons_of_ne_nil
      (List.append_ne_nil_of_right_ne_nil rest (List.cons_ne_nil stop after))
    obtain ⟨u', us', hu'⟩ := List.exists_cons_of_ne_nil
      (List.append_ne_nil_of_right_ne_nil rest (List.cons_ne_nil stop' after'))
    rw [Cursor.advance_of_ahead_eq_cons (ha.trans hu),
      Cursor.advance_of_ahead_eq_cons (ha'.trans hu')]
    exact .inr ⟨by rw [he, hc.behind], d, rest, hd, hu.symm, hu'.symm⟩
  next := by
    intro c c' hc he _
    obtain ⟨depth, rest, -, ha, ha'⟩ := hc.of_current_eq hne he
    cases rest with
    | nil =>
      rw [Grammar.peek_one_of_ahead_eq_cons ha, Grammar.peek_one_of_ahead_eq_cons ha']
      exact Or.inr ⟨hs, hs'⟩
    | cons u us =>
      rw [Grammar.peek_one_of_ahead_eq_cons ha, Grammar.peek_one_of_ahead_eq_cons ha']
      exact Or.inl rfl
  opensCall := by
    intro c c' hc he
    obtain ⟨depth, rest, -, ha, ha'⟩ := hc.of_current_eq hne he
    have hfollow {stop : Token} (hs : stop.kind.isStop = true) (after : List Token) :
        Cursor.argumentsFollow (rest ++ stop :: after) = Cursor.argumentsFollow rest :=
      Cursor.argumentsFollow_append (TokenKind.isBorder_of_isStop hs) fun _ _ _ _ =>
        TokenKind.apply_of_isStop (f := TokenKind.isNamePart) rfl rfl hs
    rw [Cursor.opensCall, Cursor.opensCall, ha, ha', hfollow hs, hfollow hs']
  opensPattern := by
    intro c c' hc he
    obtain ⟨depth, rest, h, ha, ha'⟩ := hc.of_current_eq hne he
    have hopens : ∀ {c : Cursor} {stop : Token} {after : List Token}, stop.kind.isStop = true →
        Enclosed depth (c.current :: rest) → c.ahead = rest ++ stop :: after →
        c.opensPattern = Cursor.opensPattern ⟨[], c.current, rest⟩ := by
      rintro ⟨behind, current, _⟩ stop after hs h rfl
      exact Cursor.opensPattern_append (TokenKind.isBorder_of_isStop hs) h.closes behind
    rw [hp, hopens hs h ha, hopens hs' (he ▸ h) ha', he]
  resume := by
    rintro c c' nested - ⟨hb, depth, rest, h, hc, hc'⟩
    rw [Cursor.resume, Cursor.resume, ← hb]
    exact Cursor.upTo_resumeFrom hs hs' nested h (Nat.zero_le depth) c.behind hc hc'
  position := by
    rintro c c' ⟨hb, -⟩
    exact (congrArg List.length hb).symm
  previousSpan := by
    rintro c c' ⟨hb, -⟩ hne
    obtain ⟨t, ts, ht⟩ := List.exists_cons_of_ne_nil hne
    rw [Cursor.previousSpan, Cursor.previousSpan, ← hb, ht]
  brace := by
    intro c c' hc he hk
    obtain ⟨depth, rest, h, ha, ha'⟩ := hc.of_current_eq hne he
    cases rest with
    | nil =>
      have hopening : c.current.kind.isOpening = true := by
        rw [show c.current.kind = .sign .leftBrace from hk]
        rfl
      exact absurd (h.of_opening hopening).depth_eq_zero (Nat.succ_ne_zero depth)
    | cons u us =>
      rw [Cursor.advance_of_ahead_eq_cons ha, Cursor.advance_of_ahead_eq_cons ha']
  diagnostic _ _ := trivial
  note h _ := by rw [List.length_append, List.length_append, h]; rfl

/-! ### With tokens behind -/

/-- The place with some more tokens behind all others. -/
def Cursor.onto (c : Cursor) (before : List Token) : Cursor :=
  ⟨c.behind ++ before, c.current, c.ahead⟩

namespace Cursor

theorem advance_onto (c : Cursor) (before : List Token) :
    (c.onto before).advance = c.advance.onto before := by
  rcases c with ⟨behind, current, _ | ⟨t, ts⟩⟩ <;> rfl

variable {before : List Token} (hb : before.head?.map Token.kind ≠ some (.keyword .ON))

include hb

theorem resumesAt_onto (nested : Bool) (behind : List Token) (kind : TokenKind) :
    resumesAt nested ((behind ++ before).head?.map Token.kind) kind =
      resumesAt nested (behind.head?.map Token.kind) kind := by
  cases behind with
  | nil =>
    rw [List.nil_append, resumesAt, resumesAt, decide_eq_true hb]
    rfl
  | cons t ts => rfl

/-- More tokens behind make no difference to skipping, unless the nearest of them is a word that
goes with the next. -/
theorem resumeFrom_onto (nested : Bool) (behind : List Token) (current : Token)
    (ahead : List Token) (depth : Nat) :
    resumeFrom nested (behind ++ before) current ahead depth =
      (resumeFrom nested behind current ahead depth).onto before := by
  induction ahead generalizing behind current depth with
  | nil =>
    unfold resumeFrom
    rw [resumesAt_onto hb]
    split
    · rfl
    · split <;> rfl
  | cons t ts ih =>
    unfold resumeFrom
    rw [resumesAt_onto hb]
    split
    · rfl
    · split
      · rfl
      · exact ih (current :: behind) t _

end Cursor

/-- **Places with the same tokens from there on**, but more tokens behind in the second list, where
some problems have been noted before. -/
def Parallel.behind {setting : Setting} (hp : setting.opensPattern = Cursor.opensPattern)
    (before : List Token)
    (hb : setting.forgiving = true → before.head?.map Token.kind ≠ some (.keyword .ON))
    (noted : List Diagnostic) : Parallel setting where
  cursors c c' := c' = c.onto before
  lost _ := False
  diagnostics := Eq
  problems ps ps' := ps' = noted ++ ps
  shift := before.length
  current := by
    rintro c _ rfl
    exact Or.inl rfl
  lost_onward h _ := h
  advance := by
    rintro c _ rfl -
    exact .inr (c.advance_onto before)
  next := by
    rintro c _ rfl - -
    exact Or.inl rfl
  opensCall := by
    rintro c _ rfl -
    rfl
  opensPattern := by
    rintro c _ rfl -
    rw [hp]
    rfl
  resume := by
    rintro c _ nested hf rfl
    exact Cursor.resumeFrom_onto (hb hf) nested c.behind c.current c.ahead 0
  position := by
    rintro c _ rfl
    exact List.length_append
  previousSpan := by
    rintro c _ rfl hne
    obtain ⟨t, ts, ht⟩ := List.exists_cons_of_ne_nil hne
    rw [Cursor.previousSpan, Cursor.previousSpan, Cursor.onto, ht]
    rfl
  brace := by
    rintro c _ rfl - -
    rw [Cursor.advance_onto]
    rfl
  diagnostic := by
    intro s s' problem hc
    rw [State.diagnostic, State.diagnostic, hc]
    rfl
  note := by
    rintro ps _ d _ rfl rfl
    exact List.append_assoc ..

end Cypher
