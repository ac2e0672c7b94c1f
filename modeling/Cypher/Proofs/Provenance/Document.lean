import Cypher.Proofs.Growth.Document
import Cypher.Proofs.Recovery
import Cypher.Proofs.Tiling.Document
import Cypher.Proofs.Provenance.Clause

/-!
# Where documents come from

A clause that cannot be read gives way to a stand-in for the tokens of it and those skipped. Inside
of a subquery the skipping stops at a closing brace unless it has met an opening one before, and
that is all there is to know about it (`Cypher.Cursor.across_resumeFrom`). At the first token of a
clause it knows nothing at all: that token is skipped whatever it is, be it an opening brace.

With the rules that nest, the induction over the room for nesting is done
(`Cypher.Grammar.sprouts_runNested`). So a document stems from the tokens of its text
(`Cypher.stems_of_parse`).
-/

namespace Cypher

open Token (hull)

/-! ### Skipping -/

/-- **Skipping passes tokens.** Inside of a subquery no brace is closed that was not opened on the
way. -/
theorem Cursor.across_resumeFrom (nested : Bool) (behind : List Token) (current : Token)
    (ahead : List Token) (depth : Nat) :
    ∃ w, Across ⟨behind, current, ahead⟩ w (resumeFrom nested behind current ahead depth) ∧
      (nested = true → Token.Skips depth w) := by
  induction ahead generalizing behind current depth with
  | nil =>
    refine ⟨[], ?_, fun _ => trivial⟩
    rw [resumeFrom]
    split
    · exact .refl _
    · split <;> exact .refl _
  | cons t ts ih =>
    rw [resumeFrom]
    split
    · exact ⟨[], .refl _, fun _ => trivial⟩
    · split
      · exact ⟨[], .refl _, fun _ => trivial⟩
      · next hgo =>
        obtain ⟨w, hw, hskips⟩ := ih (current :: behind) t (depthAfter depth current.kind)
        refine ⟨current :: w, Across.trans (.advance rfl) hw, fun hn => ⟨fun hk => ?_, hskips hn⟩⟩
        -- outside of all brackets a closing brace would have been the end
        by_contra hdepth
        refine hgo (Bool.and_eq_true_iff.2 ⟨decide_eq_true (Nat.eq_zero_of_not_pos hdepth), ?_⟩)
        rw [hk, hn]
        rfl

/-- A token that is no closing brace may be left where nothing has come of it. -/
theorem Stems.torn_of_ne {t : Token} (hend : t.kind ≠ .endOfInput)
    (hclose : t.kind ≠ .sign .rightBrace) : Stems .torn [] [] [] [t] := by
  by_cases hopen : t.kind = .sign .leftBrace
  · exact .opening hopen
  · refine .bare ?_
    unfold TokenKind.isPlain
    split
    · next he => exact absurd he hend
    · next he => exact absurd he hopen
    · next he => exact absurd he hclose
    · rfl

namespace Grammar

open Rule hiding pure bind
open Rooted (Bare roots map_eq_roots)

variable {setting : Setting} {inner : Inner} {low : Nat} {level : Wholeness} {s : State}

/-! ### Stand-ins -/

/-- The token that a clause got stuck at is passed, unless it ends the branch. -/
theorem exists_run_moveIfStuck (setting : Setting) (inner : Inner) (hc : s.cursor.Closed)
    (position : Nat) :
    ∃ v c, (moveIfStuck position).run setting inner s = .done () { s with cursor := c } ∧
      s.cursor.Across v c ∧ (s.scopes.isNested = true → Stems .torn [] [] [] v) := by
  by_cases hp : s.cursor.position = position
  · cases hends : s.cursor.kind.endsClauses s.scopes.isNested with
    | true =>
      refine ⟨[], s.cursor, ?_, .refl _, fun _ => .nil⟩
      rw [moveIfStuck, run_bind, run_look, Outcome.andThen_done, View.read, if_pos hp,
        run_bind_done (run_atClausesEnd s), hends]
      rfl
    | false =>
      have hend : s.cursor.kind ≠ .endOfInput := by
        intro he
        rw [he] at hends
        cases hends
      obtain ⟨t, ts, ha⟩ := List.exists_cons_of_ne_nil (hc.ahead_ne_nil hend)
      refine ⟨_, s.cursor.advance, ?_, .advance ha, fun hn => .torn_of_ne hend fun he => ?_⟩
      · rw [moveIfStuck, run_bind, run_look, Outcome.andThen_done, View.read, if_pos hp,
          run_bind_done (run_atClausesEnd s), hends]
        rfl
      · rw [show s.cursor.kind = .sign .rightBrace from he, hn] at hends
        cases hends
  · refine ⟨[], s.cursor, ?_, .refl _, fun _ => .nil⟩
    rw [moveIfStuck, run_bind, run_look, Outcome.andThen_done, View.read, if_neg hp]
    rfl

/-- **What a stand-in covers** behind the tokens of the clause. -/
theorem exists_run_failedClause (setting : Setting) (inner : Inner) (hc : s.cursor.Closed)
    (start position : Nat) :
    ∃ v w c, (failedClause start position).run setting inner s =
        .done (.error (c.spanFrom start)) { s with cursor := c } ∧
      s.cursor.Across (v ++ w) c ∧
      (s.scopes.isNested = true → Stems .torn [] [] [] v ∧ Token.Skips 0 w) := by
  obtain ⟨v, c, hrun, hv, hstuck⟩ := exists_run_moveIfStuck setting inner hc position
  obtain ⟨w, hw, hskips⟩ := Cursor.across_resumeFrom s.scopes.isNested c.behind c.current c.ahead 0
  refine ⟨v, w, c.resume s.scopes.isNested, ?_, hv.trans hw, fun hn => ⟨hstuck hn, hskips hn⟩⟩
  rw [failedClause, run_bind_done hrun]
  rfl

section Sequences

variable (hi : inner.GoesOn)

include hi

/-! ### Sequences of clauses -/

omit hi in
theorem sprouts_record (kind : ClauseKind) : Sprouts setting inner low level (.record kind) s :=
  fun _ _ u _ hu => ⟨[], .refl _, (List.append_nil u).symm ▸ hu⟩

/-- **A clause, or its stand-in if it fails**, given what a stand-in stems from. -/
theorem sprouts_mendClause (hclause : Sprouts setting inner low level clause s)
    (hstandIn : ∀ u v w, u ++ (v ++ w) ≠ [] → Stems level.broken [] [] [] u →
      (2 ≤ low → Stems .torn [] [] [] v ∧ Token.Skips 0 w) →
      Stems level [.clause (.error (hull (u ++ (v ++ w))))] [] [] (u ++ (v ++ w)))
    (hends : s.cursor.kind.endsClauses s.scopes.isNested = false) :
    Sprouts setting inner low level
      (.mend clause (failedClause s.cursor.front s.cursor.position)) s := by
  refine .sprouts ?_
  rintro hs hd _ hlast rfl
  have ho := hclause hs hd [] hlast .nil
  have hmoves : MovesOn setting inner (fun _ => True) _ s :=
    movesOn_mendClause hi hends s.cursor.front
  replace hmoves := hmoves hs.closed
  rw [Rule.run] at hmoves ⊢
  cases hrun : clause.run setting inner s with
  | done c t =>
    rw [hrun] at ho
    exact ho
  | failed d t =>
    rw [hrun] at ho hmoves
    obtain ⟨u, hu, htorn⟩ := ho
    have hst : s.Onward t := by
      have hto := onward_run setting hi clause s
      rwa [hrun] at hto
    obtain ⟨v, w, c, hr, hw, hskips⟩ := exists_run_failedClause setting inner
      (s := t.note d) (hst.closed hs.closed) s.cursor.front s.cursor.position
    have hacross := hu.trans hw
    dsimp only at hmoves ⊢
    split
    · next hf =>
      rw [if_pos hf] at hmoves
      have hne : u ++ (v ++ w) ≠ [] := by
        intro hnil
        rw [hnil] at hacross
        have hlt := hmoves _ _ hr trivial
        rw [State.left, hacross.eq_of_nil] at hlt
        exact Nat.lt_irrefl _ hlt
      rw [hr]
      refine ⟨_, hacross, ?_⟩
      rw [hacross.spanFrom_eq hs.apart hne]
      exact hstandIn u v w hne htorn fun hlow =>
        hskips (hst.isNested_eq.trans (decide_eq_true (Nat.le_trans hlow hd)))
    · exact ⟨u, hu, htorn⟩

theorem sprouts_clauseOrError_of (hclause : Sprouts setting inner low level clause s)
    (hstandIn : ∀ u v w, u ++ (v ++ w) ≠ [] → Stems level.broken [] [] [] u →
      (2 ≤ low → Stems .torn [] [] [] v ∧ Token.Skips 0 w) →
      Stems level [.clause (.error (hull (u ++ (v ++ w))))] [] [] (u ++ (v ++ w)))
    (hends : s.cursor.kind.endsClauses s.scopes.isNested = false) :
    Sprouts setting inner low level clauseOrError s :=
  .startHere (.look (.bind hi (sprouts_mendClause hi hclause hstandIn hends)
    fun clause _ => .skip hi (sprouts_record clause.kind) fun _ _ => .value rfl))

/-- In braces a stand-in stems from a clause that failed and tokens that were skipped. -/
theorem sprouts_clauseOrError_whole (hlow : 2 ≤ low)
    (hclause : Sprouts setting inner low .whole clause s)
    (hends : s.cursor.kind.endsClauses s.scopes.isNested = false) :
    Sprouts setting inner low .whole clauseOrError s := by
  refine sprouts_clauseOrError_of hi hclause (fun u v w hne hu hvw => ?_) hends
  obtain ⟨hv, hw⟩ := hvw hlow
  rw [← List.append_assoc] at hne ⊢
  exact .standIn (hu.append hv) hw hne

/-- Outside of braces it stems from any tokens. -/
theorem sprouts_clauseOrError_loose (hclause : Sprouts setting inner low .loose clause s)
    (hends : s.cursor.kind.endsClauses s.scopes.isNested = false) :
    Sprouts setting inner low .loose clauseOrError s :=
  sprouts_clauseOrError_of hi hclause (fun _ _ _ hne _ _ => .strayed hne) hends

variable (hclause : ∀ t : State, t.cursor.kind.endsClauses t.scopes.isNested = false →
  Sprouts setting inner (low + 1) level clauseOrError t)

include hclause

theorem sprouts_nextClause : Sprouts setting inner (low + 1) level nextClause s := by
  refine .test hi (.look (.look (.value rfl))) fun ends t ht => ?_
  rw [run_atClausesEnd s] at ht
  obtain ⟨rfl, rfl⟩ := Outcome.done.inj ht
  refine .ite (fun _ => .value rfl) fun hends => ?_
  exact .bind hi (hclause s (Bool.eq_false_iff.2 hends)) fun c t =>
    .value (List.flatMap_singleton ..).symm

omit hi hclause in
theorem sprouts_requireClauses (context : String) (clauses : List Clause) :
    Sprouts setting inner low level (requireClauses context clauses) s := by
  refine .ite (fun _ => ?_) fun _ => .value rfl
  intro _ _ u _ hu
  rw [Rule.run]
  split
  · exact ⟨[], .refl _, (List.append_nil u).symm ▸ hu⟩
  · exact ⟨[], .refl _, (List.append_nil u).symm ▸ hu.broken⟩

theorem sprouts_branchIn (kind : ScopeKind) (context : String) :
    Sprouts setting inner low level (branchIn kind context) s :=
  .bind hi (.inScope fun _ => sprouts_many hi fun _ => sprouts_nextClause hi hclause)
    fun clauses _ => .skip hi (sprouts_requireClauses context clauses) fun _ _ => .value rfl

/-- A branch behind a union begins with the word. -/
theorem turns_unionBranch (kind : ScopeKind) (hk : s.cursor.kind = .keyword .UNION) :
    Turns setting inner low level (Stems level [] [] [])
      (fun b => Stems level (roots b) [] [b.span.start]) (unionBranch kind) s :=
  .advanceMarked hk rfl (.skip hi (sprouts_takeWord _) fun _ _ =>
    .bind hi (sprouts_branchIn hi hclause kind _) fun _ _ => .look (.pure fun _ hu => hu))

theorem turns_furtherUnion (kind : ScopeKind) :
    Turns setting inner low level (Stems level [] [] [])
      (fun b => Stems level (roots b) [] (b.toList.map (·.span.start)))
      (optionally (atWord .UNION) (unionBranch kind)) s := by
  refine .test hi sprouts_isAt fun found t ht => ?_
  cases found with
  | false => exact .pure fun _ hu => hu
  | true =>
    obtain ⟨rfl, hk⟩ := kind_of_isAt ht
    refine .andThen hi (turns_unionBranch hi hclause kind hk) fun b t _ => .pure fun w hw => ?_
    have hroots : roots (some b) = roots b := List.flatMap_singleton ..
    exact hroots.symm ▸ hw

theorem turns_unions (kind : ScopeKind) (unions : List (UnionBranch Clause)) :
    Turns setting inner low level (Stems level (roots unions) [] (unions.map (·.span.start)))
      (fun all => Stems level (roots all) [] (all.map (·.span.start)))
      (many (optionally (atWord .UNION) (unionBranch kind)) unions) s := by
  refine turns_many (p := fun (all : List (UnionBranch Clause)) =>
    Stems level (roots all) [] (all.map (·.span.start))) hi fun all u => ?_
  refine (Turns.beside (turns_furtherUnion hi hclause kind).alone).mono fun b w hw => ?_
  have hroots : roots (all ++ b.toList) = roots all ++ roots b := List.flatMap_append
  rwa [← hroots, ← List.map_append] at hw

/-- **Queries stem from the tokens that are passed.** -/
theorem sprouts_query (kind : ScopeKind) : Sprouts setting inner low level (query kind) s := by
  refine .startHere (.bind hi (sprouts_branchIn hi hclause kind _) fun clauses t => ?_)
  refine .mark hi (turns_unions hi hclause kind []) fun unions u => .look (.node rfl rfl
    (children_query_eq_roots ⟨clauses, unions, _⟩) ?_)
  exact (List.map_map ..).symm ▸ .refl _

end Sequences

/-! ### Bodies of existence tests -/

section Bodies

variable (h : inner.Sprouts setting)

include h

omit h in
theorem sprouts_recordAll (hi : inner.GoesOn) (clauses : List Clause) :
    Sprouts setting inner low level (recordAll clauses) s := by
  induction clauses generalizing s with
  | nil => exact .value rfl
  | cons clause clauses ih =>
    exact .skip hi (sprouts_record clause.kind) fun _ _ => ih

/-- A clause that is nothing but a pattern begins with it. -/
theorem sprouts_patternBody : Sprouts setting inner 1 .whole patternBody s := by
  refine .startHere (.andThen h.goesOn (turns_pattern h) fun pattern t _ => ?_)
  suffices hbehind : Turns setting inner 1 .whole
      (Stems .whole [.clause (.matchPattern false pattern pattern.span)] [] [])
      (fun q => Stems .whole (roots q) [] []) _ t from
    hbehind.given fun _ hu => hu.frame rfl (map_eq_roots (fun _ => rfl) pattern.parts) (.refl _)
  refine .bind h.goesOn (sprouts_optionally h.goesOn sprouts_isAt fun u hu => ?_) fun filter u => ?_
  · obtain ⟨rfl, hk⟩ := kind_of_isAt hu
    exact sprouts_whereClause h hk
  · exact .skip h.goesOn (sprouts_recordAll h.goesOn _) fun _ _ => .look (.node rfl rfl
      ((children_query_eq_roots ⟨_ :: filter.toList, [], _⟩).trans (List.append_nil _)) (.refl _))

/-- **So do the bodies of subqueries**, whose clauses lie in two scopes at least. -/
theorem sprouts_subqueryBody : Sprouts setting inner 1 .whole (query .subquery) s :=
  sprouts_query h.goesOn (fun _ => sprouts_clauseOrError_whole h.goesOn (Nat.le_refl 2)
    ((sprouts_clause h).higher (Nat.le_succ 1))) .subquery

theorem sprouts_existsBody : Sprouts setting inner 1 .whole existsBody s :=
  .look (.ite (fun _ => sprouts_subqueryBody h) fun _ =>
    .inScope fun _ => (sprouts_patternBody h).higher (Nat.le_succ 1))

end Bodies

/-! ### Nested rules -/

/-- What a nested rule reads, its body reads. -/
theorem sprouts_deeper {α : Type} [Rooted α] {room : Nat} {rule : Nested α}
    (h : ∀ t, Sprouts setting (runNested setting body room) low level (body rule) t) :
    Sprouts setting (runNested setting body (room + 1)) low level (.nested rule) s := by
  intro hs hd u hlast hu
  have ho := h { s with depth := s.depth + 1 } hs hd u hlast hu
  change ((run setting (runNested setting body room) (body rule) _).mapState _).Leaves _ _ _ _
  cases hr : (body rule).run setting (runNested setting body room)
      { s with depth := s.depth + 1 } with
  | done a t =>
    rw [hr] at ho
    exact ho
  | failed d t =>
    rw [hr] at ho
    exact ho

/-- **What nested rules read stems from the tokens that they pass.** -/
theorem sprouts_runNested (setting : Setting) (room : Nat) :
    Inner.Sprouts setting (runNested setting body room) := by
  induction room with
  | zero =>
    refine ⟨goesOn_runNested setting body 0, fun strength s => ?_, fun s => ?_, fun s => ?_⟩
    all_goals exact fun _ _ u _ hu => ⟨[], .refl _, (List.append_nil u).symm ▸ hu.broken⟩
  | succ room ih =>
    refine ⟨goesOn_runNested setting body _, fun strength s => ?_, fun s => ?_, fun s => ?_⟩
    · exact sprouts_deeper fun t => sprouts_expressionOf ih
    · exact sprouts_deeper fun t => sprouts_subqueryBody ih
    · exact sprouts_deeper fun t => sprouts_existsBody ih

/-! ### Documents -/

section Documents

variable (h : inner.Sprouts setting)

include h

theorem sprouts_statementBody : Sprouts setting inner 0 .loose (query .statement) s :=
  sprouts_query h.goesOn (fun _ => sprouts_clauseOrError_loose h.goesOn (.sprouts
    ((sprouts_clause h).alone.loosen.mono fun _ _ hw => .loosen hw))) .statement

/-- A statement that is not one has nothing inside. -/
theorem sprouts_statement : Sprouts setting inner 0 .loose statement s := by
  refine .look (.bind h.goesOn (sprouts_statementBody h) fun query t => .ite (fun _ => ?_)
    fun _ => .node rfl rfl rfl (List.nil_sublist _))
  exact .pure fun w _ => Stems.waste.frame rfl rfl (List.nil_sublist _)

theorem sprouts_moveOverSemicolons : Sprouts setting inner 0 .loose moveOverSemicolons s :=
  .loop h.goesOn fun _ _ => (sprouts_optionally h.goesOn (sprouts_takeSign rfl) fun _ _ =>
    .value rfl).mono fun next _ hw => Bare.roots_eq_nil next ▸ hw

theorem sprouts_nextStatement : Sprouts setting inner 0 .loose nextStatement s :=
  .skip h.goesOn (sprouts_moveOverSemicolons h) fun _ _ => .isAt (.ite (fun _ => .value rfl)
    fun _ => .bind h.goesOn (sprouts_statement h)
      fun _ _ => .value (List.flatMap_singleton ..).symm)

theorem sprouts_document : Sprouts setting inner 0 .loose document s :=
  .bind h.goesOn (sprouts_many h.goesOn fun _ => sprouts_nextStatement h) fun statements _ =>
    .look (.node rfl rfl (map_eq_roots (fun _ => rfl) statements) (List.nil_sublist _))

end Documents

/-- A document stems from the tokens that it is read from. -/
theorem stems_of_read {setting : Setting} {tokens words : List Token} {e : Token}
    {document : Document} (hsplit : tokens.filter (fun t => t.kind ≠ .invalid) = words ++ [e])
    (he : e.kind = .endOfInput) (ha : Token.Apart (words ++ [e]))
    (hr : (read setting tokens).document = some document) :
    ∃ w rest, words ++ [e] = w ++ rest ∧ rest ≠ [] ∧ Stems .loose [.document document] [] [] w := by
  obtain ⟨hover, hbehind⟩ := Cursor.over_ofTokens hsplit he
  unfold read at hr
  have ho := sprouts_document (sprouts_runNested setting setting.limit) (s := .start tokens)
    ⟨hover.closed, hover.tokens_eq.symm ▸ ha⟩ (Nat.zero_le _) [] (List.nil_suffix ..) .nil
  cases hrun : start setting Grammar.document (.start tokens) with
  | done a t =>
    rw [hrun] at hr
    cases hr
    change Rule.run _ _ _ _ = _ at hrun
    rw [hrun] at ho
    obtain ⟨w, hw, hstems⟩ := ho
    refine ⟨w, t.cursor.rest, ?_, t.cursor.rest_ne_nil, hstems⟩
    rw [← hover.tokens_eq, Cursor.tokens, hbehind]
    exact hw.1
  | failed d t =>
    rw [hrun] at hr
    cases hr

end Grammar

/-! ### The tokens of a text -/

/-- **The tokens of a text** that take part in the grammar. -/
def tokensRead (source : String) (dialect : Dialect) : List Token :=
  (tokenize source dialect).tokens.filter fun t => t.kind ≠ .invalid

/-- They do not overlap. -/
theorem apart_tokensRead (source : String) (dialect : Dialect) :
    Token.Apart (tokensRead source dialect) := by
  have hspell : Token.Spell [] source.toList (tokenize source dialect).tokens :=
    Piece.spell_tokens dialect.rules.reserves [] source.toList
  exact hspell.ordered.2.filter _

/-- The last of them is the end of the text. -/
theorem exists_tokensRead_eq (source : String) (dialect : Dialect) :
    ∃ words e, tokensRead source dialect = words ++ [e] ∧ e.kind = .endOfInput := by
  have hspell : Token.Spell [] source.toList (tokenize source dialect).tokens :=
    Piece.spell_tokens dialect.rules.reserves [] source.toList
  obtain ⟨words, e, hsplit, he, -⟩ := hspell.last
  refine ⟨words.filter fun t => t.kind ≠ .invalid, e, ?_, he⟩
  rw [tokensRead, hsplit, List.filter_append]
  simp [he]

/-- **A document that is found in a text stems from its tokens.** -/
theorem stems_of_parse {source : String} {options : Options} {document : Document}
    (h : (parse source options).document = some document) :
    ∃ w rest, tokensRead source options.dialect = w ++ rest ∧ rest ≠ [] ∧
      Stems .loose [.document document] [] [] w := by
  rw [document_parse] at h
  have ha := apart_tokensRead source options.dialect
  obtain ⟨words, e, hsplit, he⟩ := exists_tokensRead_eq source options.dialect
  rw [hsplit] at ha ⊢
  exact Grammar.stems_of_read hsplit he ha h

end Cypher
