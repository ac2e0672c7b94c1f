import Cypher.Proofs.Stripped.Clause
import Cypher.Parse

/-!
# Documents are read alike wherever their tokens stand

With the rules for queries and documents, no rule of the grammar sees where things are. The nested
rules do not either, since at every depth they are rules of the grammar, and so the same holds of
the whole reading: from tokens that are the same but for their places, the same document is read up
to spans, with the same problems up to the spans they point at, and the same scopes are left
(`Cypher.strip_parseTokens`).
-/

namespace Cypher

/-- A clause is of its kind wherever it stands. -/
@[simp] theorem Clause.kind_strip (c : Clause) : ClauseOf.kind (strip c) = ClauseOf.kind c := by
  cases c <;> simp [ClauseOf.kind]

@[simp] theorem Clause.isError_strip (c : Clause) :
    ClauseOf.isError (strip c) = ClauseOf.isError c := by
  cases c <;> simp [ClauseOf.isError]

/-- Clauses that are the same but for spans are of the same kind. -/
theorem Clause.kind_eq_of_strip {c d : Clause} (h : strip c = strip d) :
    ClauseOf.kind c = ClauseOf.kind d := by
  rw [← Clause.kind_strip, h, Clause.kind_strip]

/-- Clauses are all stand-ins wherever they stand. -/
theorem Clause.all_isError_eq_of_strip {cs ds : List Clause} (h : strip cs = strip ds) :
    cs.all ClauseOf.isError = ds.all ClauseOf.isError := by
  have hall (cs : List Clause) : (strip cs).all ClauseOf.isError = cs.all ClauseOf.isError :=
    List.all_map.trans (congrArg cs.all (funext Clause.isError_strip))
  rw [← hall, h, hall]

namespace Grammar

open Rule hiding pure bind

/-! ### Sequences of clauses -/

theorem alike_atClausesEnd : Alike atClausesEnd atClausesEnd := by
  refine .here fun t t' hkind _ => ?_
  rw [hkind]
  exact .andThen (.look View.alike_nested) fun _ => .pure rfl

theorem alike_moveIfStuck (position : Nat) : Alike (moveIfStuck position) (moveIfStuck position) :=
  .andThen (.look View.alike_position) fun _ =>
    .ite (.andThen alike_atClausesEnd fun _ => .ite (.pure rfl) alike_move) (.pure rfl)

theorem alike_failedClause (start start' position : Nat) :
    Alike (failedClause start position) (failedClause start' position) :=
  .andThen (alike_moveIfStuck position) fun _ => .andThen .resume fun _ =>
    .spanFrom _ _ fun _ _ => .pure (by simp)

theorem alike_clauseOrError : Alike clauseOrError clauseOrError := by
  refine .startHere fun start start' => .andThen (.look View.alike_position) fun position => ?_
  refine .bind (.mend alike_clause (alike_failedClause start start' position)) fun c c' h => ?_
  rw [Clause.kind_eq_of_strip h]
  exact .andThen (.record _) fun _ => .pure h

theorem alike_nextClause : Alike nextClause nextClause :=
  .andThen alike_atClausesEnd fun _ => .ite (.pure rfl)
    (.bind alike_clauseOrError fun _ _ h => .pure (congrArg some h))

theorem alike_branch (kind : ScopeKind) : Alike (branch kind) (branch kind) :=
  .inScope kind (.many alike_nextClause rfl)

theorem alike_branchIn (kind : ScopeKind) (context : String) :
    Alike (branchIn kind context) (branchIn kind context) := by
  refine .bind (alike_branch kind) fun clauses clauses' h => ?_
  have hrequire : Alike (requireClauses context clauses) (requireClauses context clauses') := by
    unfold requireClauses
    rw [Strip.isEmpty_eq h]
    exact .ite (.complain trivial) (.pure rfl)
  exact .andThen hrequire fun _ => .pure h

theorem alike_unionBranch (kind : ScopeKind) : Alike (unionBranch kind) (unionBranch kind) :=
  .advanceThen fun _ _ => .andThen (.consume _) fun _ =>
    .bind (alike_branchIn kind _) fun clauses clauses' h => .spanFrom _ _ fun _ _ =>
      .pure (by simp [h])

theorem alike_query (kind : ScopeKind) : Alike (query kind) (query kind) := by
  refine .startHere fun _ _ => .bind (alike_branchIn kind _) fun clauses clauses' hclauses => ?_
  refine .bind (.many (.optionally (.isAt _) (alike_unionBranch kind)) rfl)
    fun unions unions' hunions => ?_
  exact .spanFrom _ _ fun _ _ => .pure (by simp [hclauses, hunions])

/-! ### Bodies of existence tests -/

theorem alike_recordAll {clauses clauses' : List Clause} (h : strip clauses = strip clauses') :
    Alike (recordAll clauses) (recordAll clauses') := by
  induction clauses generalizing clauses' with
  | nil =>
    obtain rfl := Strip.eq_nil h
    exact .pure rfl
  | cons c cs ih =>
    obtain ⟨c', cs', rfl, hc, hcs⟩ := Strip.exists_eq_cons h
    unfold recordAll
    rw [Clause.kind_eq_of_strip hc]
    exact .andThen (.record _) fun _ => ih hcs

theorem alike_patternBody : Alike patternBody patternBody := by
  refine .startHere fun _ _ => .bind alike_pattern fun paths paths' hpaths => ?_
  refine .bind (.optionally (.isAt _) alike_whereClause) fun filter filter' hfilter => ?_
  have htail : strip filter.toList = strip filter'.toList := by
    have htoList (filter : Option Clause) : strip filter.toList = (strip filter).toList := by
      cases filter <;> rfl
    rw [htoList, hfilter, htoList]
  have hclauses : strip (ClauseOf.matchPattern false paths paths.span :: filter.toList) =
      strip (ClauseOf.matchPattern false paths' paths'.span :: filter'.toList) := by
    simp [hpaths, htail]
  exact .andThen (alike_recordAll hclauses) fun _ => .spanFrom _ _ fun _ _ =>
    .pure (by simp [hpaths, htail])

theorem alike_existsBody : Alike existsBody existsBody := by
  refine .here fun t t' hkind _ => ?_
  rw [hkind]
  exact .ite (alike_query .subquery) (.inScope .subquery alike_patternBody)

/-! ### Documents -/

theorem alike_moveOverSemicolons : Alike moveOverSemicolons moveOverSemicolons :=
  .loop (fun _ _ _ => .optionally (.consume _) (.pure rfl)) rfl

theorem alike_statement : Alike statement statement := by
  refine .here fun t t' hkind _ => ?_
  dsimp only
  rw [hkind]
  refine .bind (alike_query .statement) fun query query' h => ?_
  obtain ⟨clauses, unions, span⟩ := query
  obtain ⟨clauses', unions', span'⟩ := query'
  rw [Strip.strip_query, Strip.strip_query] at h
  injection h with hclauses hunions
  rw [Clause.all_isError_eq_of_strip hclauses, Strip.isEmpty_eq hunions]
  refine .ite (.pure rfl) (.pure (congrArg Statement.query ?_))
  simp [hclauses, hunions]

theorem alike_nextStatement : Alike nextStatement nextStatement :=
  .andThen alike_moveOverSemicolons fun _ => .andThen (.isAt _) fun _ => .ite (.pure rfl)
    (.bind alike_statement fun _ _ h => .pure (congrArg some h))

theorem alike_document : Alike document document :=
  .bind (.many alike_nextStatement rfl) fun _ _ h => .here fun _ _ _ _ =>
    .pure (congrArg (Document.mk · ⟨0, 0⟩) h)

end Grammar

/-! ### The complete grammar -/

/-- **Nested rules do not see where things are**, at any depth. -/
theorem Rule.blind_runNested {setting : Setting} (hblind : setting.Blind) (room : Nat) :
    Inner.Blind (Rule.runNested setting Grammar.body room) := by
  have deeper {s s' : State} (h : strip s = strip s') (f : Nat → Nat) :
      strip { s with depth := f s.depth } = strip { s' with depth := f s'.depth } :=
    let ⟨hcursor, hscopes, hproblems, hdepth⟩ := Strip.state_eq_iff.1 h
    Strip.state_eq_iff.2 ⟨hcursor, hscopes, hproblems, congrArg f hdepth⟩
  induction room with
  | zero =>
    refine ⟨fun strength s s' h => ?_, fun h => ?_, fun h => ?_⟩
    all_goals exact Strip.failed (State.strip_diagnostic setting _ h) h
  | succ room ih =>
    have hrun {α : Type} [Strip α] {rule : Rule α} (h : Rule.Alike rule rule) {s s' : State}
        (hs : strip s = strip s') :
        strip ((rule.run setting (Rule.runNested setting Grammar.body room)
            { s with depth := s.depth + 1 }).mapState fun t => { t with depth := t.depth - 1 }) =
          strip ((rule.run setting (Rule.runNested setting Grammar.body room)
            { s' with depth := s'.depth + 1 }).mapState fun t => { t with depth := t.depth - 1 }) :=
      Strip.mapState (fun _ _ ht => deeper ht (· - 1)) (h.strip_run hblind ih (deeper hs (· + 1)))
    exact ⟨fun strength _ _ h => hrun (Grammar.alike_expressionOf strength) h,
      hrun (Grammar.alike_query .subquery), hrun Grammar.alike_existsBody⟩

/-! ### Lists of tokens -/

/-- Tokens that are the same but for their places. -/
theorem Token.strip_eq_iff {t u : Token} :
    strip t = strip u ↔ t.kind = u.kind ∧ t.lexeme = u.lexeme := by
  constructor
  · exact fun h => ⟨Token.kind_eq_of_strip h, Token.lexeme_eq_of_strip h⟩
  · rintro ⟨hkind, hlexeme⟩
    change Token.mk _ _ _ _ _ = Token.mk _ _ _ _ _
    rw [hkind, hlexeme]
    rfl

namespace Cursor

theorem closed_strip (t : Token) (ts : List Token) :
    closed (strip t) (strip ts) = strip (closed t ts) := by
  induction ts generalizing t with
  | nil =>
    rw [Strip.strip_nil, closed, closed, Token.kind_strip]
    split <;> rfl
  | cons u us ih => exact congrArg (strip u :: ·) (ih u)

/-- The cursor at the start of tokens is the same wherever they stand. -/
theorem strip_ofTokens {first second : List Token} (h : strip first = strip second) :
    strip (ofTokens first) = strip (ofTokens second) := by
  have hfilter (tokens : List Token) : strip (tokens.filter fun t => t.kind ≠ .invalid) =
      (strip tokens).filter fun t => t.kind ≠ .invalid := by
    change List.map strip _ = List.filter _ (List.map strip _)
    rw [List.filter_map]
    rfl
  have hkept : strip (first.filter fun t => t.kind ≠ .invalid) =
      strip (second.filter fun t => t.kind ≠ .invalid) := by rw [hfilter, h, hfilter]
  rw [ofTokens, ofTokens]
  cases hfirst : first.filter fun t => t.kind ≠ .invalid with
  | nil =>
    rw [hfirst] at hkept
    rw [Strip.eq_nil hkept]
  | cons t ts =>
    rw [hfirst] at hkept
    obtain ⟨u, us, hsecond, ht, hts⟩ := Strip.exists_eq_cons hkept
    rw [hsecond]
    refine Strip.cursor_eq_iff.2 ⟨rfl, ht, ?_⟩
    change strip (closed t ts) = strip (closed u us)
    rw [← closed_strip, ← closed_strip, ht, hts]

end Cursor

instance : Strip Grammar.Reading :=
  ⟨fun r => ⟨strip r.document, strip r.problems, r.scopes⟩⟩

/-- The setting that options ask for does not see where things are. -/
theorem Setting.blind_ofOptions (options : Options) : (Setting.ofOptions options).Blind :=
  fun c => c.opensPattern_strip

/-- **Reading does not see where the tokens stand.** -/
theorem strip_parseTokens {first second : List Token} (h : strip first = strip second)
    (options : Options) :
    strip (parseTokens first options) = strip (parseTokens second options) := by
  have hstart : strip (State.start first) = strip (State.start second) :=
    Strip.state_eq_iff.2 ⟨Cursor.strip_ofTokens h, rfl, rfl, rfl⟩
  have hblind := Setting.blind_ofOptions options
  have hrun := Grammar.alike_document.strip_run hblind
    (Rule.blind_runNested hblind (Setting.ofOptions options).limit) hstart
  rw [parseTokens, Grammar.read, Grammar.start, parseTokens, Grammar.read, Grammar.start]
  rcases Strip.outcome_cases hrun with
    ⟨d, d', t, t', ho, ho', hd, ht⟩ | ⟨d, d', t, t', ho, ho', hd, ht⟩
  · obtain ⟨-, hscopes, hproblems, -⟩ := Strip.state_eq_iff.1 ht
    rw [ho, ho']
    change Grammar.Reading.mk _ _ _ = Grammar.Reading.mk _ _ _
    dsimp only [Grammar.Reading.ofOutcome]
    rw [hscopes, hproblems, Strip.strip_some, Strip.strip_some, hd]
  · obtain ⟨-, hscopes, hproblems, -⟩ := Strip.state_eq_iff.1 ht
    rw [ho, ho']
    change Grammar.Reading.mk _ _ _ = Grammar.Reading.mk _ _ _
    dsimp only [Grammar.Reading.ofOutcome]
    rw [hscopes, Strip.strip_append, Strip.strip_append, hproblems, Strip.strip_cons,
      Strip.strip_cons, hd]

end Cypher
