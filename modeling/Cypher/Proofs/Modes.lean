import Cypher.Parse
import Cypher.Proofs.Stages

/-!
# Reading with and without forgiveness

The same text can be read strictly, so that the first mistake ends the reading, or forgivingly, so
that mistakes are noted and passed over. The two ways go hand in hand up to the first mistake. So
what the strict reading does foretells what the forgiving one does
(`Cypher.Outcome.Foretells`):

* where the strict reading comes to an end, the forgiving one comes to the same end, and has
  noted nothing;
* where it fails, the forgiving one either fails in the same way, for want of a rule that makes up
  for the failure, or has noted that failure before all others.

The relation holds of every step, hence of every rule. What a document makes of it is
`Cypher.parse_strict_agrees_forgiving`.
-/

namespace Cypher

/-- The setting in which mistakes are not forgiven. -/
def Setting.strict (setting : Setting) : Setting := { setting with forgiving := false }

/-- The setting in which mistakes are forgiven. -/
def Setting.lenient (setting : Setting) : Setting := { setting with forgiving := true }

theorem Setting.lenient_of_forgiving {setting : Setting} (h : setting.forgiving = true) :
    setting.lenient = setting := by
  rw [lenient, ← h]

theorem Setting.strict_of_not_forgiving {setting : Setting} (h : setting.forgiving = false) :
    setting.strict = setting := by
  rw [strict, ← h]

theorem Setting.rules_strict (setting : Setting) : setting.strict.rules = setting.rules := rfl

theorem Setting.rules_lenient (setting : Setting) : setting.lenient.rules = setting.rules := rfl

variable {setting : Setting} {strict lenient : Inner} {α β : Type}

/-! ### Up to the first mistake -/

/-- **How a strict outcome foretells a forgiving one**, for two runs that start with the same
problems noted. -/
def Outcome.Foretells (noted : List Diagnostic) : Outcome α → Outcome α → Prop
  | .done a t, forgiving => t.problems = noted ∧ forgiving = .done a t
  | .failed d t, forgiving =>
    t.problems = noted ∧ (forgiving = .failed d t ∨ noted ++ [d] <+: forgiving.state.problems)

theorem Outcome.Foretells.mapState {noted : List Diagnostic} {one other : Outcome α}
    {f : State → State} (hf : ∀ t, (f t).problems = t.problems) (h : one.Foretells noted other) :
    (one.mapState f).Foretells noted (other.mapState f) := by
  cases one with
  | done a t =>
    obtain ⟨hp, rfl⟩ := h
    exact ⟨(hf t).trans hp, rfl⟩
  | failed d t =>
    obtain ⟨hp, rfl | h⟩ := h
    · exact ⟨(hf t).trans hp, Or.inl rfl⟩
    · refine ⟨(hf t).trans hp, Or.inr ?_⟩
      cases other with
      | done a u => exact (hf u).symm ▸ h
      | failed e u => exact (hf u).symm ▸ h

/-- Two ways to run nested rules of which the one foretells the other, and the other keeps what has
been noted. -/
structure Inner.Foretells (strict lenient : Inner) : Prop where
  /-- The one foretells the other. -/
  foretells {β : Type} (rule : Nested β) (s : State) :
    (strict rule s).Foretells s.problems (lenient rule s)
  /-- The other keeps what has been noted. -/
  keeps {β : Type} (rule : Nested β) (s : State) :
    (lenient rule s).Respects (fun _ => True) (fun s t => s.problems <+: t.problems) s

theorem Rule.problems_prefix_run (hi : strict.Foretells lenient) (rule : Rule α) (s : State) :
    s.problems <+: (rule.run setting lenient s).state.problems :=
  (upkeep_run (upkeep_problems setting) hi.keeps rule s).state

theorem Action.iterate_foretells (setting : Setting) {one other : α → Action (Option α)}
    (hf : ∀ a s, (one a s).Foretells s.problems (other a s))
    (hk : ∀ a s, (other a s).Respects (fun _ => True) (fun s t => s.problems <+: t.problems) s)
    (n : Nat) (a : α) (s : State) :
    (Action.iterate one n a s).Foretells s.problems (Action.iterate other n a s) := by
  induction n generalizing a s with
  | zero => exact ⟨rfl, rfl⟩
  | succ n ih =>
    have h := hf a s
    rw [Action.iterate, Action.iterate]
    cases hone : one a s with
    | done next t =>
      rw [hone] at h
      obtain ⟨hp, hother⟩ := h
      rw [hother]
      cases next with
      | none => exact ⟨hp, rfl⟩
      | some b => exact hp ▸ ih b t
    | failed d t =>
      rw [hone] at h
      obtain ⟨hp, hother | h⟩ := h
      · rw [hother]
        exact ⟨hp, Or.inl rfl⟩
      · -- the forgiving run has noted the failure and may go on repeating
        refine ⟨hp, Or.inr (h.trans ?_)⟩
        cases other a s with
        | failed e u => exact List.prefix_rfl
        | done next u =>
          cases next with
          | none => exact List.prefix_rfl
          | some b => exact ((upkeep_problems setting).respects_iterate hk n b u).state

namespace Rule

/-- **A strict run foretells the forgiving one.** -/
theorem foretells_run (hi : strict.Foretells lenient) (rule : Rule α) (s : State) :
    (rule.run setting.strict strict s).Foretells s.problems
      (rule.run setting.lenient lenient s) := by
  induction rule generalizing s with
  | pure a => exact ⟨rfl, rfl⟩
  | bind rule next ihr ihn =>
    have h := ihr s
    rw [run, run]
    cases hr : rule.run setting.strict strict s with
    | done b t =>
      rw [hr] at h
      obtain ⟨hp, hother⟩ := h
      rw [hother]
      exact hp ▸ ihn b t
    | failed d t =>
      rw [hr] at h
      obtain ⟨hp, hother | h⟩ := h
      · rw [hother]
        exact ⟨hp, Or.inl rfl⟩
      · refine ⟨hp, Or.inr (h.trans ?_)⟩
        -- the forgiving run may go on behind the mistake, but it has noted it
        cases rule.run setting.lenient lenient s with
        | failed e u => exact List.prefix_rfl
        | done b u => exact problems_prefix_run hi (next b) u
  | look view => cases view <;> exact ⟨rfl, rfl⟩
  | advance => exact ⟨rfl, rfl⟩
  | fail problem => exact ⟨rfl, Or.inl rfl⟩
  | complain problem => exact ⟨rfl, Or.inr List.prefix_rfl⟩
  | requireSubqueries feature =>
    by_cases hs : setting.rules.subqueries = true
    · rw [run_requireSubqueries_done (setting.rules_strict ▸ hs),
        run_requireSubqueries_done (setting.rules_lenient ▸ hs)]
      exact ⟨rfl, rfl⟩
    · rw [run_requireSubqueries_failed (setting.rules_strict ▸ hs),
        run_requireSubqueries_failed (setting.rules_lenient ▸ hs)]
      exact ⟨rfl, Or.inl rfl⟩
  | mend rule remedy ih ihr =>
    have h := ih s
    rw [run, run]
    cases hr : rule.run setting.strict strict s with
    | done a t =>
      rw [hr] at h
      obtain ⟨hp, hother⟩ := h
      rw [hother]
      exact ⟨hp, rfl⟩
    | failed d t =>
      rw [hr] at h
      obtain ⟨hp, hother | h⟩ := h
      · rw [hother]
        exact ⟨hp, Or.inr (hp ▸ problems_prefix_run hi remedy (t.note d))⟩
      · refine ⟨hp, Or.inr (h.trans ?_)⟩
        cases rule.run setting.lenient lenient s with
        | done a u => exact List.prefix_rfl
        | failed e u =>
          exact (List.prefix_append u.problems [e]).trans
            (problems_prefix_run hi remedy (u.note e))
  | resume => exact ⟨rfl, rfl⟩
  | loop step a ih =>
    exact Action.iterate_foretells setting (fun a s => ih a s)
      (fun a s => upkeep_run (upkeep_problems _) hi.keeps (step a) s) _ a s
  | inScope kind rule ih =>
    rw [run, run]
    exact (ih { s with scopes := s.scopes.push kind }).mapState fun _ => rfl
  | record kind => exact ⟨rfl, rfl⟩
  | nested rule => exact hi.foretells rule s

theorem foretells_runNested (body : {β : Type} → Nested β → Rule β) (room : Nat) :
    Inner.Foretells (runNested setting.strict body room) (runNested setting.lenient body room) := by
  induction room with
  | zero =>
    exact ⟨fun _ _ => ⟨rfl, Or.inl rfl⟩, upkeep_runNested (upkeep_problems _) body 0⟩
  | succ room ih =>
    refine ⟨fun rule s => ?_, upkeep_runNested (upkeep_problems _) body _⟩
    rw [runNested_succ, runNested_succ]
    exact (foretells_run ih (body rule) { s with depth := s.depth + 1 }).mapState fun _ => rfl

end Rule

theorem Grammar.start_foretells (rule : Rule α) (s : State) :
    (Grammar.start setting.strict rule s).Foretells s.problems
      (Grammar.start setting.lenient rule s) :=
  Rule.foretells_run (Rule.foretells_runNested Grammar.body setting.limit) rule s

/-! ### Documents do not fail -/

/-- A rule that does not fail. -/
def Rule.Succeeds (setting : Setting) (inner : Inner) (rule : Rule α) : Prop :=
  ∀ s, ∃ a t, rule.run setting inner s = .done a t

namespace Rule.Succeeds

variable {inner : Inner}

theorem pure (a : α) : Succeeds setting inner (Pure.pure a) := fun s => ⟨a, s, rfl⟩

theorem bind {rule : Rule β} {next : β → Rule α} (h : Succeeds setting inner rule)
    (hn : ∀ b, Succeeds setting inner (next b)) : Succeeds setting inner (rule >>= next) := by
  intro s
  obtain ⟨b, t, hr⟩ := h s
  rw [run_bind_done hr]
  exact hn b t

theorem look (view : View α) : Succeeds setting inner (.look view) := fun s => ⟨_, s, rfl⟩

theorem advance : Succeeds setting inner .advance := fun _ => ⟨_, _, rfl⟩

theorem resume : Succeeds setting inner .resume := fun _ => ⟨_, _, rfl⟩

theorem record (kind : ClauseKind) : Succeeds setting inner (.record kind) := fun _ => ⟨_, _, rfl⟩

theorem ite {condition : Prop} [Decidable condition] {rule other : Rule α}
    (h : Succeeds setting inner rule) (ho : Succeeds setting inner other) :
    Succeeds setting inner (if condition then rule else other) := by
  split
  · exact h
  · exact ho

theorem inScope {rule : Rule α} (h : Succeeds setting inner rule) (kind : ScopeKind) :
    Succeeds setting inner (.inScope kind rule) := by
  intro s
  obtain ⟨a, t, hr⟩ := h { s with scopes := s.scopes.push kind }
  exact ⟨a, _, by rw [run, hr]; rfl⟩

theorem iterate {step : α → Action (Option α)} (h : ∀ a s, ∃ next t, step a s = .done next t)
    (n : Nat) (a : α) (s : State) : ∃ b t, Action.iterate step n a s = .done b t := by
  induction n generalizing a s with
  | zero => exact ⟨a, s, rfl⟩
  | succ n ih =>
    obtain ⟨next, t, hs⟩ := h a s
    rw [Action.iterate, hs]
    cases next with
    | none => exact ⟨a, t, rfl⟩
    | some b => exact ih b t

theorem loop {step : α → Rule (Option α)} (h : ∀ a, Succeeds setting inner (step a)) (a : α) :
    Succeeds setting inner (.loop step a) :=
  fun s => iterate (fun a s => h a s) _ a s

theorem mend {rule remedy : Rule α} (h : Succeeds setting.lenient inner remedy) :
    Succeeds setting.lenient inner (.mend rule remedy) := by
  intro s
  rw [run]
  cases rule.run setting.lenient inner s with
  | done a t => exact ⟨a, t, rfl⟩
  | failed d t => exact h (t.note d)

theorem complain (problem : Problem) : Succeeds setting.lenient inner (.complain problem) :=
  fun _ => ⟨(), _, rfl⟩

theorem many {rule : Rule (Option α)} (h : Succeeds setting inner rule) (items : List α) :
    Succeeds setting inner (Rule.many rule items) :=
  loop (fun _ => h.bind fun _ => pure _) items

theorem isAt (kind : TokenKind) : Succeeds setting inner (Rule.isAt kind) :=
  (look _).bind fun _ => pure _

theorem consume (kind : TokenKind) : Succeeds setting inner (Rule.consume kind) :=
  (isAt kind).bind fun _ => ite (advance.bind fun _ => pure _) (pure _)

theorem optionally {condition : Rule Bool} {rule : Rule α} (hc : Succeeds setting inner condition)
    (h : Succeeds setting inner rule) : Succeeds setting inner (Rule.optionally condition rule) :=
  hc.bind fun _ => ite (h.bind fun _ => pure _) (pure _)

end Rule.Succeeds

namespace Grammar

open Rule

variable {inner : Inner}

theorem succeeds_move : Succeeds setting inner move :=
  Succeeds.advance.bind fun _ => Succeeds.pure _

theorem succeeds_atClausesEnd : Succeeds setting inner atClausesEnd :=
  (Succeeds.look _).bind fun _ => (Succeeds.look _).bind fun _ => Succeeds.pure _

theorem succeeds_moveIfStuck (position : Nat) : Succeeds setting inner (moveIfStuck position) :=
  (Succeeds.look _).bind fun _ =>
    .ite (succeeds_atClausesEnd.bind fun _ => .ite (.pure _) succeeds_move) (.pure _)

theorem succeeds_failedClause (start position : Nat) :
    Succeeds setting inner (failedClause start position) :=
  (succeeds_moveIfStuck position).bind fun _ =>
    Succeeds.resume.bind fun _ => (Succeeds.look _).bind fun _ => .pure _

/-- A clause that cannot be read is replaced. -/
theorem succeeds_clauseOrError : Succeeds setting.lenient inner clauseOrError :=
  ((Succeeds.look _).bind fun _ => .pure _).bind fun start =>
    (Succeeds.look _).bind fun position =>
      (Succeeds.mend (succeeds_failedClause start position)).bind fun clause =>
        (Succeeds.record clause.kind).bind fun _ => .pure _

theorem succeeds_branchIn (kind : ScopeKind) (context : String) :
    Succeeds setting.lenient inner (branchIn kind context) := by
  have h : Succeeds setting.lenient inner nextClause :=
    succeeds_atClausesEnd.bind fun _ =>
      .ite (.pure _) (succeeds_clauseOrError.bind fun _ => .pure _)
  refine ((h.many []).inScope kind).bind fun clauses => ?_
  exact (Succeeds.ite (.complain _) (.pure _)).bind fun _ => .pure _

theorem succeeds_query (kind : ScopeKind) : Succeeds setting.lenient inner (query kind) := by
  have h : Succeeds setting.lenient inner (unionBranch kind) :=
    Succeeds.advance.bind fun _ => (Succeeds.consume _).bind fun _ =>
      (succeeds_branchIn kind _).bind fun _ => (Succeeds.look _).bind fun _ => .pure _
  refine ((Succeeds.look _).bind fun _ => .pure _).bind fun start => ?_
  refine (succeeds_branchIn kind _).bind fun clauses => ?_
  refine (((Succeeds.isAt _).optionally h).many []).bind fun unions => ?_
  exact (Succeeds.look _).bind fun _ => .pure _

theorem succeeds_nextStatement : Succeeds setting.lenient inner nextStatement := by
  have hs : Succeeds setting.lenient inner statement := by
    refine (Succeeds.look _).bind fun _ => ?_
    exact (succeeds_query .statement).bind fun _ => .ite (.pure _) (.pure _)
  refine (Succeeds.loop (fun _ => (Succeeds.consume _).optionally (.pure _)) ()).bind fun _ => ?_
  exact (Succeeds.isAt _).bind fun _ => .ite (.pure _) (hs.bind fun _ => .pure _)

/-- **A document can always be read** when mistakes are forgiven. -/
theorem succeeds_document : Succeeds setting.lenient inner document :=
  (succeeds_nextStatement.many []).bind fun _ => (Succeeds.look _).bind fun _ => .pure _

end Grammar

/-! ### Documents in both modes -/

namespace Grammar

/-- **What a strict reading foretells**: a document is what the forgiving reading finds too, with
nothing noted; a failure is what the forgiving reading has noted first. -/
theorem read_strict_cases (setting : Setting) (tokens : List Token) :
    (∃ document scopes, read setting.strict tokens = ⟨some document, [], scopes⟩ ∧
      read setting.lenient tokens = ⟨some document, [], scopes⟩) ∨
    ∃ d scopes document problems scopes', read setting.strict tokens = ⟨none, [d], scopes⟩ ∧
      read setting.lenient tokens = ⟨some document, d :: problems, scopes'⟩ := by
  have h : (start setting.strict document (.start tokens)).Foretells []
      (start setting.lenient document (.start tokens)) :=
    start_foretells document (.start tokens)
  obtain ⟨tree, u, hl⟩ : ∃ a t, start setting.lenient document (.start tokens) = .done a t :=
    succeeds_document (.start tokens)
  unfold read
  rw [hl] at h ⊢
  cases hs : start setting.strict document (.start tokens) with
  | done a t =>
    rw [hs] at h
    obtain ⟨hp, heq⟩ := h
    cases heq
    exact Or.inl ⟨tree, u.scopes, by simp only [Reading.ofOutcome, hp], by
      simp only [Reading.ofOutcome, hp]⟩
  | failed d t =>
    rw [hs] at h
    -- the forgiving run has come to an end, so it has noted the failure
    obtain ⟨hp, heq | ⟨problems, hu⟩⟩ := h
    · cases heq
    · refine Or.inr ⟨d, t.scopes, tree, problems, u.scopes, by
        simp only [Reading.ofOutcome, hp, List.nil_append], ?_⟩
      simp only [Outcome.state, List.nil_append, List.singleton_append] at hu
      simp only [Reading.ofOutcome, hu]

/-- A document is read in the same way without forgiveness if nothing is noted. -/
theorem read_of_problems_nil {setting : Setting} {tokens : List Token}
    (h : (read setting tokens).problems = []) :
    ∃ document scopes, read setting tokens = ⟨some document, [], scopes⟩ ∧
      read setting.strict tokens = ⟨some document, [], scopes⟩ := by
  have hmode : read setting tokens = read setting.strict tokens ∨
      read setting tokens = read setting.lenient tokens := by
    cases hf : setting.forgiving with
    | true => exact .inr (by rw [Setting.lenient_of_forgiving hf])
    | false => exact .inl (by rw [Setting.strict_of_not_forgiving hf])
  rcases read_strict_cases setting tokens
    with ⟨document, scopes, hs, hl⟩ | ⟨d, scopes, document, problems, scopes', hs, hl⟩
  · exact ⟨document, scopes, hmode.elim (·.trans hs) (·.trans hl), hs⟩
  · rcases hmode with heq | heq
    · rw [heq, hs] at h
      cases h
    · rw [heq, hl] at h
      cases h

end Grammar

/-- The problems that the lexer finds in a text are lexical. -/
theorem family_of_mem_tokenize {source : String} {dialect : Dialect} {d : Diagnostic}
    (h : d ∈ (tokenize source dialect).problems) : d.family? = some .lexical :=
  (Piece.isErrorOf_of_mem_allProblems h).1

/-- What reading a text comes to when the grammar finds a document. -/
theorem parse_of_document {source : String} {options : Options} {document : Document}
    {problems : List Diagnostic} {scopes : Scopes}
    (h : parseTokens (tokenize source options.dialect).tokens options =
      ⟨some document, problems, scopes⟩) :
    parse source options = .ofLog (some document)
      ⟨(tokenize source options.dialect).problems ++ problems ++
        (((Validator.ofDialect options.dialect).check document).run scopes).2.2⟩ := by
  simp only [parse, h]
  rfl

/-- What reading a text comes to when none of the stages finds anything to report. -/
theorem parse_of_nothing {source : String} {options : Options} {document : Document}
    {scopes : Scopes} (hlexical : (tokenize source options.dialect).problems = [])
    (hread : parseTokens (tokenize source options.dialect).tokens options =
      ⟨some document, [], scopes⟩)
    (hreports : (((Validator.ofDialect options.dialect).check document).run scopes).2.2 = []) :
    parse source options = ⟨some document, [], false⟩ := by
  rw [parse_of_document hread, hlexical, hreports]
  rfl

/-- What reading a text comes to when the grammar finds no document. -/
theorem parse_of_none {source : String} {options : Options} {problems : List Diagnostic}
    {scopes : Scopes}
    (h : parseTokens (tokenize source options.dialect).tokens options =
      ⟨none, problems, scopes⟩) :
    parse source options =
      .ofLog none ⟨(tokenize source options.dialect).problems ++ problems⟩ := by
  simp only [parse, h]
  rfl

/-- **Strict and forgiving reading agree up to the first mistake.** The forgiving reading always
finds a document. The strict one finds a document exactly if the forgiving one has met no mistake in
the grammar, and then they agree in everything. Otherwise the strict one has met the lexical
problems and one mistake in the grammar, and so has the forgiving one before anything else. -/
theorem parse_strict_agrees_forgiving (source : String) (options : Options) :
    let strict := parse source (options.withRecoverErrors false)
    let forgiving := parse source (options.withRecoverErrors true)
    forgiving.document.isSome ∧
    (strict.document.isSome ↔ ∀ d ∈ forgiving.diagnostics, d.family? ≠ some .grammatical) ∧
    (strict.document.isSome → strict = forgiving) ∧
    (strict.document = none → ∃ d, d.family? = some .grammatical ∧
      (∀ e ∈ (tokenize source options.dialect).problems, e.family? = some .lexical) ∧
      strict.diagnostics = (tokenize source options.dialect).problems ++ [d] ∧
      strict.diagnostics <+: forgiving.diagnostics) := by
  intro strict forgiving
  rcases Grammar.read_strict_cases (.ofOptions options) (tokenize source options.dialect).tokens
    with ⟨document, scopes, hs, hl⟩ | ⟨d, scopes, document, problems, scopes', hs, hl⟩
  · have hstrict : strict = _ := parse_of_document hs
    have hforgiving : forgiving = _ := parse_of_document hl
    have heq : strict = forgiving := hstrict.trans hforgiving.symm
    have hsome : strict.document.isSome := by
      rw [hstrict]
      rfl
    refine ⟨heq ▸ hsome, ⟨fun _ d hd => ?_, fun _ => hsome⟩, fun _ => heq, fun hn => ?_⟩
    · rw [hforgiving] at hd
      rcases List.mem_append.1 hd with hd | hd
      · rw [family_of_mem_tokenize (List.append_nil _ ▸ hd)]
        decide
      · rw [Validator.reports_check _ _ _ d hd]
        decide
    · rw [hn] at hsome
      cases hsome
  · have hstrict : strict = _ := parse_of_none hs
    have hforgiving : forgiving = _ := parse_of_document hl
    have hd : d.family? = some .grammatical :=
      Grammar.family_of_mem_problems (by rw [hs]; exact List.mem_singleton.2 rfl)
    have hnone : ¬strict.document.isSome := by
      rw [hstrict]
      exact Bool.false_ne_true
    refine ⟨?_, ⟨fun h => absurd h hnone, fun h => absurd hd (h d ?_)⟩,
      fun h => absurd h hnone, fun _ => ⟨d, hd, fun _ => family_of_mem_tokenize, ?_, ?_⟩⟩
    · rw [hforgiving]
      rfl
    · rw [hforgiving]
      simp only [Parsed.ofLog, List.mem_append, List.mem_cons, true_or, or_true]
    · rw [hstrict]
      rfl
    · rw [hstrict, hforgiving]
      refine ⟨problems ++
        (((Validator.ofDialect options.dialect).check document).run scopes').2.2, ?_⟩
      simp only [Parsed.ofLog, List.append_assoc, List.cons_append, List.nil_append]
      rfl

end Cypher
