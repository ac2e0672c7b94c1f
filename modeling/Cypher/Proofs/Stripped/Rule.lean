import Cypher.Proofs.Run
import Cypher.Proofs.Stripped.Tree

/-!
# Rules that do not see where things are

A rule passes spans on and puts new ones together, but what it does never depends on one. Two rules
are *alike* (`Cypher.Rule.Alike`) if they take the same steps and differ at most in the spans that
they handle. Two alike rules, run in states that are the same but for spans, come to ends that are
the same but for spans (`Cypher.Rule.Alike.strip_run`): this goes by induction on how the rules are
alike, with one case for each step, and needs no look at any one rule.

That a rule is alike to itself is a fact about the way it is written, and there is one short lemma
for each rule. It also says that every problem of the rule is one of the token at the cursor
(`Cypher.Problem.IsHere`), which gives it its place. The one rule of which this is not true is that
for the target of a change, whose problem is one of the target.
-/

namespace Cypher

variable {setting : Setting} {inner : Inner} {α β : Type}

/-! ### Tokens, diagnostics and states without spans -/

/-- A token without its place: neither span, line nor column. -/
instance : Strip Token := ⟨fun t => ⟨t.kind, t.lexeme, strip t.span, 0, 0⟩⟩

instance : Strip TokenKind := ⟨id⟩
instance : Plain TokenKind := ⟨fun _ => rfl⟩

instance : Strip Label := ⟨fun l => { l with span := strip l.span }⟩
instance : Strip Diagnostic := ⟨fun d => { d with labels := strip d.labels }⟩
instance : Strip Cursor := ⟨fun c => ⟨strip c.behind, strip c.current, strip c.ahead⟩⟩
instance : Strip State :=
  ⟨fun s => { s with cursor := strip s.cursor, problems := strip s.problems }⟩

instance [Strip α] : Strip (Outcome α) :=
  ⟨fun
    | .done a s => .done (strip a) (strip s)
    | .failed d s => .failed (strip d) (strip s)⟩

/-- Tokens that are the same but for their places have the same kind. -/
theorem Token.kind_eq_of_strip {t u : Token} (h : strip t = strip u) : t.kind = u.kind := by
  injection h

theorem Token.lexeme_eq_of_strip {t u : Token} (h : strip t = strip u) :
    t.lexeme = u.lexeme := by
  injection h

@[simp] theorem Token.kind_strip (t : Token) : (strip t).kind = t.kind := rfl

/-- The severity of a diagnostic is not a matter of places. -/
@[simp] theorem Diagnostic.isError_strip (d : Diagnostic) : (strip d).isError = d.isError := rfl

namespace Strip

/-- States that are the same but for spans. -/
theorem state_eq_iff {s t : State} :
    strip s = strip t ↔ strip s.cursor = strip t.cursor ∧ s.scopes = t.scopes ∧
      strip s.problems = strip t.problems ∧ s.depth = t.depth := by
  constructor
  · intro h
    injection h with hcursor hscopes hproblems hdepth
    exact ⟨hcursor, hscopes, hproblems, hdepth⟩
  · rintro ⟨hcursor, hscopes, hproblems, hdepth⟩
    change State.mk _ _ _ _ = State.mk _ _ _ _
    rw [hcursor, hscopes, hproblems, hdepth]

theorem cursor_of_state {s t : State} (h : strip s = strip t) : strip s.cursor = strip t.cursor :=
  (state_eq_iff.1 h).1

/-- Cursors that are the same but for spans. -/
theorem cursor_eq_iff {c d : Cursor} :
    strip c = strip d ↔ strip c.behind = strip d.behind ∧ strip c.current = strip d.current ∧
      strip c.ahead = strip d.ahead := by
  constructor
  · intro h
    injection h with hbehind hcurrent hahead
    exact ⟨hbehind, hcurrent, hahead⟩
  · rintro ⟨hbehind, hcurrent, hahead⟩
    change Cursor.mk _ _ _ = Cursor.mk _ _ _
    rw [hbehind, hcurrent, hahead]

/-- Outcomes that are the same but for spans. -/
theorem outcome_cases [Strip α] {o o' : Outcome α} (h : strip o = strip o') :
    (∃ a a' t t', o = .done a t ∧ o' = .done a' t' ∧ strip a = strip a' ∧ strip t = strip t') ∨
      ∃ d d' t t', o = .failed d t ∧ o' = .failed d' t' ∧ strip d = strip d' ∧
        strip t = strip t' := by
  rcases o with ⟨a, t⟩ | ⟨d, t⟩ <;> rcases o' with ⟨a', t'⟩ | ⟨d', t'⟩
  · injection h with ha ht
    exact Or.inl ⟨a, a', t, t', rfl, rfl, ha, ht⟩
  · cases h
  · cases h
  · injection h with hd ht
    exact Or.inr ⟨d, d', t, t', rfl, rfl, hd, ht⟩

theorem done [Strip α] {a a' : α} {t t' : State} (ha : strip a = strip a')
    (ht : strip t = strip t') : strip (Outcome.done a t) = strip (Outcome.done a' t') := by
  change Outcome.done _ _ = Outcome.done _ _
  rw [ha, ht]

theorem failed [Strip α] {d d' : Diagnostic} {t t' : State} (hd : strip d = strip d')
    (ht : strip t = strip t') :
    strip (Outcome.failed d t : Outcome α) = strip (Outcome.failed d' t') := by
  change Outcome.failed _ _ = Outcome.failed _ _
  rw [hd, ht]

/-- What changes states without regard to spans may be done at the end. -/
theorem mapState [Strip α] {f : State → State}
    (hf : ∀ t t', strip t = strip t' → strip (f t) = strip (f t')) {o o' : Outcome α}
    (h : strip o = strip o') : strip (o.mapState f) = strip (o'.mapState f) := by
  rcases outcome_cases h with ⟨a, a', t, t', rfl, rfl, ha, ht⟩ | ⟨d, d', t, t', rfl, rfl, hd, ht⟩
  · exact done ha (hf t t' ht)
  · exact failed hd (hf t t' ht)

end Strip

/-! ### Cursors -/

namespace Cursor

theorem advance_strip (c : Cursor) : (strip c).advance = strip c.advance := by
  rcases c with ⟨behind, current, _ | ⟨t, ts⟩⟩ <;> rfl

theorem kindAt_strip (t : Token) (ts : List Token) (n : Nat) :
    kindAt (strip t) (strip ts) n = kindAt t ts n := by
  induction n generalizing t ts with
  | zero => cases ts <;> rfl
  | succ n ih =>
    cases ts with
    | nil => rfl
    | cons u us => exact ih u us

theorem argumentsFollow_strip (ts : List Token) :
    argumentsFollow (strip ts) = argumentsFollow ts := by
  fun_induction argumentsFollow ts <;> simp_all [argumentsFollow]

theorem afterClose_strip (depth : Nat) (ts : List Token) :
    afterClose depth (strip ts) = strip (afterClose depth ts) := by
  fun_induction afterClose depth ts <;> simp_all [afterClose]

theorem skip?_strip (kind : TokenKind) (ts : List Token) :
    skip? kind (strip ts) = strip (skip? kind ts) := by
  cases ts with
  | nil => rfl
  | cons t ts =>
    rw [Strip.strip_cons, skip?, skip?, Token.kind_strip]
    split <;> rfl

theorem skipMaybe_strip (kind : TokenKind) (ts : List Token) :
    skipMaybe kind (strip ts) = strip (skipMaybe kind ts) := by
  rw [skipMaybe, skipMaybe, skip?_strip]
  cases skip? kind ts <;> rfl

theorem head?_kind_strip (ts : List Token) :
    (strip ts).head?.map Token.kind = ts.head?.map Token.kind := by
  cases ts <;> rfl

theorem startsLikeNode_strip (ts : List Token) : startsLikeNode (strip ts) = startsLikeNode ts := by
  cases ts with
  | nil => rfl
  | cons t ts =>
    rw [Strip.strip_cons, startsLikeNode, startsLikeNode, Token.kind_strip, head?_kind_strip]

theorem afterDetail?_strip (ts : List Token) :
    afterDetail? (strip ts) = strip (afterDetail? ts) := by
  cases ts with
  | nil => rfl
  | cons t ts =>
    rw [Strip.strip_cons, afterDetail?, afterDetail?, Token.kind_strip, ← Strip.strip_cons,
      afterClose_strip]
    split
    · rfl
    · split
      · cases afterClose 0 (t :: ts) with
        | none => rfl
        | some rest => exact skip?_strip _ rest
      · rfl

theorem startsWithRelationship_strip (ts : List Token) :
    startsWithRelationship (strip ts) = startsWithRelationship ts := by
  have hdetail (rest : Option (List Token)) :
      (strip rest).bind afterDetail? = strip (rest.bind afterDetail?) := by
    cases rest with
    | none => rfl
    | some rest => exact afterDetail?_strip rest
  have hend (rest : List Token) :
      (skip? (.sign .leftParen) (skipMaybe (.sign .gt) (strip rest))).isSome =
        (skip? (.sign .leftParen) (skipMaybe (.sign .gt) rest)).isSome := by
    rw [skipMaybe_strip, skip?_strip]
    cases skip? (.sign .leftParen) (skipMaybe (.sign .gt) rest) <;> rfl
  rw [startsWithRelationship, startsWithRelationship, skipMaybe_strip, skip?_strip, hdetail]
  cases (skip? (.sign .minus) (skipMaybe (.sign .lt) ts)).bind afterDetail? with
  | none => rfl
  | some rest => exact hend rest

/-- **Whether a parenthesis opens a path is not a matter of places.** -/
theorem opensPattern_strip (c : Cursor) : (strip c).opensPattern = c.opensPattern := by
  change (c.kind = .sign .leftParen && startsLikeNode (strip c.ahead) &&
    (afterClose 0 (strip (c.current :: c.ahead))).any startsWithRelationship) = c.opensPattern
  rw [startsLikeNode_strip, afterClose_strip, opensPattern]
  cases afterClose 0 (c.current :: c.ahead) with
  | none => rfl
  | some rest =>
    change (_ && startsWithRelationship (strip rest)) = _
    rw [startsWithRelationship_strip]
    rfl

/-- **Where reading is taken up again is not a matter of places.** -/
theorem resumeFrom_strip (nested : Bool) (behind : List Token) (current : Token)
    (ahead : List Token) (depth : Nat) :
    resumeFrom nested (strip behind) (strip current) (strip ahead) depth =
      strip (resumeFrom nested behind current ahead depth) := by
  induction ahead generalizing behind current depth with
  | nil =>
    rw [Strip.strip_nil, resumeFrom, resumeFrom, Token.kind_strip, head?_kind_strip]
    split
    · rfl
    · split <;> rfl
  | cons t ts ih =>
    rw [Strip.strip_cons, resumeFrom, resumeFrom, Token.kind_strip, head?_kind_strip]
    split
    · rfl
    · split
      · rfl
      · exact ih (current :: behind) t _

variable {c d : Cursor}

theorem strip_advance (h : strip c = strip d) : strip c.advance = strip d.advance := by
  rw [← advance_strip, h, advance_strip]

theorem strip_resume (h : strip c = strip d) (nested : Bool) :
    strip (c.resume nested) = strip (d.resume nested) := by
  have hresume (e : Cursor) : (strip e).resume nested = strip (e.resume nested) :=
    resumeFrom_strip nested e.behind e.current e.ahead 0
  rw [← hresume, h, hresume]

end Cursor

/-- A setting in which whether a parenthesis opens a path is not a matter of places. -/
def Setting.Blind (setting : Setting) : Prop :=
  ∀ c, setting.opensPattern (strip c) = setting.opensPattern c

/-! ### Problems -/

/-- **A problem of the token at the cursor**, rather than one of something that has been read. -/
def Problem.IsHere : Problem → Prop
  | .notAProperty _ => False
  | _ => True

/-- The same problem with tokens that are the same but for their places. -/
theorem Problem.strip_diagnostic (dialect : Dialect) (limit : Nat) (problem : Problem)
    {t u : Token} (h : strip t = strip u) :
    strip (problem.diagnostic dialect limit t) = strip (problem.diagnostic dialect limit u) := by
  have hkind := Token.kind_eq_of_strip h
  have hlexeme := Token.lexeme_eq_of_strip h
  cases problem with
  | expected what =>
    simp only [diagnostic, expectedAt, hkind]
    split <;> rfl
  | unexpected message =>
    simp only [diagnostic, unexpectedAt, hkind]
    rfl
  | unsupported feature => rfl
  | integerOutOfRange =>
    simp only [diagnostic, hlexeme]
    rfl
  | boundOutOfRange =>
    simp only [diagnostic, hlexeme]
    rfl
  | notAProperty span => rfl
  | missingClause context =>
    simp only [diagnostic, hkind]
    rfl
  | tooDeep => rfl

theorem State.strip_diagnostic (setting : Setting) (problem : Problem) {s t : State}
    (h : strip s = strip t) :
    strip (s.diagnostic setting problem) = strip (t.diagnostic setting problem) :=
  problem.strip_diagnostic _ _
    (Strip.cursor_eq_iff.1 (Strip.cursor_of_state h)).2.1

/-- The cursor may be moved to places that are the same but for spans. -/
theorem State.strip_moved {s t : State} {c d : Cursor} (h : strip s = strip t)
    (hc : strip c = strip d) : strip { s with cursor := c } = strip { t with cursor := d } :=
  Strip.state_eq_iff.2 ⟨hc, (Strip.state_eq_iff.1 h).2⟩

/-- The scopes may be changed. -/
theorem State.strip_scopes {s t : State} (f : Scopes → Scopes) (h : strip s = strip t) :
    strip { s with scopes := f s.scopes } = strip { t with scopes := f t.scopes } :=
  let ⟨hcursor, hscopes, hrest⟩ := Strip.state_eq_iff.1 h
  Strip.state_eq_iff.2 ⟨hcursor, congrArg f hscopes, hrest⟩

theorem State.strip_note {s t : State} {d e : Diagnostic} (h : strip s = strip t)
    (hd : strip d = strip e) : strip (s.note d) = strip (t.note e) := by
  obtain ⟨hcursor, hscopes, hproblems, hdepth⟩ := Strip.state_eq_iff.1 h
  refine Strip.state_eq_iff.2 ⟨hcursor, hscopes, ?_, hdepth⟩
  simp only [note, Strip.strip_append, Strip.strip_cons, Strip.strip_nil, hproblems, hd]

/-! ### Views -/

/-- **Views that show the same** but for spans. -/
def View.Alike [Strip α] (view view' : View α) : Prop :=
  ∀ setting : Setting, setting.Blind → ∀ s s' : State, strip s = strip s' →
    strip (view.read setting s) = strip (view'.read setting s')

namespace View

theorem alike_token : View.token.Alike .token := fun _ _ _ _ h =>
  (Strip.cursor_eq_iff.1 (Strip.cursor_of_state h)).2.1

theorem alike_next : View.next.Alike .next := by
  intro setting _ s s' h
  have hc := (Strip.state_eq_iff.1 h).1
  change s.cursor.peek 1 = s'.cursor.peek 1
  have hpeek (c : Cursor) : (strip c).peek 1 = c.peek 1 := Cursor.kindAt_strip c.current c.ahead 1
  rw [← hpeek, hc, hpeek]

theorem alike_spanFrom (start start' : Nat) : (View.spanFrom start).Alike (.spanFrom start') :=
  fun _ _ _ _ _ => rfl

theorem alike_previousSpan : View.previousSpan.Alike .previousSpan := fun _ _ _ _ _ => rfl

theorem alike_position : View.position.Alike .position := by
  intro setting _ s s' h
  have hbehind := (Strip.cursor_eq_iff.1 (Strip.cursor_of_state h)).1
  have hlength := congrArg List.length hbehind
  rwa [Strip.length_strip, Strip.length_strip] at hlength

theorem alike_nested : View.nested.Alike .nested := fun _ _ _ _ h =>
  congrArg Scopes.isNested (Strip.state_eq_iff.1 h).2.1

theorem alike_opensCall : View.opensCall.Alike .opensCall := by
  intro setting _ s s' h
  have hahead := (Strip.cursor_eq_iff.1 (Strip.cursor_of_state h)).2.2
  change Cursor.argumentsFollow s.cursor.ahead = Cursor.argumentsFollow s'.cursor.ahead
  rw [← Cursor.argumentsFollow_strip, hahead, Cursor.argumentsFollow_strip]

theorem alike_opensPattern : View.opensPattern.Alike .opensPattern := by
  intro setting hblind s s' h
  change setting.opensPattern s.cursor = setting.opensPattern s'.cursor
  rw [← hblind, (Strip.state_eq_iff.1 h).1, hblind]

end View

/-! ### Rules -/

/-- **Rules that are alike**: they take the same steps, handle values that are the same but for
their spans, and the problems of both are those of the token at the cursor. -/
inductive Rule.Alike : {α : Type} → [Strip α] → Rule α → Rule α → Prop
  /-- The same is read. -/
  | pure {α : Type} [Strip α] {a a' : α} (h : strip a = strip a') : Alike (.pure a) (.pure a')
  /-- The rules go on alike with what they have read. -/
  | bind {α β : Type} [Strip α] [Strip β] {rule rule' : Rule β} {next next' : β → Rule α}
      (h : Alike rule rule') (hn : ∀ b b', strip b = strip b' → Alike (next b) (next' b')) :
      Alike (.bind rule next) (.bind rule' next')
  /-- The same is seen. -/
  | look {α : Type} [Strip α] {view view' : View α} (h : view.Alike view') :
      Alike (.look view) (.look view')
  /-- Moving on. -/
  | advance : Alike .advance .advance
  /-- The same failure. -/
  | fail {α : Type} [Strip α] {problem : Problem} (h : problem.IsHere) :
      Alike (.fail problem : Rule α) (.fail problem)
  /-- The same complaint. -/
  | complain {problem : Problem} (h : problem.IsHere) :
      Alike (.complain problem) (.complain problem)
  /-- The same demand. -/
  | requireSubqueries (feature : String) :
      Alike (.requireSubqueries feature) (.requireSubqueries feature)
  /-- Failures are made up for alike. -/
  | mend {α : Type} [Strip α] {rule rule' remedy remedy' : Rule α} (h : Alike rule rule')
      (hr : Alike remedy remedy') : Alike (.mend rule remedy) (.mend rule' remedy')
  /-- Skipping. -/
  | resume : Alike .resume .resume
  /-- Steps that are alike are repeated. -/
  | loop {α : Type} [Strip α] {step step' : α → Rule (Option α)} {a a' : α}
      (h : ∀ b b', strip b = strip b' → Alike (step b) (step' b')) (ha : strip a = strip a') :
      Alike (.loop step a) (.loop step' a')
  /-- A scope of the same kind. -/
  | inScope {α : Type} [Strip α] {rule rule' : Rule α} (kind : ScopeKind) (h : Alike rule rule') :
      Alike (.inScope kind rule) (.inScope kind rule')
  /-- The same note. -/
  | record (kind : ClauseKind) : Alike (.record kind) (.record kind)
  /-- Expressions. -/
  | expression (strength : Nat) :
      Alike (.nested (.expression strength)) (.nested (.expression strength))
  /-- Bodies of subqueries. -/
  | subquery : Alike (.nested .subquery) (.nested .subquery)
  /-- Bodies of existence tests. -/
  | existsBody : Alike (.nested .existsBody) (.nested .existsBody)
  /-- The target of a change, the problem of which is elsewhere. -/
  | propertyTarget : Alike Grammar.propertyTarget Grammar.propertyTarget

/-- **Nested rules that do not see where things are.** -/
structure Inner.Blind (inner : Inner) : Prop where
  /-- Expressions are read alike. -/
  expression (strength : Nat) {s s' : State} (h : strip s = strip s') :
    strip (inner (.expression strength) s) = strip (inner (.expression strength) s')
  /-- So are the bodies of subqueries. -/
  subquery {s s' : State} (h : strip s = strip s') :
    strip (inner .subquery s) = strip (inner .subquery s')
  /-- So are the bodies of existence tests. -/
  existsBody {s s' : State} (h : strip s = strip s') :
    strip (inner .existsBody s) = strip (inner .existsBody s')

theorem Action.strip_iterate [Strip α] {step step' : α → Action (Option α)}
    (hstep : ∀ a a' s s', strip a = strip a' → strip s = strip s' →
      strip (step a s) = strip (step' a' s')) (n : Nat) {a a' : α} {s s' : State}
    (ha : strip a = strip a') (hs : strip s = strip s') :
    strip (Action.iterate step n a s) = strip (Action.iterate step' n a' s') := by
  induction n generalizing a a' s s' with
  | zero => exact Strip.done ha hs
  | succ n ih =>
    rw [Action.iterate, Action.iterate]
    rcases Strip.outcome_cases (hstep a a' s s' ha hs) with
      ⟨next, next', t, t', ho, ho', hnext, ht⟩ | ⟨d, d', t, t', ho, ho', hd, ht⟩
    · rw [ho, ho']
      cases next with
      | none =>
        obtain rfl := Strip.eq_none hnext
        exact Strip.done ha ht
      | some b =>
        obtain ⟨b', rfl, hb⟩ := Strip.exists_eq_some hnext
        exact ih hb ht
    · rw [ho, ho']
      exact Strip.failed hd ht

/-- An expression is a property or not wherever it stands. -/
theorem Expression.isProperty_strip (e : Expression) : (strip e).isProperty = e.isProperty := by
  cases e <;> simp [isProperty]

namespace Rule

/-- Outcomes that are the same but for spans may be gone on from alike. -/
theorem strip_andThen [Strip α] [Strip β] {o o' : Outcome β} {next next' : β → Action α}
    (h : strip o = strip o')
    (hn : ∀ b b' t t', strip b = strip b' → strip t = strip t' →
      strip (next b t) = strip (next' b' t')) :
    strip (o.andThen next) = strip (o'.andThen next') := by
  rcases Strip.outcome_cases h with
    ⟨b, b', t, t', rfl, rfl, hb, ht⟩ | ⟨d, d', t, t', rfl, rfl, hd, ht⟩
  · exact hn b b' t t' hb ht
  · exact Strip.failed hd ht

/-- What is read of the target of a change, and what is said of one that is no property. -/
theorem run_propertyTarget (s : State) :
    Grammar.propertyTarget.run setting inner s =
      (inner (.expression Grammar.suffixStrength) s).andThen fun target t =>
        if target.isProperty then .done target t
        else
          let span := ⟨s.cursor.current.span.start, target.span.stop⟩
          .failed (t.diagnostic setting (.notAProperty span)) t := by
  simp only [Grammar.propertyTarget, Grammar.suffixed, startHere, here, run_bind, run_look,
    run_pure, run_nested, Outcome.andThen_done]
  congr 1
  funext target t
  split <;> rfl

/-- The target of a change is read alike, and so is its problem. -/
theorem strip_run_propertyTarget (hi : inner.Blind) {s s' : State} (h : strip s = strip s') :
    strip (Grammar.propertyTarget.run setting inner s) =
      strip (Grammar.propertyTarget.run setting inner s') := by
  rw [run_propertyTarget, run_propertyTarget]
  refine strip_andThen (hi.expression _ h) fun target target' t t' htarget ht => ?_
  have hproperty : target.isProperty = target'.isProperty := by
    rw [← Expression.isProperty_strip, htarget, Expression.isProperty_strip]
  rw [hproperty]
  split
  · exact Strip.done htarget ht
  · exact Strip.failed (State.strip_diagnostic setting (.notAProperty ⟨0, 0⟩) ht) ht

/-- **Alike rules run alike**: from states that are the same but for spans, they come to ends that
are the same but for spans. -/
theorem Alike.strip_run [Strip α] {rule rule' : Rule α} (h : Alike rule rule')
    (hblind : setting.Blind) (hi : inner.Blind) {s s' : State} (hs : strip s = strip s') :
    strip (rule.run setting inner s) = strip (rule'.run setting inner s') := by
  induction h generalizing s s' with
  | pure h => exact Strip.done h hs
  | @bind _ _ _ _ rule rule' next next' _ _ ih ihn =>
    have hrun := strip_andThen (ih hs) fun b b' t t' hb ht => ihn b b' hb ht
    rwa [← run_bind, ← run_bind] at hrun
  | look h => exact Strip.done (h setting hblind s s' hs) hs
  | advance =>
    exact Strip.done rfl (State.strip_moved hs (Cursor.strip_advance (Strip.cursor_of_state hs)))
  | fail => exact Strip.failed (State.strip_diagnostic setting _ hs) hs
  | @complain problem _ =>
    have hd := State.strip_diagnostic setting problem hs
    rw [run, run]
    split
    · exact Strip.done rfl (State.strip_note hs hd)
    · exact Strip.failed hd hs
  | requireSubqueries feature =>
    rw [run, run]
    split
    · exact Strip.done rfl hs
    · exact Strip.failed (State.strip_diagnostic setting _ hs) hs
  | mend _ _ ih ihr =>
    rw [run, run]
    rcases Strip.outcome_cases (ih hs) with
      ⟨a, a', t, t', ho, ho', ha, ht⟩ | ⟨d, d', t, t', ho, ho', hd, ht⟩
    · rw [ho, ho']
      exact Strip.done ha ht
    · rw [ho, ho']
      dsimp only
      split
      · exact ihr (State.strip_note ht hd)
      · exact Strip.failed hd ht
  | resume =>
    have hscopes := (Strip.state_eq_iff.1 hs).2.1
    refine Strip.done rfl (State.strip_moved hs ?_)
    rw [hscopes]
    exact Cursor.strip_resume (Strip.cursor_of_state hs) _
  | loop _ ha ih =>
    have hlength := congrArg List.length (Strip.cursor_eq_iff.1 (Strip.cursor_of_state hs)).2.2
    rw [Strip.length_strip, Strip.length_strip] at hlength
    rw [run, run, hlength]
    exact Action.strip_iterate (fun b b' t t' hb ht => ih b b' hb ht) _ ha hs
  | inScope kind _ ih =>
    rw [run, run]
    exact Strip.mapState (fun _ _ ht => State.strip_scopes Scopes.pop ht)
      (ih (State.strip_scopes (Scopes.push · kind) hs))
  | record kind => exact Strip.done rfl (State.strip_scopes (Scopes.record · kind) hs)
  | expression strength => exact hi.expression strength hs
  | subquery => exact hi.subquery hs
  | existsBody => exact hi.existsBody hs
  | propertyTarget => exact strip_run_propertyTarget hi hs

/-! ### Steps and repetitions -/

namespace Alike

section

variable [Strip α] [Strip β]

/-- What has been read is the same if there are no spans in it. -/
theorem andThen [Plain β] {rule rule' : Rule β} {next next' : β → Rule α} (h : Alike rule rule')
    (hn : ∀ b, Alike (next b) (next' b)) : Alike (rule >>= next) (rule' >>= next') :=
  .bind h fun b b' hb => by
    rw [Plain.eq hb]
    exact hn b'

/-- Of the token at the cursor, kind and text are known. -/
theorem here {next next' : Token → Rule α}
    (hn : ∀ t t' : Token, t.kind = t'.kind → t.lexeme = t'.lexeme → Alike (next t) (next' t')) :
    Alike (Rule.here >>= next) (Rule.here >>= next') :=
  .bind (.look View.alike_token) fun t t' ht =>
    hn t t' (Token.kind_eq_of_strip ht) (Token.lexeme_eq_of_strip ht)

/-- Of the offset at which it starts, nothing is. -/
theorem startHere {next next' : Nat → Rule α} (hn : ∀ b b', Alike (next b) (next' b')) :
    Alike (Rule.startHere >>= next) (Rule.startHere >>= next') :=
  -- numbers are plain elsewhere; for this one step any two offsets are the same but for spans
  letI : Strip Nat := ⟨fun _ => 0⟩
  .bind (.bind (.look View.alike_token) fun _ _ _ => .pure rfl) fun b b' _ => hn b b'

/-- Nor is anything known of a span. -/
theorem spanFrom {next next' : Span → Rule α} (start start' : Nat)
    (hn : ∀ b b', Alike (next b) (next' b')) :
    Alike (.look (.spanFrom start) >>= next) (.look (.spanFrom start') >>= next') :=
  .bind (.look (View.alike_spanFrom start start')) fun b b' _ => hn b b'

theorem advanceThen {next next' : Span → Rule α} (hn : ∀ b b', Alike (next b) (next' b')) :
    Alike (.advance >>= next) (.advance >>= next') :=
  .bind .advance fun b b' _ => hn b b'

theorem ite {condition : Prop} [Decidable condition] {rule rule' other other' : Rule α}
    (h : Alike rule rule') (ho : Alike other other') :
    Alike (if condition then rule else other) (if condition then rule' else other') := by
  split
  · exact h
  · exact ho

end

theorem isAt (kind : TokenKind) : Alike (Rule.isAt kind) (Rule.isAt kind) :=
  .here fun t t' hk _ => .pure (by rw [hk])

theorem consume (kind : TokenKind) : Alike (Rule.consume kind) (Rule.consume kind) :=
  .andThen (.isAt kind) fun _ => .ite (.advanceThen fun _ _ => .pure rfl) (.pure rfl)

theorem expect (kind : TokenKind) : Alike (Rule.expect kind) (Rule.expect kind) :=
  .andThen (.isAt kind) fun _ => .ite .advance (.fail trivial)

theorem atVariable : Alike Rule.atVariable Rule.atVariable :=
  .here fun t t' hk _ => .pure (by rw [hk])

theorem atVariableBefore (kind : TokenKind) :
    Alike (Rule.atVariableBefore kind) (Rule.atVariableBefore kind) :=
  .andThen .atVariable fun _ => .ite (.andThen (.look View.alike_next) fun _ => .pure rfl)
    (.pure rfl)

section

variable [Strip α]

/-- The span of a token that has to be there. -/
theorem expectThen [Strip β] {kind : TokenKind} {next next' : Span → Rule β}
    (hn : ∀ b b', Alike (next b) (next' b')) :
    Alike (Rule.expect kind >>= next) (Rule.expect kind >>= next') :=
  .bind (.expect kind) fun b b' _ => hn b b'

theorem optionally {condition : Rule Bool} {rule rule' : Rule α}
    (hc : Alike condition condition) (h : Alike rule rule') :
    Alike (Rule.optionally condition rule) (Rule.optionally condition rule') :=
  .andThen hc fun _ => .ite (.bind h fun _ _ ha => .pure (congrArg some ha)) (.pure rfl)

theorem skipIf {condition : Rule Bool} {rule rule' : Rule α} (hc : Alike condition condition)
    (h : Alike rule rule') : Alike (Rule.skipIf condition rule) (Rule.skipIf condition rule') :=
  .andThen hc fun _ => .ite (.pure rfl) (.bind h fun _ _ ha => .pure (congrArg some ha))

theorem many {rule rule' : Rule (Option α)} (h : Alike rule rule') {items items' : List α}
    (hitems : strip items = strip items') : Alike (Rule.many rule items) (Rule.many rule' items') :=
  .loop (fun items items' hitems => .bind h fun found found' hfound => .pure (by
    cases found with
    | none =>
      obtain rfl := Strip.eq_none hfound
      rfl
    | some b =>
      obtain ⟨b', rfl, hb⟩ := Strip.exists_eq_some hfound
      simp [hitems, hb])) hitems

theorem separated {rule rule' : Rule α} (h : Alike rule rule') :
    Alike (Rule.separated rule) (Rule.separated rule') :=
  .bind h fun first first' hfirst =>
    .many (.optionally (.consume _) h) (by simp [hfirst])

theorem listUntil (close : Sign) {rule rule' : Rule α} (h : Alike rule rule') :
    Alike (Rule.listUntil close rule) (Rule.listUntil close rule') :=
  .andThen (.isAt _) fun _ => .ite (.pure rfl) (.separated h)

end

end Alike

end Rule

end Cypher
