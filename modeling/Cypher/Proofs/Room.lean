import Cypher.Proofs.Modes

/-!
# Room for nesting

The limit on nesting is there to turn down what is nested too deeply, and should do nothing else. A
run in little room and one in more room can only part where the first is out of room, and then it
fails with a problem of that code. A failure may be forgiven, but it is noted all the same, and what
has been noted stays noted. So the narrow run either shows that it was out of room, by its failure
or by a problem noted (`Cypher.Outcome.RanOut`), or it *settles* what the wide run does
(`Cypher.Outcome.Settles`).

Like every such relation it holds of each step, hence of every rule (`Cypher.Rule.settles_run`).
Nested rules are run with less and less room, and each level leaves the narrow run at most as much
of it as the wide one (`Cypher.Rule.settles_runNested`). For whole texts this is
`Cypher.parse_withMaxNestingDepth`: a limit that was never met can be raised.
-/

namespace Cypher

variable {setting : Setting} {limit : Nat} {narrow wide : Inner} {α β : Type}

/-- The setting with another limit on nesting. -/
def Setting.withLimit (setting : Setting) (limit : Nat) : Setting := { setting with limit := limit }

/-! ### Out of room -/

/-- **A diagnostic for want of room**: the nesting goes beyond the limit. -/
def Diagnostic.IsTooDeep (d : Diagnostic) : Prop := d.code = some .nestingTooDeep

/-- A state in which a want of room has been noted. -/
def State.RanOut (s : State) : Prop := ∃ d ∈ s.problems, d.IsTooDeep

/-- **An outcome that shows a want of room**, by the failure it is or by what has been noted. -/
def Outcome.RanOut : Outcome α → Prop
  | .done _ t => t.RanOut
  | .failed d t => d.IsTooDeep ∨ t.RanOut

theorem State.RanOut.mono {s t : State} (h : s.RanOut) (hp : s.problems <+: t.problems) :
    t.RanOut :=
  let ⟨d, hd, hdeep⟩ := h
  ⟨d, hp.subset hd, hdeep⟩

theorem State.ranOut_note {s : State} {d : Diagnostic} (h : d.IsTooDeep ∨ s.RanOut) :
    (s.note d).RanOut := by
  rcases h with h | h
  · exact ⟨d, List.mem_append_right _ (List.mem_singleton_self d), h⟩
  · exact h.mono (List.prefix_append ..)

theorem Outcome.ranOut_of_state {o : Outcome α} (h : o.state.RanOut) : o.RanOut := by
  cases o with
  | done a t => exact h
  | failed d t => exact Or.inr h

/-- The limit shows in no diagnostic but those for want of room. -/
theorem State.diagnostic_withLimit (s : State) (problem : Problem) :
    (s.diagnostic setting problem).IsTooDeep ∨
      s.diagnostic (setting.withLimit limit) problem = s.diagnostic setting problem := by
  cases problem with
  | tooDeep => exact Or.inl rfl
  | _ => exact Or.inr rfl

/-! ### What a narrow run settles -/

/-- **A narrow outcome settles a wide one**: they are the same, unless the narrow run was out of
room. -/
def Outcome.Settles (one other : Outcome α) : Prop := one.RanOut ∨ other = one

theorem Outcome.Settles.refl (o : Outcome α) : o.Settles o := Or.inr rfl

theorem Outcome.Settles.mapState {one other : Outcome α} {f : State → State}
    (hf : ∀ t, (f t).problems = t.problems) (h : one.Settles other) :
    (one.mapState f).Settles (other.mapState f) := by
  rcases h with h | rfl
  · have hran {t : State} (ht : t.RanOut) : (f t).RanOut := ht.mono (hf t ▸ List.prefix_rfl)
    cases one with
    | done a t => exact Or.inl (hran h)
    | failed d t => exact Or.inl (h.imp_right hran)
  · exact .refl _

theorem Outcome.settles_failed {one other : Diagnostic} (s : State)
    (h : one.IsTooDeep ∨ other = one) :
    (failed one s : Outcome α).Settles (failed other s) := by
  rcases h with h | rfl
  · exact Or.inl (Or.inl h)
  · exact .refl _

/-- Two ways to run nested rules of which the one settles the other, and keeps what has been
noted. -/
structure Inner.Settles (narrow wide : Inner) : Prop where
  /-- The one settles the other. -/
  settles {β : Type} (rule : Nested β) (s : State) : (narrow rule s).Settles (wide rule s)
  /-- The one keeps what has been noted. -/
  keeps {β : Type} (rule : Nested β) (s : State) :
    (narrow rule s).Respects (fun _ => True) (fun s t => s.problems <+: t.problems) s

/-- A run that starts behind a want of room shows it at the end. -/
theorem Rule.ranOut_run (hi : narrow.Settles wide) (rule : Rule α) {s : State} (h : s.RanOut) :
    (rule.run setting narrow s).RanOut :=
  Outcome.ranOut_of_state
    (h.mono (upkeep_run (upkeep_problems setting) hi.keeps rule s).state)

theorem Action.settles_iterate (setting : Setting) {one other : α → Action (Option α)}
    (hs : ∀ a s, (one a s).Settles (other a s))
    (hk : ∀ a s, (one a s).Respects (fun _ => True) (fun s t => s.problems <+: t.problems) s)
    (n : Nat) (a : α) (s : State) :
    (Action.iterate one n a s).Settles (Action.iterate other n a s) := by
  induction n generalizing a s with
  | zero => exact .refl _
  | succ n ih =>
    have h := hs a s
    rw [Action.iterate, Action.iterate]
    cases hone : one a s with
    | failed d t =>
      rw [hone] at h
      rcases h with h | h
      · exact Or.inl h
      · rw [h]
        exact .refl _
    | done next t =>
      rw [hone] at h
      cases next with
      | none =>
        rcases h with h | h
        · exact Or.inl h
        · rw [h]
          exact .refl _
      | some b =>
        rcases h with h | h
        · have hkept := ((upkeep_problems setting).respects_iterate hk n b t).state
          exact Or.inl (Outcome.ranOut_of_state (h.mono hkept))
        · rw [h]
          exact ih b t

namespace Rule

/-- **A run in little room settles the run in more**, if it does so for the nested rules. -/
theorem settles_run (hi : narrow.Settles wide) (rule : Rule α) (s : State) :
    (rule.run setting narrow s).Settles (rule.run (setting.withLimit limit) wide s) := by
  induction rule generalizing s with
  | pure a => exact .refl _
  | bind rule next ihr ihn =>
    have h := ihr s
    rw [run, run]
    cases hr : rule.run setting narrow s with
    | done b t =>
      rw [hr] at h
      rcases h with h | h
      · exact Or.inl (ranOut_run hi (next b) h)
      · rw [h]
        exact ihn b t
    | failed d t =>
      rw [hr] at h
      rcases h with h | h
      · exact Or.inl h
      · rw [h]
        exact .refl _
  | look view => cases view <;> exact .refl _
  | advance => exact .refl _
  | fail problem => exact Outcome.settles_failed s (s.diagnostic_withLimit problem)
  | complain problem =>
    have h : (s.diagnostic setting problem).IsTooDeep ∨
        s.diagnostic (setting.withLimit limit) problem = s.diagnostic setting problem :=
      s.diagnostic_withLimit problem
    by_cases hf : setting.forgiving = true
    · rw [run, run, if_pos hf, if_pos (show (setting.withLimit limit).forgiving = true from hf)]
      rcases h with h | h
      · exact Or.inl (State.ranOut_note (Or.inl h))
      · rw [h]
        exact .refl _
    · rw [run, run, if_neg hf, if_neg (show ¬(setting.withLimit limit).forgiving = true from hf)]
      exact Outcome.settles_failed s h
  | requireSubqueries feature => exact .refl _
  | mend rule remedy ih ihr =>
    have h := ih s
    rw [run, run]
    cases hr : rule.run setting narrow s with
    | done a t =>
      rw [hr] at h
      rcases h with h | h
      · exact Or.inl h
      · rw [h]
        exact .refl _
    | failed d t =>
      rw [hr] at h
      by_cases hf : setting.forgiving = true
      · rcases h with h | h
        · -- the want of room is forgiven, but it has been noted
          dsimp only
          rw [if_pos hf]
          exact Or.inl (ranOut_run hi remedy (State.ranOut_note h))
        · rw [h]
          dsimp only
          rw [if_pos hf, if_pos (show (setting.withLimit limit).forgiving = true from hf)]
          exact ihr (t.note d)
      · rcases h with h | h
        · dsimp only
          rw [if_neg hf]
          exact Or.inl h
        · rw [h]
          dsimp only
          rw [if_neg hf, if_neg (show ¬(setting.withLimit limit).forgiving = true from hf)]
          exact .refl _
  | resume => exact .refl _
  | loop step a ih =>
    exact Action.settles_iterate setting (fun a s => ih a s)
      (fun a s => upkeep_run (upkeep_problems _) hi.keeps (step a) s) _ a s
  | inScope kind rule ih =>
    rw [run, run]
    exact (ih { s with scopes := s.scopes.push kind }).mapState fun _ => rfl
  | record kind => exact .refl _
  | nested rule => exact hi.settles rule s

/-- **Nested rules in little room settle those in more.** -/
theorem settles_runNested (body : {β : Type} → Nested β → Rule β) {room more : Nat}
    (h : room ≤ more) :
    Inner.Settles (runNested setting body room)
      (runNested (setting.withLimit limit) body more) := by
  induction room generalizing more with
  | zero =>
    -- without room the narrow run fails at once, for want of it
    exact ⟨fun _ _ => Or.inl (Or.inl rfl), upkeep_runNested (upkeep_problems _) body 0⟩
  | succ room ih =>
    obtain ⟨more, rfl⟩ := Nat.exists_eq_add_of_le' (Nat.le_trans (Nat.succ_pos room) h)
    refine ⟨fun rule s => ?_, upkeep_runNested (upkeep_problems _) body _⟩
    rw [runNested_succ, runNested_succ]
    exact (settles_run (ih (Nat.le_of_succ_le_succ h)) (body rule)
      { s with depth := s.depth + 1 }).mapState fun _ => rfl

end Rule

/-! ### Raising the limit -/

theorem Grammar.settles_start (h : setting.limit ≤ limit) (rule : Rule α) (s : State) :
    (start setting rule s).Settles (start (setting.withLimit limit) rule s) :=
  Rule.settles_run (Rule.settles_runNested body h) rule s

/-- Whatever is read without a want of room is read likewise under a higher limit. -/
theorem Grammar.read_withLimit {tokens : List Token} (h : setting.limit ≤ limit)
    (hroom : ∀ d ∈ (read setting tokens).problems, ¬d.IsTooDeep) :
    read (setting.withLimit limit) tokens = read setting tokens := by
  unfold read at hroom ⊢
  rcases settles_start h document (.start tokens) with hran | heq
  · cases ho : start setting document (.start tokens) with
    | done document t =>
      rw [ho] at hran hroom
      obtain ⟨d, hd, hdeep⟩ := hran
      exact absurd hdeep (hroom d hd)
    | failed d t =>
      rw [ho] at hran hroom
      rcases hran with hdeep | ⟨e, he, hdeep⟩
      · exact absurd hdeep (hroom d (List.mem_append_right _ (List.mem_singleton_self d)))
      · exact absurd hdeep (hroom e (List.mem_append_left _ he))
  · rw [heq]

/-- What the grammar notes is among the diagnostics of a text. -/
theorem mem_diagnostics_of_mem_problems {source : String} {options : Options} {d : Diagnostic}
    (h : d ∈ (parseTokens (tokenize source options.dialect).tokens options).problems) :
    d ∈ (parse source options).diagnostics := by
  cases hr : parseTokens (tokenize source options.dialect).tokens options with
  | mk found problems scopes =>
    rw [hr] at h
    cases found with
    | none =>
      rw [parse_of_none hr]
      exact List.mem_append_right _ h
    | some document =>
      rw [parse_of_document hr]
      exact List.mem_append_left _ (List.mem_append_right _ h)

/-- **A limit on nesting that was not met can be raised.** If no diagnostic of a text says that the
nesting goes beyond the limit, then reading the text under a higher limit gives the same document
and the same diagnostics. -/
theorem parse_withMaxNestingDepth {source : String} {options : Options} {limit : Nat}
    (h : options.maxNestingDepth ≤ limit)
    (hroom : ∀ d ∈ (parse source options).diagnostics, d.code ≠ some .nestingTooDeep) :
    parse source (options.withMaxNestingDepth limit) = parse source options := by
  have hread (tokens : List Token)
      (hp : ∀ d ∈ (parseTokens tokens options).problems, ¬d.IsTooDeep) :
      parseTokens tokens (options.withMaxNestingDepth limit) = parseTokens tokens options :=
    show Grammar.read ((Setting.ofOptions options).withLimit limit) tokens =
      Grammar.read (.ofOptions options) tokens from Grammar.read_withLimit h hp
  simp only [parse, Options.withMaxNestingDepth] at hread ⊢
  rw [hread _ fun d hd => hroom d (mem_diagnostics_of_mem_problems hd)]

/-- A text that fills five levels of nesting, with a mistake that is forgiven, reads the same with
room for more. -/
theorem parse_withMaxNestingDepth_five :
    let options : Options := ⟨true, .neo4j5, 5⟩
    let source := "RETURN (1 + exists \x7b (n)-->(m) WHERE 2 \x7d) AS x, WITH [1] AS y"
    5 ≤ 128 ∧ (∀ d ∈ (parse source options).diagnostics, d.code ≠ some .nestingTooDeep) ∧
      parse source (options.withMaxNestingDepth 128) = parse source options := by
  intro options source
  have hroom : ∀ d ∈ (parse source options).diagnostics, d.code ≠ some .nestingTooDeep := by
    decide +kernel
  have hle : 5 ≤ 128 := by decide
  exact ⟨hle, hroom, parse_withMaxNestingDepth hle hroom⟩

end Cypher
