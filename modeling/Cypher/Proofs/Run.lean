import Cypher.Grammar.Query

/-!
# Running rules

A rule is a finite tree of steps. What holds of each step therefore holds of every rule, given that
it holds of the nested rules; and those are run with less and less room, so it holds of them too.
This file says so once. A relation between the states before and after a run is an
`Cypher.Upkeep` if every step that changes the state respects it, together with a property of
diagnostics if every cause of a failure leads to one that has it. Then every run ends in a state
that is related to the one it started from, and fails with such a diagnostic only
(`Cypher.Rule.upkeep_run`, `Cypher.Grammar.upkeep_start`).

The first use is that what has been noted stays noted (`Cypher.upkeep_problems`).
-/

namespace Cypher

/-- **How nested rules are run.** -/
abbrev Inner := {β : Type} → Nested β → Action β

variable {setting : Setting} {inner : Inner} {α β : Type}

/-- Goes on from an outcome with what has been read, unless it is a failure. -/
def Outcome.andThen : Outcome β → (β → Action α) → Outcome α
  | .done b s, next => next b s
  | .failed d s, _ => .failed d s

@[simp] theorem Outcome.andThen_done (b : β) (s : State) (next : β → Action α) :
    (Outcome.done b s).andThen next = next b s := rfl

@[simp] theorem Outcome.andThen_failed (d : Diagnostic) (s : State) (next : β → Action α) :
    (Outcome.failed d s).andThen next = .failed d s := rfl

namespace Rule

/-! ### One rule after another -/

@[simp] theorem run_pure (a : α) (s : State) :
    (Pure.pure a : Rule α).run setting inner s = .done a s := rfl

@[simp] theorem run_bind (rule : Rule β) (next : β → Rule α) (s : State) :
    (rule >>= next).run setting inner s =
      (rule.run setting inner s).andThen fun b t => (next b).run setting inner t := by
  change (Rule.bind rule next).run setting inner s = _
  rw [run]
  cases rule.run setting inner s <;> rfl

theorem run_bind_done {rule : Rule β} {next : β → Rule α} {s t : State} {b : β}
    (h : rule.run setting inner s = .done b t) :
    (rule >>= next).run setting inner s = (next b).run setting inner t := by
  rw [run_bind, h, Outcome.andThen_done]

theorem run_bind_failed {rule : Rule β} {next : β → Rule α} {s t : State} {d : Diagnostic}
    (h : rule.run setting inner s = .failed d t) :
    (rule >>= next).run setting inner s = .failed d t := by
  rw [run_bind, h, Outcome.andThen_failed]

/-- A rule that has read something has done so by one part and then the other. -/
theorem done_of_bind {rule : Rule β} {next : β → Rule α} {s u : State} {a : α}
    (h : (rule >>= next).run setting inner s = .done a u) :
    ∃ b t, rule.run setting inner s = .done b t ∧ (next b).run setting inner t = .done a u := by
  rw [run_bind] at h
  cases hr : rule.run setting inner s with
  | done b t =>
    rw [hr] at h
    exact ⟨b, t, rfl, h⟩
  | failed d t =>
    rw [hr] at h
    cases h

@[simp] theorem run_look (view : View α) (s : State) :
    (look view).run setting inner s = .done (view.read setting s) s := rfl

@[simp] theorem run_advance (s : State) :
    advance.run setting inner s =
      .done s.cursor.current.span { s with cursor := s.cursor.advance } := rfl

@[simp] theorem run_fail (problem : Problem) (s : State) :
    (fail problem : Rule α).run setting inner s = .failed (s.diagnostic setting problem) s := rfl

@[simp] theorem run_nested (rule : Nested α) (s : State) :
    (nested rule).run setting inner s = inner rule s := rfl

theorem run_requireSubqueries_done {feature : String} {s : State}
    (h : setting.rules.subqueries = true) :
    (requireSubqueries feature).run setting inner s = .done () s := if_pos h

theorem run_requireSubqueries_failed {feature : String} {s : State}
    (h : ¬setting.rules.subqueries = true) :
    (requireSubqueries feature).run setting inner s =
      .failed (s.diagnostic setting (.unsupported feature)) s := if_neg h

/-- Nested rules without room. -/
theorem runNested_zero {body : {β : Type} → Nested β → Rule β} (rule : Nested α) (s : State) :
    runNested setting body 0 rule s = .failed (s.diagnostic setting .tooDeep) s := rfl

/-- Nested rules with some room. -/
theorem runNested_succ {body : {β : Type} → Nested β → Rule β} (room : Nat) (rule : Nested α)
    (s : State) :
    runNested setting body (room + 1) rule s =
      (run setting (runNested setting body room) (body rule)
        { s with depth := s.depth + 1 }).mapState fun s => { s with depth := s.depth - 1 } := rfl

/-- What a nested rule reads, its body reads one level deeper. -/
theorem done_of_runNested {body : {β : Type} → Nested β → Rule β} {room : Nat} {rule : Nested α}
    {s t : State} {a : α} (h : runNested setting body (room + 1) rule s = .done a t) :
    ∃ u, run setting (runNested setting body room) (body rule) { s with depth := s.depth + 1 } =
      .done a u ∧ t = { u with depth := u.depth - 1 } := by
  rw [runNested_succ] at h
  cases hr : run setting (runNested setting body room) (body rule)
      { s with depth := s.depth + 1 } with
  | done b u =>
    rw [hr] at h
    cases h
    exact ⟨u, rfl, rfl⟩
  | failed d u =>
    rw [hr] at h
    cases h

end Rule

/-! ### What every step respects -/

/-- **A relation between states that every step respects**, and a property that every diagnostic
has. -/
structure Upkeep (setting : Setting) (holds : Diagnostic → Prop) (rel : State → State → Prop) :
    Prop where
  /-- Doing nothing respects the relation. -/
  refl (s : State) : rel s s
  /-- So do two runs in a row. -/
  trans {s t u : State} : rel s t → rel t u → rel s u
  /-- Every cause leads to a diagnostic with the property. -/
  diagnostic (s : State) (problem : Problem) : holds (s.diagnostic setting problem)
  /-- Such a diagnostic may be noted. -/
  note (s : State) {d : Diagnostic} : holds d → rel s (s.note d)
  /-- Moving on. -/
  advance (s : State) : rel s { s with cursor := s.cursor.advance }
  /-- Skipping. -/
  resume (s : State) : rel s { s with cursor := s.cursor.resume s.scopes.isNested }
  /-- Noting a clause. -/
  record (s : State) (kind : ClauseKind) : rel s { s with scopes := s.scopes.record kind }
  /-- Entering and leaving a scope. -/
  inScope {s t : State} (kind : ScopeKind) :
    rel { s with scopes := s.scopes.push kind } t → rel s { t with scopes := t.scopes.pop }
  /-- Going one level deeper and coming back. -/
  deeper {s t : State} :
    rel { s with depth := s.depth + 1 } t → rel s { t with depth := t.depth - 1 }

/-- **What an outcome has to do with the state before**: its own state is related to that, and a
failure has the property. -/
def Outcome.Respects (holds : Diagnostic → Prop) (rel : State → State → Prop) (s : State) :
    Outcome α → Prop
  | .done _ t => rel s t
  | .failed d t => holds d ∧ rel s t

theorem Outcome.Respects.state {holds : Diagnostic → Prop} {rel : State → State → Prop} {s : State}
    {o : Outcome α} (h : o.Respects holds rel s) : rel s o.state := by
  cases o with
  | done a t => exact h
  | failed d t => exact h.2

namespace Upkeep

variable {holds : Diagnostic → Prop} {rel : State → State → Prop}

theorem trans_respects (h : Upkeep setting holds rel) {s t : State} {o : Outcome α}
    (hst : rel s t) (ho : o.Respects holds rel t) : o.Respects holds rel s := by
  cases o with
  | done a u => exact h.trans hst ho
  | failed d u => exact ⟨ho.1, h.trans hst ho.2⟩

theorem respects_mapState {f : State → State} {s s' : State} {o : Outcome α}
    (hf : ∀ t, rel s' t → rel s (f t)) (ho : o.Respects holds rel s') :
    (o.mapState f).Respects holds rel s := by
  cases o with
  | done a t => exact hf t ho
  | failed d t => exact ⟨ho.1, hf t ho.2⟩

theorem respects_iterate (h : Upkeep setting holds rel) {step : α → Action (Option α)}
    (hs : ∀ a s, (step a s).Respects holds rel s) (n : Nat) (a : α) (s : State) :
    (Action.iterate step n a s).Respects holds rel s := by
  induction n generalizing a s with
  | zero => exact h.refl s
  | succ n ih =>
    have h₁ := hs a s
    rw [Action.iterate]
    cases hstep : step a s with
    | failed d t => rwa [hstep] at h₁
    | done next t =>
      rw [hstep] at h₁
      cases next with
      | none => exact h₁
      | some b => exact h.trans_respects h₁ (ih b t)

end Upkeep

namespace Rule

variable {holds : Diagnostic → Prop} {rel : State → State → Prop}

/-- **Every run respects an upkeep** that the nested rules respect. -/
theorem upkeep_run (h : Upkeep setting holds rel)
    (hi : ∀ {β : Type} (rule : Nested β) (s : State), (inner rule s).Respects holds rel s)
    (rule : Rule α) (s : State) : (rule.run setting inner s).Respects holds rel s := by
  induction rule generalizing s with
  | pure a => exact h.refl s
  | bind rule next ihr ihn =>
    have h₁ := ihr s
    rw [run]
    cases hr : rule.run setting inner s with
    | failed d t => rwa [hr] at h₁
    | done b t =>
      rw [hr] at h₁
      exact h.trans_respects h₁ (ihn b t)
  | look view => exact h.refl s
  | advance => exact h.advance s
  | fail problem => exact ⟨h.diagnostic s problem, h.refl s⟩
  | complain problem =>
    rw [run]
    split
    · exact h.note s (h.diagnostic s problem)
    · exact ⟨h.diagnostic s problem, h.refl s⟩
  | requireSubqueries feature =>
    rw [run]
    split
    · exact h.refl s
    · exact ⟨h.diagnostic s _, h.refl s⟩
  | mend rule remedy ih ihr =>
    have h₁ := ih s
    rw [run]
    cases hr : rule.run setting inner s with
    | done a t => rwa [hr] at h₁
    | failed d t =>
      rw [hr] at h₁
      dsimp only
      split
      · exact h.trans_respects (h.trans h₁.2 (h.note t h₁.1)) (ihr (t.note d))
      · exact h₁
  | resume => exact h.resume s
  | loop step a ih => exact h.respects_iterate (fun a s => ih a s) _ a s
  | inScope kind rule ih =>
    rw [run]
    exact Upkeep.respects_mapState (fun t => h.inScope kind) (ih _)
  | record kind => exact h.record s kind
  | nested rule => exact hi rule s

theorem upkeep_runNested (h : Upkeep setting holds rel)
    (body : {β : Type} → Nested β → Rule β) (room : Nat) (rule : Nested α) (s : State) :
    (runNested setting body room rule s).Respects holds rel s := by
  induction room generalizing α s with
  | zero => exact ⟨h.diagnostic s _, h.refl s⟩
  | succ room ih =>
    rw [runNested_succ]
    exact Upkeep.respects_mapState (fun t => h.deeper) (upkeep_run h ih (body rule) _)

end Rule

/-- **Whatever the grammar reads, it respects every upkeep.** -/
theorem Grammar.upkeep_start {holds : Diagnostic → Prop} {rel : State → State → Prop}
    (h : Upkeep setting holds rel) (rule : Rule α) (s : State) :
    (Grammar.start setting rule s).Respects holds rel s :=
  Rule.upkeep_run h (Rule.upkeep_runNested h Grammar.body setting.limit) rule s

/-! ### What is noted stays noted -/

/-- Every step keeps what has been noted. -/
theorem upkeep_problems (setting : Setting) :
    Upkeep setting (fun _ => True) fun s t => s.problems <+: t.problems where
  refl _ := List.prefix_rfl
  trans := List.IsPrefix.trans
  diagnostic _ _ := trivial
  note _ _ _ := List.prefix_append ..
  advance _ := List.prefix_rfl
  resume _ := List.prefix_rfl
  record _ _ := List.prefix_rfl
  inScope _ h := h
  deeper h := h

end Cypher
