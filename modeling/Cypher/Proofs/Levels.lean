import Cypher.Parse
import Cypher.Proofs.Progress

/-!
# Levels and scopes come out even

Rules nest, and a rule may fail in the middle of anything: inside a scope, levels deep, halfway
through a list. Recovery then goes by the scopes that are left, so whatever has been entered must
have been left on every way out. Since the scope and the level are entered and left in one step each
(`Cypher.Rule.inScope`, `Cypher.Rule.nested`), with the rule inside run to its end between the two,
this can be said of a run by where it ends (`Cypher.Rule.Balanced`).

That the number of levels keeps to the limit is a statement about the states on the way, and these
do not show in how a run ends. `Cypher.Rule.Meets` lists them: those in which the rule and its parts
begin and end, the nested rules included. A run that has `room` levels left is never more than that
many levels below its beginning (`Cypher.Rule.below_of_meets`). The room is what the limit leaves of
the levels: rules that nest are run as if the levels were counted and the count was compared with
the limit (`Cypher.Rule.runNested_eq_ite`).
-/

namespace Cypher

variable {setting : Setting} {inner : Inner} {α β : Type}

/-! ### The levels that are left -/

/-- **Room is what the limit leaves.** A nested rule fails where all levels are taken, and otherwise
its body is run one level deeper, with one level less to go. -/
theorem Rule.runNested_eq_ite {body : {β : Type} → Nested β → Rule β} {room : Nat} {s : State}
    (h : s.depth + room = setting.limit) (rule : Nested α) :
    runNested setting body room rule s =
      if setting.limit ≤ s.depth then .failed (s.diagnostic setting .tooDeep) s
      else (run setting (runNested setting body (room - 1)) (body rule)
        { s with depth := s.depth + 1 }).mapState fun t => { t with depth := t.depth - 1 } := by
  cases room with
  | zero => exact (if_pos (Nat.le_of_eq h.symm)).symm
  | succ room => exact (if_neg (by omega)).symm

/-! ### The states on the way -/

/-- **The states that a run meets**: that it begins in and that it ends in, and those that its parts
meet. For the nested rules, they have to be given. -/
inductive Rule.Meets (setting : Setting) (inner : Inner)
    (deeper : {β : Type} → Nested β → State → State → Prop) :
    {α : Type} → Rule α → State → State → Prop
  | start {α : Type} (rule : Rule α) (s : State) : Meets setting @inner @deeper rule s s
  | finish {α : Type} (rule : Rule α) (s : State) :
    Meets setting @inner @deeper rule s (rule.run setting inner s).state
  | first {α β : Type} {rule : Rule β} {next : β → Rule α} {s t : State}
    (h : Meets setting @inner @deeper rule s t) : Meets setting @inner @deeper (.bind rule next) s t
  | second {α β : Type} {rule : Rule β} {next : β → Rule α} {b : β} {s t u : State}
    (hr : rule.run setting inner s = .done b t) (h : Meets setting @inner @deeper (next b) t u) :
    Meets setting @inner @deeper (.bind rule next) s u
  | mended {α : Type} {rule remedy : Rule α} {s t : State}
    (h : Meets setting @inner @deeper rule s t) : Meets setting @inner @deeper (.mend rule remedy) s t
  | remedy {α : Type} {rule remedy : Rule α} {d : Diagnostic} {s t u : State}
    (hf : setting.forgiving = true) (hr : rule.run setting inner s = .failed d t)
    (h : Meets setting @inner @deeper remedy (t.note d) u) :
    Meets setting @inner @deeper (.mend rule remedy) s u
  | once {α : Type} {step : α → Rule (Option α)} {a : α} {s t : State}
    (h : Meets setting @inner @deeper (step a) s t) : Meets setting @inner @deeper (.loop step a) s t
  | again {α : Type} {step : α → Rule (Option α)} {a b : α} {s t u : State}
    (hr : (step a).run setting inner s = .done (some b) t)
    (h : Meets setting @inner @deeper (.loop step b) t u) :
    Meets setting @inner @deeper (.loop step a) s u
  | inScope {α : Type} {kind : ScopeKind} {rule : Rule α} {s t : State}
    (h : Meets setting @inner @deeper rule { s with scopes := s.scopes.push kind } t) :
    Meets setting @inner @deeper (.inScope kind rule) s t
  | nested {α : Type} {rule : Nested α} {s t : State} (h : deeper rule s t) :
    Meets setting @inner @deeper (.nested rule) s t

/-- **The states that a nested rule meets**, with a number of levels left. -/
def Rule.MeetsNested (setting : Setting) (body : {β : Type} → Nested β → Rule β) :
    Nat → {α : Type} → Nested α → State → State → Prop
  | 0, _, _, s, t => t = s
  | room + 1, _, rule, s, t => t = s ∨
    Meets setting (runNested setting body room) (MeetsNested setting body room) (body rule)
      { s with depth := s.depth + 1 } t

/-- **A state on the way from another**, with a number of levels left: the cursor has moved on, and
no more levels have been entered than were left. -/
structure State.Below (room : Nat) (s t : State) : Prop where
  /-- The cursor has moved on. -/
  cursor : s.cursor.Onward t.cursor
  /-- The levels do. -/
  depth : t.depth ≤ s.depth + room

namespace State.Below

variable {room : Nat} {s t u : State}

theorem refl (room : Nat) (s : State) : s.Below room s := ⟨.refl _, Nat.le_add_right _ _⟩

/-- What goes on stays on the level. -/
theorem of_onward (h : s.Onward t) : s.Below room t :=
  ⟨h.cursor, h.depth ▸ Nat.le_add_right _ _⟩

theorem trans_onward (h : s.Onward t) (h' : t.Below room u) : s.Below room u :=
  ⟨h.cursor.trans h'.cursor, h.depth ▸ h'.depth⟩

end State.Below

namespace Rule

variable {room : Nat} {s t : State}
  {deeper : {β : Type} → Nested β → State → State → Prop}

/-- **No run goes below the levels that are left to it**, if the nested rules do not. -/
theorem below_of_meets (hi : inner.GoesOn)
    (hd : ∀ {β : Type} (rule : Nested β) (s t : State), deeper rule s t → s.Below room t)
    {rule : Rule α} (h : Meets setting inner deeper rule s t) : s.Below room t := by
  induction h with
  | start rule s => exact .refl room s
  | finish rule s => exact .of_onward (onward_run setting hi rule s)
  | first _ ih => exact ih
  | second hr _ ih => exact .trans_onward (onward_of_done hi hr) ih
  | mended _ ih => exact ih
  | @remedy _ rule _ d s u _ _ hr _ ih =>
    have ho : s.Onward u := by
      have := onward_run setting hi rule s
      rwa [hr] at this
    exact .trans_onward (ho.trans ((upkeep_onward setting).note u trivial)) ih
  | once _ ih => exact ih
  | again hr _ ih => exact .trans_onward (onward_of_done hi hr) ih
  | inScope _ ih => exact ⟨ih.cursor, ih.depth⟩
  | nested h => exact hd _ _ _ h

/-- **Nested rules take the levels that are left to them**, one by one. -/
theorem below_of_meetsNested {body : {β : Type} → Nested β → Rule β} {rule : Nested α}
    (h : MeetsNested setting body room rule s t) : s.Below room t := by
  induction room generalizing α s t with
  | zero => exact h ▸ .refl 0 s
  | succ room ih =>
    obtain rfl | h := h
    · exact .refl _ _
    · obtain ⟨hc, hd⟩ := below_of_meets (goesOn_runNested setting body room)
        (fun rule s t => ih) h
      exact ⟨hc, by rw [Nat.add_left_comm, Nat.add_comm]; exact hd⟩

end Rule

/-! ### Runs that come out even -/

/-- Noting clauses changes the innermost scope only, and nothing in it but the clauses. -/
theorem Scopes.recordAll_eq_modify (scopes : Scopes) (kinds : List ClauseKind) :
    scopes.recordAll kinds =
      scopes.modify fun scope => { scope with clauses := scope.clauses ++ kinds } := by
  induction kinds generalizing scopes with
  | nil => rcases scopes with ⟨_ | ⟨scope, outer⟩⟩ <;> simp [recordAll, modify]
  | cons kind kinds ih =>
    rw [recordAll, List.foldl_cons, ← recordAll, ih]
    rcases scopes with ⟨_ | ⟨scope, outer⟩⟩ <;> simp [record, modify]

/-- Outside of all scopes, there is nowhere to note a clause. -/
theorem Scopes.recordAll_outside (kinds : List ClauseKind) :
    outside.recordAll kinds = outside := by
  rw [recordAll_eq_modify]
  rfl

/-- Moving on, the position never goes back. -/
theorem Cursor.Onward.position_le {c c' : Cursor} (h : c.Onward c') : c.position ≤ c'.position := by
  have hsum := h.position_add_left
  have hle := h.length_ahead_le
  omega

/-- **A run that comes out even**, with a number of levels left: wherever it gets to, it has moved
on and keeps to the limit, and in the end the levels and the scopes are those of the beginning, but
for clauses that have been noted in the innermost scope. -/
structure Rule.Balanced (setting : Setting) (room : Nat) (rule : Rule α) (s : State) : Prop where
  /-- The cursor does not move back. -/
  position : ∀ t, Meets setting (runNested setting Grammar.body room)
    (MeetsNested setting Grammar.body room) rule s t → s.cursor.position ≤ t.cursor.position
  /-- The levels keep to the limit. -/
  limit : ∀ t, Meets setting (runNested setting Grammar.body room)
    (MeetsNested setting Grammar.body room) rule s t → t.depth ≤ setting.limit
  /-- All levels are left that have been entered. -/
  depth : (rule.run setting (runNested setting Grammar.body room) s).state.depth = s.depth
  /-- So are all scopes. -/
  scopes : ∃ kinds, (rule.run setting (runNested setting Grammar.body room) s).state.scopes =
    s.scopes.modify fun scope => { scope with clauses := scope.clauses ++ kinds }

/-- **Every run comes out even**, of whatever rule and in whatever state, be it that the rule reads
something or that it fails. So no scope and no level is left when a document has been read, or has
not. -/
theorem balanced_run (setting : Setting) :
    (∀ {α : Type} (rule : Rule α) (room : Nat) (s : State), s.depth + room = setting.limit →
      rule.Balanced setting room s) ∧
    ∀ tokens, (Grammar.start setting Grammar.document (.start tokens)).state.depth = 0 ∧
      (Grammar.start setting Grammar.document (.start tokens)).state.scopes = .outside ∧
      (Grammar.read setting tokens).scopes = .outside := by
  have hi (room : Nat) : Inner.GoesOn (Rule.runNested setting Grammar.body room) :=
    Rule.goesOn_runNested setting Grammar.body room
  refine ⟨fun rule room s h => ?_, fun tokens => ?_⟩
  · have hbelow (t : State) (ht : Rule.Meets setting (Rule.runNested setting Grammar.body room)
        (Rule.MeetsNested setting Grammar.body room) rule s t) : s.Below room t :=
      Rule.below_of_meets (hi room) (fun _ _ _ => Rule.below_of_meetsNested) ht
    obtain ⟨-, ⟨kinds, hscopes⟩, hdepth⟩ := Rule.onward_run setting (hi room) rule s
    exact {
      position := fun t ht => (hbelow t ht).cursor.position_le
      limit := fun t ht => h ▸ (hbelow t ht).depth
      depth := hdepth
      scopes := ⟨kinds, by rw [hscopes, Scopes.recordAll_eq_modify]⟩ }
  · obtain ⟨-, ⟨kinds, hscopes⟩, hdepth⟩ :=
      Rule.onward_run setting (hi setting.limit) Grammar.document (.start tokens)
    have hout : (Grammar.start setting Grammar.document (.start tokens)).state.scopes = .outside :=
      hscopes.trans (Scopes.recordAll_outside kinds)
    refine ⟨hdepth, hout, ?_⟩
    rw [Grammar.read]
    cases hrun : Grammar.start setting Grammar.document (.start tokens) with
    | done tree t => rwa [hrun] at hout
    | failed d t => rwa [hrun] at hout

/-- A called subquery with a clause in it that fails between two scopes and in a nested rule. -/
theorem balanced_run_call :
    let setting : Setting :=
      { rules := Dialect.neo4j5.rules, forgiving := true, limit := 3 }
    let tokens := (tokenize "CALL { RETURN (1 } RETURN (((2)))" .neo4j5).tokens
    (State.start tokens).depth + 3 = setting.limit ∧
      Grammar.document.Balanced setting 3 (.start tokens) ∧
      (Grammar.read setting tokens).scopes = .outside ∧
      (Grammar.read setting tokens).problems.map Diagnostic.code =
        [some .expectedToken, some .nestingTooDeep] := by
  intro setting tokens
  obtain ⟨hrules, hdocument⟩ := balanced_run setting
  exact ⟨rfl, hrules Grammar.document 3 (.start tokens) rfl, (hdocument tokens).2.2,
    by decide +kernel⟩

end Cypher
