import Cypher.Proofs.Run
import Mathlib.Logic.Relation

/-!
# What every run leaves in order

Whatever rule is run, and whether it reads something or fails, the cursor moves on and never back,
the scopes are those there were, apart from clauses noted in the innermost one, and the depth is the
depth there was (`Cypher.State.Onward`). This is an upkeep, so nothing has to be said about single
rules.

Moving on keeps a cursor closed (`Cypher.Cursor.Closed`): its last token is the end of the text, so
that there is a token ahead of every other.
-/

namespace Cypher

variable {setting : Setting} {inner : Inner} {α β : Type}

/-! ### Moving on -/

namespace Cursor

/-- **Moving on**, any number of times. -/
def Onward : Cursor → Cursor → Prop := Relation.ReflTransGen fun c c' => c' = c.advance

theorem Onward.refl (c : Cursor) : c.Onward c := Relation.ReflTransGen.refl

theorem Onward.trans {c c' c'' : Cursor} (h : c.Onward c') (h' : c'.Onward c'') : c.Onward c'' :=
  Relation.ReflTransGen.trans h h'

theorem onward_advance (c : Cursor) : c.Onward c.advance := Relation.ReflTransGen.single rfl

/-- What moving on once keeps, moving on keeps. -/
theorem Onward.induct {p : Cursor → Prop} (hp : ∀ c, p c → p c.advance) {c c' : Cursor}
    (h : c.Onward c') (hc : p c) : p c' := by
  induction h with
  | refl => exact hc
  | tail _ h ih => exact h ▸ hp _ ih

theorem onward_resumeFrom (nested : Bool) (behind : List Token) (current : Token)
    (ahead : List Token) (depth : Nat) :
    Onward ⟨behind, current, ahead⟩ (resumeFrom nested behind current ahead depth) := by
  induction ahead generalizing behind current depth with
  | nil =>
    unfold resumeFrom
    split
    · exact .refl _
    · split <;> exact .refl _
  | cons t ts ih =>
    unfold resumeFrom
    split
    · exact .refl _
    · split
      · exact .refl _
      · exact (onward_advance ⟨behind, current, t :: ts⟩).trans (ih ..)

theorem onward_resume (c : Cursor) (nested : Bool) : c.Onward (c.resume nested) :=
  onward_resumeFrom ..

theorem length_ahead_advance_le (c : Cursor) : c.advance.ahead.length ≤ c.ahead.length := by
  unfold advance
  split
  · exact Nat.le_refl _
  · next h => simp only [h, List.length_cons, Nat.le_add_right]

/-- Fewer tokens are ahead after moving on. -/
theorem Onward.length_ahead_le {c c' : Cursor} (h : c.Onward c') :
    c'.ahead.length ≤ c.ahead.length :=
  h.induct (p := fun x => x.ahead.length ≤ c.ahead.length)
    (fun x hx => Nat.le_trans (length_ahead_advance_le x) hx) (Nat.le_refl _)

/-- Moving on either leads to where one is, or passes the token at the cursor. -/
theorem Onward.eq_or_advance {c c' : Cursor} (h : c.Onward c') :
    c' = c ∨ (c.ahead ≠ [] ∧ c.advance.Onward c') := by
  induction h with
  | refl => exact Or.inl rfl
  | @tail x y hx h ih =>
    subst h
    rcases ih with rfl | ⟨hne, ih⟩
    · by_cases ha : x.ahead = []
      · exact Or.inl (advance_of_ahead_eq_nil ha)
      · exact Or.inr ⟨ha, .refl _⟩
    · exact Or.inr ⟨hne, ih.trans (onward_advance x)⟩

/-! ### Closed cursors -/

/-- **A cursor whose last token is the end of the text.** -/
def Closed (c : Cursor) : Prop :=
  ∀ t, (c.current :: c.ahead).getLast? = some t → t.kind = .endOfInput

theorem Closed.advance {c : Cursor} (h : c.Closed) : c.advance.Closed := by
  unfold Cursor.advance
  split
  · exact h
  · next t ts ha =>
    intro u hu
    exact h u (by rw [ha, List.getLast?_cons_cons]; exact hu)

theorem Closed.onward {c c' : Cursor} (h : c.Closed) (ho : c.Onward c') : c'.Closed :=
  ho.induct (p := Closed) (fun _ hc => Closed.advance hc) h

/-- There is a token ahead of every token but the end of the text. -/
theorem Closed.ahead_ne_nil {c : Cursor} (h : c.Closed) (hk : c.kind ≠ .endOfInput) :
    c.ahead ≠ [] := by
  intro ha
  exact hk (h c.current (by rw [ha]; rfl))

theorem getLast?_closed (t : Token) (ts : List Token) :
    ∀ u, (t :: closed t ts).getLast? = some u → u.kind = .endOfInput := by
  induction ts generalizing t with
  | nil =>
    intro u hu
    unfold closed at hu
    split at hu
    · next h =>
      cases hu
      exact h
    · cases hu
      rfl
  | cons v vs ih =>
    intro u hu
    rw [closed, List.getLast?_cons_cons] at hu
    exact ih v u hu

/-- A list of tokens is closed at its end. -/
theorem closed_append (t u : Token) (a us : List Token) :
    closed t (a ++ u :: us) = a ++ u :: closed u us := by
  induction a generalizing t with
  | nil => rfl
  | cons x xs ih => exact congrArg (x :: ·) (ih x)

/-- A list of tokens without an end token gets one. -/
theorem closed_of_ne {t : Token} {ts : List Token} (h : ∀ u ∈ t :: ts, u.kind ≠ .endOfInput) :
    ∃ e, e.kind = .endOfInput ∧ closed t ts = ts ++ [e] := by
  induction ts generalizing t with
  | nil => exact ⟨endAfter t, rfl, if_neg (h t List.mem_cons_self)⟩
  | cons u us ih =>
    obtain ⟨e, he, hc⟩ := ih fun x hx => h x (List.mem_cons_of_mem t hx)
    exact ⟨e, he, congrArg (u :: ·) hc⟩

/-- **The cursor at the start of any list of tokens is closed.** -/
theorem closed_ofTokens (tokens : List Token) : (ofTokens tokens).Closed := by
  unfold ofTokens
  cases tokens.filter fun t => t.kind ≠ .invalid with
  | nil =>
    intro t ht
    cases ht
    rfl
  | cons t ts => exact getLast?_closed t ts

end Cursor

/-! ### Scopes -/

namespace Scopes

/-- Notes clauses in the innermost scope, one after the other. -/
def recordAll (scopes : Scopes) (kinds : List ClauseKind) : Scopes := kinds.foldl record scopes

theorem recordAll_append (scopes : Scopes) (a b : List ClauseKind) :
    scopes.recordAll (a ++ b) = (scopes.recordAll a).recordAll b := List.foldl_append

@[simp] theorem depth_recordAll (scopes : Scopes) (kinds : List ClauseKind) :
    (scopes.recordAll kinds).depth = scopes.depth := by
  induction kinds generalizing scopes with
  | nil => rfl
  | cons kind kinds ih => exact (ih (scopes.record kind)).trans (depth_modify ..)

/-- What is noted in a scope is gone once it is left. -/
theorem pop_recordAll_push (scopes : Scopes) (kind : ScopeKind) (kinds : List ClauseKind) :
    ((scopes.push kind).recordAll kinds).pop = scopes := by
  have h : ∀ frame : Scope,
      (recordAll ⟨frame :: scopes.frames⟩ kinds).pop = scopes := by
    induction kinds with
    | nil => exact fun _ => rfl
    | cons k ks ih => exact fun frame => ih { frame with clauses := frame.clauses ++ [k] }
  exact h (.fresh kind)

end Scopes

/-! ### All in all -/

/-- **How a state goes on**: its cursor moves on, and there is nothing else to it than clauses in
the innermost scope and problems. -/
structure State.Onward (s t : State) : Prop where
  /-- The cursor moves on. -/
  cursor : s.cursor.Onward t.cursor
  /-- Clauses may be noted in the innermost scope. -/
  scopes : ∃ kinds, t.scopes = s.scopes.recordAll kinds
  /-- The depth stays. -/
  depth : t.depth = s.depth

theorem State.Onward.refl (s : State) : s.Onward s := ⟨.refl _, ⟨[], rfl⟩, rfl⟩

theorem State.Onward.trans {s t u : State} (h : s.Onward t) (h' : t.Onward u) : s.Onward u := by
  obtain ⟨hc, ⟨a, ha⟩, hd⟩ := h
  obtain ⟨hc', ⟨b, hb⟩, hd'⟩ := h'
  exact ⟨hc.trans hc', ⟨a ++ b, by rw [hb, ha, Scopes.recordAll_append]⟩, hd'.trans hd⟩

theorem State.Onward.depth_scopes {s t : State} (h : s.Onward t) :
    t.scopes.depth = s.scopes.depth := by
  obtain ⟨kinds, h⟩ := h.scopes
  rw [h, Scopes.depth_recordAll]

theorem State.Onward.isNested_eq {s t : State} (h : s.Onward t) :
    t.scopes.isNested = s.scopes.isNested := by
  obtain ⟨kinds, h⟩ := h.scopes
  rw [h, Scopes.isNested, Scopes.depth_recordAll]
  rfl

/-- **Every step goes on.** -/
theorem upkeep_onward (setting : Setting) :
    Upkeep setting (fun _ => True) State.Onward where
  refl := .refl
  trans := .trans
  diagnostic _ _ := trivial
  note _ _ _ := ⟨.refl _, ⟨[], rfl⟩, rfl⟩
  advance s := ⟨s.cursor.onward_advance, ⟨[], rfl⟩, rfl⟩
  resume s := ⟨s.cursor.onward_resume _, ⟨[], rfl⟩, rfl⟩
  record s kind := ⟨.refl s.cursor, ⟨[kind], rfl⟩, rfl⟩
  inScope := by
    rintro s t kind ⟨hc, ⟨kinds, h⟩, hd⟩
    exact ⟨hc, ⟨[], by rw [h]; exact Scopes.pop_recordAll_push ..⟩, hd⟩
  deeper := by
    rintro s t ⟨hc, hs, hd⟩
    exact ⟨hc, hs, by rw [hd]; rfl⟩

end Cypher
