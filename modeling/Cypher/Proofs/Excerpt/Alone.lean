import Cypher.Proofs.Excerpt.Expression
import Cypher.Proofs.Guess.Brackets

/-!
# What is read alone is read in its place

Some tokens are read *alone* (`Cypher.Grammar.ReadsAlone`) if there is nothing but them in a
statement, and a rule reads a value from them up to the end. In the middle of a clause, there are
tokens before them too, and the scope may lie in others. Neither makes a difference: nothing looks
back, and whether a scope lies in another is asked only in the scopes of subqueries, which do so in
any case. This is one more correspondence of places (`Cypher.Parallel.behind`), and what comes of it
is an excerpt from the text.

So what is read alone is read in its place, too (`Cypher.Grammar.readsFrom_of_readsAlone`), for each
of the rules by which the parts of an assignment are read: expressions, targets, labels and paths.
-/

namespace Cypher

variable {setting : Setting} {inner : Inner} {α β : Type}

/-! ### Passing tokens on the way to a value -/

/-- **A rule that reads a value from some tokens** that come next, and stops behind them. -/
def Rule.ReadsFrom (setting : Setting) (inner : Inner) (rule : Rule α) (w : List Token) (a : α)
    (s : State) : Prop :=
  ∃ t, rule.run setting inner s = .done a t ∧ s.Onward t ∧ s.cursor.Across w t.cursor

namespace Rule.ReadsFrom

variable {s : State} {a : α} {w : List Token}

theorem pure (a : α) (s : State) : ReadsFrom setting inner (Pure.pure a) [] a s :=
  ⟨s, rfl, .refl s, .refl _⟩

/-- One rule after another. -/
theorem bind {rule : Rule β} {next : β → Rule α} {b : β} {v : List Token}
    (h : ReadsFrom setting inner rule v b s)
    (hn : ∀ t, s.Onward t → s.cursor.Across v t.cursor →
      ReadsFrom setting inner (next b) w a t) :
    ReadsFrom setting inner (rule >>= next) (v ++ w) a s := by
  obtain ⟨t, hr, ho, hv⟩ := h
  obtain ⟨u, hu, ho', hw⟩ := hn t ho hv
  exact ⟨u, (run_bind_done hr).trans hu, ho.trans ho', hv.trans hw⟩

/-- A token is passed. -/
theorem advance {next : Span → Rule α} {t : Token} {tail : List Token}
    (hr : s.cursor.rest = t :: tail) (ht : tail ≠ [])
    (h : s.Onward s.step → s.cursor.Across [t] s.step.cursor →
      ReadsFrom setting inner (next t.span) w a s.step) :
    ReadsFrom setting inner (.advance >>= next) (t :: w) a s := by
  obtain ⟨hacross, -⟩ := Cursor.across_advance hr ht
  have ho : s.Onward s.step := ⟨s.cursor.onward_advance, ⟨[], rfl⟩, rfl⟩
  obtain ⟨u, hu, hou, hw⟩ := h ho hacross
  refine ⟨u, ?_, ho.trans hou, hacross.trans hw⟩
  rw [← (List.cons.inj hr).1] at hu
  exact hu

/-- A token that has to be there is passed. -/
theorem expect {kind : TokenKind} {next : Span → Rule α} {t : Token} {tail : List Token}
    (hr : s.cursor.rest = t :: tail) (ht : tail ≠ []) (hk : t.kind = kind)
    (h : s.Onward s.step → s.cursor.Across [t] s.step.cursor →
      ReadsFrom setting inner (next t.span) w a s.step) :
    ReadsFrom setting inner (Rule.expect kind >>= next) (t :: w) a s := by
  have he : s.cursor.kind = kind := (Cursor.across_advance hr ht).2.trans hk
  obtain ⟨u, hu, ho, hw⟩ := advance hr ht h
  exact ⟨u, (run_bind_done (run_expect_of_eq he)).trans hu, ho, hw⟩

/-- **An element is closed** behind its last part, with the span of all its tokens. -/
theorem finish {rule : Rule β} {b : β} {start : Nat} {f : β → Span → α} {v : List Token}
    {s₀ : State} (ha : Token.Apart s₀.cursor.tokens) (hv : s₀.cursor.Across v s.cursor)
    (h : ReadsFrom setting inner rule w b s) (hne : v ++ w ≠ []) (hs : start = s₀.cursor.front) :
    ReadsFrom setting inner
      (rule >>= fun b => .look (.spanFrom start) >>= fun span => Pure.pure (f b span)) w
      (f b (Token.hull (v ++ w))) s := by
  obtain ⟨t, hr, ho, hw⟩ := h
  refine ⟨t, ?_, ho, hw⟩
  rw [run_bind_done hr, hs, ← (hv.trans hw).spanFrom_eq ha hne]
  rfl

end Rule.ReadsFrom

/-! ### In the middle of a clause -/

/-- **A place in the middle of a clause**, in a text of given tokens: some token is behind, and
there is a scope to be in. -/
structure State.Midway (all : List Token) (s : State) : Prop where
  /-- The tokens around the cursor are given. -/
  around : s.cursor.Over all
  /-- Some token is behind. -/
  passed : s.cursor.behind ≠ []
  /-- There is a scope. -/
  inScope : 0 < s.scopes.depth

theorem State.Midway.onward {all : List Token} {s t : State} (h : s.Midway all) (ho : s.Onward t) :
    t.Midway all :=
  ⟨h.around.onward ho.cursor, ho.behind_ne_nil h.passed, ho.depth_scopes ▸ h.inScope⟩

namespace Grammar

open Rule hiding pure bind
open Composed (elements)

/-- **Tokens that a rule reads alone**: from a statement in which there is nothing else, it reads a
value up to the end. -/
def ReadsAlone (setting : Setting) (rule : Rule α) (v : List Token) (a : α) : Prop :=
  ∃ t, start setting rule { State.start v with scopes := Scopes.outside.push .statement } =
    .done a t ∧ t.cursor.ahead = []

/-- **A rule of which a run may be moved** from one place to another, as it does not begin where a
statement ends, passes brackets in pairs and looks at nothing but what corresponds. -/
structure Movable [Composed α] (setting : Setting) (inner : Inner) (rule : Rule α) : Prop where
  /-- It does not begin at the end. -/
  refuses : ∃ problem, Refuses setting inner problem rule
  /-- It is run alike in corresponding places. -/
  agree (p : Parallel setting) {s s' : State} : p.States s s' → p.Agree inner rule s s'
  /-- What it reads is well formed. -/
  forms (s : State) : Forms setting inner [] 0 rule s
  /-- There is a stand-in in it only if a problem has been noted. -/
  marks (s : State) : Accounts (Ledger.marks setting) inner [] rule s

/-- Tokens that take part in the grammar and do not end the text, when they stand alone. -/
theorem ofTokens_of_words {u : Token} {us : List Token}
    (h : ∀ t ∈ u :: us, t.kind ≠ .invalid ∧ t.kind ≠ .endOfInput) :
    ∃ stop, stop.kind = .endOfInput ∧ Cursor.ofTokens (u :: us) = ⟨[], u, us ++ [stop]⟩ := by
  obtain ⟨stop, hstop, hclosed⟩ := Cursor.closed_of_ne fun t ht => (h t ht).2
  have hfilter : (u :: us).filter (fun t => t.kind ≠ .invalid) = u :: us :=
    List.filter_eq_self.2 fun t ht => decide_eq_true (h t ht).1
  refine ⟨stop, hstop, ?_⟩
  rw [Cursor.ofTokens, hfilter]
  exact congrArg _ hclosed

section Place

variable [Composed α] {rule : Rule α} {v : List Token} {a : α}
  (hf : setting.forgiving = false) (hp : setting.opensPattern = Cursor.opensPattern)
  (hrule : Movable setting (runNested setting body setting.limit) rule)
  (hv : ∀ t ∈ v, t.kind ≠ .invalid ∧ t.kind ≠ .endOfInput) (h : ReadsAlone setting rule v a)

include hf hp hrule hv h

/-- **Tokens that are read alone are read where the text ends behind them**, whatever is before. -/
theorem exists_cut {all : List Token} {s' : State} (hs : s'.Midway all) :
    ∃ u us stop t, v = u :: us ∧ stop.kind = .endOfInput ∧ Concludes v ∧
      start setting rule { s' with cursor := ⟨s'.cursor.behind, u, us ++ [stop]⟩ } = .done a t ∧
      t.cursor.ahead = [] := by
  obtain ⟨t, hr, ht⟩ := h
  cases v with
  | nil =>
    -- nothing is read where there is nothing
    obtain ⟨problem, hrefuses⟩ := hrule.refuses
    cases (hrefuses _ rfl).symm.trans hr
  | cons u us =>
    obtain ⟨stop, hstop, hcursor⟩ := ofTokens_of_words hv
    let p : Parallel setting :=
      .behind hp s'.cursor.behind (fun hfor => nomatch hf.symm.trans hfor) s'.problems
    have hclosed : Cursor.Closed ⟨s'.cursor.behind, u, us ++ [stop]⟩ :=
      Cursor.closed_of_rest (w := u :: us) rfl hstop
    have hstates : p.States { State.start (u :: us) with scopes := Scopes.outside.push .statement }
        { s' with cursor := ⟨s'.cursor.behind, u, us ++ [stop]⟩ } :=
      ⟨by rw [State.start, hcursor]; rfl, iff_of_true Nat.one_pos hs.inScope,
        (List.append_nil _).symm, Cursor.closed_ofTokens _, hclosed⟩
    have hagree := hrule.agree p hstates
    rw [Parallel.Agree, show rule.run _ _ _ = _ from hr] at hagree
    obtain ⟨t₁, hr₁, ht₁⟩ := hagree.exists_of_done id
    have hahead : t₁.cursor.ahead = [] := by rw [ht₁.cursors]; exact ht
    refine ⟨u, us, stop, t₁, rfl, hstop, ?_, hr₁, hahead⟩
    -- all tokens but the end have been passed, with their brackets in pairs
    obtain ⟨⟨w, hw, hgoes, hlast, hopen⟩, -⟩ :=
      shuts_of_done hf hclosed (hrule.forms _) (hrule.marks _) hr₁
    rw [hahead] at hw
    change u :: us ++ [stop] = w ++ [_] at hw
    obtain ⟨rfl, -⟩ := List.append_inj' hw rfl
    exact ⟨⟨0, hopen 0⟩, hgoes, hlast⟩

/-- **What is read alone is read in its place**, in front of a border behind which the rule does not
go on. -/
theorem readsFrom_of_readsAlone {all : List Token} {s' : State} (hs : s'.Midway all)
    {edge : Token} {beyond : List Token} (hrest : s'.cursor.rest = v ++ edge :: beyond)
    (hborder : edge.kind.isBorder = true)
    (hcarried : ∀ (x : Excerpt setting) (s t : State), x.edge = edge → x.beyond = beyond →
      start setting rule s = .done a t → t.cursor.ahead = [] → x.Alike s s' →
      ∃ t', start setting rule s' = .done a t' ∧ x.Alike t t') :
    ReadsFrom setting (runNested setting body setting.limit) rule v a s' := by
  obtain ⟨u, us, stop, t, rfl, hstop, hv, hr, ht⟩ := exists_cut hf hp hrule hv h hs
  let x : Excerpt setting := ⟨stop, edge, beyond, hstop, hborder, hf, hp⟩
  have halike : x.Alike { s' with cursor := ⟨s'.cursor.behind, u, us ++ [stop]⟩ } s' :=
    ⟨⟨rfl, hs.passed, u :: us, hv, rfl, hrest⟩, .rfl, rfl,
      Cursor.closed_of_rest (w := u :: us) rfl hstop, hs.around.closed⟩
  obtain ⟨t', hr', ht'⟩ := hcarried x _ t rfl rfl hr ht halike
  obtain ⟨-, hcurrent, hahead⟩ := ht'.cursors.of_ahead_eq_nil ht
  have ho := onward_of_done (goesOn_runNested setting body setting.limit) hr'
  obtain ⟨w, hw⟩ := ho.cursor.exists_across
  have heq := hw.1.symm.trans hrest
  rw [Cursor.rest, hcurrent, hahead] at heq
  exact ⟨t', hr', ho, List.append_cancel_right heq ▸ hw⟩

end Place

/-! ### The parts of an assignment -/

section Parts

variable (hp : setting.opensPattern = Cursor.opensPattern)

include hp

theorem movable_nested (strength : Nat) :
    Movable setting (runNested setting body setting.limit) (nested (.expression strength)) where
  refuses := (parallel_runNested (.behind hp [] (fun _ => nofun) []) setting.limit).refuses strength
  agree p _ _ hs := (parallel_runNested p setting.limit).expression strength hs
  forms := (forms_runNested (fun _ hc => hp ▸ hc) setting.limit).expression strength
  marks := (accounts_runNested _ setting.limit).expression strength

omit hp in
theorem run_labels_of_ne {s : State} (h : s.cursor.kind ≠ .sign .colon) :
    labels.run setting inner s = .failed (s.diagnostic setting (.expected "`:`")) s := by
  have hnone : (many (optionally (takeSign .colon) (symbolicName "a label name")) []).run setting
      inner s = .done [] s := run_many_none (run_optionally_false (run_consume_of_ne h))
  rw [labels, run_bind_done hnone]
  rfl

omit hp in
theorem refuses_labels : Refuses setting inner (.expected "`:`") labels :=
  fun _ hs => run_labels_of_ne (TokenKind.ne_of_isStop hs rfl)

omit hp in
theorem movable_labels : Movable setting (runNested setting body setting.limit) labels where
  refuses := ⟨_, refuses_labels⟩
  agree p _ _ hs := agree_labels (parallel_runNested p setting.limit) hs
  forms _ := forms_labels (goesOn_runNested setting body setting.limit)
  marks _ := accounts_labels

theorem movable_patternPart :
    Movable setting (runNested setting body setting.limit) patternPart where
  refuses := ⟨_, refuses_patternPart⟩
  agree p _ _ hs := agree_patternPart (parallel_runNested p setting.limit) hs
  forms _ := forms_patternPart (forms_runNested (fun _ hc => hp ▸ hc) setting.limit)
  marks _ := accounts_patternPart (accounts_runNested _ setting.limit)

variable (hf : setting.forgiving = false) {all v beyond : List Token} {edge : Token} {s : State}
  (hs : s.Midway all) (hv : ∀ t ∈ v, t.kind ≠ .invalid ∧ t.kind ≠ .endOfInput)
  (hrest : s.cursor.rest = v ++ edge :: beyond) (hborder : edge.kind.isBorder = true)

include hf hs hv hrest hborder

/-- **An expression** is read in its place, if the tokens behind do not go on with it. -/
theorem readsFrom_expression {e : Expression} (h : ReadsAlone setting expression v e)
    (hstops : Stops 0 (edge.kind :: beyond.map Token.kind)) :
    ReadsFrom setting (runNested setting body setting.limit) expression v e s :=
  readsFrom_of_readsAlone hf hp (movable_nested hp 0) hv h hs hrest hborder
    fun _ s t hedge hbeyond hr ht hx =>
      carried_runNested (hedge ▸ hbeyond ▸ hstops) setting.limit 0 s e t hr ht _ hx

/-- **A property that is the target of an assignment** is read in its place, if no suffix stands
behind it. -/
theorem readsFrom_target {e : Expression} (h : ReadsAlone setting suffixed v e)
    (hproperty : e.isProperty = true)
    (hstops : Stops suffixStrength (edge.kind :: beyond.map Token.kind)) :
    ReadsFrom setting (runNested setting body setting.limit) suffixed v e s :=
  readsFrom_of_readsAlone hf hp (movable_nested hp suffixStrength) hv h hs hrest hborder
    fun _ _ _ hedge hbeyond hr ht hx =>
      exists_of_isProperty (hedge ▸ hbeyond ▸ hstops) hr hproperty ht hx

/-- **Labels** are read in their place. -/
theorem readsFrom_labels {names : List Ident} (h : ReadsAlone setting labels v names) :
    ReadsFrom setting (runNested setting body setting.limit) labels v names s :=
  readsFrom_of_readsAlone hf hp movable_labels hv h hs hrest hborder
    fun x _ t _ _ hr ht hx =>
      carried_labels (parallel_runNested x.parallel setting.limit) names t hr ht _ hx

/-- **A path** is read in its place. -/
theorem readsFrom_patternPart {part : PatternPart Expression}
    (h : ReadsAlone setting patternPart v part) :
    ReadsFrom setting (runNested setting body setting.limit) patternPart v part s :=
  readsFrom_of_readsAlone hf hp (movable_patternPart hp) hv h hs hrest hborder
    fun x _ t _ _ hr ht hx =>
      (fenced_patternPart (parallel_runNested x.parallel setting.limit)).2 part t hr ht _ hx

end Parts

end Grammar

end Cypher
