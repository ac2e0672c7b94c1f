import Cypher.Proofs.Modes

/-!
# Reading in a larger dialect

A dialect that reserves more words and has more constructs reads a text of the smaller dialect in
the same way, as long as the text makes no use of the words. The tokens of a text do not depend on
which words are reserved that do not occur in it (`Cypher.Piece.tokens_congr`). A run of the grammar
depends on the dialect in one place, where it fails for want of a construct; so where mistakes are
not forgiven and a run comes to its end all the same, it comes to the same end in every larger
dialect (`Cypher.Rule.done_run_of_extends`).
-/

namespace Cypher

/-! ### The same tokens -/

/-- A letter in lower case has the same upper case. Only ASCII letters have another case here. -/
theorem Text.toUpper_toLower (c : Char) : c.toLower.toUpper = c.toUpper := by
  unfold Char.toLower
  split
  · next h =>
    have hlow : 65 ≤ c.val.toNat := h.1
    have hhigh : c.val.toNat ≤ 90 := h.2
    have hval : (c.val + ('a'.val - 'A'.val)).toNat = c.val.toNat + 32 := by
      have hsub : ('a'.val - 'A'.val).toNat = 32 := rfl
      rw [UInt32.toNat_add, hsub]
      omega
    have hin : 'a'.val ≤ c.val + ('a'.val - 'A'.val) ∧ c.val + ('a'.val - 'A'.val) ≤ 'z'.val := by
      rw [UInt32.le_iff_toNat_le, UInt32.le_iff_toNat_le, hval]
      change 97 ≤ _ ∧ _ ≤ 122
      omega
    have hout : ¬('a'.val ≤ c.val ∧ c.val ≤ 'z'.val) := by
      rw [UInt32.le_iff_toNat_le]
      change ¬(97 ≤ _ ∧ _)
      omega
    unfold Char.toUpper
    rw [dif_pos hin, dif_neg hout]
    refine Char.ext ?_
    change c.val + ('a'.val - 'A'.val) + ('A'.val - 'a'.val) = c.val
    -- the two shifts cancel modulo the size of a word
    rw [UInt32.add_assoc]
    exact UInt32.add_zero _
  · rfl

/-- **The word that a token is**, unless it is quoted: a reserved word, or a name that is written
like one. -/
def Token.word? (t : Token) : Option String :=
  match t.kind with
  | .keyword _ => some t.lexeme
  | .identifier name => some name
  | _ => none

/-- **Whether a token spells a reserved word**, whatever the case of its letters. -/
def Token.Spells (t : Token) (word : Keyword) : Prop :=
  t.word?.map (fun s => s.toList.map Char.toUpper) = some word.spelling.toList
deriving Decidable

theorem Token.spells_iff {t : Token} {word : Keyword} :
    t.Spells word ↔ ∃ s, t.word? = some s ∧ s.toList.map Char.toUpper = word.spelling.toList :=
  Option.map_eq_some_iff

/-- The words that are reserved are spelled by their upper-case letters. -/
theorem Keyword.map_toUpper_of_ofWord? {cs : List Char} {word : Keyword}
    (h : ofWord? cs = some word) : cs.map Char.toUpper = word.spelling.toList := by
  have hspell := List.find?_some h
  exact (beq_iff_eq.1 hspell).symm

namespace Piece

variable {reserved reserved' : Keyword → Bool}

theorem wordKind_congr {cs : List Char}
    (h : ∀ word, Keyword.ofWord? cs = some word → reserved word = reserved' word) :
    wordKind reserved cs = wordKind reserved' cs := by
  unfold wordKind
  cases hword : Keyword.ofWord? cs with
  | none => rfl
  | some word => rw [Option.filter_some, Option.filter_some, h word hword]

/-- The token of a word is that word. -/
theorem word?_of_mem_token? {p : Place} {x : Piece} {t : Token} (hx : x.shape = .word)
    (h : t ∈ x.token? reserved p) : t.word? = some (String.ofList x.written) := by
  obtain ⟨kind, hk, rfl⟩ := Option.map_eq_some_iff.1 h
  rw [kind?, hx] at hk
  cases hk
  unfold wordKind Token.word?
  cases (Keyword.ofWord? x.written).filter reserved <;> rfl

/-- **Which words are reserved does not matter** if none of those that make a difference occurs. -/
theorem tokens_congr {p : Place} {xs : List Piece}
    (h : ∀ t ∈ tokens reserved p xs, ∀ word, t.Spells word → reserved word = reserved' word) :
    tokens reserved p xs = tokens reserved' p xs := by
  induction xs generalizing p with
  | nil => rfl
  | cons x xs ih =>
    have hrest := ih fun t ht => h t (List.mem_append_right _ ht)
    suffices hfirst : x.kind? reserved = x.kind? reserved' by
      rw [tokens, tokens, hrest, token?, token?, hfirst]
    by_cases hx : x.shape = .word
    · obtain ⟨t, ht⟩ : ∃ t, t ∈ x.token? reserved p := by
        rw [token?, kind?, hx]
        exact ⟨_, rfl⟩
      have hkind : wordKind reserved x.written = wordKind reserved' x.written := by
        refine wordKind_congr fun word hword => h t ?_ word
          (Token.spells_iff.2 ⟨_, word?_of_mem_token? hx ht, ?_⟩)
        · exact List.mem_append_left _ (Option.mem_toList.2 ht)
        · rw [String.toList_ofList]
          exact Keyword.map_toUpper_of_ofWord? hword
      rw [kind?, kind?, hx, hkind]
    · unfold kind?
      split <;> first | rfl | exact absurd ‹_› hx

end Piece

/-! ### The same reading -/

/-- **A setting that extends another**, in which mistakes are not forgiven. -/
structure Setting.Extends (larger setting : Setting) : Prop where
  /-- Mistakes are not forgiven. -/
  strict : setting.forgiving = false
  /-- The constructs at hand are at hand in the larger setting. -/
  subqueries : setting.rules.subqueries = true → larger.rules.subqueries = true
  /-- The nesting may go as deep. -/
  limit : larger.limit = setting.limit
  /-- Paths are told from groups in the same way. -/
  opensPattern : larger.opensPattern = setting.opensPattern

section Runs

variable {setting larger : Setting} {inner inner' : Inner} {α : Type}

theorem Action.iterate_done {step step' : α → Action (Option α)}
    (h : ∀ a s next t, step a s = .done next t → step' a s = .done next t) {n : Nat} {a b : α}
    {s t : State} (hr : Action.iterate step n a s = .done b t) :
    Action.iterate step' n a s = .done b t := by
  induction n generalizing a s with
  | zero => exact hr
  | succ n ih =>
    rw [Action.iterate] at hr ⊢
    cases hs : step a s with
    | failed d u =>
      rw [hs] at hr
      cases hr
    | done next u =>
      rw [hs] at hr
      rw [h a s next u hs]
      cases next with
      | none => exact hr
      | some c => exact ih hr

namespace Rule

/-- **A run that comes to its end does so in every larger setting**, and in the same way. -/
theorem done_run_of_extends (he : larger.Extends setting)
    (hi : ∀ {β : Type} (rule : Nested β) s b t, inner rule s = .done b t →
      inner' rule s = .done b t)
    (rule : Rule α) {s t : State} {a : α} (hr : rule.run setting inner s = .done a t) :
    rule.run larger inner' s = .done a t := by
  induction rule generalizing s t with
  | pure a => exact hr
  | bind rule next ihr ihn =>
    obtain ⟨b, u, hb, hr⟩ := done_of_bind hr
    exact (run_bind_done (ihr hb)).trans (ihn b hr)
  | look view =>
    -- of all that a rule can look at, only this depends on the setting
    cases view with
    | opensPattern =>
      rw [run_look] at hr ⊢
      rw [← hr, View.read, View.read, he.opensPattern]
    | _ => exact hr
  | advance => exact hr
  | fail problem => cases hr
  | complain problem =>
    -- what is only complained of elsewhere is a failure here, and so is what is mended
    rw [run, he.strict] at hr
    cases hr
  | requireSubqueries feature =>
    by_cases hs : setting.rules.subqueries = true
    · rw [run_requireSubqueries_done hs] at hr
      rw [run_requireSubqueries_done (he.subqueries hs), hr]
    · rw [run_requireSubqueries_failed hs] at hr
      cases hr
  | mend rule remedy ih =>
    rw [run] at hr ⊢
    cases hrule : rule.run setting inner s with
    | done b u =>
      rw [hrule] at hr
      rw [ih hrule]
      exact hr
    | failed d u =>
      rw [hrule, he.strict] at hr
      cases hr
  | resume => exact hr
  | loop step a ih => exact Action.iterate_done (fun b u next v h => ih b h) hr
  | inScope kind rule ih =>
    rw [run] at hr ⊢
    cases hrule : rule.run setting inner { s with scopes := s.scopes.push kind } with
    | done b u =>
      rw [hrule] at hr
      rw [ih hrule]
      exact hr
    | failed d u =>
      rw [hrule] at hr
      cases hr
  | record kind => exact hr
  | nested rule => exact hi rule s a t hr

theorem done_runNested_of_extends (he : larger.Extends setting)
    (body : {β : Type} → Nested β → Rule β) (room : Nat) {β : Type} (rule : Nested β)
    {s t : State} {b : β} (hr : runNested setting body room rule s = .done b t) :
    runNested larger body room rule s = .done b t := by
  induction room generalizing β s t with
  | zero => cases hr
  | succ room ih =>
    obtain ⟨u, hu, rfl⟩ := done_of_runNested hr
    rw [runNested_succ, done_run_of_extends he (fun rule s b t h => ih rule h) (body rule) hu]
    rfl

end Rule

/-- **A document that is read without forgiveness** is read in every larger setting. -/
theorem Grammar.read_of_extends (he : larger.Extends setting) {tokens : List Token}
    {document : Document} (h : (read setting tokens).document = some document) :
    read larger tokens = read setting tokens := by
  unfold read start at h ⊢
  cases hr : Grammar.document.run setting (Rule.runNested setting body setting.limit)
      (.start tokens) with
  | failed d t =>
    rw [hr] at h
    cases h
  | done a t =>
    rw [he.limit, Rule.done_run_of_extends he
      (fun rule _ _ _ => Rule.done_runNested_of_extends he body setting.limit rule) _ hr]

end Runs

end Cypher
