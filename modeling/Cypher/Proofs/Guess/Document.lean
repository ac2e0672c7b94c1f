import Cypher.Proofs.Guess.Clause
import Cypher.Proofs.Guess.Target
import Cypher.Proofs.RoundTrip
import Cypher.Proofs.Stripped.Rule

/-!
# Documents with and without the lookahead

The rules that nest follow one another (`Cypher.Grammar.nests_rivals`): an expression, because a row
is passed up to its end, and a property, because it is read as one. With that the rules for clauses,
queries and documents do, and what the guesses can spoil is known (`Cypher.document_or_misled`).

Neither exception is empty. A path is meant to be guessed where a node, a relationship and another
node follow, but the guess goes by the brackets and never looks into them, and so it takes in a
subtraction of a list as well (`Cypher.not_document_of_list_between_signs`). And behind a path the
nesting may be deeper than behind groups: in `x = y + z * (a)--(b) ^ (w ^ v)` the power is on the
right of the first dash if there are groups, but on the right of the star if there is a path.
-/

namespace Cypher

open Grammar

/-! ### Nested rules -/

namespace Grammar

open Rule hiding pure bind
open Trial

section

variable {T : Trial} {room n : Nat} {s s' t : State} {e : Expression}
  (hnests : ∀ j < room, ∀ n, (T.rivals j n).Nests) (hs : T.Beside s s')

include hnests hs

/-- **Expressions follow one another**: without the lookahead a row is read, and with it the row is
passed up to its end. -/
theorem ends_expression (hr : T.grouped room (.expression 0) s = .done e t) :
    T.Ends (fun e' t' => e.Replaces e' ∧ t'.cursor = t.cursor)
      (T.guessed n (.expression 0) s') := by
  have hc := hs.closed_of_start
  have hstop : t.cursor.Halts := halts_of_stops (stops_of_run hc hr)
  by_cases he : e.isProperty = true
  · have hproperty := keyed_or_sole_of_run (Nat.le_refl room) hc rfl hr he rfl
    rw [← hs.cursor] at hproperty
    refine (ends_property hnests (Nat.zero_le _) (fun u hu => stops_of_halts (hu ▸ hstop)) hs.inside
      (hproperty.imp_left fun h => ⟨rfl, h.2⟩) n).mono fun e' t' ⟨hplace, he'⟩ =>
        ⟨fun _ => he', hplace⟩
  · have hrow := joins_of_run (Nat.le_refl room) hc rfl hr false nofun .stop
    rw [← hs.cursor] at hrow
    refine (passes hnests hstop n 0 s' hs.inside hrow nofun).mono fun e' t' ⟨hrow', hstops⟩ => ?_
    exact ⟨fun h => absurd h he, (eq_stop_of_halts hrow' (halts_of_stops hstops)).1⟩

/-- The target of a change is read as one. -/
theorem ends_target (hr : T.grouped room (.expression suffixStrength) s = .done e t)
    (he : e.isProperty = true) :
    T.Ends (fun e' t' => t'.cursor = t.cursor ∧ e'.isProperty = true)
      (T.guessed n (.expression suffixStrength) s') := by
  have hc := hs.closed_of_start
  have hstops (u : State) (hu : u.cursor = t.cursor) : Stops suffixStrength u.kinds :=
    stops_kinds_iff.2 (hu ▸ stops_kinds_iff.1 (stops_of_run hc hr))
  have hsole := (keyed_or_sole_of_run (Nat.le_refl room) hc rfl hr he rfl).resolve_left
    fun h => absurd h.1 (by decide)
  rw [← hs.cursor] at hsole
  exact ends_property hnests (Nat.le_refl _) hstops hs.inside (.inr hsole) n

end

/-- A nested rule follows itself if what it stands for does, with less levels of nesting left. -/
theorem follows_nested {α : Type} {rel : α → α → Prop} {T : Trial} {room n : Nat} (rule : Nested α)
    (h : ∀ j < room, ∀ n, (T.rivals j n).Follows rel (body rule) (body rule)) :
    (T.rivals room n).Follows rel (.nested rule) (.nested rule) := by
  intro s s' hs a t hr
  cases room with
  | zero => cases hr
  | succ room =>
    cases n with
    | zero => exact .deep rfl
    | succ n =>
      obtain ⟨u, hu, rfl⟩ := done_of_runNested hr
      have hbeside : T.Beside { s with depth := s.depth + 1 } { s' with depth := s'.depth + 1 } :=
        hs.deeper _ _
      have hends := h room (Nat.lt_succ_self room) n _ _ hbeside a u hu
      exact Ends.mapState hends fun _ _ ⟨ha, ht⟩ => ⟨ha, ht.deeper _ _⟩

/-- **Nested rules follow one another**, with any levels of nesting left to the one and the other.
The induction is on those left without the lookahead, since what stands behind a path may be nested
more deeply with it. -/
theorem nests_rivals (T : Trial) (room n : Nat) : (T.rivals room n).Nests := by
  induction room using Nat.strongRecOn generalizing n with
  | ind room ih =>
    have hi : Inner.GoesOn (T.grouped room) := goesOn_runNested T.setting.grouping body room
    have hi' : Inner.GoesOn (T.guessed n) := goesOn_runNested T.setting body n
    refine ⟨fun s s' hs e t hr => ?_, fun s s' hs e t hr => ?_,
      follows_nested .subquery fun j hj n => follows_query (ih j hj n) _,
      follows_nested .existsBody fun j hj n => follows_existsBody (ih j hj n)⟩
    · have hends := (ends_expression (n := n) ih hs hr).inside hs.inside
        (hi' (.expression 0) s').state
      exact hends.mono fun e' t' ⟨⟨hreplaces, hplace⟩, hin⟩ =>
        ⟨hreplaces, hs.of_place (onward_of_done hi hr) hin hplace⟩
    · change propertyTarget.run T.setting.grouping (T.grouped room) s = _ at hr
      have hst := onward_of_done hi hr
      rw [run_propertyTarget] at hr
      cases hrun : T.grouped room (.expression suffixStrength) s with
      | failed d u =>
        rw [hrun] at hr
        cases hr
      | done target u =>
        rw [hrun, Outcome.andThen_done] at hr
        split at hr
        · next hproperty =>
          cases hr
          change T.Ends _ (propertyTarget.run T.setting (T.guessed n) s')
          rw [run_propertyTarget]
          have hends := (ends_target (n := n) ih hs hrun hproperty).inside hs.inside
            (hi' (.expression suffixStrength) s').state
          refine hends.andThen fun e' t' ⟨⟨hplace, hproperty'⟩, hin⟩ => ?_
          rw [if_pos hproperty']
          exact ⟨trivial, hs.of_place hst hin hplace⟩
        · cases hr

end Grammar

/-! ### Documents -/

/-- A reading that fails has a single problem, which is that of the run. -/
theorem eq_of_read_failed {setting : Setting} {tokens : List Token} {d d' : Diagnostic}
    {scopes : Scopes} {t : State} (hread : read setting tokens = ⟨none, [d], scopes⟩)
    (hrun : start setting document (.start tokens) = .failed d' t) : d' = d := by
  rw [Grammar.read, hrun, Reading.ofOutcome] at hread
  have hproblems : t.problems ++ [d'] = [] ++ [d] := congrArg Reading.problems hread
  exact (List.cons.inj (List.append_inj_right' hproblems rfl)).1

/-- **A guess spoils nothing but the path.** When mistakes are not forgiven and every parenthesis
could have opened a group, a document is read with the lookahead too, unless reading a path fails
where one is guessed, or the nesting goes beyond the limit. -/
theorem document_or_misled (tokens : List Token) (options : Options)
    (hstrict : options.recoverErrors = false)
    (hgroups : (read (Setting.ofOptions options).grouping tokens).document.isSome = true) :
    (∃ document scopes, parseTokens tokens options = ⟨some document, [], scopes⟩) ∨
      ∃ d scopes, parseTokens tokens options = ⟨none, [d], scopes⟩ ∧
        Misled (.ofOptions options) (.ofTokens tokens) d := by
  let setting := Setting.ofOptions options
  let T : Trial := ⟨setting, hstrict, rfl, .ofTokens tokens, Cursor.closed_ofTokens tokens⟩
  have hsetting : setting.strict = setting := Setting.strict_of_not_forgiving hstrict
  have hcases := read_strict_cases setting tokens
  rw [hsetting] at hcases
  obtain ⟨document, scopes, hread, -⟩ | ⟨d, scopes, -, -, -, hread, -⟩ := hcases
  · exact .inl ⟨document, scopes, hread⟩
  · refine .inr ⟨d, scopes, hread, ?_⟩
    cases hgrouped : start setting.grouping document (.start tokens) with
    | failed d t =>
      rw [Grammar.read, hgrouped] at hgroups
      cases hgroups
    | done tree t =>
      have hends : T.Ends _ (start setting document (.start tokens)) :=
        follows_document (nests_rivals T setting.limit setting.limit) _ _ ⟨rfl, rfl, .refl _⟩ tree t
          hgrouped
      cases hguessed : start setting document (.start tokens) with
      | done tree' t' =>
        rw [Grammar.read, hguessed] at hread
        cases hread
      | failed d' t' =>
        rw [hguessed, eq_of_read_failed hread hguessed] at hends
        exact hends

/-- Both `(a) - -(b)` with the options that apply when nothing is chosen. -/
theorem document_or_misled_path :
    let tokens := tokensOf [.keyword .RETURN, .sign .leftParen, .identifier "a", .sign .rightParen,
      .sign .minus, .sign .minus, .sign .leftParen, .identifier "b", .sign .rightParen]
    (Options.standard.recoverErrors = false ∧
      (read (Setting.ofOptions .standard).grouping tokens).document.isSome = true) ∧
    ((∃ document scopes, parseTokens tokens .standard = ⟨some document, [], scopes⟩) ∨
      ∃ d scopes, parseTokens tokens .standard = ⟨none, [d], scopes⟩ ∧
        Misled (.ofOptions .standard) (.ofTokens tokens) d) :=
  ⟨⟨rfl, by decide +kernel⟩, document_or_misled _ _ rfl (by decide +kernel)⟩

/-- The limit of nesting may be what is in the way. -/
example :
    let options := Options.standard.withMaxNestingDepth 6
    let tokens := tokensOf [.keyword .RETURN, .identifier "x", .sign .eq, .identifier "y",
      .sign .plus, .identifier "z", .sign .star, .sign .leftParen, .identifier "a",
      .sign .rightParen, .sign .minus, .sign .minus, .sign .leftParen, .identifier "b",
      .sign .rightParen, .sign .caret, .sign .leftParen, .identifier "w", .sign .caret,
      .identifier "v", .sign .rightParen]
    (read (Setting.ofOptions options).grouping tokens).document.isSome = true ∧
      (parseTokens tokens options).problems.map Diagnostic.code = [some .nestingTooDeep] := by
  decide +kernel

/-- **The guess is too coarse**: `(m) - [1] - (2)` takes a list and a number away from a variable,
and reads so if every parenthesis opens a group. Its brackets stand where those of a path would, and
reading it as a path fails at the number within them. -/
theorem not_document_of_list_between_signs :
    ¬∀ (tokens : List Token) (options : Options), options.recoverErrors = false →
      (read (Setting.ofOptions options).grouping tokens).document.isSome = true →
      (parseTokens tokens options).document.isSome = true := by
  intro hall
  let tokens := tokensOf [.keyword .RETURN, .sign .leftParen, .identifier "m", .sign .rightParen,
    .sign .minus, .sign .leftBracket, .integer "1", .sign .rightBracket, .sign .minus,
    .sign .leftParen, .integer "2", .sign .rightParen]
  have hnone : ¬(parseTokens tokens .standard).document.isSome = true := by decide +kernel
  exact hnone (hall tokens .standard rfl (by decide +kernel))

end Cypher
