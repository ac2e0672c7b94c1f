import Cypher.Proofs.Pattern.Path
import Cypher.Proofs.RoundTrip

/-!
# Patterns that are matched

A pattern that is written behind the word `MATCH` is read as a document whose only clause matches
it, up to where it stands. The names that the paths bind are then read too, in the order in which
they are written (`Cypher.patterns_read_back`). Of the options, the nesting alone matters: a value
in a map is an expression, and there has to be room for one.
-/

namespace Cypher

open Grammar Rule

variable {setting : Setting} {inner : Inner} {style : Style} {s t : State}
  {given : Pattern Expression}

namespace Grammar

/-- **A clause that matches a pattern**, up to spans. -/
def Matches (given : Pattern Expression) (clause : Clause) : Prop :=
  ∃ found span, clause = .matchPattern false found span ∧ strip found = strip given

/-- **A clause that matches a pattern is read back.** -/
theorem run_matchClause_written (setting : Setting) (hi : inner.GoesOn)
    (hatoms : ReadsAtoms inner style) (hp : given.Writable style)
    (h : s.Passes (.keyword .MATCH :: (given.strokes style).map (Stroke.kind style)) t)
    (hc : s.cursor.Closed) (ht : t.cursor.kind = .endOfInput) :
    ∃ found, clause.run setting inner s = .done found t ∧ Matches given found := by
  have hk := h.kind_eq
  obtain ⟨found, hrun, hfound⟩ := run_pattern_written setting hi hatoms hp h.step
    (State.closed_step hc) ⟨by rw [ht]; decide, by rw [ht]; decide⟩ (by rw [ht]; decide)
  have hoptional : (takeWord .OPTIONAL).run setting inner s = .done false s :=
    run_consume_of_ne (by rw [hk]; decide)
  refine ⟨.matchPattern false found (t.cursor.spanFrom s.cursor.current.span.start), ?_,
    found, _, rfl, hfound⟩
  rw [clause, here, run_bind, run_look, Outcome.andThen_done, View.read,
    show s.cursor.current.kind = _ from hk]
  change matchClause.run setting inner s = _
  rw [matchClause, startHere, here, run_bind, run_bind, run_look, Outcome.andThen_done, run_pure,
    Outcome.andThen_done, run_bind_done hoptional, expectWord,
    run_bind_done (run_expect_of_eq hk), run_bind_done hrun]
  rfl

end Grammar

/-! ### The names of a path -/

theorem map_value_strip (names : List Ident) :
    (strip names).map Located.value = names.map Located.value := by
  change (names.map strip).map Located.value = _
  rw [List.map_map]
  rfl

theorem toList_strip (name : Option Ident) : (strip name).toList = strip name.toList := by
  cases name <;> rfl

theorem PatternStep.binders_strip (step : PatternStep Expression) :
    (strip step).binders = strip step.binders := by
  obtain ⟨⟨direction, name, types, length, row, span⟩, target, labels, values, place⟩ := step
  simp [binders, toList_strip]

/-- **What a path binds has nothing to do with where it stands.** -/
theorem PatternPart.binders_strip (part : PatternPart Expression) :
    (strip part).binders = strip part.binders := by
  obtain ⟨name, ⟨first, labels, row, span⟩, chain, place⟩ := part
  have hchain : (strip chain).flatMap PatternStep.binders =
      strip (chain.flatMap PatternStep.binders) := by
    induction chain with
    | nil => rfl
    | cons step chain ih =>
      rw [Strip.strip_cons, List.flatMap_cons, List.flatMap_cons, Strip.strip_append, ih,
        PatternStep.binders_strip]
  simp [binders, toList_strip, hchain]

/-- The names bound in the paths of a pattern, path by path. -/
def Pattern.names (given : Pattern Expression) : List (List String) :=
  given.parts.map fun part => part.binders.map Located.value

theorem Pattern.names_eq_of_strip_eq {found given : Pattern Expression}
    (h : strip found = strip given) : found.names = given.names := by
  have hstrip (p : Pattern Expression) : (strip p).names = p.names := by
    obtain ⟨parts, span⟩ := p
    have hparts : strip (⟨parts, span⟩ : Pattern Expression) = ⟨parts.map strip, strip span⟩ := by
      rw [Strip.strip_parts.2.2.2.2.2.2.2]
      rfl
    rw [hparts, names, List.map_map]
    refine List.map_congr_left fun part _ => ?_
    rw [Function.comp_apply, PatternPart.binders_strip, map_value_strip]
  rw [← hstrip, h, hstrip]

/-! ### The round trip -/

/-- **Patterns round-trip.** A pattern written behind `MATCH`, whichever way, is read back under any
options with room for the values in it: nothing is noted, the document is one clause that matches
the pattern, up to spans, and each of its paths binds the names that are written where it binds
something, in that order. -/
theorem patterns_read_back (given : Pattern Expression) (style : Style)
    (hp : given.Writable style) (options : Options) (hroom : 0 < options.maxNestingDepth)
    (tokens : List Token) (ending : List TokenKind) (he : ending = [] ∨ ending = [.endOfInput])
    (h : tokens.map Token.kind =
      .keyword .MATCH :: ((given.strokes style).map (Stroke.kind style) ++ ending)) :
    ∃ (found : Pattern Expression) (clause query document : Span) (scopes : Scopes),
      parseTokens tokens options =
        ⟨some ⟨[.query ⟨[.matchPattern false found clause], [], query⟩], document⟩, [], scopes⟩ ∧
      strip found = strip given ∧
      found.parts.map (fun part => part.binders.map Located.value) =
        given.parts.map fun part => (part.strokes style).filterMap Stroke.binder? := by
  have hproper : (TokenKind.keyword .MATCH :: (given.strokes style).map (Stroke.kind style)).all
      TokenKind.isProper = true := given.all_isProper_strokes style
  have hkinds := State.kinds_start hproper he h
  rw [← List.cons_append] at hkinds
  obtain ⟨t, hpass, ht⟩ := State.exists_passes hkinds (List.cons_ne_nil _ _)
  rw [State.kinds_eq_cons] at ht
  have hend : t.cursor.kind = .endOfInput := (List.cons.inj ht).1
  let setting : Setting := (Setting.ofOptions options).strict
  obtain ⟨room, hlimit⟩ : ∃ n, setting.limit = n + 1 :=
    ⟨setting.limit - 1, (Nat.succ_pred_eq_of_pos hroom).symm⟩
  have hatoms : ReadsAtoms (runNested setting body setting.limit) style := by
    rw [hlimit]
    exact readsAtoms_runNested setting room style
  have hword (c : Clause) (hc : Matches given c) : c.kind = .MATCH := by
    obtain ⟨found, span, rfl, -⟩ := hc
    rfl
  have hclause (s' : State) (hs' : s'.cursor = (State.start tokens).cursor) :
      (clause.run setting (runNested setting body setting.limit) s').ReadsIff True
        { s' with cursor := t.cursor } (Matches given) := by
    have hc : s'.cursor.Closed := hs' ▸ Cursor.closed_ofTokens tokens
    refine ⟨fun _ => ?_, fun hn => absurd trivial hn⟩
    exact run_matchClause_written setting (goesOn_runNested setting body setting.limit) hatoms hp
      (hpass.transfer s' hs') hc hend
  obtain ⟨_, hrun, query, span, rfl, _, place, rfl, found, clause, rfl, hfound⟩ :=
    (reads_document rfl (by rw [hpass.kind_eq]; rfl) hpass.ahead_ne_nil hend hpass.eq_moved hword
      hclause).1 trivial
  obtain ⟨scopes, hparse⟩ := read_eq_of_strict_done hrun (by rw [hpass.eq_moved]; rfl)
  refine ⟨found, clause, place, span, scopes, hparse, hfound, ?_⟩
  refine (Pattern.names_eq_of_strip_eq hfound).trans (List.map_congr_left fun part _ => ?_)
  exact (PatternPart.filterMap_strokes part).symm

/-- The pattern `p = (a:A {k: -9223372036854775808, f: 1.5, v: $v})<-[r:T|U*2]-(), (b)--(b $q)`,
without places. -/
def twoPaths : Pattern Expression :=
  let name (x : String) : Ident := ⟨x, .empty 0⟩
  let row : Expression := .map
    [⟨name "k", .literal (.integer (-9223372036854775808)) (.empty 0)⟩,
      ⟨name "f", .literal (.float ⟨0x3ff8000000000000⟩) (.empty 0)⟩,
      ⟨name "v", .parameter "v" (.empty 0)⟩] (.empty 0)
  let arrow : RelationshipPattern Expression :=
    ⟨.left, some (name "r"), [name "T", name "U"], some ⟨some 2, some 2⟩, none, .empty 0⟩
  let dashes : RelationshipPattern Expression := ⟨.undirected, none, [], none, none, .empty 0⟩
  let target : NodePattern Expression :=
    ⟨some (name "b"), [], some (.parameter "q" (.empty 0)), .empty 0⟩
  ⟨[⟨some (name "p"), ⟨some (name "a"), [name "A"], some row, .empty 0⟩,
      [⟨arrow, ⟨none, [], none, .empty 0⟩⟩], .empty 0⟩,
    ⟨none, ⟨some (name "b"), [], none, .empty 0⟩, [⟨dashes, target⟩], .empty 0⟩], .empty 0⟩

/-- Quoted names, a second bound and a second colon where they can be left out, and brackets and
heads nowhere they can. -/
def Style.plain : Style := ⟨fun _ => true, fun _ => "1.5", fun _ => true, true, false, false⟩

theorem twoPaths_writable : twoPaths.Writable .plain := by
  refine ⟨nofun, List.forall_mem_cons.2 ⟨⟨?_, ?_⟩, List.forall_mem_singleton.2 ⟨nofun, ?_⟩⟩⟩
  · rintro _ ⟨⟩
    have hleast : (9223372036854775807 : Nat) = greatestInteger := by decide
    have hdigit (c : Char) (hc : '0' ≤ c ∧ c ≤ '9') : [c] ∈ Numeral.digits :=
      ⟨List.cons_ne_nil _ _, List.forall_mem_singleton.2 hc⟩
    have hfraction : "1.5".toList ∈ Numeral.Pattern.fraction.language :=
      ⟨_, ⟨_, ⟨_, hdigit '1' (by decide), _, rfl, rfl⟩, _, hdigit '5' (by decide), rfl⟩, [],
        .inl rfl, rfl⟩
    exact List.forall_mem_cons.2 ⟨hleast, List.forall_mem_cons.2
      ⟨⟨⟨.fraction, rfl, hfraction⟩, by decide +kernel⟩, List.forall_mem_singleton.2 trivial⟩⟩
  · refine List.forall_mem_singleton.2 ⟨⟨?_, nofun⟩, nofun⟩
    rintro _ ⟨⟩
    constructor
    · rintro _ ⟨⟩
      decide
    · rintro _ ⟨⟩
      decide
  · refine List.forall_mem_singleton.2 ⟨⟨nofun, nofun⟩, ?_⟩
    rintro _ ⟨⟩
    trivial

theorem patterns_read_back_twoPaths :
    let tokens := tokensOf (.keyword .MATCH ::
      ((twoPaths.strokes .plain).map (Stroke.kind .plain) ++ [.endOfInput]))
    twoPaths.Writable .plain ∧ 0 < Options.standard.maxNestingDepth ∧
    ∃ (found : Pattern Expression) (clause query document : Span) (scopes : Scopes),
      parseTokens tokens .standard =
        ⟨some ⟨[.query ⟨[.matchPattern false found clause], [], query⟩], document⟩, [], scopes⟩ ∧
      strip found = strip twoPaths ∧
      found.parts.map (fun part => part.binders.map Located.value) =
        [["p", "a", "r"], ["b", "b"]] := by
  refine ⟨twoPaths_writable, by decide, ?_⟩
  exact patterns_read_back twoPaths .plain twoPaths_writable .standard (by decide) _ _ (.inr rfl)
    (map_kind_tokensOf _)

end Cypher
