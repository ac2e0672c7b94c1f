import Cypher.Proofs.Blocks
import Cypher.Proofs.Extension.Checks
import Cypher.Proofs.Extension.Reading
import Cypher.Proofs.Ledger.Document
import Cypher.Proofs.Nodes

/-!
# A dialect that extends the other

The dialect with subqueries reserves one more word. A text in which this word does not occur, and
which is right in the other dialect, is read in the same way in both, and nothing is found wrong
with it (`Cypher.parse_neo4j5_of_openCypher`).

Each stage has its reason. The tokens are the same, and so is the tree. The order of clauses follows
a table that allows more. Only the larger dialect advises against an old form, but that is a call by
the name which does not occur (`Cypher.Grammar.reports_of_not_spells`).
-/

namespace Cypher

/-! ### Calls by a name -/

/-- **Whether an element is a call of the old test** for a property. -/
def Element.IsOldCall : Element → Prop
  | expression (.call function _ _ _) => function.toList.map Char.toLower = "exists".toList
  | _ => False

namespace Grammar

open Rule hiding pure bind

variable {setting : Setting} {inner : Inner} {what : String} {s t : State} {name : Ident}

/-- A symbolic name that is not quoted is the word at the cursor. -/
theorem word?_of_symbolicName (hk : s.cursor.kind.isNamePart = true)
    (hr : (symbolicName what).run setting inner s = .done name t) :
    s.cursor.current.word? = some name.value := by
  obtain ⟨token, u, hu, hr⟩ := done_of_bind hr
  cases hu
  unfold Token.word?
  cases hkind : s.cursor.current.kind with
  | keyword word | identifier n =>
    have htoken : (View.read setting s .token).kind = _ := hkind
    rw [htoken] at hr
    obtain ⟨_, _, -, hr⟩ := done_of_bind hr
    cases hr
    rfl
  | _ =>
    rw [Cursor.kind, hkind] at hk
    cases hk

/-- A name is made of its first word and what comes behind dots. -/
theorem parts_of_qualifiedName (hk : s.cursor.kind.isNamePart = true)
    (hr : (qualifiedName what).run setting inner s = .done name t) :
    ∃ word more, s.cursor.current.word? = some word ∧
      name.value = String.intercalate "." (word :: more) := by
  obtain ⟨first, u, hu, hr⟩ := done_of_bind hr
  obtain ⟨parts, v, hv, hr⟩ := done_of_bind hr
  cases hr
  obtain ⟨more, rfl⟩ : ∃ more, parts = first.value :: more := by
    refine loop_induct (p := fun parts _ => ∃ more, parts = first.value :: more) ?_ ⟨[], rfl⟩ hv
    rintro _ x next y ⟨more, rfl⟩ hy
    obtain ⟨part, z, -, hy⟩ := done_of_bind hy
    cases hy
    cases part with
    | none => exact ⟨more, rfl⟩
    | some part => exact ⟨more ++ [part], rfl⟩
  exact ⟨first.value, more, word?_of_symbolicName hk hu, rfl⟩

/-- Names do not become the name of the old test by being put together. -/
theorem not_isOldCall_of_qualifiedName (hs : ¬s.cursor.current.Spells .EXISTS)
    (hk : s.cursor.kind.isNamePart = true)
    (hr : (qualifiedName what).run setting inner s = .done name t) :
    name.value.toList.map Char.toLower ≠ "exists".toList := by
  obtain ⟨word, more, hword, hvalue⟩ := parts_of_qualifiedName hk hr
  intro hold
  cases more with
  | nil =>
    rw [hvalue, String.intercalate_singleton] at hold
    have hupper := congrArg (List.map Char.toUpper) hold
    rw [List.map_map] at hupper
    refine hs (Token.spells_iff.2 ⟨word, hword, (List.map_congr_left fun c _ => ?_).trans hupper⟩)
    exact (Text.toUpper_toLower c).symm
  | cons part more =>
    -- what has been put together contains a dot, which the name of the test does not
    have hdot : '.' ∈ name.value.toList := by
      rw [hvalue, String.intercalate_cons_cons]
      simp
    have hmem : Char.toLower '.' ∈ name.value.toList.map Char.toLower := List.mem_map_of_mem hdot
    rw [hold] at hmem
    revert hmem
    decide

end Grammar

/-- **The ledger of old tests**, in which problems do not count. All that is known of a cursor is
that no token ahead spells the word. -/
def Ledger.oldCalls (setting : Setting) : Ledger setting where
  demand e := ¬e.IsOldCall
  counts := False
  known c := ∀ t ∈ c.rest, ¬t.Spells .EXISTS
  advance h t ht := h t (Cursor.mem_rest_of_advance ht)
  plain {e} h := by
    unfold Element.IsOldCall
    split
    · cases h
    · exact id
  relationship _ _ _ := id
  integer _ _ _ := id
  least _ _ _ := id
  call h part run _ _ _ :=
    Grammar.not_isOldCall_of_qualifiedName (h _ List.mem_cons_self) part run
  suffix {_ _ _ _ _ e} _ _ _ base := by
    cases e with
    | call => cases base
    | _ => exact id
  nullTest _ _ _ _ _ := id
  operation _ _ _ joined := by
    obtain ⟨_, _, _, rfl⟩ := Grammar.Chain.exists_of_mem_joined joined
    exact id
  clauseError _ := iff_of_true id id
  statementError _ := iff_of_true id id
  branch _ := iff_of_true id False.elim
  query _ _ := iff_of_true id False.elim
  patternBody _ _ := id

/-- **Nothing is advised against** where the word does not occur. -/
theorem Grammar.reports_of_not_spells {setting : Setting} {tokens : List Token}
    {document : Document} (hw : ∀ t ∈ tokens, ¬t.Spells .EXISTS)
    (h : (read setting tokens).document = some document) :
    Deprecation.reports document = [] := by
  have hk : ∀ t ∈ (Cursor.ofTokens tokens).rest, ¬t.Spells .EXISTS := by
    intro t ht
    rcases Cursor.mem_rest_ofTokens ht with ht | hend
    · exact hw t ht
    · unfold Token.Spells Token.word?
      rw [hend]
      exact nofun
  have hall := ((Ledger.oldCalls setting).throughout_document hk h).2 False.elim
  refine List.filterMap_eq_nil_iff.2 fun e he => Option.map_eq_none_iff.2 ?_
  obtain ⟨n, hn, hne⟩ := List.mem_filterMap.1 he
  obtain rfl : n = .expression e := by
    cases n <;> cases hne
    rfl
  have hdemand : ¬(Element.expression e).IsOldCall := hall _ (Document.within_of_mem_nodes hn)
  unfold Deprecation.oldTest?
  split
  · next name _ _ _ _ _ => exact if_neg fun hold => hdemand (beq_iff_eq.1 hold)
  · rfl

/-! ### Texts without errors -/

/-- **Where no error is reported, nothing is found by the lexer and the grammar.** -/
theorem problems_of_not_hasErrors {source : String} {options : Options}
    (h : (parse source options).hasErrors = false) :
    (tokenize source options.dialect).problems = [] ∧
      (parseTokens (tokenize source options.dialect).tokens options).problems = [] := by
  have hlexical : ∀ d ∈ (tokenize source options.dialect).problems, d.IsErrorOf .lexical :=
    fun _ => Piece.isErrorOf_of_mem_allProblems
  have hgrammar : ∀ d ∈ (parseTokens (tokenize source options.dialect).tokens options).problems,
      d.IsErrorOf .grammatical := fun _ => Grammar.isErrorOf_of_mem_problems
  suffices hany : (tokenize source options.dialect).problems.any Diagnostic.isError = false ∧
      (parseTokens (tokenize source options.dialect).tokens options).problems.any
        Diagnostic.isError = false from
    ⟨Diagnostic.eq_nil_of_errors hlexical hany.1, Diagnostic.eq_nil_of_errors hgrammar hany.2⟩
  rcases hread : parseTokens (tokenize source options.dialect).tokens options
    with ⟨_ | document, problems, scopes⟩
  · rw [parse_of_none hread, Parsed.ofLog, Log.hasErrors, List.any_append,
      Bool.or_eq_false_iff] at h
    exact h
  · rw [parse_of_document hread, Parsed.ofLog, Log.hasErrors, List.any_append, List.any_append,
      Bool.or_eq_false_iff, Bool.or_eq_false_iff] at h
    exact h.1

/-! ### The two dialects -/

theorem Dialect.reserves_eq {word : Keyword} (h : word ≠ .EXISTS) :
    openCypher.rules.reserves word = neo4j5.rules.reserves word := by
  simp [Rules.reserves, rules, Keyword.all, h]

theorem Dialect.extends_ordering : neo4j5.rules.ordering.Extends openCypher.rules.ordering where
  next := OrderingTable.next_steps (by decide)
  terminal {state} := by cases state <;> decide

/-- The tokens are the same without the word that only the larger dialect reserves. -/
theorem tokenize_of_not_spells {source : String}
    (hw : ∀ t ∈ (tokenize source .openCypher).tokens, ¬t.Spells .EXISTS) :
    tokenize source .neo4j5 = tokenize source .openCypher := by
  have htokens : (tokenize source .openCypher).tokens = (tokenize source .neo4j5).tokens :=
    Piece.tokens_congr fun t ht word hspells => Dialect.reserves_eq fun heq =>
      hw t ht (heq ▸ hspells)
  exact congrArg₂ Lexed.mk htokens.symm rfl

/-- The checks of the larger dialect follow those of the other if nothing is advised against. -/
theorem Validator.follows_check {document : Document}
    (hd : Deprecation.reports document = []) :
    ((ofDialect .neo4j5).check document).Follows ((ofDialect .openCypher).check document) := by
  refine (Order.follows_check Dialect.extends_ordering document).bind fun _ => ?_
  refine (Check.Follows.refl _).bind fun _ => (Check.Follows.refl _).bind fun _ => ?_
  intro scopes _
  change ((), scopes, Deprecation.reports document) = _
  rw [hd]
  rfl

/-- **The dialect with subqueries extends the other.** A text that does not spell the word that only
it reserves, and in which no error is found in the other dialect, is the same document in both, and
neither finds anything to report. -/
theorem parse_neo4j5_of_openCypher {source : String} {options : Options}
    (hw : ∀ t ∈ (tokenize source .openCypher).tokens, ¬t.Spells .EXISTS)
    (h : (parse source (options.withDialect .openCypher)).hasErrors = false) :
    ∃ document,
      parse source (options.withDialect .openCypher) = ⟨some document, [], false⟩ ∧
      parse source (options.withDialect .neo4j5) = ⟨some document, [], false⟩ := by
  obtain ⟨hlexical, hproblems⟩ := problems_of_not_hasErrors h
  obtain ⟨document, scopes, hread, hstrict⟩ := Grammar.read_of_problems_nil hproblems
  have hreports : (((Validator.ofDialect .openCypher).check document).run scopes).2.2 = [] := by
    refine Diagnostic.eq_nil_of_errors (Validator.reports_errors rfl document scopes) ?_
    rw [parse_of_document hread, hlexical, List.nil_append, List.nil_append] at h
    exact h
  -- the other dialect forgave nothing here, so its strict run is the one to carry over
  have hextends : (Setting.ofOptions (options.withDialect .neo4j5)).Extends
      (Setting.ofOptions (options.withDialect .openCypher)).strict := ⟨rfl, fun _ => rfl, rfl, rfl⟩
  have hread' : parseTokens (tokenize source .neo4j5).tokens (options.withDialect .neo4j5) =
      ⟨some document, [], scopes⟩ := by
    rw [tokenize_of_not_spells hw]
    have hdocument := congrArg Grammar.Reading.document hstrict
    exact (Grammar.read_of_extends hextends hdocument).trans hstrict
  have hadvice : Deprecation.reports document = [] :=
    Grammar.reports_of_not_spells hw (congrArg Grammar.Reading.document hread)
  have hreports' : (((Validator.ofDialect .neo4j5).check document).run scopes).2.2 = [] := by
    rw [Validator.follows_check hadvice scopes hreports, hreports]
  have hlexical' : (tokenize source .neo4j5).problems = [] :=
    tokenize_of_not_spells hw ▸ hlexical
  exact ⟨document, parse_of_nothing hlexical hread hreports,
    parse_of_nothing hlexical' hread' hreports'⟩

/-- A pattern and a projection are a case in point. -/
theorem parse_neo4j5_of_openCypher_match :
    (∀ t ∈ (tokenize "MATCH (n) RETURN n" .openCypher).tokens, ¬t.Spells .EXISTS) ∧
      (parse "MATCH (n) RETURN n" (Options.standard.withDialect .openCypher)).hasErrors = false ∧
      ∃ document,
        parse "MATCH (n) RETURN n" (Options.standard.withDialect .openCypher) =
          ⟨some document, [], false⟩ ∧
        parse "MATCH (n) RETURN n" (Options.standard.withDialect .neo4j5) =
          ⟨some document, [], false⟩ := by
  have hw : ∀ t ∈ (tokenize "MATCH (n) RETURN n" .openCypher).tokens, ¬t.Spells .EXISTS := by
    decide +kernel
  have h : (parse "MATCH (n) RETURN n" (Options.standard.withDialect .openCypher)).hasErrors =
      false := by decide +kernel
  exact ⟨hw, h, parse_neo4j5_of_openCypher hw h⟩

end Cypher
