import Cypher.Proofs.Ledger.Document
import Cypher.Proofs.Modes

/-!
# Every mistake leaves a mark

When mistakes are forgiven, whoever is handed the document alone can still tell whether there were
any. A clause that could not be read leaves a stand-in, a statement of which nothing could be read
is one, and the want of clauses shows in a branch without clauses. Conversely none of these comes
about without something being noted (`Cypher.isClean_iff_nothing_noted`). Parts of the tree with
marks in them may be thrown away when a rule around them fails later, but then that failure is noted
as well and leaves a mark further out.
-/

namespace Cypher

/-- **A mark that a mistake leaves**: a stand-in, or a sequence of clauses that is empty. -/
def Element.IsMark : Element → Prop
  | clause (.error _) | statement (.error _) => True
  | query q => q.clauses = []
  | branch b => b.clauses = []
  | _ => False

theorem Element.not_isMark {e : Element} (h : e.isPlain = true) : ¬e.IsMark := by
  intro hm
  unfold IsMark at hm
  split at hm
  all_goals first | exact hm | cases h

/-- **A document without marks** at any depth. -/
def Document.IsClean (document : Document) : Prop :=
  ∀ e, (Element.document document).Within e → ¬e.IsMark

/-- The short form of a subquery has a clause. -/
theorem Grammar.clauses_ne_nil_of_patternBody {setting : Setting} {inner : Inner} {s t : State}
    {q : Query} (h : patternBody.run setting inner s = .done q t) : q.clauses ≠ [] := by
  obtain ⟨_, _, -, h⟩ := Rule.done_of_bind h
  obtain ⟨_, _, -, h⟩ := Rule.done_of_bind h
  obtain ⟨_, _, -, h⟩ := Rule.done_of_bind h
  obtain ⟨_, _, -, h⟩ := Rule.done_of_bind h
  cases h
  exact List.cons_ne_nil _ _

/-- **The ledger of marks**, in which problems count. -/
def Ledger.marks (setting : Setting) : Ledger setting where
  demand e := ¬e.IsMark
  counts := True
  known _ := True
  advance _ := trivial
  plain := Element.not_isMark
  relationship _ _ _ := id
  integer _ _ _ := id
  least _ _ _ := id
  call _ _ _ _ _ _ := id
  suffix _ _ _ _ := id
  nullTest _ _ _ _ _ := id
  operation _ _ _ _ := id
  clauseError _ := Iff.rfl
  statementError _ := Iff.rfl
  branch _ := forall_const _ |>.symm
  query _ _ := forall_const _ |>.symm
  patternBody _ := Grammar.clauses_ne_nil_of_patternBody

/-- **A document is clean if and only if nothing was noted** while it was read. -/
theorem Grammar.isClean_iff {setting : Setting} {tokens : List Token} {tree : Document}
    (h : (read setting tokens).document = some tree) :
    tree.IsClean ↔ (read setting tokens).problems = [] :=
  ((Ledger.marks setting).throughout_document trivial h).trans (forall_const True)

/-- **Every mistake leaves a mark.** When mistakes are forgiven, a document is found, and it is
clean if and only if the grammar has noted nothing. When they are not, a document that is found is
clean and nothing has been noted. -/
theorem isClean_iff_nothing_noted (tokens : List Token) (options : Options) :
    let strict := parseTokens tokens (options.withRecoverErrors false)
    let forgiving := parseTokens tokens (options.withRecoverErrors true)
    (∃ document, forgiving.document = some document ∧
      (document.IsClean ↔ forgiving.problems = [])) ∧
    ∀ document, strict.document = some document → document.IsClean ∧ strict.problems = [] := by
  intro strict forgiving
  rcases Grammar.read_strict_cases (.ofOptions options) tokens
    with ⟨document, scopes, hs, hl⟩ | ⟨d, scopes, document, problems, scopes', hs, hl⟩
  all_goals
    have hforgiving : forgiving.document = some document := congrArg Grammar.Reading.document hl
    refine ⟨⟨document, hforgiving, Grammar.isClean_iff hforgiving⟩, fun tree htree => ?_⟩
  · have hproblems : strict.problems = [] := congrArg Grammar.Reading.problems hs
    exact ⟨(Grammar.isClean_iff htree).2 hproblems, hproblems⟩
  · have hnone : strict.document = none := congrArg Grammar.Reading.document hs
    rw [hnone] at htree
    cases htree

end Cypher
