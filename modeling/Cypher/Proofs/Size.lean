import Cypher.Proofs.Growth.Document
import Cypher.Proofs.Layout.Source
import Mathlib.Data.Set.Card

/-!
# How large a tree gets

A chain of comparisons copies its inner operands: `a < b < c` is read as `a < b AND b < c`. Where
operands contain chains themselves there are copies of copies, and the number of expressions in a
document is not bounded by any fixed multiple of the number of tokens
(`Cypher.Document.not_length_expressions_le`). Two things do bound it:

* *Copies are all there is to it.* Counted once, the expressions of a document are at most twice as
  many as its tokens: one token makes one expression, or the two of a comparison in a chain.
* *Copies of copies nest.* The operand of a comparison lies a level of nesting deeper, and so does
  the group in which there may be a chain again. So two levels of nesting double the number of
  copies, and the number of expressions is linear in the number of tokens for every limit for
  nesting (`Cypher.Document.length_expressions_le`).
-/

namespace Cypher

/-! ### Expressions in some trees -/

namespace Node

variable {a b : List Node} {n : Node}

theorem preorder_append (a b : List Node) : preorder (a ++ b) = preorder a ++ preorder b := by
  fun_induction preorder a with
  | case1 => rfl
  | case2 n rest ih => rw [List.cons_append, preorder, ← List.append_assoc, ih, List.cons_append]

/-- **The expressions in some trees**, each as often as there is a node for it. -/
def expressions (nodes : List Node) : List Expression := (preorder nodes).filterMap expression?

@[simp] theorem expressions_nil : expressions [] = [] := by
  rw [expressions, preorder]
  rfl

@[simp] theorem expressions_append (a b : List Node) :
    expressions (a ++ b) = expressions a ++ expressions b := by
  rw [expressions, preorder_append, List.filterMap_append]
  rfl

theorem expressions_cons (n : Node) (rest : List Node) :
    expressions (n :: rest) = n.expression?.toList ++ expressions (n.children ++ rest) := by
  rw [expressions, preorder, List.filterMap_cons]
  cases n.expression? <;> rfl

theorem expressions_singleton (n : Node) :
    expressions [n] = n.expression?.toList ++ expressions n.children := by
  rw [expressions_cons, List.append_nil]

/-- An expression, and then what it goes on with and what is beside that. -/
theorem expressions_expression (e : Expression) :
    expressions [.expression e] =
      e :: (expressions (Node.expression e).carried ++ expressions (Node.expression e).beside) := by
  rw [expressions_singleton, ← carried_append_beside, expressions_append]
  rfl

theorem expressions_join (operator : BinaryOperator) (left right : Expression) :
    expressions [.expression (Grammar.join operator left right)] =
      Grammar.join operator left right ::
        (expressions [.expression left] ++ expressions [.expression right]) :=
  expressions_expression _

/-- Only expressions and queries are counted in the height, and only expressions here. -/
theorem expressions_of_own (h : n.own = 0) : expressions [n] = expressions n.children := by
  rw [expressions_singleton]
  cases n <;> first | rfl | cases h

theorem expressions_query (q : Query) :
    expressions [.query q] = expressions (Node.query q).children := by
  rw [expressions_singleton]
  rfl

/-- The number of expressions among the first nodes of some trees. -/
def firstExpressions : Nat → List Node → Nat
  | 0, _ => 0
  | _ + 1, [] => 0
  | steps + 1, n :: rest =>
    n.expression?.toList.length + firstExpressions steps (n.children ++ rest)

theorem firstExpressions_le (steps : Nat) (nodes : List Node) :
    firstExpressions steps nodes ≤ (expressions nodes).length := by
  induction steps generalizing nodes with
  | zero => exact Nat.zero_le _
  | succ steps ih =>
    cases nodes with
    | nil => exact Nat.zero_le _
    | cons n rest =>
      rw [expressions_cons, List.length_append, firstExpressions]
      exact Nat.add_le_add_left (ih _) _

end Node

/-- **The expressions in a document**, each as often as there is a node for it. -/
def Document.expressions (document : Document) : List Expression :=
  document.nodes.filterMap Node.expression?

/-! ### A further comparison -/

namespace Grammar.Chain

open Node (expressions)

variable {chain : Chain} {operator : BinaryOperator}

/-- **A further comparison makes at most two expressions**, and copies what was kept. -/
theorem expressions_extend (ho : operator.isComparison = true) (chain : Chain)
    (right : Expression) :
    ∃ new : List Expression, new.length ≤ 2 ∧
      (expressions [.expression (chain.extend operator right).tree]).Perm
        (new ++ (expressions [.expression chain.tree] ++ expressions chain.kept ++
          expressions [.expression right])) := by
  obtain ⟨tree, _ | left⟩ := chain
  · refine ⟨[join operator tree right], Nat.le_succ 1, ?_⟩
    rw [extend, if_pos ho, Node.expressions_join, kept, Option.toList_none, List.map_nil,
      Node.expressions_nil, List.append_nil]
    exact .rfl
  · refine ⟨[join .and tree (join operator left right), join operator left right],
      Nat.le_refl 2, ?_⟩
    rw [extend, if_pos ho, Node.expressions_join, Node.expressions_join, List.append_assoc]
    exact .cons _ List.perm_middle

end Grammar.Chain

/-! ### Counting -/

namespace Grown

open Node (expressions)

variable {fold level k : Nat} {nodes kept : List Node}

/-- **Expressions are as many as tokens, but for copies**: with two folds there are twice as many
copies. -/
theorem length_le (h : Grown fold level nodes kept k) :
    (expressions nodes).length + (expressions kept).length ≤ 2 ^ (fold / 2) * k := by
  induction h with
  | nil => rw [Node.expressions_nil]; exact Nat.zero_le _
  | append _ _ ihl ihr =>
    simp only [Node.expressions_append, Node.expressions_nil, List.length_append, List.length_nil,
      Nat.mul_add] at ihl ihr ⊢
    omega
  | mono _ hf _ hk ih =>
    exact ih.trans (Nat.mul_le_mul (Nat.pow_le_pow_right Nat.two_pos (Nat.div_le_div_right hf)) hk)
  | drop _ ih =>
    rw [Node.expressions_nil, List.length_nil]
    omega
  | around own _ ih => rwa [Node.expressions_of_own own]
  | query _ ih => rwa [Node.expressions_query]
  | @expression fold level k l e _ _ ihc ihb =>
    -- an expression has a token for itself
    have hpos : 0 < 2 ^ (fold / 2) := Nat.two_pow_pos _
    simp only [Node.expressions_expression, Node.expressions_nil, List.length_cons,
      List.length_append, List.length_nil, Nat.mul_add] at ihc ihb ⊢
    omega
  | @comparison fold level k l chain operator right ho _ _ iht iho =>
    have hpos : 0 < 2 ^ (fold / 2) := Nat.two_pow_pos _
    have hpow : 2 ^ ((fold + 2) / 2) = 2 * 2 ^ (fold / 2) := by
      rw [Nat.add_div_right fold Nat.two_pos, Nat.pow_succ, Nat.mul_comm]
    obtain ⟨new, hnew, hperm⟩ := Grammar.Chain.expressions_extend ho chain right
    -- the right operand counts twice: in the tree, and as what is kept; the fold makes up for it
    rw [Grammar.Chain.kept_extend ho, hperm.length_eq, hpow]
    rw [hpow] at iht
    simp only [Node.expressions_nil, List.length_append, List.length_nil, Nat.mul_add,
      Nat.mul_assoc] at iht iho ⊢
    omega

/-- **Different expressions are at most twice as many as tokens**: copies make no difference. -/
theorem exists_different (h : Grown fold level nodes kept k) :
    ∃ different : List Expression, different.length ≤ 2 * k ∧
      expressions nodes ⊆ different ∧ expressions kept ⊆ different := by
  induction h with
  | nil => exact ⟨[], Nat.le_refl _, by simp, by simp⟩
  | append _ _ ihl ihr =>
    obtain ⟨a, hal, ha, -⟩ := ihl
    obtain ⟨b, hbl, hb, -⟩ := ihr
    refine ⟨a ++ b, by rw [List.length_append]; omega, ?_, by simp⟩
    rw [Node.expressions_append]
    exact List.append_subset.2 ⟨List.subset_append_of_subset_left b ha,
      List.subset_append_of_subset_right a hb⟩
  | mono _ _ _ hk ih =>
    obtain ⟨all, hlength, hall⟩ := ih
    exact ⟨all, by omega, hall⟩
  | drop _ ih =>
    obtain ⟨all, hlength, hall, -⟩ := ih
    exact ⟨all, hlength, hall, by simp⟩
  | around own _ ih => rwa [Node.expressions_of_own own]
  | query _ ih => rwa [Node.expressions_query]
  | @expression fold level k l e _ _ ihc ihb =>
    obtain ⟨a, hal, ha, -⟩ := ihc
    obtain ⟨b, hbl, hb, -⟩ := ihb
    refine ⟨e :: (a ++ b), ?_, ?_, by simp⟩
    · rw [List.length_cons, List.length_append]
      omega
    · rw [Node.expressions_expression]
      exact List.cons_subset_cons e (List.append_subset.2
        ⟨List.subset_append_of_subset_left b ha, List.subset_append_of_subset_right a hb⟩)
  | @comparison fold level k l chain operator right ho _ _ iht iho =>
    obtain ⟨a, hal, ha, hkept⟩ := iht
    obtain ⟨b, hbl, hb, -⟩ := iho
    obtain ⟨new, hnew, hperm⟩ := Grammar.Chain.expressions_extend ho chain right
    refine ⟨new ++ (a ++ b), ?_, fun e he => ?_, fun e he => ?_⟩
    · simp only [List.length_append]
      omega
    · -- a copy of what was kept is nothing different
      simp only [hperm.mem_iff, List.mem_append] at he ⊢
      rcases he with he | (he | he) | he
      · exact Or.inl he
      · exact Or.inr (Or.inl (ha he))
      · exact Or.inr (Or.inl (hkept he))
      · exact Or.inr (Or.inr (hb he))
    · rw [Grammar.Chain.kept_extend ho] at he
      exact List.mem_append_right _ (List.mem_append_right _ (hb he))

end Grown

/-! ### Documents -/

namespace Document

/-- **The size of a tree.** The expressions of a document, copies included, are at most as many as
its tokens times a factor that hangs on the limit for nesting only; and different ones are at most
twice as many as the tokens, whatever the limit. -/
theorem length_expressions_le (source : String) (options : Options) (document : Document)
    (h : (parse source options).document = some document) :
    document.expressions.length ≤ 2 ^ ((options.maxNestingDepth + 1) / 2) *
        (tokenize source options.dialect).tokens.length ∧
      {e | e ∈ document.expressions}.encard ≤
        2 * (tokenize source options.dialect).tokens.length := by
  rw [document_parse] at h
  have hgrown := Grammar.grown_read h
  constructor
  · exact (Nat.le_add_right _ _).trans hgrown.length_le
  · obtain ⟨different, hlength, hall, -⟩ := hgrown.exists_different
    classical
    calc {e | e ∈ document.expressions}.encard
        ≤ (different.toFinset : Set Expression).encard :=
          Set.encard_le_encard fun e he => List.mem_toFinset.2 (hall he)
      _ = different.toFinset.card := Set.encard_coe_eq_coe_finsetCard _
      _ ≤ 2 * (tokenize source options.dialect).tokens.length := by
          exact_mod_cast (List.toFinset_card_le different).trans hlength

theorem length_expressions_le_chain :
    ∃ document, (parse "RETURN a < b < c" .standard).document = some document ∧
      (document.expressions.length ≤ 2 ^ ((Options.standard.maxNestingDepth + 1) / 2) *
          (tokenize "RETURN a < b < c" Options.standard.dialect).tokens.length ∧
        {e | e ∈ document.expressions}.encard ≤
          2 * (tokenize "RETURN a < b < c" Options.standard.dialect).tokens.length) := by
  obtain ⟨document, h⟩ :
      ∃ document, (parse "RETURN a < b < c" .standard).document = some document := by
    refine Option.isSome_iff_exists.1 ?_
    rw [document_parse]
    decide +kernel
  exact ⟨document, h, length_expressions_le _ _ _ h⟩

/-! ### Copies of copies -/

/-- **Copies of copies add up**: with six chains of comparisons around one another, a document has
more than eight expressions for each token. -/
theorem not_length_expressions_le :
    ∃ document,
      (parse "RETURN x<(x<(x<(x<(x<(x<x<x)<x)<x)<x)<x)<x" .standard).document = some document ∧
      8 * (tokenize "RETURN x<(x<(x<(x<(x<(x<x<x)<x)<x)<x)<x)<x" .openCypher).tokens.length <
        document.expressions.length := by
  -- counting stops behind the first nodes, which gives a lower bound
  have hcount : ((parseTokens
      (tokenize "RETURN x<(x<(x<(x<(x<(x<x<x)<x)<x)<x)<x)<x" .openCypher).tokens
      .standard).document.map fun document => Node.firstExpressions 400 [.document document]) =
      some 379 := by
    decide +kernel
  obtain ⟨document, h, hlength⟩ := Option.map_eq_some_iff.1 hcount
  refine ⟨document, (document_parse _ _).trans h, ?_⟩
  have htokens :
      (tokenize "RETURN x<(x<(x<(x<(x<(x<x<x)<x)<x)<x)<x)<x" .openCypher).tokens.length = 37 := by
    decide +kernel
  have hle := Node.firstExpressions_le 400 [.document document]
  rw [hlength] at hle
  rw [htokens]
  exact Nat.lt_of_lt_of_le (by decide) hle

end Document

end Cypher
