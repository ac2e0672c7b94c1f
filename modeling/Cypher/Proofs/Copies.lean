import Cypher.Proofs.Nodes
import Cypher.Proofs.Provenance.Document
import Cypher.Proofs.Size

/-!
# Marks that are used twice

Each token of a text gives a mark to one node at most, so there is no span that two nodes have for a
mark, were it not for the copies. A tree that stems from tokens is searched for these: if a mark
turns up twice, it lies in an operand that two comparisons in a row share
(`Cypher.Stems.tally`). Copies of copies make no difference, since what is copied with an operand
lies in the operand.

What is kept track of on the way is where the marks are: each starts with a token of its own, and so
does each offset that no node has made use of yet. No token is charged twice, and trees that stem
from different tokens have no mark in common (`Cypher.Tally.append`).
-/

namespace Cypher

open Grammar (Chain)
open Node (preorder)

/-! ### Marks of trees -/

namespace Node

/-- **The marks of all nodes in some trees**, each as often as there is a node that has it. -/
def allMarks (nodes : List Node) : List Span := (preorder nodes).flatMap marks

variable {n : Node} {e : Expression}

@[simp] theorem allMarks_nil : allMarks [] = [] := by
  rw [allMarks, preorder]
  rfl

@[simp] theorem allMarks_append (a b : List Node) :
    allMarks (a ++ b) = allMarks a ++ allMarks b := by
  rw [allMarks, preorder_append, List.flatMap_append]
  rfl

theorem allMarks_cons (n : Node) (rest : List Node) :
    allMarks (n :: rest) = allMarks [n] ++ allMarks rest := allMarks_append [n] rest

theorem allMarks_subset {a b : List Node} (h : preorder a ⊆ preorder b) :
    allMarks a ⊆ allMarks b := by
  intro x hx
  obtain ⟨n, hn, hx⟩ := List.mem_flatMap.1 hx
  exact List.mem_flatMap.2 ⟨n, h hn, hx⟩

theorem allMarks_singleton (n : Node) : allMarks [n] = n.marks ++ allMarks n.children := by
  rw [allMarks, preorder, List.flatMap_cons, List.append_nil]
  rfl

theorem preorder_singleton (n : Node) : preorder [n] = n :: preorder n.children := by
  rw [preorder, List.append_nil]

theorem mem_preorder {nodes : List Node} (h : n ∈ nodes) : n ∈ preorder nodes := by
  obtain ⟨before, after, rfl⟩ := List.append_of_mem h
  rw [preorder_append, preorder]
  exact List.mem_append_right _ List.mem_cons_self

/-- What is inside one of the nodes of some trees is one of these. -/
theorem mem_preorder_of_mem_children {nodes : List Node} {c : Node} (h : n ∈ preorder nodes)
    (hc : c ∈ n.children) : c ∈ preorder nodes := by
  fun_induction preorder nodes with
  | case1 => cases h
  | case2 m rest ih =>
    rcases List.mem_cons.1 h with rfl | h
    · exact List.mem_cons_of_mem _ (mem_preorder (List.mem_append_left _ hc))
    · exact List.mem_cons_of_mem _ (ih h)

end Node

open Node (allMarks)

/-! ### Operands that are shared -/

/-- **Whether an expression ends with a comparison of an operand**, on its own or in a chain. -/
inductive Expression.EndsIn : Expression → Expression → Prop
  /-- A comparison on its own. -/
  | single {operator : BinaryOperator} {left operand : Expression} {span : Span}
      (compares : operator.isComparison = true) :
      EndsIn (.binary operator left operand span) operand
  /-- The last of a chain. -/
  | chain {operator : BinaryOperator} {first left operand : Expression} {inner outer : Span}
      (compares : operator.isComparison = true) :
      EndsIn (.binary .and first (.binary operator left operand inner) outer) operand

/-- **Whether the last two comparisons of an expression share an operand**: what the one compares
with, the other goes on to compare. -/
inductive Expression.Shares : Expression → Expression → Prop
  /-- Some comparisons, and one that goes on with the operand that they end in. -/
  | intro {operator : BinaryOperator} {first operand right : Expression} {inner outer : Span}
      (compares : operator.isComparison = true) (ends : first.EndsIn operand) :
      Shares (.binary .and first (.binary operator operand right inner) outer) operand

/-- The operand lies in the expression. -/
theorem Expression.Shares.mem_preorder {tree operand : Expression} {nodes : List Node}
    (h : tree.Shares operand) (ht : .expression tree ∈ preorder nodes) :
    .expression operand ∈ preorder nodes := by
  obtain ⟨-, -⟩ := h
  have hlast := Node.mem_preorder_of_mem_children ht (List.mem_cons_of_mem _ List.mem_cons_self)
  exact Node.mem_preorder_of_mem_children hlast List.mem_cons_self

namespace Grammar.Chain

variable {chain : Chain} {operator : BinaryOperator} (ho : operator.isComparison = true)

include ho

/-- **A further comparison copies what was kept**, and all else that is new are operators. -/
theorem preorder_extend (chain : Chain) (right : Expression) :
    ∃ new : List Node,
      (∀ n ∈ new, ∃ operator left right span, n = .expression (.binary operator left right span)) ∧
      (preorder [.expression (chain.extend operator right).tree]).Perm
        (new ++ (preorder [.expression chain.tree] ++
          (preorder chain.kept ++ preorder [.expression right]))) := by
  have hjoin : ∀ (operator : BinaryOperator) (a b : Expression),
      preorder [.expression (join operator a b)] = .expression (join operator a b) ::
        (preorder [.expression a] ++ preorder [.expression b]) := by
    intro operator a b
    rw [Node.preorder_singleton, ← Node.preorder_append]
    rfl
  obtain ⟨tree, _ | left⟩ := chain
  · refine ⟨[.expression (join operator tree right)], ?_, ?_⟩
    · intro n hn
      exact ⟨_, _, _, _, List.mem_singleton.1 hn⟩
    · rw [extend, if_pos ho, hjoin, kept, Option.toList_none, List.map_nil, preorder]
      exact .rfl
  · refine ⟨[.expression (join .and tree (join operator left right)),
      .expression (join operator left right)], ?_, ?_⟩
    · intro n hn
      rcases List.mem_pair.1 hn with hn | hn
      · exact ⟨_, _, _, _, hn⟩
      · exact ⟨_, _, _, _, hn⟩
    · rw [extend, if_pos ho, hjoin, hjoin]
      exact .cons _ List.perm_middle

/-- It copies the marks of what was kept, and makes no marks itself. -/
theorem allMarks_extend (chain : Chain) (right : Expression) :
    (allMarks [.expression (chain.extend operator right).tree]).Perm
      (allMarks [.expression chain.tree] ++
        (allMarks chain.kept ++ allMarks [.expression right])) := by
  obtain ⟨new, hnew, hperm⟩ := preorder_extend ho chain right
  have hnone : new.flatMap Node.marks = [] := by
    refine List.flatMap_eq_nil_iff.2 fun n hn => ?_
    obtain ⟨_, _, _, _, rfl⟩ := hnew n hn
    rfl
  have hmarks := hperm.flatMap_right Node.marks
  rwa [List.flatMap_append, hnone, List.nil_append, List.flatMap_append, List.flatMap_append]
    at hmarks

theorem endsIn_extend (chain : Chain) (right : Expression) :
    (chain.extend operator right).tree.EndsIn right := by
  obtain ⟨tree, _ | left⟩ := chain
  · rw [extend, if_pos ho]
    exact .single ho
  · rw [extend, if_pos ho]
    exact .chain ho

/-- An operand that is copied is shared. -/
theorem shares_extend {left : Expression} (hl : chain.last = some left)
    (hends : chain.tree.EndsIn left) (right : Expression) :
    (chain.extend operator right).tree.Shares left := by
  obtain ⟨tree, last⟩ := chain
  obtain rfl : last = some left := hl
  rw [extend, if_pos ho]
  exact .intro ho hends

end Grammar.Chain

namespace Stems

variable {level : Wholeness} {nodes : List Node} {chain : Chain} {kept : List Node}
  {starts : List Nat} {tokens : List Token}

/-- **What is kept for a further comparison** is in the tree. -/
theorem preorder_kept_subset (h : Stems level nodes kept starts tokens) :
    preorder kept ⊆ preorder nodes := by
  cases h with
  | @comparison _ chain operator right _ _ _ compares =>
    obtain ⟨new, -, hperm⟩ := Chain.preorder_extend compares chain right
    rw [Chain.kept_extend compares]
    intro n hn
    exact hperm.mem_iff.2 (List.mem_append_right _ (List.mem_append_right _
      (List.mem_append_right _ hn)))
  | _ =>
    rw [preorder]
    exact List.nil_subset _

/-- The tree ends in it. -/
theorem endsIn_kept (h : Stems level nodes kept starts tokens) {tree operand : Expression}
    (hn : nodes = [.expression tree]) (hk : .expression operand ∈ kept) : tree.EndsIn operand := by
  cases h with
  | comparison compares =>
    rw [Chain.kept_extend compares] at hk
    obtain rfl := Node.expression.inj (List.mem_singleton.1 hk)
    obtain rfl := Node.expression.inj (List.cons.inj hn).1
    exact Chain.endsIn_extend compares _ _
  | _ => cases hk

end Stems

/-! ### The tally -/

/-- **The tally of some trees**: what tokens their marks start with, and where a mark is that turns
up twice. -/
structure Tally (nodes : List Node) (starts : List Nat) (tokens : List Token) : Prop where
  /-- Each start that is left is that of a token. -/
  start_of : ∀ i ∈ starts, ∃ t ∈ tokens, t.span.start = i
  /-- Each mark starts with a token. -/
  mark_of : ∀ x ∈ allMarks nodes, ∃ t ∈ tokens, t.span.start = x.start
  /-- No start is left twice. -/
  nodup : starts.Nodup
  /-- No start is left that a mark has. -/
  unused : ∀ x ∈ allMarks nodes, x.start ∉ starts
  /-- **A mark that turns up twice lies in an operand that is shared.** -/
  shared : ∀ x, 2 ≤ (allMarks nodes).count x → ∃ tree operand,
    .expression tree ∈ preorder nodes ∧ tree.Shares operand ∧ x ∈ allMarks [.expression operand]

namespace Tally

variable {a b nodes : List Node} {m n starts : List Nat} {u v tokens : List Token}

/-- Trees without marks. -/
theorem unmarked (h : allMarks nodes = []) : Tally nodes [] tokens where
  start_of i hi := absurd hi List.not_mem_nil
  mark_of x hx := absurd (h ▸ hx) List.not_mem_nil
  nodup := .nil
  unused x _ := List.not_mem_nil
  shared x hx := by simp [h] at hx

/-- A token has one start. -/
theorem token (t : Token) : Tally [] [t.span.start] [t] where
  start_of i hi := ⟨t, List.mem_cons_self, (List.mem_singleton.1 hi).symm⟩
  mark_of := by simp
  nodup := List.nodup_singleton _
  unused := by simp
  shared := by simp

/-- There may be more tokens. -/
theorem widen (h : Tally nodes starts u) (hu : u ⊆ v) : Tally nodes starts v where
  __ := h
  start_of i hi := (h.start_of i hi).imp fun _ ht => ⟨hu ht.1, ht.2⟩
  mark_of x hx := (h.mark_of x hx).imp fun _ ht => ⟨hu ht.1, ht.2⟩

/-- What two tallies share, they share together, if no mark is in both. -/
theorem shared_append (hl : Tally a m u) (hr : Tally b n v)
    (hapart : ∀ x ∈ allMarks a, x ∉ allMarks b) (x : Span)
    (hx : 2 ≤ (allMarks (a ++ b)).count x) : ∃ tree operand,
      .expression tree ∈ preorder (a ++ b) ∧ tree.Shares operand ∧
        x ∈ allMarks [.expression operand] := by
  rw [Node.allMarks_append, List.count_append] at hx
  rw [Node.preorder_append]
  by_cases hxa : x ∈ allMarks a
  · rw [List.count_eq_zero_of_not_mem (hapart x hxa)] at hx
    obtain ⟨tree, operand, htree, hshares⟩ := hl.shared x hx
    exact ⟨tree, operand, List.mem_append_left _ htree, hshares⟩
  · rw [List.count_eq_zero_of_not_mem hxa, Nat.zero_add] at hx
    obtain ⟨tree, operand, htree, hshares⟩ := hr.shared x hx
    exact ⟨tree, operand, List.mem_append_right _ htree, hshares⟩

/-- **Trees from different tokens have nothing in common.** -/
theorem append (ha : Token.Apart (u ++ v)) (hl : Tally a m u) (hr : Tally b n v) :
    Tally (a ++ b) (m ++ n) (u ++ v) := by
  have hl' := hl.widen (List.subset_append_left u v)
  have hr' := hr.widen (List.subset_append_right u v)
  have hne {i j : Nat} (hi : ∃ t ∈ u, t.span.start = i) (hj : ∃ t ∈ v, t.span.start = j) :
      i ≠ j := by
    obtain ⟨t, ht, rfl⟩ := hi
    obtain ⟨t', ht', rfl⟩ := hj
    have hapart := (List.pairwise_append.1 ha).2.2 t ht t' ht'
    omega
  refine ⟨fun i hi => ?_, fun x hx => ?_, ?_, fun x hx => ?_, ?_⟩
  · exact (List.mem_append.1 hi).elim (hl'.start_of i) (hr'.start_of i)
  · rw [Node.allMarks_append] at hx
    exact (List.mem_append.1 hx).elim (hl'.mark_of x) (hr'.mark_of x)
  · exact List.nodup_append.2 ⟨hl.nodup, hr.nodup, fun i hi j hj =>
      hne (hl.start_of i hi) (hr.start_of j hj)⟩
  · rw [Node.allMarks_append] at hx
    rw [List.mem_append, not_or]
    rcases List.mem_append.1 hx with hx | hx
    · exact ⟨hl.unused x hx, fun hi => hne (hl.mark_of x hx) (hr.start_of _ hi) rfl⟩
    · exact ⟨fun hi => hne (hl.start_of _ hi) (hr.mark_of x hx) rfl, hr.unused x hx⟩
  · exact shared_append hl hr fun x hx hx' => hne (hl.mark_of x hx) (hr.mark_of x hx') rfl

/-- A node takes its marks from the starts that are left. -/
theorem around {n : Node} {rest : List Nat} (h : Tally n.children m u)
    (hm : (n.marks.map Span.start ++ rest).Sublist m) : Tally [n] rest u := by
  have hnodup := List.nodup_append.1 (h.nodup.sublist hm)
  have hown : ∀ x ∈ n.marks, x.start ∈ m := fun x hx =>
    hm.subset (List.mem_append_left _ (List.mem_map_of_mem hx))
  have hrest : ∀ i ∈ rest, i ∈ m := fun i hi => hm.subset (List.mem_append_right _ hi)
  refine ⟨fun i hi => h.start_of i (hrest i hi), fun x hx => ?_, hnodup.2.1, fun x hx hi => ?_,
    fun x hx => ?_⟩
  · rw [Node.allMarks_singleton] at hx
    rcases List.mem_append.1 hx with hx | hx
    · exact h.start_of _ (hown x hx)
    · exact h.mark_of x hx
  · rw [Node.allMarks_singleton] at hx
    rcases List.mem_append.1 hx with hx | hx
    · exact hnodup.2.2 _ (List.mem_map_of_mem hx) _ hi rfl
    · exact h.unused x hx (hrest _ hi)
  · rw [Node.allMarks_singleton, List.count_append] at hx
    have hle : n.marks.count x ≤ 1 := List.nodup_iff_count_le_one.1 (.of_map _ hnodup.1) x
    -- a mark of the node itself is in no other place
    have hzero : x ∈ n.marks → (allMarks n.children).count x = 0 := fun hmem =>
      List.count_eq_zero_of_not_mem fun hc => h.unused x hc (hown x hmem)
    have hcount : 2 ≤ (allMarks n.children).count x := by
      by_cases hmem : x ∈ n.marks
      · have := hzero hmem
        omega
      · rw [List.count_eq_zero_of_not_mem hmem] at hx
        omega
    obtain ⟨tree, operand, htree, hshares⟩ := h.shared x hcount
    rw [Node.preorder_singleton]
    exact ⟨tree, operand, List.mem_cons_of_mem _ htree, hshares⟩

/-- **A further comparison shares what was kept**, and that is all that is copied. -/
theorem comparison {chain : Chain} {operator : BinaryOperator} {right : Expression}
    (ha : Token.Apart (u ++ v)) (ho : operator.isComparison = true)
    (hk : preorder chain.kept ⊆ preorder [.expression chain.tree])
    (hends : ∀ left, .expression left ∈ chain.kept → chain.tree.EndsIn left)
    (ht : Tally [.expression chain.tree] [] u) (hr : Tally [.expression right] [] v) :
    Tally [.expression (chain.extend operator right).tree] [] (u ++ v) := by
  have hboth := append ha ht hr
  have hmarks := Chain.allMarks_extend ho chain right
  obtain ⟨new, -, hinside⟩ := Chain.preorder_extend ho chain right
  have hkept := Node.allMarks_subset hk
  have hold : allMarks [.expression (chain.extend operator right).tree] ⊆
      allMarks ([.expression chain.tree] ++ [.expression right]) := by
    intro x hx
    rw [hmarks.mem_iff, List.mem_append, List.mem_append] at hx
    rw [Node.allMarks_append, List.mem_append]
    exact hx.elim Or.inl fun hx => hx.imp (fun hx => hkept hx) id
  refine ⟨fun i hi => absurd hi List.not_mem_nil, fun x hx => hboth.mark_of x (hold hx), .nil,
    fun x _ => List.not_mem_nil, fun x hx => ?_⟩
  by_cases hx' : x ∈ allMarks chain.kept
  · obtain ⟨left, hleft⟩ : ∃ left, chain.last = some left := by
      cases hl : chain.last with
      | none => simp [Chain.kept, hl] at hx'
      | some left => exact ⟨left, rfl⟩
    have hlast : chain.kept = [.expression left] := by simp [Chain.kept, hleft]
    have htree := Chain.shares_extend ho hleft (hends left (hlast ▸ List.mem_cons_self)) right
    exact ⟨_, left, Node.mem_preorder List.mem_cons_self, htree, hlast ▸ hx'⟩
  · have hcount : 2 ≤ (allMarks ([.expression chain.tree] ++ [.expression right])).count x := by
      rw [hmarks.count_eq, List.count_append, List.count_append,
        List.count_eq_zero_of_not_mem hx'] at hx
      rw [Node.allMarks_append, List.count_append]
      omega
    obtain ⟨tree, operand, htree, hshares⟩ := hboth.shared x hcount
    refine ⟨tree, operand, hinside.mem_iff.2 (List.mem_append_right _ ?_), hshares⟩
    rw [Node.preorder_append, List.mem_append] at htree
    exact List.mem_append.2 (htree.imp id fun hr => List.mem_append_right _ hr)

end Tally

/-! ### Trees that stem from tokens -/

/-- **Of trees that stem from tokens a tally can be kept**: a mark that turns up twice lies in an
operand that two comparisons share. -/
theorem Stems.tally {level : Wholeness} {nodes kept : List Node} {starts : List Nat}
    {tokens : List Token} (h : Stems level nodes kept starts tokens) (ha : Token.Apart tokens) :
    Tally nodes starts tokens := by
  induction h with
  | nil => exact .unmarked Node.allMarks_nil
  | append _ _ ihl ihr =>
    exact .append ha (ihl (ha.sublist (List.sublist_append_left ..)))
      (ihr (ha.sublist (List.sublist_append_right ..)))
  | token => exact .token _
  | forget _ hsub ih =>
    have h := ih ha
    exact { h with
      start_of := fun i hi => h.start_of i (hsub.subset hi)
      nodup := h.nodup.sublist hsub
      unused := fun x hx hi => h.unused x hx (hsub.subset hi) }
  | @braces _ _ _ left right w _ _ _ ih =>
    have hsub : w.Sublist (left :: w ++ [right]) := .cons _ (List.sublist_append_left ..)
    exact (ih (ha.sublist hsub)).widen hsub.subset
  | around _ marked _ ih => exact (ih ha).around marked
  | @comparison _ chain operator right u v w compares tree _ _ iht _ iho =>
    have hsub : (u ++ w).Sublist (u ++ v ++ w) := by
      rw [List.append_assoc]
      exact (List.sublist_append_right ..).append_left u
    have hapart := ha.sublist hsub
    exact (Tally.comparison hapart compares tree.preorder_kept_subset
      (fun _ hk => tree.endsIn_kept rfl hk) (iht (hapart.sublist (List.sublist_append_left ..)))
      (iho (hapart.sublist (List.sublist_append_right ..)))).widen hsub.subset
  | @subquery _ n body word left right w isBody marked _ _ _ _ _ ih =>
    have hsub : ([word] ++ w).Sublist (word :: left :: w ++ [right]) :=
      .cons_cons _ (.cons _ (List.sublist_append_left ..))
    have hapart := ha.sublist hsub
    have hquery := Tally.append hapart (.token word)
      (ih (hapart.sublist (List.sublist_append_right ..)))
    have hbody : Tally [.subquery body] [word.span.start] ([word] ++ w) :=
      Tally.around (n := .subquery body) hquery (.refl _)
    rw [← Node.children_of_body? isBody] at hbody
    rw [← List.append_nil (n.marks.map Span.start)] at marked
    exact (hbody.around marked).widen hsub.subset
  | standIn => exact .unmarked (by rw [Node.allMarks_singleton]; exact Node.allMarks_nil)
  | strayed => exact .unmarked (by rw [Node.allMarks_singleton]; exact Node.allMarks_nil)
  | waste => exact .unmarked Node.allMarks_nil
  | opening => exact .unmarked Node.allMarks_nil
  | tear => exact .unmarked Node.allMarks_nil
  | loosen _ ih => exact ih ha

end Cypher
