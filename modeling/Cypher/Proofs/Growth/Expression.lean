import Cypher.Proofs.Growth.Basic

/-!
# How expressions grow

One lemma for each rule of the grammar, up to expressions: what it reads has grown out of the tokens
that it passes. Most expressions are read from the sign or word that makes them what they are, and
have that for themselves. The exceptions are those that go on with an operand, which have the sign
or word behind it, and paths as expressions, which have one of the parentheses around their first
node.

Where expressions nest, they come from the rules that nest and are a level further up; an expression
read directly is one or two levels above those, since a comparison that goes on with a chain stands
on top of the comparison that it adds.
-/

namespace Cypher.Grammar

open Rule hiding pure bind
open Rooted (roots map_eq_roots toList_map_eq_roots)

variable {setting : Setting} {inner : Inner} {fold level : Nat}
  (h : inner.Grows setting fold level) {s : State}

include h

/-! ### Maps and properties -/

theorem spends_expression : Spends setting inner (Yields (fold + 1) level) 0 expression s :=
  h.expression _ s

theorem spends_mapEntry : Spends setting inner (Yields (fold + 1) level) 0 mapEntry s := by
  refine .skip h.goesOn fun key t k => .skip h.goesOn fun _ u l => ?_
  exact .bind h.goesOn (spends_expression h) fun value v m hvalue =>
    .pure (hvalue.more (by omega))

theorem spends_mapLiteral :
    Spends setting inner (Yields (fold + 1) (level + 1)) 0 mapLiteral s := by
  refine .sign h.goesOn fun opening t k hk => ?_
  refine .bind h.goesOn (spends_listUntil h.goesOn fun _ => spends_mapEntry h)
    fun entries u l hentries => .skip h.goesOn fun _ v m => .look (.pure ?_)
  exact Grown.enclose hentries rfl (map_eq_roots (fun _ => rfl) entries) (by omega)

theorem spends_properties :
    Spends setting inner (Yields (fold + 1) (level + 1)) 0 properties s := by
  refine .look ?_
  split
  · exact .bind h.goesOn (spends_mapLiteral h) fun map t k hmap => .pure (hmap.some (by omega))
  · next name hk =>
    have hne : s.cursor.kind ≠ .endOfInput :=
      fun he => nomatch (show s.cursor.kind = _ from hk).symm.trans he
    refine .pass h.goesOn (.advance hne) fun span t k hk => .pure ?_
    exact Yields.some (Grown.leaf rfl rfl hk) (by omega)
  · exact .pure .none

/-! ### Patterns -/

theorem spends_detail : Spends setting inner (Yields (fold + 1) (level + 1)) 0 detail s := by
  refine .skip h.goesOn fun binder t k => .skip h.goesOn fun types u l => ?_
  refine .skip h.goesOn fun length v m => ?_
  refine .bind h.goesOn (spends_properties h) fun properties w n hproperties => ?_
  exact .skip h.goesOn fun _ x o => .pure (Grown.more hproperties (by omega))

theorem spends_detailIfAny :
    Spends setting inner (Yields (fold + 1) (level + 1)) 0 detailIfAny s := by
  refine .skip h.goesOn fun brackets t k => .ite (fun _ => ?_) fun _ => .pure .empty
  exact (spends_detail h).last fun detail l hdetail => Grown.more hdetail (by omega)

theorem spends_relationship :
    Spends setting inner (Yields (fold + 1) (level + 1)) 0 relationship s := by
  refine .startHere (.skip h.goesOn fun left t k => .skip h.goesOn fun _ u l => ?_)
  refine .bind h.goesOn (spends_detailIfAny h) fun detail v m hdetail => ?_
  refine .skip h.goesOn fun _ w n => .skip h.goesOn fun right x o => .look (.pure ?_)
  exact Grown.frame hdetail rfl (toList_map_eq_roots (fun _ => rfl) _) (by omega)

/-- **A node** leaves the parentheses around it over. -/
theorem spends_pathNode :
    Spends setting inner (fun node k => ∃ l < k, Yields (fold + 1) (level + 1) node l) 0 pathNode
      s := by
  refine .sign h.goesOn fun opening t k hk => .skip h.goesOn fun binder u l => ?_
  refine .skip h.goesOn fun labels v m => ?_
  refine .bind h.goesOn (spends_properties h) fun properties w n hproperties => ?_
  refine .skip h.goesOn fun _ x o => .look (.pure ⟨n, by omega, ?_⟩)
  exact Grown.frame hproperties rfl (toList_map_eq_roots (fun _ => rfl) _) (by omega)

theorem spends_step : Spends setting inner (Yields (fold + 1) (level + 1)) 0 step s := by
  refine .bind h.goesOn (spends_relationship h) fun relationship t k hrelationship => ?_
  refine .bind h.goesOn (spends_pathNode h) fun node u l ⟨m, hm, hnode⟩ => .pure ?_
  exact (hrelationship.append hnode).more (by omega)

/-- **A path** leaves the parentheses around its first node over. -/
theorem spends_patternPart :
    Spends setting inner (fun part k => ∃ l < k, Yields (fold + 1) (level + 1) part l) 0
      patternPart s := by
  refine .startHere (.skip h.goesOn fun binder t k => ?_)
  refine .bind h.goesOn (spends_pathNode h) fun node u l ⟨m, hm, hnode⟩ => ?_
  refine .bind h.goesOn (spends_many h.goesOn fun _ => spends_optionally h.goesOn fun _ =>
    spends_step h) fun chain v n hchain => .look (.pure ⟨m + n, by omega, ?_⟩)
  exact Grown.frame (hnode.append hchain) rfl rfl (Nat.le_refl _)

theorem spends_part : Spends setting inner (Yields (fold + 1) (level + 1)) 0 patternPart s :=
  (spends_patternPart h).mono fun _ _ ⟨_, hl, hpart⟩ => hpart.more (Nat.le_of_lt hl)

theorem spends_pattern : Spends setting inner (Yields (fold + 1) (level + 1)) 0 pattern s := by
  refine .startHere (.bind h.goesOn (spends_separated h.goesOn fun _ => spends_part h)
    fun parts t k hparts => .look (.pure (Grown.more hparts (by omega))))

/-! ### Lists, cases and calls -/

theorem spends_expressionList (close : Sign) :
    Spends setting inner (Yields (fold + 1) level) 0 (expressionList close) s :=
  spends_listUntil h.goesOn fun _ => spends_expression h

theorem spends_elementProjection (projects : Bool) :
    Spends setting inner (Yields (fold + 1) level) 0 (elementProjection projects) s :=
  .ite (fun _ => spends_optionally h.goesOn fun _ => spends_expression h) fun _ => .pure .none

/-- What is inside a comprehension; the word before the list is left over. -/
theorem spends_comprehension (start : Nat) (close : Sign) (projects : Bool) :
    Spends setting inner (fun body k => ∃ l < k, Yields (fold + 1) level body l) 0
      (comprehension start close projects) s := by
  refine .skip h.goesOn fun binder t k => .word h.goesOn fun _ u l hl => ?_
  refine .bind h.goesOn (spends_expression h) fun list v m hlist => ?_
  refine .bind h.goesOn (spends_optionally h.goesOn fun _ => spends_expression h)
    fun predicate w n hpredicate => ?_
  refine .bind h.goesOn (spends_elementProjection h projects) fun projection x o hprojection => ?_
  refine .skip h.goesOn fun _ y i => .look (.pure ⟨m + (n + o), by omega, ?_⟩)
  have hbody := Grown.append hlist (Grown.append hpredicate hprojection)
  rw [← toList_map_eq_roots (fun _ => rfl) predicate, ← toList_map_eq_roots (fun _ => rfl)
    projection] at hbody
  exact hbody

theorem spends_listLiteral :
    Spends setting inner (Yields (fold + 1) (level + 1)) 0 listLiteral s := by
  refine .sign h.goesOn fun opening t k hk => .skip h.goesOn fun binds u l =>
    .ite (fun _ => ?_) fun _ => ?_
  · refine .bind h.goesOn (spends_comprehension h _ _ _) fun body v m ⟨n, hn, hbody⟩ => .pure ?_
    exact Grown.enclose hbody rfl rfl (by omega)
  · refine .bind h.goesOn (spends_expressionList h _) fun items v m hitems => ?_
    refine .skip h.goesOn fun _ w n => .look (.pure ?_)
    exact Grown.enclose hitems rfl (map_eq_roots (fun _ => rfl) items) (by omega)

theorem spends_caseAlternative :
    Spends setting inner (Yields (fold + 1) level) 0 caseAlternative s := by
  refine .bind h.goesOn (spends_expression h) fun condition t k hcondition => ?_
  refine .skip h.goesOn fun _ u l => ?_
  refine .bind h.goesOn (spends_expression h) fun result v m hresult => .pure ?_
  exact (hcondition.append hresult).more (by omega)

theorem spends_caseDistinction :
    Spends setting inner (Yields (fold + 1) (level + 1)) 0 caseDistinction s := by
  refine .skip h.goesOn fun opening t k => ?_
  refine .bind h.goesOn (spends_skipIf h.goesOn fun _ => spends_expression h)
    fun operand u l hoperand => ?_
  refine .bind h.goesOn (spends_many h.goesOn fun _ => spends_optionally h.goesOn fun _ =>
    spends_caseAlternative h) fun alternatives v m halternatives =>
    .ite (fun _ => .fail _) fun _ => ?_
  refine .bind h.goesOn (spends_optionally h.goesOn fun _ => spends_expression h)
    fun otherwise w n hotherwise => .word h.goesOn fun _ x o ho => .look (.pure ?_)
  have hinside := (hoperand.append halternatives).append hotherwise
  rw [← toList_map_eq_roots (fun _ => rfl) operand, ← toList_map_eq_roots (fun _ => rfl)
    otherwise] at hinside
  exact Grown.enclose hinside rfl rfl (by omega)

theorem spends_callArguments (name : String) (start : Nat) :
    Spends setting inner (Yields (fold + 1) (level + 1)) 0 (callArguments name start) s := by
  refine .skip h.goesOn fun distinct t k => ?_
  refine .bind h.goesOn (spends_expressionList h _) fun arguments u l harguments => ?_
  refine .sign h.goesOn fun _ v m hm => .look (.pure ?_)
  exact Grown.enclose harguments rfl (map_eq_roots (fun _ => rfl) arguments) (by omega)

/-- A call behind its opening parenthesis. -/
theorem spends_plainCall (name : Ident) {spent : Nat} (hs : 0 < spent) :
    Spends setting inner (Yields (fold + 1) (level + 1)) spent (plainCall name) s := by
  have harguments : ∀ {t : State} {k : Nat}, Spends setting inner (Yields (fold + 1) (level + 1)) k
      (callArguments name.value name.span.start) t := fun {_ _} =>
    (spends_callArguments h _ _).last fun e l he => Grown.more he (by omega)
  refine .ite (fun _ => .skip h.goesOn fun star t k => .ite (fun _ => ?_) fun _ => harguments)
    fun _ => harguments
  refine .skip h.goesOn fun _ u l => .skip h.goesOn fun _ v m => .look (.pure ?_)
  exact Grown.leaf rfl rfl (by omega)

theorem spends_functionCall :
    Spends setting inner (Yields (fold + 1) (level + 1)) 0 functionCall s := by
  refine .skip h.goesOn fun name t k => .sign h.goesOn fun _ u l hl => ?_
  split
  · refine .skip h.goesOn fun binds v m => .ite (fun _ => ?_) fun _ =>
      spends_plainCall h name (by omega)
    refine .bind h.goesOn (spends_comprehension h _ _ _) fun body w n ⟨o, ho, hbody⟩ => .pure ?_
    exact Grown.enclose hbody rfl rfl (by omega)
  · exact spends_plainCall h name (by omega)

/-! ### Operands -/

theorem spends_existence :
    Spends setting inner (Yields (fold + 1) (level + 1)) 0 existence s := by
  refine .look ?_
  split
  · exact spends_functionCall h
  · refine .skip h.goesOn fun _ t k => .skip h.goesOn fun opening u l => ?_
    refine .skip h.goesOn fun _ v m => .bind h.goesOn (h.existsBody v) fun body w n hbody => ?_
    refine .sign h.goesOn fun _ x o ho => .look (.pure ?_)
    have hsubquery := Grown.frame (n := .subquery body) hbody rfl rfl (Nat.le_refl _)
    exact Grown.enclose hsubquery rfl rfl (by omega)
  · exact .skip h.goesOn fun _ t k => .fail _

theorem spends_group : Spends setting inner (Yields (fold + 1) level) 0 group s := by
  refine .skip h.goesOn fun _ t k => .bind h.goesOn (spends_expression h) fun e u l he => ?_
  exact .skip h.goesOn fun _ v m => .pure (Grown.more he (by omega))

/-- An expression that is the token at the cursor. -/
theorem spends_here {make : Span → Expression} (hk : s.cursor.kind ≠ .endOfInput)
    (hg : ∀ span, (make span).goesOn = false) (hm : ∀ span, Node.ofExpression (make span) = []) :
    Spends setting inner (Yields (fold + 1) (level + 1)) 0 (do return make (← advance)) s :=
  .pass h.goesOn (.advance hk) fun span t k hk => .pure (Grown.leaf (hg _) (hm _) (by omega))

theorem spends_named {name : String} (hk : s.cursor.kind ≠ .endOfInput) :
    Spends setting inner (Yields (fold + 1) (level + 1)) 0 (named name) s := by
  have hvariable : Spends setting inner (Yields (fold + 1) (level + 1)) 0 (variableHere name) s :=
    spends_here h hk (fun _ => rfl) fun _ => rfl
  refine .look (.ite (fun _ => spends_functionCall h) fun _ =>
    .ite (fun _ => ?_) fun _ => hvariable)
  exact .look (.ite (fun _ => .fail _) fun _ => hvariable)

/-- **Operands grow.** Only a path has two expressions on top of what is nested. -/
theorem spends_operand : Spends setting inner (Yields (fold + 1) (level + 2)) 0 operand s := by
  have higher : ∀ {rule : Rule Expression},
      Spends setting inner (Yields (fold + 1) (level + 1)) 0 rule s →
      Spends setting inner (Yields (fold + 1) (level + 2)) 0 rule s :=
    fun hr => hr.mono fun _ _ he => he.higher
  have hhere : ∀ {kind : TokenKind} {make : Span → Expression}, s.cursor.current.kind = kind →
      kind ≠ .endOfInput → (∀ span, (make span).goesOn = false) →
      (∀ span, Node.ofExpression (make span) = []) →
      Spends setting inner (Yields (fold + 1) (level + 2)) 0 (do return make (← advance)) s :=
    fun hk hne hg hm => higher (spends_here h (fun he => hne (hk.symm.trans he)) hg hm)
  refine .look ?_
  split
  · next hk =>
    split
    · exact hhere hk nofun (fun _ => rfl) fun _ => rfl
    · exact .fail _
  · next hk => exact hhere hk nofun (fun _ => rfl) fun _ => rfl
  · next hk => exact hhere hk nofun (fun _ => rfl) fun _ => rfl
  · next hk => exact hhere hk nofun (fun _ => rfl) fun _ => rfl
  · next hk => exact hhere hk nofun (fun _ => rfl) fun _ => rfl
  · next hk => exact hhere hk nofun (fun _ => rfl) fun _ => rfl
  · next hk => exact hhere hk nofun (fun _ => rfl) fun _ => rfl
  · refine .look (.ite (fun _ => ?_) fun _ => ?_)
    · -- the expression around the path is paid for by the parenthesis that was left over
      refine .bind h.goesOn (spends_patternPart h) fun part t k ⟨l, hl, hpart⟩ => .pure ?_
      exact Grown.enclose hpart rfl rfl (by omega)
    · exact higher ((spends_group h).mono fun _ _ he => he.higher)
  · exact higher (spends_listLiteral h)
  · exact higher (spends_mapLiteral h)
  · exact higher (spends_caseDistinction h)
  · exact higher (spends_existence h)
  · exact .look (.ite (fun _ => higher (spends_functionCall h)) fun _ => .fail _)
  · next hk =>
    exact higher (spends_named h fun he => nomatch (show s.cursor.kind = _ from hk).symm.trans he)
  · next hk => exact hhere hk nofun (fun _ => rfl) fun _ => rfl
  · exact .fail _

theorem spends_leading : Spends setting inner (Yields (fold + 1) (level + 2)) 0 leading s := by
  refine .look ?_
  split
  · exact spends_operand h
  · next operator hop =>
    have hne : s.cursor.kind ≠ .endOfInput := fun he => by
      rw [show (View.token.read setting s).kind = _ from he] at hop
      cases hop
    refine .pass h.goesOn (movesOn_move h.goesOn hne) fun _ t k hk =>
      .look (.ite (fun _ => ?_) fun _ => ?_)
    · refine .skip h.goesOn fun digits u l => .pure ?_
      exact (Grown.leaf rfl rfl (by omega)).higher
    · refine .bind h.goesOn (h.expression _ t) fun operand u l hoperand => .pure ?_
      exact (Grown.enclose hoperand rfl rfl (by omega)).higher

/-! ### What goes on with an operand -/

section GoesOn

variable {folds j : Nat} {base : Expression} (hf : fold + 1 ≤ folds)
  (hbase : Grown folds (level + 2) [.expression base] [] j)

include hf hbase

theorem spends_bracketed :
    Spends setting inner (fun e k => Grown folds (level + 2) [.expression e] [] (j + k)) 0
      (bracketed base) s := by
  have hindex : ∀ {sign : Sign} {t : State}, Spends setting inner (Yields (fold + 1) level) 0
      (skipIf (atSign sign) expression) t :=
    fun {_ _} => spends_skipIf h.goesOn fun _ => spends_expression h
  refine .sign h.goesOn fun _ t k hk => .bind h.goesOn hindex fun lower u l hlower => ?_
  refine .skip h.goesOn fun dots v m => .ite (fun _ => ?_) fun _ => ?_
  · refine .bind h.goesOn hindex fun upper w n hupper => .skip h.goesOn fun _ x o =>
      .look (.pure ?_)
    have hbounds := (hlower.append hupper).mono hf (Nat.le_succ level) (Nat.le_refl _)
    rw [← toList_map_eq_roots (fun _ => rfl) lower, ← toList_map_eq_roots (fun _ => rfl)
      upper] at hbounds
    exact hbase.goOn hbounds rfl rfl (by omega)
  · refine .skip h.goesOn fun _ w n => ?_
    cases lower with
    | none => exact .fail _
    | some index =>
      exact .look (.pure (hbase.goOn (hlower.mono hf (Nat.le_succ level) (Nat.le_refl _)) rfl rfl
        (by omega)))

theorem spends_suffix :
    Spends setting inner (fun e k => Grown folds (level + 2) [.expression e] [] (j + k)) 0
      (suffix base) s := by
  refine .look ?_
  split
  · next hk =>
    have hne : s.cursor.kind ≠ .endOfInput :=
      fun he => nomatch (show s.cursor.kind = _ from hk).symm.trans he
    refine .pass h.goesOn (movesOn_move h.goesOn hne) fun _ t k hk => ?_
    exact .skip h.goesOn fun key u l => .pure (hbase.goOn .nil rfl rfl (by omega))
  · refine .pass h.goesOn (movesOn_labels h.goesOn s) fun labels t k hk => .look (.pure ?_)
    exact hbase.goOn .nil rfl rfl (by omega)
  · exact spends_bracketed h hf hbase

omit hf in
theorem spends_nullTest :
    Spends setting inner (fun e k => Grown folds (level + 2) [.expression e] [] (j + k)) 0
      (nullTest base) s := by
  refine .skip h.goesOn fun _ t k => .skip h.goesOn fun negated u l => ?_
  refine .word h.goesOn fun _ v m hm => .look (.pure ?_)
  exact hbase.goOn .nil rfl rfl (by omega)

end GoesOn

/-! ### Chains of operators -/

/-- **A chain that has grown out of tokens.** -/
def Chain.Grows (fold level : Nat) (chain : Chain) (tokens : Nat) : Prop :=
  Grown fold level [.expression chain.tree] chain.kept tokens

omit h in
theorem le_strength_of_isComparison {operator : BinaryOperator}
    (ho : operator.isComparison = true) : operator.strength = BinaryOperator.lt.strength := by
  cases operator <;> first | rfl | cases ho

section Chains

variable {folds strength j : Nat} {chain : Chain} (hf : fold + 1 ≤ folds)
  (hloose : strength ≤ BinaryOperator.lt.strength → folds = fold + 2)
  (hchain : chain.Grows folds (level + 2) j)

include hf hloose hchain

/-- **An operator goes on with a chain.** Comparisons do so with operands of less fold, and only
where operators as loose as comparisons are read. -/
theorem spends_operation :
    Spends setting inner
      (fun next k => (next.getD chain).Grows folds (level + 2) (j + k)) 0
      (operation strength chain) s := by
  refine .look (.look ?_)
  split
  · exact .pure hchain
  · next operator width hop =>
    refine .ite (fun _ => .pure hchain) fun hs => ?_
    refine .pass h.goesOn (movesOn_moveOver h.goesOn hop) fun _ t k hk => ?_
    cases ho : operator.isComparison with
    | true =>
      -- the operand binds more tightly than comparisons: a chain in it stands in parentheses
      have hstrength := le_strength_of_isComparison ho
      obtain rfl := hloose (by omega)
      refine .bind h.goesOn (h.operand (by simp only [BinaryOperator.rightStrength]; omega) t)
        fun right u l hright => .pure ?_
      exact (Grown.comparison ho hchain hright).more (by omega)
    | false =>
      -- what was kept for a comparison is given up, so that nothing is copied
      refine .bind h.goesOn (h.expression _ t) fun right u l hright => .pure ?_
      have hextend : chain.extend operator right = ⟨join operator chain.tree right, none⟩ := by
        rw [Chain.extend, ho]
        rfl
      rw [Option.getD_some, hextend]
      exact hchain.drop.goOn (hright.mono hf (Nat.le_succ level) (Nat.le_refl _)) rfl rfl (by omega)

theorem spends_continuation :
    Spends setting inner
      (fun next k => (next.getD chain).Grows folds (level + 2) (j + k)) 0
      (continuation strength chain) s := by
  refine .look (.ite (fun _ => .ite (fun _ => .pure hchain) fun _ => ?_) fun _ =>
    .ite (fun _ => .ite (fun _ => .pure hchain) fun _ => ?_) fun _ => ?_)
  · exact .bind h.goesOn (spends_suffix h hf hchain.drop) fun tree t k htree =>
      .pure (htree.more (by omega))
  · exact .bind h.goesOn (spends_nullTest h hchain.drop) fun tree t k htree =>
      .pure (htree.more (by omega))
  · exact spends_operation h hf hloose hchain

omit hchain in
/-- **Expressions grow**, with a fold more where comparisons may be read. -/
theorem spends_expressionOf :
    Spends setting inner (Yields folds (level + 2)) 0 (expressionOf strength) s := by
  refine .bind h.goesOn (spends_leading h) fun first t k hfirst => ?_
  -- the invariant of the loop: the chain so far has grown out of what has been passed for it
  refine .bind h.goesOn (r := fun chain l => chain.Grows folds (level + 2) (k + l)) ?_
    fun chain u l hchain => .pure (hchain.drop.more (by omega))
  refine .loop h.goesOn (hfirst.mono hf (Nat.le_refl _) (Nat.le_refl _)) fun chain u l hchain => ?_
  exact (spends_continuation h hf hloose hchain).last fun next m hnext => hnext.more (by omega)

end Chains

end Cypher.Grammar
