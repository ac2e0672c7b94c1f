import Cypher.Proofs.Placement

/-!
# Rules for expressions lay out what they read

One lemma for each rule of the grammar, up to expressions: from wherever the rule is run, the
elements it reads lie behind the cursor, and past a token. The element that a rule makes is around
the elements that the rules it calls have read. There are three ways in which its span comes about,
and each is inside what has been passed: from an offset to the token behind, from one operand to
another, or from the token at the cursor alone.

A query may be empty, and then it stands where the next token starts, which may be ahead of where
the last one ended. So what is known of a query is less: it ends before the token behind it starts
(`Cypher.Rule.LaysAhead`).
-/

namespace Cypher

variable {fit : Nat → Prop} {setting : Setting} {inner : Inner}

/-- **A rule for queries that lays out what it reads** between the fronts of the cursor before and
behind it. -/
def Rule.LaysAhead (fit : Nat → Prop) (setting : Setting) (inner : Inner) (rule : Rule Query) :
    Prop :=
  ∀ s, s.cursor.Laid fit → ∀ q t, rule.run setting inner s = .done q t →
    Element.Between fit s.cursor.front t.cursor.front [.query q]

/-- A query between braces is inside the braces, even if it is empty. -/
theorem Rule.Builds.braced {α : Type} [Composed α] (hi : Inner.GoesOn inner)
    {lo : Nat} {moved moved' : Bool} {before : List Element} {s : State} {rule : Rule Query}
    {next : Query → Rule α} (h : rule.LaysAhead fit setting inner)
    (hn : ∀ q t, Builds fit setting inner lo true (before ++ [.query q]) t moved' (next q)) :
    Builds fit setting inner lo moved before s moved'
      (rule >>= fun q => Rule.expectSign .rightBrace >>= fun _ => next q) := by
  intro hs a v hr
  obtain ⟨q, t, hq, hr⟩ := done_of_bind hr
  obtain ⟨span, u, hu, hr⟩ := done_of_bind hr
  have hst := onward_of_done hi hq
  have htu := onward_of_done hi hu
  have ht := (hs.onward hst).cursor
  have hlt : u.left < t.left :=
    movesOn_expectSign (p := fun _ => True) hi .rightBrace t ht.closed span u hu trivial
  have hbetween := (h s hs.cursor q t hq).mono hs.le_front (ht.front_le_rear htu.cursor hlt)
  have hcov := (hs.onward hst).passed htu hlt
  exact hn q u { hcov with between := hcov.between.append hbetween } a v hr

/-- **Nested rules that lay out what they read.** -/
structure Inner.Lays (fit : Nat → Prop) (setting : Setting) (inner : Inner) : Prop where
  /-- The cursor moves on. -/
  goesOn : inner.GoesOn
  /-- Expressions are laid out. -/
  expression (strength : Nat) (s : State) :
    Rule.LaysAt fit setting inner true (.nested (.expression strength)) s
  /-- So are the bodies of subqueries. -/
  subquery : Rule.LaysAhead fit setting inner (.nested .subquery)
  /-- So are the bodies of existence tests. -/
  existsBody : Rule.LaysAhead fit setting inner (.nested .existsBody)

namespace Grammar

open Rule hiding pure bind
open Composed (elements)

/-- The outermost elements in the detail of a relationship. -/
instance : Composed Detail :=
  ⟨fun d => elements d.binder ++ elements d.types ++ elements d.properties⟩

variable (h : inner.Lays fit setting) {s : State}

include h

/-! ### Names, labels and maps -/

theorem laysAt_expression : LaysAt fit setting inner true expression s := h.expression _ s

theorem laysAt_variableName : LaysAt fit setting inner true variableName s := by
  refine .look ?_
  split
  · next hk => exact .leaf h.goesOn hk TokenKind.noConfusion rfl rfl rfl
  · next hk => exact .leaf h.goesOn hk TokenKind.noConfusion rfl rfl rfl
  · exact .fail _

theorem laysAt_symbolicName (what : String) :
    LaysAt fit setting inner true (symbolicName what) s := by
  refine .look ?_
  split
  · next hk => exact .leaf h.goesOn hk TokenKind.noConfusion rfl rfl rfl
  · next hk => exact .leaf h.goesOn hk TokenKind.noConfusion rfl rfl rfl
  · next hk => exact .leaf h.goesOn hk TokenKind.noConfusion rfl rfl rfl
  · exact .fail _

theorem laysAt_qualifiedName (what : String) :
    LaysAt fit setting inner true (qualifiedName what) s := by
  refine .onto .name (fun _ => rfl) (laysAt_symbolicName h what) fun first t => ?_
  exact .skip h.goesOn fun parts u _ =>
    .look (.close rfl rfl fun _ hc => absurd hc List.not_mem_nil)

theorem laysAt_labels : LaysAt fit setting inner true labels s := by
  refine .bind h.goesOn (laysAt_many h.goesOn fun t => laysAt_optionally h.goesOn fun u _ =>
    laysAt_symbolicName h "a label name") fun labels t => .ite (fun _ => .fail _) fun hl => ?_
  refine .pure_of_ne_nil ?_ fun _ hc => hc
  cases labels with
  | nil => exact absurd rfl hl
  | cons label labels => exact List.cons_ne_nil _ _

theorem laysAt_mapEntry : LaysAt fit setting inner true mapEntry s := by
  refine .bind h.goesOn (laysAt_symbolicName h _) fun key t => .expectSign h.goesOn ?_
  exact .bind h.goesOn (laysAt_expression h) fun value u => .pure (by simp [elements])

theorem laysAt_mapLiteral : LaysAt fit setting inner true mapLiteral s := by
  refine .expectSign h.goesOn ?_
  refine .bind h.goesOn (laysAt_listUntil h.goesOn fun t => laysAt_mapEntry h) fun entries t => ?_
  exact .expectSign h.goesOn (.look (.close rfl rfl fun c hc => hc))

theorem laysAt_properties : LaysAt fit setting inner false properties s := by
  refine .look ?_
  split
  · exact .lax (.bind h.goesOn (laysAt_mapLiteral h) fun map t => .pure (by simp [elements]))
  · next hk => exact .lax (.leaf h.goesOn hk TokenKind.noConfusion rfl rfl rfl)
  · exact .pure fun _ he => absurd he List.not_mem_nil

/-! ### Patterns -/

theorem laysAt_furtherType : LaysAt fit setting inner true furtherType s :=
  .skip h.goesOn fun _ _ _ => (laysAt_symbolicName h _).builds

theorem laysAt_relationshipTypes : LaysAt fit setting inner false relationshipTypes s := by
  refine .skip h.goesOn fun colon t _ => .ite (fun _ => ?_) fun _ => ?_
  · refine .bind h.goesOn (laysAt_symbolicName h _) fun first u => ?_
    refine .lax (.subset (builds_many h.goesOn (fun v => laysAt_optionally h.goesOn fun w _ =>
      laysAt_furtherType h) [first]) ?_)
    simp [elements]
  · exact .pure fun _ he => absurd he List.not_mem_nil

theorem laysAt_detail : LaysAt fit setting inner true detail s := by
  refine .bind h.goesOn (laysAt_optionally h.goesOn fun _ _ => laysAt_variableName h)
    fun binder t => ?_
  refine .bind h.goesOn (laysAt_relationshipTypes h) fun types u => .skip h.goesOn fun _ v _ => ?_
  refine .bind h.goesOn (laysAt_properties h) fun properties w => .expectSign h.goesOn ?_
  exact .pure fun _ hc => hc

theorem laysAt_detailIfAny : LaysAt fit setting inner false detailIfAny s := by
  refine .skip h.goesOn fun bracket t _ => .ite (fun _ => ?_) fun _ => ?_
  · exact .lax (laysAt_detail h).builds
  · exact .pure fun _ he => absurd he List.not_mem_nil

theorem laysAt_relationship : LaysAt fit setting inner true relationship s := by
  refine .startHere (.skip h.goesOn fun left t _ => .expectSign h.goesOn ?_)
  refine .bind h.goesOn (laysAt_detailIfAny h) fun detail u => .expectSign h.goesOn ?_
  exact .skip h.goesOn fun right v _ => .look (.close rfl rfl fun c hc => hc)

theorem laysAt_nodeLabels : LaysAt fit setting inner false nodeLabels s := by
  refine .skip h.goesOn fun colon t _ => .ite (fun _ => ?_) fun _ => ?_
  · exact .lax (laysAt_labels h).builds
  · exact .pure fun _ he => absurd he List.not_mem_nil

theorem laysAt_pathNode : LaysAt fit setting inner true pathNode s := by
  refine .expectSign h.goesOn ?_
  refine .bind h.goesOn (laysAt_optionally h.goesOn fun _ _ => laysAt_variableName h)
    fun binder t => ?_
  refine .bind h.goesOn (laysAt_nodeLabels h) fun labels u => ?_
  refine .bind h.goesOn (laysAt_properties h) fun properties v => .expectSign h.goesOn ?_
  exact .look (.close rfl rfl fun c hc => hc)

theorem laysAt_step : LaysAt fit setting inner true step s := by
  refine .bind h.goesOn (laysAt_relationship h) fun relationship t => ?_
  exact .bind h.goesOn (laysAt_pathNode h) fun node u => .pure fun _ hc => hc

theorem laysAt_pathName : LaysAt fit setting inner true pathName s := by
  refine .bind h.goesOn (laysAt_variableName h) fun name t => .skip h.goesOn fun _ u _ => ?_
  exact .pure fun _ hc => hc

theorem laysAt_patternPart : LaysAt fit setting inner true patternPart s := by
  refine .startHere ?_
  refine .bind h.goesOn (laysAt_optionally h.goesOn fun _ _ => laysAt_pathName h)
    fun binder t => ?_
  refine .bind h.goesOn (laysAt_pathNode h) fun node u => ?_
  refine .bind h.goesOn (laysAt_many h.goesOn fun _ => laysAt_optionally h.goesOn fun _ _ =>
    laysAt_step h) fun chain v => ?_
  exact .look (.close rfl rfl fun c hc => hc)

theorem laysAt_pattern : LaysAt fit setting inner true pattern s := by
  refine .startHere (.bind h.goesOn (laysAt_separated h.goesOn fun _ => laysAt_patternPart h)
    fun parts t => ?_)
  exact .look (.close rfl rfl fun c hc => hc)

/-! ### Lists, cases and calls -/

theorem laysAt_expressionList (close : Sign) :
    LaysAt fit setting inner false (expressionList close) s :=
  laysAt_listUntil h.goesOn fun _ => laysAt_expression h

theorem laysAt_elementProjection (projects : Bool) :
    LaysAt fit setting inner false (elementProjection projects) s := by
  refine .ite (fun _ => ?_) fun _ => .pure fun _ he => absurd he List.not_mem_nil
  exact laysAt_optionally h.goesOn fun _ _ => laysAt_expression h

/-- A comprehension stands for an expression around its parts. -/
instance : Composed (Comprehension Expression) := ⟨fun c => [.expression (.comprehension c)]⟩

theorem builds_comprehension {lo : Nat} {moved : Bool} {before : List Element} (close : Sign)
    (projects : Bool) :
    Builds fit setting inner lo moved before s true (comprehension lo close projects) := by
  refine .bind h.goesOn (laysAt_variableName h) fun binder t => .expectWord h.goesOn ?_
  refine .bind h.goesOn (laysAt_expression h) fun list u => ?_
  refine .bind h.goesOn (laysAt_optionally h.goesOn fun _ _ => laysAt_expression h)
    fun predicate v => ?_
  refine .bind h.goesOn (laysAt_elementProjection h projects) fun projection w => ?_
  refine .expectSign h.goesOn (.look (.close rfl rfl fun c hc => ?_))
  change c ∈ Element.ofComprehension _ at hc
  simpa only [Element.ofComprehension, List.append_assoc] using List.mem_append_right before hc

theorem laysAt_listLiteral : LaysAt fit setting inner true listLiteral s := by
  refine .expectSign h.goesOn (.skip h.goesOn fun binds t _ => .ite (fun _ => ?_) fun _ => ?_)
  · exact .part (builds_comprehension h _ _) fun body u =>
      .recast rfl rfl fun hl => hl.congr rfl rfl
  · refine .bind h.goesOn (laysAt_expressionList h _) fun items u => .expectSign h.goesOn ?_
    exact .look (.close rfl rfl fun c hc => hc)

theorem laysAt_caseAlternative : LaysAt fit setting inner true caseAlternative s := by
  refine .bind h.goesOn (laysAt_expression h) fun condition t => .expectWord h.goesOn ?_
  exact .bind h.goesOn (laysAt_expression h) fun result u => .pure fun _ hc => hc

theorem laysAt_caseDistinction (hk : s.cursor.kind = .keyword .CASE) :
    LaysAt fit setting inner true caseDistinction s := by
  refine .advance h.goesOn (hk ▸ TokenKind.noConfusion) ?_
  refine .bind h.goesOn (laysAt_skipIf h.goesOn fun _ => laysAt_expression h) fun operand t => ?_
  refine .bind h.goesOn (laysAt_many h.goesOn fun _ => laysAt_optionally h.goesOn fun _ _ =>
    laysAt_caseAlternative h) fun alternatives u => .ite (fun _ => .fail _) fun _ => ?_
  refine .bind h.goesOn (laysAt_optionally h.goesOn fun _ _ => laysAt_expression h)
    fun otherwise v => .expectWord h.goesOn ?_
  exact .look (.close rfl rfl fun c hc => hc)

theorem builds_callArguments {lo : Nat} {moved : Bool} {before : List Element} (name : String) :
    Builds fit setting inner lo moved before s true (callArguments name lo) := by
  refine .skip h.goesOn fun distinct t _ => ?_
  refine .bind h.goesOn (laysAt_expressionList h _) fun arguments u => .expectSign h.goesOn ?_
  exact .look (.close rfl rfl fun c hc => List.mem_append_right _ hc)

theorem builds_plainCall {before : List Element} (name : Ident) :
    Builds fit setting inner name.span.start true before s true (plainCall name) := by
  refine .ite (fun _ => .skip h.goesOn fun star t _ => .ite (fun _ => ?_) fun _ => ?_) fun _ => ?_
  · refine .skip h.goesOn fun _ u _ => .skip h.goesOn fun _ v _ => .look ?_
    exact .close rfl rfl fun _ hc => absurd hc List.not_mem_nil
  · exact builds_callArguments h _
  · exact builds_callArguments h _

theorem laysAt_functionCall : LaysAt fit setting inner true functionCall s := by
  refine .onto .name (fun _ => rfl) (laysAt_qualifiedName h _) fun name t => ?_
  refine .expectSign h.goesOn ?_
  split
  · refine .skip h.goesOn fun binds u _ => .ite (fun _ => ?_) fun _ => builds_plainCall h name
    exact .part (builds_comprehension h _ _) fun body v =>
      .recast rfl rfl fun hl => hl.congr rfl rfl
  · exact builds_plainCall h name

/-! ### Operands -/

theorem laysAt_existence (hk : s.cursor.kind = .keyword .EXISTS) :
    LaysAt fit setting inner true existence s := by
  refine .look ?_
  split
  · exact laysAt_functionCall h
  · refine .requireSubqueries (.advance h.goesOn (hk ▸ TokenKind.noConfusion) ?_)
    refine .skip h.goesOn fun _ t _ => .braced h.goesOn h.existsBody fun body u => ?_
    exact .look (.close rfl rfl fun c hc => hc)
  · exact .skip h.goesOn fun _ _ _ => .fail _

theorem laysAt_group : LaysAt fit setting inner true group s := by
  refine .skip h.goesOn fun _ t _ => .bind h.goesOn (laysAt_expression h) fun e u => ?_
  exact .expectSign h.goesOn (.pure fun _ hc => hc)

theorem laysAt_named {name : String} (hk : s.cursor.kind = .identifier name) :
    LaysAt fit setting inner true (named name) s := by
  have hv : LaysAt fit setting inner true (variableHere name) s :=
    .leaf h.goesOn hk TokenKind.noConfusion rfl rfl rfl
  refine .look (.ite (fun _ => laysAt_functionCall h) fun _ => .ite (fun _ => ?_) fun _ => hv)
  exact .look (.ite (fun _ => .fail _) fun _ => hv)

theorem laysAt_operand : LaysAt fit setting inner true operand s := by
  refine .look ?_
  have hleaf : ∀ {kind : TokenKind} (value : Literal), s.cursor.kind = kind → kind ≠ .endOfInput →
      LaysAt fit setting inner true (literalHere value) s :=
    fun value hk hne => .leaf h.goesOn hk hne rfl rfl rfl
  split
  · next hk =>
    split
    · exact hleaf _ hk TokenKind.noConfusion
    · exact .fail _
  · next hk => exact hleaf _ hk TokenKind.noConfusion
  · next hk => exact hleaf _ hk TokenKind.noConfusion
  · next hk => exact hleaf _ hk TokenKind.noConfusion
  · next hk => exact hleaf _ hk TokenKind.noConfusion
  · next hk => exact hleaf _ hk TokenKind.noConfusion
  · next hk => exact .leaf h.goesOn hk TokenKind.noConfusion rfl rfl rfl
  · refine .look (.ite (fun _ => ?_) fun _ => laysAt_group h)
    exact .part (laysAt_patternPart h) fun part t => .recast rfl rfl fun hl => hl.around rfl rfl
  · exact laysAt_listLiteral h
  · exact laysAt_mapLiteral h
  · next hk => exact laysAt_caseDistinction h hk
  · next hk => exact laysAt_existence h hk
  · exact .look (.ite (fun _ => laysAt_functionCall h) fun _ => .fail _)
  · next hk => exact laysAt_named h hk
  · next hk => exact .leaf h.goesOn hk TokenKind.noConfusion rfl rfl rfl
  · exact .fail _

/-! ### Operators and suffixes -/

/-- A number with the sign before it ends where the number does. -/
theorem builds_digits {lo : Nat} {moved : Bool} {before : List Element} (value : Literal)
    (hk : s.cursor.kind ≠ .endOfInput) :
    Builds fit setting inner lo moved before s true
      (do return Expression.literal value ⟨lo, (← advance).stop⟩) := by
  intro hcov
  refine Builds.advance h.goesOn hk
    (.close_rear rfl ?_ fun _ hc => absurd hc List.not_mem_nil) hcov
  exact congrArg (Span.mk lo) (Cursor.rear_advance (hcov.cursor.closed.ahead_ne_nil hk)).symm

theorem laysAt_leading : LaysAt fit setting inner true leading s := by
  refine .look ?_
  split
  · exact laysAt_operand h
  · refine .skip h.goesOn fun _ t _ => .look (.ite (fun hk => ?_) fun _ => ?_)
    · refine builds_digits h _ fun he => ?_
      have hmagnitude := (Bool.and_eq_true_iff.1 hk).2
      change isLeastMagnitude t.cursor.kind = true at hmagnitude
      rw [he] at hmagnitude
      cases hmagnitude
    · exact .join h.goesOn .expression (fun inner => .expression (.unary _ inner _))
        (fun _ => rfl) (fun _ => rfl) (fun _ => rfl) (fun _ _ hc => hc) (h.expression _ t)

theorem builds_bracketed (base : Expression) :
    Builds fit setting inner base.span.start true [.expression base] s true (bracketed base) := by
  refine .expectSign h.goesOn ?_
  refine .bind h.goesOn (laysAt_skipIf h.goesOn fun _ => laysAt_expression h) fun lower t => ?_
  refine .skip h.goesOn fun dots u _ => .ite (fun _ => ?_) fun _ => ?_
  · refine .bind h.goesOn (laysAt_skipIf h.goesOn fun _ => laysAt_expression h) fun upper v => ?_
    exact .expectSign h.goesOn (.look (.close rfl rfl fun c hc => hc))
  · refine .expectSign h.goesOn ?_
    cases lower with
    | none => exact .fail _
    | some index => exact .look (.close rfl rfl fun c hc => hc)

theorem builds_suffix (base : Expression) :
    Builds fit setting inner base.span.start true [.expression base] s true (suffix base) := by
  refine .look ?_
  split
  · refine .skip h.goesOn fun _ t _ => ?_
    exact .join h.goesOn .name (fun key => .expression (.property base key _)) (fun _ => rfl)
      (fun _ => rfl) (fun _ => rfl) (fun _ _ hc => hc) (laysAt_symbolicName h _)
  · refine .bind h.goesOn (laysAt_labels h) fun labels t => ?_
    exact .look (.close rfl rfl fun c hc => hc)
  · exact builds_bracketed h base

theorem builds_nullTest (base : Expression) :
    Builds fit setting inner base.span.start true [.expression base] s true (nullTest base) := by
  refine .skip h.goesOn fun _ t _ => .skip h.goesOn fun negated u _ => .expectWord h.goesOn ?_
  exact .look (.close_rear rfl rfl fun c hc => hc)

/-! ### Chains of operators -/

omit h in
theorem laid_join (operator : BinaryOperator) {l r : Expression}
    (hl : (Element.expression l).Laid fit) (hr : (Element.expression r).Laid fit)
    (hs : l.span.start ≤ r.span.start) (ht : l.span.stop ≤ r.span.stop) :
    (Element.expression (join operator l r)).Laid fit := by
  have hbetween : Element.Between fit l.span.start r.span.stop
      [.expression l, .expression r] :=
    .append (a := [.expression l]) (.singleton hl (Nat.le_refl _) ht)
      (.singleton hr hs (Nat.le_refl _))
  exact hbetween.laid rfl (Nat.le_refl _) (Nat.le_trans hs hr.ordered) hl.fit_start hr.fit_stop

/-- The elements of a chain: its tree and the operand that the next comparison takes up. -/
instance : Composed Chain := ⟨fun chain => .expression chain.tree :: elements chain.last⟩

omit h in
/-- An operator and its right operand go on with a chain in the place where it starts. -/
theorem covers_extend {chain : Chain} {right : Expression} {t : State} (operator : BinaryOperator)
    (hs : s.Covers fit chain.tree.span.start true (elements chain)) (hst : s.Onward t)
    (ht : t.Covers fit s.cursor.front true [.expression right]) :
    t.Covers fit chain.tree.span.start true (elements (chain.extend operator right)) := by
  obtain ⟨hr, hfront, hrear⟩ := ht.between _ List.mem_cons_self
  obtain ⟨htree, -, hstop⟩ := hs.between _ List.mem_cons_self
  have hmid := hs.cursor.rear_le_front
  have hle := hs.le_front
  have hord : right.span.start ≤ right.span.stop := hr.ordered
  change s.cursor.front ≤ right.span.start at hfront
  change right.span.stop ≤ t.cursor.rear at hrear
  change chain.tree.span.stop ≤ s.cursor.rear at hstop
  have hright : Element.Between fit chain.tree.span.start t.cursor.rear [.expression right] :=
    .singleton hr (Nat.le_trans hle hfront) hrear
  have hjoin := laid_join operator htree hr (by omega) (by omega)
  have hone : Element.Between fit chain.tree.span.start t.cursor.rear
      [.expression (join operator chain.tree right)] := .singleton hjoin (Nat.le_refl _) hrear
  unfold Chain.extend
  split
  · split
    · next left hlast =>
      -- the last operand is inside the tree and taken up again by the new comparison
      obtain ⟨hl, hlo, hhi⟩ := hs.between (.expression left)
        (List.mem_cons_of_mem _ (by rw [hlast]; exact List.mem_cons_self))
      change chain.tree.span.start ≤ left.span.start at hlo
      change left.span.stop ≤ s.cursor.rear at hhi
      have hord' : left.span.start ≤ left.span.stop := hl.ordered
      have hnew := laid_join operator hl hr (by omega) (by omega)
      have hle' : chain.tree.span.stop ≤ right.span.stop := by omega
      have hall := laid_join .and htree hnew hlo hle'
      exact { hs.onward hst with
        between := .append (a := [_]) (.singleton hall (Nat.le_refl _) hrear) hright }
    · exact { hs.onward hst with between := .append (a := [_]) hone hright }
  · exact { hs.onward hst with between := hone }

omit h in
theorem start_extend (chain : Chain) (operator : BinaryOperator) (right : Expression) :
    (chain.extend operator right).tree.span.start = chain.tree.span.start := by
  unfold Chain.extend
  split
  · split <;> rfl
  · rfl

/-- **A chain with what has been read of it**, which starts behind an offset. -/
def Holds (fit : Nat → Prop) (lo : Nat) (chain : Chain) (s : State) : Prop :=
  lo ≤ chain.tree.span.start ∧ s.Covers fit chain.tree.span.start true (elements chain)

omit h in
/-- A chain that goes on with a tree alone. -/
theorem holds_single {lo : Nat} {chain : Chain} {t : State} {rule : Rule Expression}
    {next : Option Chain} (hs : Holds fit lo chain s)
    (hb : Builds fit setting inner chain.tree.span.start true [.expression chain.tree] s true rule)
    (hr : (do return some ⟨← rule, none⟩ : Rule (Option Chain)).run setting inner s =
      .done next t) : Holds fit lo (next.getD chain) t := by
  obtain ⟨tree, u, hu, hr⟩ := done_of_bind hr
  cases hr
  have hcov := hb (hs.2.subset fun e he => List.mem_singleton.1 he ▸ List.mem_cons_self) tree t hu
  obtain ⟨-, hle, -⟩ := hcov.between _ List.mem_cons_self
  exact ⟨Nat.le_trans hs.1 hle, hcov.narrow⟩

theorem holds_operation {lo : Nat} {chain : Chain} {t : State} (strength : Nat)
    {next : Option Chain} (hs : Holds fit lo chain s)
    (hr : (operation strength chain).run setting inner s = .done next t) :
    Holds fit lo (next.getD chain) t := by
  obtain ⟨token, u, hu, hr⟩ := done_of_bind hr
  cases hu
  obtain ⟨kind, u, hu, hr⟩ := done_of_bind hr
  cases hu
  split at hr
  · cases hr
    exact hs
  · next operator width _ =>
    split at hr
    · cases hr
      exact hs
    · obtain ⟨_, u, hu, hr⟩ := done_of_bind hr
      obtain ⟨right, v, hv, hr⟩ := done_of_bind hr
      cases hr
      have hu := hs.2.onward (onward_of_done h.goesOn hu)
      have hright := (h.expression operator.rightStrength u).covers hu.cursor hv
      have hstart := start_extend chain operator right
      refine ⟨hstart ▸ hs.1, ?_⟩
      rw [Option.getD_some, hstart]
      exact covers_extend operator hu (onward_of_done h.goesOn hv) hright

theorem holds_continuation {lo : Nat} {chain : Chain} {t : State} (strength : Nat)
    {next : Option Chain} (hs : Holds fit lo chain s)
    (hr : (continuation strength chain).run setting inner s = .done next t) :
    Holds fit lo (next.getD chain) t := by
  obtain ⟨token, u, hu, hr⟩ := done_of_bind hr
  cases hu
  dsimp only at hr
  split at hr
  · split at hr
    · cases hr
      exact hs
    · exact holds_single hs (builds_suffix h _) hr
  · split at hr
    · split at hr
      · cases hr
        exact hs
      · exact holds_single hs (builds_nullTest h _) hr
    · exact holds_operation h strength hs hr

/-- **Expressions are laid out.** -/
theorem laysAt_expressionOf (strength : Nat) :
    LaysAt fit setting inner true (expressionOf strength) s := by
  refine .onto .expression (fun _ => rfl) (laysAt_leading h) fun first t => ?_
  intro hcov e v hr
  obtain ⟨chain, u, hu, hr⟩ := done_of_bind hr
  cases hr
  have hstart : Holds fit first.span.start ⟨first, none⟩ t := ⟨Nat.le_refl _, hcov⟩
  obtain ⟨hle, hv⟩ := loop_induct (p := Holds fit first.span.start)
    (fun chain t next u ht hu => holds_continuation h strength ht hu) hstart hu
  have htree : v.Covers fit chain.tree.span.start true [.expression chain.tree] :=
    hv.subset fun e he => List.mem_singleton.1 he ▸ List.mem_cons_self
  exact htree.lower hcov.fit_lo hle

end Grammar

end Cypher
