import Cypher.Proofs.Brackets
import Cypher.Proofs.Copies

/-!
# Subqueries that close their own brace

The span of a subquery ends with a closing brace, and one would like it to be the partner of the
brace that opens the body. For tokens whose brackets are paired this comes down to the number of
open braces between the two (`Cypher.Token.closesOwn_iff_rise`). Reading never closes a brace that
is not open, but it may leave braces open: those that a clause has passed before it failed, as the
skipping that follows does not know of them. It is the stand-ins that tell: each covers as many
closing as opening braces, or the brackets do not come out even for every subquery around it
(`Cypher.Braced`, `Cypher.Stems.braced`).

So a subquery closes its own brace if and only if every stand-in inside it is even
(`Cypher.closesOwn_iff_tidy`). In `CALL { RETURN {a: } } RETURN 1` there is one that is not, and the
call ends with the brace that closes the map (`Cypher.not_closesOwn_call`).
-/

namespace Cypher

open Node (preorder)
open Grammar (Chain)

/-! ### Tokens of a text -/

namespace Token

/-- **Tokens of a text whose brackets are paired**: they do not overlap, and the last of them is the
end of the text. -/
structure Orderly (all : List Token) : Prop where
  /-- The tokens do not overlap. -/
  apart : Apart all
  /-- The last of them is the end of the text. -/
  ended : ∃ ts e, all = ts ++ [e] ∧ e.kind = .endOfInput
  /-- The brackets are paired. -/
  paired : Paired all

/-- **Tokens in a row**, with some behind them. -/
def InRow (all w : List Token) : Prop := ∃ pre post, post ≠ [] ∧ all = pre ++ w ++ post

variable {all u v w : List Token}

theorem InRow.mono (h : InRow all w) (hv : v <:+: w) : InRow all v := by
  obtain ⟨pre, post, hpost, rfl⟩ := h
  obtain ⟨before, behind, rfl⟩ := hv
  exact ⟨pre ++ before, behind ++ post, List.append_ne_nil_of_right_ne_nil _ hpost, by simp⟩

theorem InRow.left (h : InRow all (u ++ v)) : InRow all u := h.mono (List.infix_append' [] u v)

theorem InRow.right (h : InRow all (u ++ v)) : InRow all v :=
  h.mono (List.suffix_append u v).isInfix

/-- The tokens in the span of tokens in a row are these. -/
theorem filter_isIn_hull (ha : Apart all) (h : InRow all w) (hw : w ≠ []) :
    all.filter (·.isIn (hull w)) = w := by
  obtain ⟨pre, post, hpost, rfl⟩ := h
  have hin := fun t ht => Apart.isIn_hull ha hw hpost (t := t) ht
  have hnodup := ha.nodup
  rw [List.nodup_append, List.nodup_append] at hnodup
  obtain ⟨⟨-, -, hpre⟩, -, hbehind⟩ := hnodup
  rw [List.filter_append, List.filter_append, List.filter_eq_nil_iff.2, List.filter_eq_self.2,
    List.filter_eq_nil_iff.2, List.append_nil, List.nil_append]
  · intro t ht hin'
    have hmem := (hin t (List.mem_append_right _ ht)).1 hin'
    exact hbehind t (List.mem_append_right _ hmem) t ht rfl
  · intro t ht
    exact (hin t (List.mem_append_left _ (List.mem_append_right _ ht))).2 ht
  · intro t ht hin'
    have hmem := (hin t (List.mem_append_left _ (List.mem_append_left _ ht))).1 hin'
    exact hpre t ht t hmem rfl

/-- Skipping holds the number of open braces. -/
theorem Orderly.held_of_skips (ho : Orderly all) (h : InRow all w) (hs : Skips 0 w) : Held 0 w := by
  obtain ⟨pre, post, -, rfl⟩ := h
  have hpaired := ho.paired
  rw [Paired, List.append_assoc] at hpaired
  obtain ⟨opened, -, hrest⟩ := exists_pair_of_append hpaired
  obtain ⟨after, hw, -⟩ := exists_pair_of_append hrest
  rw [← List.nil_append opened] at hw
  exact Token.held_of_skips hw hs

end Token

open Token (hull rise Held ClosesOwn Orderly InRow)

/-! ### What is inside a chain -/

/-- A property of the nodes in some trees holds of those in a chain with one more comparison, if it
holds of the new operators. -/
theorem Grammar.Chain.forall_preorder_extend {chain : Chain} {operator : BinaryOperator}
    {right : Expression} (ho : operator.isComparison = true)
    (hk : preorder chain.kept ⊆ preorder [.expression chain.tree]) {p : Node → Prop}
    (hp : ∀ operator left right span, p (.expression (.binary operator left right span))) :
    (∀ n ∈ preorder [.expression (chain.extend operator right).tree], p n) ↔
      (∀ n ∈ preorder [.expression chain.tree], p n) ∧
        ∀ n ∈ preorder [.expression right], p n := by
  obtain ⟨new, hnew, hperm⟩ := Chain.preorder_extend ho chain right
  constructor
  · intro h
    refine ⟨fun n hn => h n (hperm.mem_iff.2 ?_), fun n hn => h n (hperm.mem_iff.2 ?_)⟩
    · exact List.mem_append_right _ (List.mem_append_left _ hn)
    · exact List.mem_append_right _ (List.mem_append_right _ (List.mem_append_right _ hn))
  · rintro ⟨htree, hright⟩ n hn
    rcases List.mem_append.1 (hperm.mem_iff.1 hn) with hn | hn
    · obtain ⟨_, _, _, _, rfl⟩ := hnew n hn
      exact hp _ _ _ _
    · rcases List.mem_append.1 hn with hn | hn
      · exact htree n hn
      · exact (List.mem_append.1 hn).elim (fun hn => htree n (hk hn)) (hright n)

/-! ### Stand-ins and braces -/

/-- Whether a node, if it is a stand-in, covers as many closing braces as opening ones. -/
def Node.IsEven (all : List Token) : Node → Prop
  | clause (.error span) => rise (all.filter (·.isIn span)) = 0
  | _ => True

/-- **Trees whose stand-ins are even**, given all tokens. -/
def Tidy (all : List Token) (nodes : List Node) : Prop := ∀ n ∈ preorder nodes, n.IsEven all

/-- Whether a node, if it is a subquery, closes its own brace exactly if what is inside is tidy. -/
def Node.ClosesIfTidy (all : List Token) (n : Node) : Prop :=
  ∀ body, n.body? = some body → (ClosesOwn all n.span ↔ Tidy all [.query body])

/-- **What is known of the braces** among the tokens from which some trees stem. -/
structure Braced (all : List Token) (level : Wholeness) (nodes : List Node) (w : List Token) :
    Prop where
  /-- No brace from before is closed. -/
  held : level ≠ .loose → Held 0 w
  /-- All braces are closed if and only if the trees are tidy. -/
  closed : level = .whole → (rise w = 0 ↔ Tidy all nodes)
  /-- **Subqueries close their own braces** if and only if what is inside is tidy. -/
  own : ∀ n ∈ preorder nodes, n.ClosesIfTidy all

section Trees

variable {all u v w : List Token} {a b nodes : List Node} {n : Node} {level : Wholeness}

theorem tidy_nil : Tidy all [] := by
  rw [Tidy, preorder]
  exact List.forall_mem_nil _

theorem tidy_append : Tidy all (a ++ b) ↔ Tidy all a ∧ Tidy all b := by
  rw [Tidy, Node.preorder_append]
  exact List.forall_mem_append

theorem tidy_singleton : Tidy all [n] ↔ n.IsEven all ∧ Tidy all n.children := by
  rw [Tidy, Node.preorder_singleton]
  exact List.forall_mem_cons

theorem Node.isEven_of_isFrame (h : n.isFrame = true) : n.IsEven all := by
  unfold IsEven
  split
  · cases h
  · trivial

theorem Node.body?_of_isFrame (h : n.isFrame = true) : n.body? = none := by
  unfold body?
  split
  · cases h
  · cases h
  · rfl

theorem Node.isEven_of_body? {body : Query} (h : n.body? = some body) : n.IsEven all := by
  unfold IsEven
  split
  · cases h
  · trivial

theorem Node.closesIfTidy_of_body? (h : n.body? = none) : n.ClosesIfTidy all := by
  intro body hb
  rw [h] at hb
  cases hb

/-! ### Tokens that are put together -/

namespace Braced

/-- Tokens from which nothing stems. -/
theorem bare (hheld : level ≠ .loose → Held 0 w) (hrise : level = .whole → rise w = 0) :
    Braced all level [] w where
  held := hheld
  closed hl := iff_of_true (hrise hl) tidy_nil
  own := by
    rw [preorder]
    exact List.forall_mem_nil _

theorem append (hu : Braced all level a u) (hv : Braced all level b v) :
    Braced all level (a ++ b) (u ++ v) where
  held hl := (hu.held hl).append (hv.held hl)
  closed hl := by
    have hloose : level ≠ .loose := hl ▸ Wholeness.noConfusion
    have hu' := (hu.held hloose).rise_nonneg
    have hv' := (hv.held hloose).rise_nonneg
    rw [tidy_append, ← hu.closed hl, ← hv.closed hl, Token.rise_append]
    omega
  own := by
    rw [Node.preorder_append]
    exact List.forall_mem_append.2 ⟨hu.own, hv.own⟩

/-- A pair of braces changes nothing. -/
theorem rise_braces {left right : Token} (hl : left.kind = .sign .leftBrace)
    (hr : right.kind = .sign .rightBrace) : rise (left :: w ++ [right]) = rise w := by
  rw [List.cons_append, rise, Token.rise_append, rise, rise, hl, hr, TokenKind.rise, TokenKind.rise]
  omega

theorem held_braces {left right : Token} (hl : left.kind = .sign .leftBrace)
    (hr : right.kind = .sign .rightBrace) (hw : Held 0 w) : Held 0 (left :: w ++ [right]) := by
  have hrise := hw.rise_nonneg
  rw [Int.zero_add] at hrise
  rw [List.cons_append, Held, hl, TokenKind.rise, Token.held_append, Held, Held, hr, TokenKind.rise]
  refine ⟨Int.le_refl 0, hw.mono (by decide), ?_, ?_⟩ <;> omega

theorem braces {left right : Token} (hl : left.kind = .sign .leftBrace)
    (hr : right.kind = .sign .rightBrace) (h : Braced all level a w) :
    Braced all level a (left :: w ++ [right]) where
  held hloose := held_braces hl hr (h.held hloose)
  closed hw := by
    rw [rise_braces hl hr]
    exact h.closed hw
  own := h.own

/-- A node around others that is nothing but a frame. -/
theorem around (hn : n.isFrame = true) (h : Braced all level n.children w) :
    Braced all level [n] w where
  held := h.held
  closed hl := by
    rw [h.closed hl, tidy_singleton]
    exact (and_iff_right (Node.isEven_of_isFrame hn)).symm
  own := by
    rw [Node.preorder_singleton]
    exact List.forall_mem_cons.2 ⟨Node.closesIfTidy_of_body? (Node.body?_of_isFrame hn), h.own⟩

/-- A further comparison copies what was kept, which makes no difference. -/
theorem comparison {chain : Chain} {operator : BinaryOperator} {right : Expression}
    (ho : operator.isComparison = true)
    (hk : preorder chain.kept ⊆ preorder [.expression chain.tree])
    (h : Braced all level ([.expression chain.tree] ++ [.expression right]) w) :
    Braced all level [.expression (chain.extend operator right).tree] w where
  held := h.held
  closed hl := by
    rw [h.closed hl, tidy_append]
    exact (Chain.forall_preorder_extend ho hk fun _ _ _ _ => trivial).symm
  own := by
    have hown := h.own
    rw [Node.preorder_append, List.forall_mem_append] at hown
    exact (Chain.forall_preorder_extend ho hk fun _ _ _ _ =>
      Node.closesIfTidy_of_body? rfl).2 hown

/-- **A subquery** closes its own brace if the braces in it are all closed. -/
theorem subquery {body : Query} {word left right : Token} (horder : Orderly all)
    (hrow : InRow all (word :: left :: w ++ [right])) (hbody : n.body? = some body)
    (hplain : word.kind.isPlain = true) (hl : left.kind = .sign .leftBrace)
    (hr : right.kind = .sign .rightBrace) (hspan : n.span = hull (word :: left :: w ++ [right]))
    (h : Braced all .whole [.query body] w) :
    Braced all level [n] (word :: left :: w ++ [right]) where
  held _ := by
    have hheld : Held 0 [word] :=
      ⟨Int.le_refl 0, by rw [Token.rise_of_isPlain hplain]; exact Int.le_refl 0⟩
    exact hheld.append (held_braces hl hr (h.held nofun))
  closed _ := by
    have hrise : rise (word :: left :: w ++ [right]) = rise w := by
      rw [List.cons_append, rise, Token.rise_of_isPlain hplain, Int.zero_add, rise_braces hl hr]
    rw [hrise, h.closed rfl, tidy_singleton (n := n), Node.children_of_body? hbody,
      tidy_singleton (n := .subquery body)]
    exact ((and_iff_right (Node.isEven_of_body? hbody)).trans (and_iff_right trivial)).symm
  own := by
    obtain ⟨pre, post, -, hall⟩ := hrow
    rw [Node.preorder_singleton, Node.children_of_body? hbody, Node.preorder_singleton]
    refine List.forall_mem_cons.2 ⟨fun other hother => ?_, List.forall_mem_cons.2
      ⟨Node.closesIfTidy_of_body? rfl, h.own⟩⟩
    obtain rfl := Option.some.inj (hbody.symm.trans hother)
    rw [hspan, Token.closesOwn_iff_rise horder.apart horder.paired horder.ended hall hl hr
      (h.held nofun), h.closed rfl]

/-- There are no subqueries in a stand-in. -/
theorem own_standIn (span : Span) : ∀ n ∈ preorder [.clause (.error span)], n.ClosesIfTidy all := by
  rw [Node.preorder_singleton]
  refine List.forall_mem_cons.2 ⟨Node.closesIfTidy_of_body? rfl, ?_⟩
  change ∀ n ∈ preorder [], n.ClosesIfTidy all
  rw [preorder]
  exact List.forall_mem_nil _

/-- **A stand-in** is even if all braces are closed that it covers. -/
theorem standIn (horder : Orderly all) (hrow : InRow all (v ++ w)) (hv : Held 0 v)
    (hw : Token.Skips 0 w) (hne : v ++ w ≠ []) :
    Braced all .whole [.clause (.error (hull (v ++ w)))] (v ++ w) where
  held _ := hv.append (horder.held_of_skips hrow.right hw)
  closed _ := by
    rw [tidy_singleton, Node.IsEven, Token.filter_isIn_hull horder.apart hrow hne]
    exact (and_iff_left tidy_nil).symm
  own := own_standIn _

end Braced

end Trees

/-! ### Trees that stem from tokens -/

/-- **What is known of the braces among the tokens from which trees stem.** -/
theorem Stems.braced {all : List Token} (horder : Orderly all) {level : Wholeness}
    {nodes kept : List Node} {starts : List Nat} {tokens : List Token}
    (h : Stems level nodes kept starts tokens) (hrow : InRow all tokens) :
    Braced all level nodes tokens := by
  induction h with
  | nil => exact .bare (fun _ => Int.le_refl 0) fun _ => rfl
  | append _ _ ihl ihr => exact (ihl hrow.left).append (ihr hrow.right)
  | @token _ t plain =>
    have hrise := Token.rise_of_isPlain plain
    refine .bare (fun _ => ⟨Int.le_refl 0, ?_⟩) fun _ => ?_
    · rw [hrise]
      exact Int.le_refl 0
    · rw [rise, hrise]
      rfl
  | forget _ _ ih => exact ih hrow
  | @braces _ _ _ left right w opens closes _ ih =>
    exact (ih (hrow.mono ⟨[left], [right], rfl⟩)).braces opens closes
  | around frame _ _ ih => exact (ih hrow).around frame
  | comparison compares tree _ _ iht ihb iho =>
    have hall := ((iht hrow.left.left).append (ihb hrow.left.right)).append (iho hrow.right)
    exact .comparison compares tree.preorder_kept_subset hall
  | @subquery _ n body word left right w isBody _ plain opens closes span _ ih =>
    exact .subquery horder hrow isBody plain opens closes span
      (ih (hrow.mono ⟨[word, left], [right], rfl⟩))
  | standIn _ skipped nonempty ih =>
    exact .standIn horder hrow ((ih hrow.left).held Wholeness.noConfusion) skipped nonempty
  | strayed =>
    exact ⟨fun hl => absurd rfl hl, Wholeness.noConfusion, Braced.own_standIn _⟩
  | waste => exact .bare (fun hl => absurd rfl hl) Wholeness.noConfusion
  | @opening left opens =>
    refine .bare (fun _ => ⟨Int.le_refl 0, ?_⟩) Wholeness.noConfusion
    change (0 : Int) ≤ 0 + left.kind.rise
    rw [opens]
    decide
  | tear _ bounded ih => exact .bare (fun _ => (ih hrow).held bounded) Wholeness.noConfusion
  | loosen _ ih =>
    exact ⟨fun hl => absurd rfl hl, Wholeness.noConfusion, (ih hrow).own⟩

/-! ### Documents -/

/-- What is known of the braces in a text whose brackets are paired. -/
theorem exists_braced {source : String} {options : Options} {document : Document}
    (hp : Token.Paired (tokensRead source options.dialect))
    (h : (parse source options).document = some document) :
    ∃ w, Braced (tokensRead source options.dialect) .loose [.document document] w := by
  obtain ⟨w, rest, hw, hrest, hstems⟩ := stems_of_parse h
  have horder : Orderly (tokensRead source options.dialect) :=
    ⟨apart_tokensRead _ _, exists_tokensRead_eq _ _, hp⟩
  exact ⟨w, hstems.braced horder ⟨[], rest, hrest, hw⟩⟩

/-- **A subquery closes its own brace if and only if it is tidy.** In a text whose brackets are
paired, the span of a called subquery or of an existence test ends with the partner of the brace
that opens the body exactly if each stand-in inside covers as many closing braces as opening
ones. -/
theorem closesOwn_iff_tidy {source : String} {options : Options} {document : Document} {n : Node}
    {body : Query} (hp : Token.Paired (tokensRead source options.dialect))
    (h : (parse source options).document = some document) (hn : n ∈ document.nodes)
    (hb : n.body? = some body) :
    Token.ClosesOwn (tokensRead source options.dialect) n.span ↔
      Tidy (tokensRead source options.dialect) [.query body] := by
  obtain ⟨w, hbraced⟩ := exists_braced hp h
  exact hbraced.own n hn body hb

/-! ### Calls of a single stand-in -/

/-- A body that is one stand-in and nothing else. -/
def standInBody (span : Span) : Query := ⟨[.error span], [], span⟩

theorem tidy_standIn {all : List Token} {span : Span} :
    Tidy all [.query (standInBody span)] ↔ rise (all.filter (·.isIn span)) = 0 := by
  have hchildren : (Node.query (standInBody span)).children = [.clause (.error span)] := rfl
  rw [tidy_singleton, hchildren, tidy_singleton]
  exact (and_iff_right trivial).trans (and_iff_left tidy_nil)

/-- Whether a query begins with a call of such a body. -/
def callsStandIn (call span : Span) (query : Query) : Bool :=
  match query.clauses with
  | .callQuery ⟨[.error inner], [], body⟩ outer :: _ =>
    decide (inner = span ∧ body = span ∧ outer = call)
  | _ => false

/-- In a document with such a query, the call is one of the nodes. -/
theorem exists_call (source : String) (options : Options) (call span : Span)
    (h : ((parseTokens (tokenize source options.dialect).tokens options).document.map
      fun document => document.queries.any (callsStandIn call span)) = some true) :
    ∃ document, (parse source options).document = some document ∧
      .clause (.callQuery (standInBody span) call) ∈ document.nodes := by
  obtain ⟨document, hparse, query, hquery, hcalls⟩ := exists_query_of_any source options _ h
  refine ⟨document, hparse, ?_⟩
  obtain ⟨x, hx, hxq⟩ := List.mem_filterMap.1 hquery
  have hroot : .document document ∈ document.nodes := Node.mem_preorder List.mem_cons_self
  have hstatement : .statement x ∈ document.nodes :=
    Node.mem_preorder_of_mem_children hroot (List.mem_map_of_mem hx)
  have hquery : .query query ∈ document.nodes :=
    Node.mem_preorder_of_mem_children hstatement (by simp [Node.children, hxq])
  refine Node.mem_preorder_of_mem_children hquery (List.mem_map_of_mem (List.mem_append_left _ ?_))
  unfold callsStandIn at hcalls
  split at hcalls
  · next hclauses =>
    obtain ⟨rfl, rfl, rfl⟩ := of_decide_eq_true hcalls
    rw [hclauses]
    exact List.mem_cons_self
  · cases hcalls

/-- Parentheses in a stand-in do no harm. -/
theorem closesOwn_iff_tidy_parentheses :
    let options := (Options.standard.withDialect .neo4j5).withRecoverErrors true
    let all := tokensRead "CALL { RETURN ( ) }" options.dialect
    let call : Node := .clause (.callQuery (standInBody ⟨7, 17⟩) ⟨0, 19⟩)
    ∃ document, Token.Paired all ∧
      (parse "CALL { RETURN ( ) }" options).document = some document ∧ call ∈ document.nodes ∧
      call.body? = some (standInBody ⟨7, 17⟩) ∧
      (Token.ClosesOwn all call.span ↔ Tidy all [.query (standInBody ⟨7, 17⟩)]) ∧
      Token.ClosesOwn all call.span := by
  intro options all call
  have hpaired : Token.Paired all := by decide +kernel
  obtain ⟨document, hparse, hcall⟩ := exists_call "CALL { RETURN ( ) }" options ⟨0, 19⟩ ⟨7, 17⟩
    (by decide +kernel)
  have hiff := closesOwn_iff_tidy hpaired hparse hcall rfl
  have heven : rise (all.filter (·.isIn ⟨7, 17⟩)) = 0 := by decide +kernel
  exact ⟨document, hpaired, hparse, hcall, rfl, hiff, hiff.2 (tidy_standIn.2 heven)⟩

/-- **A call may end too early**: with the brace of a map that was opened before a failure. -/
theorem not_closesOwn_call :
    let options := (Options.standard.withDialect .neo4j5).withRecoverErrors true
    let all := tokensRead "CALL { RETURN {a: } } RETURN 1" options.dialect
    Token.Paired all ∧ ∃ document, ∃ n ∈ document.nodes,
      (parse "CALL { RETURN {a: } } RETURN 1" options).document = some document ∧
      n.body?.isSome ∧ ¬ Token.ClosesOwn all n.span := by
  intro options all
  have hpaired : Token.Paired all := by decide +kernel
  obtain ⟨document, hparse, hcall⟩ := exists_call "CALL { RETURN {a: } } RETURN 1" options
    ⟨0, 19⟩ ⟨7, 17⟩ (by decide +kernel)
  obtain ⟨w, hbraced⟩ := exists_braced hpaired hparse
  refine ⟨hpaired, document, _, hcall, hparse, rfl, ?_⟩
  rw [hbraced.own _ hcall _ rfl, tidy_standIn]
  decide +kernel

end Cypher
