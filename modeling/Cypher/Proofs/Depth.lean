import Cypher.Proofs.Growth.Document
import Cypher.Proofs.Layout.Source
import Cypher.Proofs.RoundTrip

/-!
# How far down a tree goes

The limit for nesting is a limit for the rules that nest. What is read in a loop behind an operand
goes around the operand without taking a level, so that no limit keeps a tree from being as high as
its text is long: `x.x.x` and so on goes down once for each key (`Cypher.Document.exists_way`).

What the limit does bound are the ways down on which only nesting counts (`Cypher.Node.Nesting`). An
expression is not counted where the way goes on to the operand that the expression goes on with.
With `d` levels of nesting there are at most `2 * d + 2` steps on such a way
(`Cypher.Document.nesting_le`): two for each level, as the last comparison of a chain stands below
the word that joins it to the others, and two more for a query and a map in one of its patterns.
-/

namespace Cypher

open Grammar (Chain)

/-! ### Ways down a tree -/

namespace Node

/-- **A way down a tree**, from a node, with the number of expressions and queries on it. -/
inductive Way : Node → Nat → Prop
  /-- The way ends. -/
  | stop (n : Node) : Way n n.own
  /-- The way goes on inside the node. -/
  | step {n c : Node} {k : Nat} (h : c ∈ n.children) (way : Way c k) : Way n (n.own + k)

/-- A way through a node that does not count. -/
theorem Way.through {n c : Node} {k : Nat} (hn : n.own = 0) (h : c ∈ n.children) (way : Way c k) :
    Way n k := by
  have hway := Way.step h way
  rwa [hn, Nat.zero_add] at hway

/-- **A way down a tree on which only nesting counts.** -/
inductive Nesting : Node → Nat → Prop
  /-- The way ends. -/
  | stop (n : Node) : Nesting n n.own
  /-- The way goes on to the operand that the node goes on with, and the node does not count. -/
  | along {n c : Node} {k : Nat} (h : c ∈ n.carried) (way : Nesting c k) : Nesting n k
  /-- The way goes on elsewhere. -/
  | down {n c : Node} {k : Nat} (h : c ∈ n.beside) (way : Nesting c k) : Nesting n (n.own + k)

/-- The ways down from an operator and its operands. -/
theorem Nesting.of_join {operator : BinaryOperator} {left right : Expression} {m : Nat}
    (h : (Node.expression (Grammar.join operator left right)).Nesting m) :
    m = 1 ∨ (Node.expression left).Nesting m ∨
      ∃ k, (Node.expression right).Nesting k ∧ m = 1 + k := by
  cases h with
  | stop => exact Or.inl rfl
  | along h way =>
    obtain rfl := List.mem_singleton.1 h
    exact Or.inr (Or.inl way)
  | down h way =>
    obtain rfl := List.mem_singleton.1 h
    exact Or.inr (Or.inr ⟨_, way, rfl⟩)

end Node

/-! ### Growth bounds nesting -/

section Growth

variable {fold level k : Nat} {nodes kept : List Node}

/-- The ways down from some nodes are at most so long. -/
def Shallow (level : Nat) (nodes : List Node) : Prop := ∀ n ∈ nodes, ∀ m, n.Nesting m → m ≤ level

theorem Shallow.singleton {n : Node} (h : ∀ m, n.Nesting m → m ≤ level) : Shallow level [n] := by
  intro c hc
  rwa [List.mem_singleton.1 hc]

/-- A further comparison stands on top of a chain, and below it the operand that was kept. -/
theorem Grammar.Chain.shallow_extend {chain : Chain} {operator : BinaryOperator}
    {right : Expression} (ho : operator.isComparison = true)
    (htree : Shallow (level + 2) [.expression chain.tree]) (hkept : Shallow level chain.kept)
    (hright : Shallow level [.expression right]) :
    Shallow (level + 2) [.expression (chain.extend operator right).tree] := by
  have hr := hright _ List.mem_cons_self
  have ht := htree _ List.mem_cons_self
  obtain ⟨tree, _ | left⟩ := chain
  · rw [Chain.extend, if_pos ho]
    refine .singleton fun m hm => ?_
    rcases hm.of_join with rfl | hm | ⟨k, hk, rfl⟩
    · exact Nat.succ_le_succ (Nat.zero_le _)
    · exact ht m hm
    · have := hr k hk
      omega
  · rw [Chain.extend, if_pos ho]
    have hl := hkept _ List.mem_cons_self
    refine .singleton fun m hm => ?_
    rcases hm.of_join with rfl | hm | ⟨k, hk, rfl⟩
    · exact Nat.succ_le_succ (Nat.zero_le _)
    · exact ht m hm
    · -- below the word that joins it to the chain, the comparison is a level above its operands
      have hle : k ≤ level + 1 := by
        rcases hk.of_join with rfl | hk | ⟨j, hj, rfl⟩
        · exact Nat.succ_le_succ (Nat.zero_le _)
        · exact Nat.le_succ_of_le (hl k hk)
        · have := hr j hj
          omega
      omega

/-- **Ways down are no longer than the level**, and shorter by two from what is kept. -/
theorem Grown.shallow (h : Grown fold level nodes kept k) :
    Shallow level nodes ∧ ∀ n ∈ kept, ∀ m, n.Nesting m → m + 2 ≤ level := by
  induction h with
  | nil => exact ⟨fun n hn => absurd hn List.not_mem_nil, fun n hn => absurd hn List.not_mem_nil⟩
  | append _ _ ihl ihr =>
    refine ⟨fun n hn => ?_, fun n hn => absurd hn List.not_mem_nil⟩
    rcases List.mem_append.1 hn with hn | hn
    · exact ihl.1 n hn
    · exact ihr.1 n hn
  | mono _ _ hl _ ih =>
    exact ⟨fun n hn m hm => Nat.le_trans (ih.1 n hn m hm) hl,
      fun n hn m hm => Nat.le_trans (ih.2 n hn m hm) hl⟩
  | drop _ ih => exact ⟨ih.1, fun n hn => absurd hn List.not_mem_nil⟩
  | @around fold level k n own _ ih =>
    refine ⟨.singleton fun m hm => ?_, fun n hn => absurd hn List.not_mem_nil⟩
    rw [← n.carried_append_beside] at ih
    cases hm with
    | stop => rw [own]; exact Nat.zero_le _
    | along h way => exact ih.1 _ (List.mem_append_left _ h) _ way
    | down h way =>
      have := ih.1 _ (List.mem_append_right _ h) _ way
      omega
  | @query fold level k q _ ih =>
    refine ⟨.singleton fun m hm => ?_, fun n hn => absurd hn List.not_mem_nil⟩
    cases hm with
    | stop => exact Nat.succ_le_succ (Nat.zero_le _)
    | along h way => cases h
    | down h way =>
      have := ih.1 _ h _ way
      simp only [Node.own]
      omega
  | @expression fold level k l e _ _ ihc ihb =>
    refine ⟨.singleton fun m hm => ?_, fun n hn => absurd hn List.not_mem_nil⟩
    cases hm with
    | stop => exact Nat.succ_le_succ (Nat.zero_le _)
    | along h way => exact ihc.1 _ h _ way
    | down h way =>
      -- what is beside the operand is a level further down, and only here does the node count
      have := ihb.1 _ h _ way
      simp only [Node.own]
      omega
  | @comparison fold level k l chain operator right ho _ _ iht iho =>
    constructor
    · exact Chain.shallow_extend ho iht.1
        (fun n hn m hm => Nat.le_of_add_le_add_right (iht.2 n hn m hm)) iho.1
    · intro n hn m hm
      rw [Chain.kept_extend ho] at hn
      exact Nat.add_le_add_right (iho.1 n hn m hm) 2

end Growth

namespace Document

/-- **The limit for nesting bounds the ways down a document**, as far as nesting counts. -/
theorem nesting_le (source : String) (options : Options) (document : Document) (k : Nat)
    (h : (parse source options).document = some document)
    (way : (Node.document document).Nesting k) : k ≤ 2 * options.maxNestingDepth + 2 := by
  rw [document_parse] at h
  exact (Grammar.grown_read h).shallow.1 _ List.mem_cons_self k way

theorem nesting_le_sum :
    ∃ document, (parse "RETURN a + b" .standard).document = some document ∧
      (Node.document document).Nesting 3 ∧ 3 ≤ 2 * Options.standard.maxNestingDepth + 2 := by
  let sum : Expression := .binary .add (.reference "a" ⟨7, 8⟩) (.reference "b" ⟨11, 12⟩) ⟨7, 12⟩
  let item : ProjectionItem Expression := ⟨sum, none, ⟨7, 12⟩⟩
  let query : Query :=
    ⟨[.returnColumns ⟨false, false, [item], [], none, none⟩ ⟨0, 12⟩], [], ⟨0, 12⟩⟩
  let document : Document := ⟨[.query query], ⟨0, 12⟩⟩
  have htokens : (tokenize "RETURN a + b" .openCypher).tokens =
      [⟨.keyword .RETURN, "RETURN", ⟨0, 6⟩, 1, 1⟩, ⟨.identifier "a", "a", ⟨7, 8⟩, 1, 8⟩,
        ⟨.sign .plus, "+", ⟨9, 10⟩, 1, 10⟩, ⟨.identifier "b", "b", ⟨11, 12⟩, 1, 12⟩,
        ⟨.endOfInput, "", ⟨12, 12⟩, 1, 13⟩] := by decide +kernel
  have h : (parse "RETURN a + b" .standard).document = some document := by
    rw [document_parse, show Options.standard.dialect = .openCypher from rfl, htokens]
    rfl
  have hright : (Node.expression (.reference "b" ⟨11, 12⟩)).Nesting 1 := .stop _
  have hsum : (Node.expression sum).Nesting 2 := .down List.mem_cons_self hright
  have hitem : (Node.item item).Nesting 2 := .down List.mem_cons_self hsum
  have hclause : (Node.clause (.returnColumns ⟨false, false, [item], [], none, none⟩
      ⟨0, 12⟩)).Nesting 2 := .down List.mem_cons_self hitem
  have hquery : (Node.query query).Nesting 3 := .down List.mem_cons_self hclause
  have hstatement : (Node.statement (.query query)).Nesting 3 := .down List.mem_cons_self hquery
  have way : (Node.document document).Nesting 3 := .down List.mem_cons_self hstatement
  exact ⟨document, h, way, nesting_le _ _ _ 3 h way⟩

end Document

/-! ### Keys of keys -/

/-- The formula `x.x.x` with a number of keys. -/
def Formula.keys : Nat → Formula
  | 0 => .reference "x"
  | n + 1 => .property (keys n) "x"

/-- The text that returns it. -/
def keysText (n : Nat) : List Char := "RETURN x".toList ++ (List.replicate n ['.', 'x']).flatten

theorem written_keys_succ (n : Nat) :
    (Formula.keys (n + 1)).written (fun _ => false) =
      (Formula.keys n).written (fun _ => false) ++ [.sign .dot, .identifier "x"] := by
  cases n <;> rfl

theorem written_keys (n : Nat) :
    (Formula.keys n).written (fun _ => false) =
      .identifier "x" :: (List.replicate n [.sign .dot, .identifier "x"]).flatten := by
  induction n with
  | zero => rfl
  | succ n ih =>
    rw [written_keys_succ, ih, List.replicate_succ', List.flatten_append, List.flatten_singleton,
      List.cons_append]

/-- There are no parentheses around keys. -/
theorem ne_leftParen_of_mem_written_keys {n : Nat} {kind : TokenKind}
    (h : kind ∈ (Formula.keys n).written fun _ => false) : kind ≠ .sign .leftParen := by
  rw [written_keys, List.mem_cons, List.mem_flatten] at h
  rcases h with rfl | ⟨key, hkey, hmem⟩
  · exact nofun
  · rw [List.eq_of_mem_replicate hkey] at hmem
    rcases List.mem_cons.1 hmem with rfl | hmem
    · decide
    · rw [List.mem_singleton.1 hmem]
      exact nofun

theorem Piece.map_kind_tokens (reserved : Keyword → Bool) (p : Place) (pieces : List Piece) :
    (tokens reserved p pieces).map Token.kind =
      pieces.filterMap (kind? reserved) ++ [.endOfInput] := by
  induction pieces generalizing p with
  | nil => rfl
  | cons x xs ih =>
    rw [tokens, List.map_append, ih, List.filterMap_cons, token?]
    cases x.kind? reserved <;> rfl

theorem Piece.split_of_front {c : Char} {rest : List Char} {shape : Shape} {count : Nat}
    (h : front c rest = (shape, count)) :
    split (c :: rest) = ⟨shape, c :: rest.take count⟩ :: split (rest.drop count) := by
  rw [split, h]

/-- A name before keys. -/
theorem split_name_keys (n : Nat) :
    Piece.split ('x' :: (List.replicate n ['.', 'x']).flatten) =
      ⟨.word, ['x']⟩ :: Piece.split (List.replicate n ['.', 'x']).flatten :=
  Piece.split_of_front (show _ = (_, 0) by cases n <;> rfl)

theorem split_keys (n : Nat) :
    Piece.split (List.replicate n ['.', 'x']).flatten =
      (List.replicate n [⟨.sign .dot, ['.']⟩, ⟨.word, ['x']⟩]).flatten := by
  induction n with
  | zero => rw [List.replicate_zero, List.flatten_nil, Piece.split]; rfl
  | succ n ih =>
    have hdot : Piece.front '.' ('x' :: (List.replicate n ['.', 'x']).flatten) =
        (.sign .dot, 0) := rfl
    rw [List.replicate_succ, List.flatten_cons, List.replicate_succ, List.flatten_cons, ← ih]
    exact (Piece.split_of_front hdot).trans (congrArg (_ :: ·) (split_name_keys n))

theorem split_keysText (n : Nat) :
    Piece.split (keysText n) = ⟨.word, "RETURN".toList⟩ :: ⟨.blank, [' ']⟩ :: ⟨.word, ['x']⟩ ::
      (List.replicate n [⟨.sign .dot, ['.']⟩, ⟨.word, ['x']⟩]).flatten := by
  have hreturn : Piece.front 'R' ("ETURN x".toList ++ (List.replicate n ['.', 'x']).flatten) =
      (.word, 5) := rfl
  have hblank : Piece.front ' ' ('x' :: (List.replicate n ['.', 'x']).flatten) = (.blank, 0) := rfl
  rw [← split_keys]
  refine (Piece.split_of_front hreturn).trans (congrArg (_ :: ·) ?_)
  exact (Piece.split_of_front hblank).trans (congrArg (_ :: ·) (split_name_keys n))

theorem map_kind_tokenize_keys (n : Nat) :
    (tokenize (String.ofList (keysText n)) .openCypher).tokens.map Token.kind =
      .keyword .RETURN :: ((Formula.keys n).written (fun _ => false) ++ [.endOfInput]) := by
  have hkey : [⟨.sign .dot, ['.']⟩, ⟨.word, ['x']⟩].filterMap
      (Piece.kind? Dialect.openCypher.rules.reserves) = [.sign .dot, .identifier "x"] := rfl
  have hstart : ∀ pieces, (⟨.word, "RETURN".toList⟩ :: ⟨.blank, [' ']⟩ :: ⟨.word, ['x']⟩ ::
      pieces).filterMap (Piece.kind? Dialect.openCypher.rules.reserves) =
      .keyword .RETURN :: .identifier "x" ::
        pieces.filterMap (Piece.kind? Dialect.openCypher.rules.reserves) := fun _ => rfl
  rw [tokenize, Lexed.ofText, String.toList_ofList, split_keysText, Piece.map_kind_tokens,
    written_keys, hstart, List.filterMap_flatten, List.map_replicate, hkey]
  rfl

namespace Grammar

open Rule

variable {setting : Setting} {inner : Inner} {strength : Nat} {s t : State}

/-- **Keys are read in a loop**, whatever the room for nesting. -/
theorem spine_keys (hi : inner.GoesOn) (hs : strength ≤ suffixStrength) (n : Nat)
    (hp : s.Passes ((Formula.keys n).written fun _ => false) t) (hc : s.cursor.Closed)
    (ht : Calm t.kinds) : Spine setting inner strength s t True (Formula.keys n) true := by
  induction n generalizing t with
  | zero =>
    obtain ⟨x, hr, hx⟩ := run_leading_operand setting inner (Nat.lt_succ_self _) hp ht
    exact spine_of_leading (hr ▸ .done hx)
  | succ n ih =>
    rw [written_keys_succ] at hp
    obtain ⟨u, hsu, hut⟩ := hp.of_append
    have hkey : u.Passes [.sign .dot, nameWritten (fun _ => false) "x"] t := hut
    have hdot : opensSuffix u.cursor.kind = true := by rw [hut.kind_eq]; rfl
    have hcalm : Calm u.kinds := hut.kinds_eq ▸ calm_dot _ ht
    exact ((ih hsu hcalm).goOn hi (hsu.closed hc) fun chain hf _ =>
      step_of_suffix hdot hs (reads_property hf hkey)).congr and_self_iff

theorem readsLast_keys (hset : setting.opensPattern = Cursor.opensPattern) (room n : Nat) :
    ReadsLast setting (runNested setting body (room + 1)) (fun _ => false) (Formula.keys n) := by
  intro s t hp hc ht
  have hends : TokenKind.EndsFormula t.cursor.kind := Or.inr (Or.inr ht)
  -- the one level is taken for the expression as a whole
  have hspine : ∀ depth, Spine setting (runNested setting body room) 0
      { s with depth := depth } { t with depth := depth } True (Formula.keys n) true :=
    fun depth => spine_keys (goesOn_runNested setting body room) (Nat.zero_le _) n
      (hp.deeper depth) hc (followedBy_of_endsFormula hends (Formula.keys n) _).calm
  have hclear : s.Clear setting ((Formula.keys n).written fun _ => false) :=
    hp.clear hset fun _ => ne_leftParen_of_mem_written_keys
  exact (reads_nested hp.depth_eq hspine (stops_of_endsFormula hends 0 _)).congr
    (iff_of_true trivial hclear)

end Grammar

/-- No path opens where there is no parenthesis. -/
theorem Cursor.opensPattern_of_onward {c c' : Cursor}
    (h : ∀ t ∈ c.current :: c.ahead, t.kind ≠ .sign .leftParen) (ho : c.Onward c') :
    c'.opensPattern = false := by
  have hall := ho.induct
    (p := fun c => ∀ t ∈ c.current :: c.ahead, t.kind ≠ .sign .leftParen) (fun c hc => ?_) h
  · exact opensPattern_of_kind_ne (hall _ List.mem_cons_self)
  · unfold Cursor.advance
    split
    · exact hc
    · next hahead => exact fun t ht => hc t (by rw [hahead]; exact List.mem_cons_of_mem _ ht)

/-- **Keys are read with a single level of nesting.** -/
theorem returns_keys (n : Nat) :
    (parseTokens (tokenize (String.ofList (keysText n)) .openCypher).tokens
      (Options.standard.withMaxNestingDepth 1)).Returns (Formula.keys n) := by
  have hkinds := map_kind_tokenize_keys n
  have hset : (Setting.ofOptions (Options.standard.withMaxNestingDepth 1)).opensPattern =
      Cursor.opensPattern := rfl
  refine (Grammar.returns_iff_of_readsLast hset (Grammar.readsLast_keys hset 0 n) (Or.inr rfl)
    hkinds).2 fun c ho => Cursor.opensPattern_of_onward (fun t ht => ?_) ho
  have hproper : (TokenKind.keyword .RETURN :: (Formula.keys n).written fun _ => false).all
      TokenKind.isProper = true := Formula.all_isProper_written _ _
  have hstart := State.kinds_start hproper (Or.inr rfl) hkinds
  have hmem : t.kind ∈ (State.start _).kinds := List.mem_map_of_mem ht
  rw [hstart] at hmem
  rcases List.mem_cons.1 hmem with hk | hmem
  · rw [hk]; exact nofun
  · rcases List.mem_append.1 hmem with hmem | hmem
    · exact ne_leftParen_of_mem_written_keys hmem
    · rw [List.mem_singleton.1 hmem]; exact nofun

/-! ### Ways down keys -/

theorem exists_base_of_formula? {e : Expression} {f : Formula} {key : String}
    (h : e.formula? = some (.property f key)) :
    ∃ base name span, e = .property base name span ∧ base.formula? = some f := by
  unfold Expression.formula? at h
  split at h
  · cases h
  · cases h
  · cases h
  · split at h <;> cases h
  · next base name span =>
    obtain ⟨g, hg, h⟩ := Option.bind_eq_some_iff.1 h
    cases h
    exact ⟨base, name, span, rfl, hg⟩
  all_goals simp [Option.bind_eq_some_iff] at h

/-- **Each key is a step on the way down.** -/
theorem way_of_keys {n : Nat} {e : Expression} (h : e.formula? = some (Formula.keys n)) :
    (Node.expression e).Way (n + 1) := by
  induction n generalizing e with
  | zero => exact .stop (.expression e)
  | succ n ih =>
    obtain ⟨base, name, span, rfl, hbase⟩ := exists_base_of_formula? h
    have hstep : (Node.expression (.property base name span)).Way (1 + (n + 1)) :=
      .step List.mem_cons_self (ih hbase)
    rwa [Nat.add_comm] at hstep

namespace Document

/-- **There are ways of any length**, with a single level of nesting. -/
theorem exists_way (n : Nat) :
    ∃ document, (parse (String.ofList (keysText n))
        (Options.standard.withMaxNestingDepth 1)).document = some document ∧
      (Node.document document).Way (n + 2) := by
  obtain ⟨-, _, h, _, _, rfl, _, query, rfl, e, item, clause, rfl, he⟩ := returns_keys n
  refine ⟨_, (document_parse _ _).trans h, ?_⟩
  have hitem : (Node.item ⟨e, none, item⟩).Way (n + 1) :=
    .through rfl List.mem_cons_self (way_of_keys he)
  have hclause : (Node.clause (.returnColumns ⟨false, false, [⟨e, none, item⟩], [], none, none⟩
      clause)).Way (n + 1) := .through rfl List.mem_cons_self hitem
  have hquery := Node.Way.step (n := .query ⟨[_], [], query⟩) List.mem_cons_self hclause
  rw [Nat.add_comm] at hquery
  exact .through rfl List.mem_cons_self (.through rfl List.mem_cons_self hquery)

/-- **The limit for nesting does not bound the height of a document.** -/
theorem not_way_le :
    ¬∀ limit, ∃ bound, ∀ (source : String) (options : Options) (document : Document) (k : Nat),
      options.maxNestingDepth = limit → (parse source options).document = some document →
      (Node.document document).Way k → k ≤ bound := by
  intro hall
  obtain ⟨bound, hbound⟩ := hall 1
  obtain ⟨document, h, way⟩ := exists_way bound
  have hle := hbound _ _ document _ rfl h way
  omega

end Document

end Cypher
