import Cypher.Proofs.Blocks
import Cypher.Proofs.Growth.Basic
import Cypher.Check.Deprecation

/-!
# Where trees come from

Reading turns tokens into trees, and each part of a tree comes from the tokens that were passed for
it. `Cypher.Stems` says once what trees come from which tokens. For the braces among the tokens this
is not as plain as it may seem:

* *Rules that come to their end* pass braces in pairs: around a map and around a subquery.
* *Rules that fail* may leave braces open that they have passed, and no tree comes of them.
* *A stand-in* for a clause stems from the tokens of a clause that failed and from those skipped
  after that. The skipping counts brackets from zero and knows nothing of those left open before.
* *Outside of subqueries*, a closing brace may even be skipped that closes nothing.

So there are three ways for nodes to stem from tokens, told apart by `Cypher.Wholeness`. A second
thing that is kept track of is how often the tree makes use of a token: a column with a new name, a
clause, a union and some expressions have the beginning of a token for a mark of their own. Copies
are made in one place only, where a chain of comparisons goes on with an operand that it has kept.

That what a rule reads stems from the tokens that it passes is shown by looking at the rules of the
grammar one by one. The judgement for this is `Cypher.Rule.Sprouts`.
-/

namespace Cypher

open Grammar (Chain)
open Rooted (roots map_eq_roots)

/-! ### Braces -/

/-- Whether a token is neither a brace nor the end of the text. -/
def TokenKind.isPlain : TokenKind → Bool
  | endOfInput | sign .leftBrace | sign .rightBrace => false
  | _ => true

theorem TokenKind.ne_endOfInput_of_isPlain {kind : TokenKind} (h : kind.isPlain = true) :
    kind ≠ .endOfInput := fun he => nomatch he ▸ h

/-- **Tokens skipped with some brackets open**, the outermost closing brace not among them. -/
def Token.Skips : Nat → List Token → Prop
  | _, [] => True
  | depth, t :: ts =>
    (t.kind = .sign .rightBrace → 0 < depth) ∧ Skips (Cursor.depthAfter depth t.kind) ts

/-! ### Marks -/

/-- The mark of an expression on its own: that of a variable, or that of an old test. -/
def Expression.mark? : Expression → Option Span
  | .reference _ span => some span
  | e => Deprecation.oldTest? e

namespace Node

/-- **The spans by which a node can be reported.** -/
def marks : Node → List Span
  | query q => q.unions.map (·.span)
  | clause c => if c.isError then [] else [c.span]
  | item i => i.rename.toList.map (·.span)
  | expression e => e.mark?.toList
  | _ => []

/-- **The body of a subquery**, if a node is a subquery with a word in front. -/
def body? : Node → Option Query
  | clause (.callQuery body _) | expression (.existsQuery body _) => some body
  | _ => none

theorem children_of_body? {n : Node} {body : Query} (h : n.body? = some body) :
    n.children = [.subquery body] := by
  unfold body? at h
  split at h
  · rw [← Option.some.inj h]
    rfl
  · rw [← Option.some.inj h]
    rfl
  · cases h

/-- Whether a node is nothing but a frame around what is inside it, which neither a subquery nor the
stand-in for a clause is. -/
def isFrame : Node → Bool
  | clause (.error _) | clause (.callQuery _ _) | expression (.existsQuery _ _) => false
  | _ => true

end Node

/-! ### Trees and tokens -/

/-- **How whole the tokens are** from which some nodes stem. -/
inductive Wholeness
  /-- Those of a rule that has failed. -/
  | torn
  /-- Those of a rule that has come to its end inside of braces. -/
  | whole
  /-- Any other. -/
  | loose

/-- How whole tokens are behind which a rule fails. -/
def Wholeness.broken : Wholeness → Wholeness
  | loose => loose
  | _ => torn

/-- **Nodes that stem from tokens.** Beside the nodes, there is what is kept for a further
comparison, and the offsets at which tokens start that no node has for a mark yet. -/
inductive Stems : Wholeness → (nodes kept : List Node) → (starts : List Nat) → List Token → Prop
  /-- Nothing stems from nothing. -/
  | nil {level : Wholeness} : Stems level [] [] [] []
  /-- What stems from tokens apart may stand side by side. -/
  | append {level : Wholeness} {a b : List Node} {m n : List Nat} {u v : List Token}
      (left : Stems level a [] m u) (right : Stems level b [] n v) :
      Stems level (a ++ b) [] (m ++ n) (u ++ v)
  /-- A token has one start. -/
  | token {level : Wholeness} {t : Token} (plain : t.kind.isPlain = true) :
      Stems level [] [] [t.span.start] [t]
  /-- What is kept need not be, and tokens need not give marks. -/
  | forget {level : Wholeness} {a kept : List Node} {m n : List Nat} {w : List Token}
      (stems : Stems level a kept m w) (sublist : n.Sublist m) : Stems level a [] n w
  /-- Braces come in pairs. -/
  | braces {level : Wholeness} {a : List Node} {m : List Nat} {left right : Token} {w : List Token}
      (opens : left.kind = .sign .leftBrace) (closes : right.kind = .sign .rightBrace)
      (inside : Stems level a [] m w) : Stems level a [] m (left :: w ++ [right])
  /-- Most nodes stand around what is inside them, and have marks from tokens of their own. -/
  | around {level : Wholeness} {n : Node} {m rest : List Nat} {w : List Token}
      (frame : n.isFrame = true) (marked : (n.marks.map Span.start ++ rest).Sublist m)
      (inside : Stems level n.children [] m w) : Stems level [n] [] rest w
  /-- A comparison goes on with a chain and keeps its right operand. -/
  | comparison {level : Wholeness} {chain : Chain} {operator : BinaryOperator} {right : Expression}
      {u v w : List Token} (compares : operator.isComparison = true)
      (tree : Stems level [.expression chain.tree] chain.kept [] u)
      (between : Stems level [] [] [] v) (operand : Stems level [.expression right] [] [] w) :
      Stems level [.expression (chain.extend operator right).tree]
        (chain.extend operator right).kept [] (u ++ v ++ w)
  /-- A subquery stands in braces, behind a word. -/
  | subquery {level : Wholeness} {n : Node} {body : Query} {word left right : Token}
      {w : List Token} (isBody : n.body? = some body)
      (marked : (n.marks.map Span.start).Sublist [word.span.start])
      (plain : word.kind.isPlain = true) (opens : left.kind = .sign .leftBrace)
      (closes : right.kind = .sign .rightBrace)
      (span : n.span = Token.hull (word :: left :: w ++ [right]))
      (inside : Stems .whole [.query body] [] [] w) :
      Stems level [n] [] [] (word :: left :: w ++ [right])
  /-- A stand-in covers a clause that failed and what was skipped after that. -/
  | standIn {v w : List Token} (failed : Stems .torn [] [] [] v) (skipped : Token.Skips 0 w)
      (nonempty : v ++ w ≠ []) :
      Stems .whole [.clause (.error (Token.hull (v ++ w)))] [] [] (v ++ w)
  /-- Outside of braces it may cover anything. -/
  | strayed {w : List Token} (nonempty : w ≠ []) :
      Stems .loose [.clause (.error (Token.hull w))] [] [] w
  /-- Outside of braces, nothing may come of any tokens. -/
  | waste {w : List Token} : Stems .loose [] [] [] w
  /-- A brace may be left open. -/
  | opening {left : Token} (opens : left.kind = .sign .leftBrace) : Stems .torn [] [] [] [left]
  /-- Nothing may come of tokens in the end. -/
  | tear {level : Wholeness} {a kept : List Node} {m : List Nat} {w : List Token}
      (stems : Stems level a kept m w) (bounded : level ≠ .loose) : Stems .torn [] [] [] w
  /-- What stems from whole tokens may stand outside of braces. -/
  | loosen {a : List Node} {w : List Token} (whole : Stems .whole a [] [] w) :
      Stems .loose a [] [] w

namespace Stems

variable {level : Wholeness} {a b kept : List Node} {m n : List Nat} {u v w : List Token}

/-- Tokens alone, without marks. -/
theorem bare {t : Token} (h : t.kind.isPlain = true) : Stems level [] [] [] [t] :=
  (token h).forget (List.nil_sublist _)

/-- A failure leaves nothing but tokens that nothing came of. -/
theorem broken (h : Stems level a kept m w) : Stems level.broken [] [] [] w := by
  cases level with
  | torn => exact h.tear nofun
  | whole => exact h.tear nofun
  | loose => exact .waste

/-- A node around what has been read for it. -/
theorem frame {n : Node} (h : Stems level a [] m w) (hn : n.isFrame = true) (ha : n.children = a)
    (hm : (n.marks.map Span.start).Sublist m) : Stems level [n] [] [] w :=
  around hn ((List.append_nil _).symm ▸ hm) (ha ▸ h)

/-- A node without marks. -/
theorem unmarked {n : Node} (h : Stems level a [] m w) (hn : n.isFrame = true)
    (ha : n.children = a) (hm : n.marks = []) : Stems level [n] [] m w :=
  around hn (by rw [hm]; exact .refl m) (ha ▸ h)

end Stems

/-! ### Values without nodes -/

/-- **Values of a type in which there are no nodes.** -/
class Rooted.Bare (α : Type) [Rooted α] : Prop where
  /-- There are none. -/
  roots_eq_nil (a : α) : roots a = []

namespace Rooted

section Bare

variable {α : Type}

instance : Rooted Unit := ⟨fun _ => []⟩
instance : Rooted Bool := ⟨fun _ => []⟩
instance : Rooted Nat := ⟨fun _ => []⟩
instance : Rooted String := ⟨fun _ => []⟩
instance : Rooted PathLength := ⟨fun _ => []⟩
instance : Rooted MergeEvent := ⟨fun _ => []⟩
instance : Rooted YieldItem := ⟨fun _ => []⟩

instance : Bare Unit := ⟨fun _ => rfl⟩
instance : Bare Bool := ⟨fun _ => rfl⟩
instance : Bare Nat := ⟨fun _ => rfl⟩
instance : Bare String := ⟨fun _ => rfl⟩
instance : Bare PathLength := ⟨fun _ => rfl⟩
instance : Bare MergeEvent := ⟨fun _ => rfl⟩
instance : Bare YieldItem := ⟨fun _ => rfl⟩
instance : Bare Ident := ⟨fun _ => rfl⟩

instance [Rooted α] [Bare α] : Bare (Option α) :=
  ⟨fun _ => List.flatMap_eq_nil_iff.2 fun a _ => Bare.roots_eq_nil a⟩

instance [Rooted α] [Bare α] : Bare (List α) :=
  ⟨fun _ => List.flatMap_eq_nil_iff.2 fun a _ => Bare.roots_eq_nil a⟩

end Bare

end Rooted

/-! ### What is known before a rule and behind it -/

variable {setting : Setting} {inner : Inner} {α β : Type}

/-- **A cursor over tokens that do not overlap**, the last of which is the end of the text. -/
structure Cursor.Sound (c : Cursor) : Prop where
  /-- The last token is the end of the text. -/
  closed : c.Closed
  /-- The tokens do not overlap. -/
  apart : Token.Apart c.tokens

theorem Cursor.Sound.onward {c c' : Cursor} (h : c.Sound) (ho : c.Onward c') : c'.Sound := by
  obtain ⟨heq, hc⟩ := Cursor.Over.onward ⟨rfl, h.closed⟩ ho
  exact ⟨hc, heq ▸ h.apart⟩

/-- **How a run ends** behind tokens passed before: what is known of the value and all tokens, and
if it fails, that nothing has come of these. -/
def Outcome.Leaves (level : Wholeness) (p : α → List Token → Prop) (c : Cursor) (u : List Token) :
    Outcome α → Prop
  | .done a t => ∃ w, c.Across w t.cursor ∧ p a (u ++ w)
  | .failed _ t => ∃ w, c.Across w t.cursor ∧ Stems level.broken [] [] [] (u ++ w)

theorem Outcome.Leaves.trans {level : Wholeness} {p : α → List Token → Prop} {c c' : Cursor}
    {u v : List Token} {o : Outcome α} (h : c.Across v c') (ho : o.Leaves level p c' (u ++ v)) :
    o.Leaves level p c u := by
  cases o with
  | done a t =>
    obtain ⟨w, hw, ha⟩ := ho
    exact ⟨v ++ w, h.trans hw, List.append_assoc u v w ▸ ha⟩
  | failed d t =>
    obtain ⟨w, hw, ha⟩ := ho
    exact ⟨v ++ w, h.trans hw, List.append_assoc u v w ▸ ha⟩

/-- What lies right behind a cursor does so further on, with the tokens passed. -/
theorem Cursor.Across.suffix {c c' : Cursor} {u w : List Token} (h : c.Across w c')
    (hu : u <:+ c.behind.reverse) : u ++ w <:+ c'.behind.reverse := by
  obtain ⟨rest, hrest⟩ := hu
  exact ⟨rest, by rw [h.2, ← hrest, List.append_assoc]⟩

namespace Rule

/-- **What a rule makes of tokens**: from what is known of those right behind the cursor, what is
known of the value it reads and of all that are passed then. There have to be some scopes at
least. -/
def Turns (setting : Setting) (inner : Inner) (low : Nat) (level : Wholeness)
    (q : List Token → Prop) (p : α → List Token → Prop) (rule : Rule α) (s : State) : Prop :=
  s.cursor.Sound → low ≤ s.scopes.depth → ∀ u, u <:+ s.cursor.behind.reverse → q u →
    (rule.run setting inner s).Leaves level p s.cursor u

/-- **A rule whose value stems from the tokens that it passes.** -/
abbrev Sprouts [Rooted α] (setting : Setting) (inner : Inner) (low : Nat) (level : Wholeness)
    (rule : Rule α) (s : State) : Prop :=
  Turns setting inner low level (Stems level [] [] []) (fun a => Stems level (roots a) [] [])
    rule s

namespace Turns

variable {low : Nat} {level : Wholeness} {q q' : List Token → Prop}
  {p p' : α → List Token → Prop} {r : β → List Token → Prop} {before : List Node}
  {starts : List Nat} {s : State}

theorem mono {rule : Rule α} (h : Turns setting inner low level q p rule s)
    (hp : ∀ a w, p a w → p' a w) : Turns setting inner low level q p' rule s := by
  intro hs hd u hlast hu
  have ho := h hs hd u hlast hu
  cases hr : rule.run setting inner s with
  | done a t =>
    rw [hr] at ho
    obtain ⟨w, hw, ha⟩ := ho
    exact ⟨w, hw, hp a _ ha⟩
  | failed d t =>
    rw [hr] at ho
    exact ho

/-- Less may be known before. -/
theorem given {rule : Rule α} (h : Turns setting inner low level q' p rule s)
    (hq : ∀ u, q u → q' u) : Turns setting inner low level q p rule s :=
  fun hs hd u hlast hu => h hs hd u hlast (hq u hu)

/-- There may be more scopes. -/
theorem higher {rule : Rule α} {high : Nat} (h : Turns setting inner low level q p rule s)
    (hl : low ≤ high) : Turns setting inner high level q p rule s :=
  fun hs hd => h hs (Nat.le_trans hl hd)

/-- What is known of the cursor may be made use of. -/
theorem sound {rule : Rule α} (h : s.cursor.Sound → Turns setting inner low level q p rule s) :
    Turns setting inner low level q p rule s := fun hs => h hs hs

theorem pure {a : α} (h : ∀ u, q u → p a u) :
    Turns setting inner low level q p (Pure.pure a) s := by
  intro _ _ u _ hu
  exact ⟨[], .refl _, (List.append_nil u).symm ▸ h u hu⟩

/-- What has been read stands in the value. -/
theorem value [Rooted α] {a : α} (h : before = roots a) :
    Turns setting inner low level (Stems level before [] starts)
      (fun a => Stems level (roots a) [] []) (Pure.pure a) s :=
  pure fun _ hu => h ▸ hu.forget (List.nil_sublist _)

/-- **A node around all that has been read for it.** -/
theorem node [Rooted α] {a : α} {n : Node} (hr : roots a = [n]) (hn : n.isFrame = true)
    (hc : n.children = before) (hm : (n.marks.map Span.start).Sublist starts) :
    Turns setting inner low level (Stems level before [] starts)
      (fun a => Stems level (roots a) [] []) (Pure.pure a) s :=
  pure fun _ hu => hr ▸ hu.frame hn hc hm

/-- A node without marks, which leaves these to others. -/
theorem unmarked [Rooted α] {a : α} {n : Node} (hr : roots a = [n]) (hn : n.isFrame = true)
    (hc : n.children = before) (hm : n.marks = []) :
    Turns setting inner low level (Stems level before [] starts)
      (fun a => Stems level (roots a) [] starts) (Pure.pure a) s :=
  pure fun _ hu => hr ▸ hu.unmarked hn hc hm

theorem fail (problem : Problem) :
    Turns setting inner low level (Stems level before [] starts) p (.fail problem) s := by
  intro _ _ u _ hu
  exact ⟨[], .refl _, (List.append_nil u).symm ▸ hu.broken⟩

/-! ### One part after another -/

/-- **One part of a rule and then the others.** -/
theorem andThen (hi : inner.GoesOn) {rule : Rule β} {next : β → Rule α}
    (h : Turns setting inner low level q r rule s)
    (hn : ∀ b t, rule.run setting inner s = .done b t →
      Turns setting inner low level (r b) p (next b) t) :
    Turns setting inner low level q p (rule >>= next) s := by
  intro hs hd u hlast hu
  have ho := h hs hd u hlast hu
  rw [run_bind]
  cases hr : rule.run setting inner s with
  | done b t =>
    rw [hr] at ho
    obtain ⟨w, hw, hb⟩ := ho
    have hst := onward_of_done hi hr
    exact .trans hw (hn b t hr (hs.onward hst.cursor) (hst.depth_scopes ▸ hd) _ (hw.suffix hlast)
      hb)
  | failed d t =>
    rw [hr] at ho
    exact ho

/-- What a rule makes of nothing it makes behind other tokens. -/
theorem apart {rule : Rule β} (hq : ∀ u, q u → Stems level.broken [] [] [] u)
    (h : Turns setting inner low level (· = []) r rule s) :
    Turns setting inner low level q (fun b w => ∃ u v, w = u ++ v ∧ q u ∧ r b v) rule s := by
  intro hs hd u _ hu
  have ho := h hs hd [] (List.nil_suffix ..) rfl
  cases hr : rule.run setting inner s with
  | done b t =>
    rw [hr] at ho
    obtain ⟨w, hw, hb⟩ := ho
    exact ⟨w, hw, u, w, rfl, hu, hb⟩
  | failed d t =>
    rw [hr] at ho
    obtain ⟨w, hw, hb⟩ := ho
    exact ⟨w, hw, (hq u hu).append hb⟩

/-- So it stands beside what has been read before. -/
theorem beside {rule : Rule β} {f : β → List Node} {g : β → List Nat}
    (h : Turns setting inner low level (· = []) (fun b => Stems level (f b) [] (g b)) rule s) :
    Turns setting inner low level (Stems level before [] starts)
      (fun b => Stems level (before ++ f b) [] (starts ++ g b)) rule s := by
  refine (apart (fun _ hu => hu.broken) h).mono ?_
  rintro b _ ⟨u, v, rfl, hu, hb⟩
  exact hu.append hb

/-- What sprouts does so from nothing. -/
theorem alone {rule : Rule α} (h : Turns setting inner low level (Stems level [] [] []) p rule s) :
    Turns setting inner low level (· = []) p rule s := h.given fun _ hu => hu ▸ .nil

theorem sprouts [Rooted α] {rule : Rule α}
    (h : Turns setting inner low level (· = []) (fun a => Stems level (roots a) [] []) rule s) :
    Sprouts setting inner low level rule s :=
  (beside (g := fun _ => []) h).mono fun _ _ hw => hw

/-- **A part of a rule whose value is kept**, and the starts that go with it. -/
theorem mark (hi : inner.GoesOn) {rule : Rule β} {next : β → Rule α} {f : β → List Node}
    {g : β → List Nat}
    (h : Turns setting inner low level (Stems level [] [] [])
      (fun b => Stems level (f b) [] (g b)) rule s)
    (hn : ∀ b t, Turns setting inner low level (Stems level (before ++ f b) [] (starts ++ g b)) p
      (next b) t) :
    Turns setting inner low level (Stems level before [] starts) p (rule >>= next) s :=
  andThen hi (beside h.alone) fun b t _ => hn b t

/-- A part of a rule whose value is kept. -/
theorem bind [Rooted β] (hi : inner.GoesOn) {rule : Rule β} {next : β → Rule α}
    (h : Sprouts setting inner low level rule s)
    (hn : ∀ b t, Turns setting inner low level (Stems level (before ++ roots b) [] starts) p
      (next b) t) :
    Turns setting inner low level (Stems level before [] starts) p (rule >>= next) s :=
  mark hi h fun b t => (List.append_nil starts).symm ▸ hn b t

/-- A part of a rule in whose value there are no nodes, with what its run tells. -/
theorem test [Rooted β] [Rooted.Bare β] (hi : inner.GoesOn) {rule : Rule β} {next : β → Rule α}
    (h : Sprouts setting inner low level rule s)
    (hn : ∀ b t, rule.run setting inner s = .done b t →
      Turns setting inner low level (Stems level before [] starts) p (next b) t) :
    Turns setting inner low level (Stems level before [] starts) p (rule >>= next) s := by
  refine andThen hi (beside h.alone) fun b t hr => ?_
  rw [Rooted.Bare.roots_eq_nil b, List.append_nil, List.append_nil]
  exact hn b t hr

/-- A part of a rule in whose value there are no nodes. -/
theorem skip [Rooted β] [Rooted.Bare β] (hi : inner.GoesOn) {rule : Rule β} {next : β → Rule α}
    (h : Sprouts setting inner low level rule s)
    (hn : ∀ b t, Turns setting inner low level (Stems level before [] starts) p (next b) t) :
    Turns setting inner low level (Stems level before [] starts) p (rule >>= next) s :=
  test hi h fun b t _ => hn b t

theorem ite {condition : Prop} [Decidable condition] {rule other : Rule α}
    (h : condition → Turns setting inner low level q p rule s)
    (ho : ¬condition → Turns setting inner low level q p other s) :
    Turns setting inner low level q p (if condition then rule else other) s := by
  split
  · exact h ‹_›
  · exact ho ‹_›

/-! ### What is looked at -/

theorem look {view : View β} {next : β → Rule α}
    (h : Turns setting inner low level q p (next (view.read setting s)) s) :
    Turns setting inner low level q p (.look view >>= next) s :=
  fun hs hd u hlast hu => h hs hd u hlast hu

theorem startHere {next : Nat → Rule α}
    (h : Turns setting inner low level q p (next s.cursor.front) s) :
    Turns setting inner low level q p (startHere >>= next) s :=
  fun hs hd u hlast hu => h hs hd u hlast hu

theorem isAt {kind : TokenKind} {next : Bool → Rule α}
    (h : Turns setting inner low level q p (next (decide (s.cursor.kind = kind))) s) :
    Turns setting inner low level q p (isAt kind >>= next) s :=
  fun hs hd u hlast hu => h hs hd u hlast hu

/-- **The span from the first of the tokens passed** to the cursor goes around all of them. -/
theorem spanFrom {lo : Nat} {next : Span → Rule α}
    (hq : ∀ u, q u → ∃ t ts, u = t :: ts ∧ t.span.start = lo)
    (h : Turns setting inner low level (fun u => q u ∧ s.cursor.spanFrom lo = Token.hull u) p
      (next (s.cursor.spanFrom lo)) s) :
    Turns setting inner low level q p (.look (.spanFrom lo) >>= next) s := by
  intro hs hd u hlast hu
  refine h hs hd u hlast ⟨hu, ?_⟩
  obtain ⟨t, ts, rfl, rfl⟩ := hq u hu
  obtain ⟨pre, hpre⟩ := hlast
  -- the cursor before the tokens that have been passed
  let start : Cursor := ⟨pre.reverse, t, ts ++ s.cursor.rest⟩
  have hacross : start.Across (t :: ts) s.cursor := ⟨rfl, by simp [start, hpre]⟩
  refine hacross.spanFrom_eq ?_ (List.cons_ne_nil t ts)
  rw [hacross.tokens_eq, ← hacross.2]
  exact hs.apart

/-! ### Tokens that are passed -/

/-- A token is passed behind others. -/
theorem advanceThen {next : Span → Rule α} (hk : s.cursor.kind ≠ .endOfInput)
    (h : Turns setting inner low level (fun w => ∃ u, w = u ++ [s.cursor.current] ∧ q u) p
      (next s.cursor.current.span) s.step) :
    Turns setting inner low level q p (.advance >>= next) s := by
  intro hs hd u hlast hu
  obtain ⟨t, ts, ha⟩ := List.exists_cons_of_ne_nil (hs.closed.ahead_ne_nil hk)
  have hacross := Cursor.Across.advance ha
  exact .trans hacross (h (hs.onward s.cursor.onward_advance) hd _ (hacross.suffix hlast)
    ⟨u, rfl, hu⟩)

/-- The first token. -/
theorem advanceFirst {next : Span → Rule α} (hk : s.cursor.kind ≠ .endOfInput)
    (h : Turns setting inner low level (· = [s.cursor.current]) p
      (next s.cursor.current.span) s.step) :
    Turns setting inner low level (· = []) p (.advance >>= next) s := by
  refine advanceThen hk (h.given ?_)
  rintro _ ⟨_, rfl, rfl⟩
  rfl

/-- **A token is passed** that may have a mark. -/
theorem advanceMarked {kind : TokenKind} {next : Span → Rule α} (hk : s.cursor.kind = kind)
    (hp : kind.isPlain = true)
    (h : Turns setting inner low level
      (Stems level before [] (starts ++ [s.cursor.current.span.start])) p
      (next s.cursor.current.span) s.step) :
    Turns setting inner low level (Stems level before [] starts) p (.advance >>= next) s := by
  subst hk
  refine advanceThen (TokenKind.ne_endOfInput_of_isPlain hp) (h.given ?_)
  rintro w ⟨u, rfl, hu⟩
  have hpassed := hu.append (.token hp)
  rwa [List.append_nil] at hpassed

/-- A token is passed that has none. -/
theorem advance {kind : TokenKind} {next : Span → Rule α} (hk : s.cursor.kind = kind)
    (hp : kind.isPlain = true)
    (h : Turns setting inner low level (Stems level before [] starts) p
      (next s.cursor.current.span) s.step) :
    Turns setting inner low level (Stems level before [] starts) p (.advance >>= next) s :=
  advanceMarked hk hp (h.given fun _ hu => hu.forget (List.sublist_append_left _ _))

/-- The same where the token is of no interest. -/
theorem moveThen {next : Unit → Rule α}
    (h : Turns setting inner low level q p (.advance >>= fun _ => next ()) s) :
    Turns setting inner low level q p (Grammar.move >>= next) s := h

theorem move {kind : TokenKind} {next : Unit → Rule α} (hk : s.cursor.kind = kind)
    (hp : kind.isPlain = true)
    (h : Turns setting inner low level (Stems level before [] starts) p (next ()) s.step) :
    Turns setting inner low level (Stems level before [] starts) p (Grammar.move >>= next) s :=
  moveThen (advance hk hp h)

/-- A token has to be there. -/
theorem expectThen {kind : TokenKind} {next : Span → Rule α}
    (hq : ∀ u, q u → Stems level.broken [] [] [] u)
    (h : s.cursor.kind = kind → Turns setting inner low level q p (.advance >>= next) s) :
    Turns setting inner low level q p (Rule.expect kind >>= next) s := by
  intro hs hd u hlast hu
  by_cases he : s.cursor.kind = kind
  · rw [run_bind_done (run_expect_of_eq he)]
    exact h he hs hd u hlast hu
  · rw [run_bind_failed (run_expect_of_ne he)]
    exact ⟨[], .refl _, (List.append_nil u).symm ▸ hq u hu⟩

theorem expect {kind : TokenKind} {next : Span → Rule α} (hp : kind.isPlain = true)
    (h : Turns setting inner low level (Stems level before [] starts) p
      (next s.cursor.current.span) s.step) :
    Turns setting inner low level (Stems level before [] starts) p (Rule.expect kind >>= next) s :=
  expectThen (fun _ hu => hu.broken) fun hk => advance hk hp h

/-- A token may be there. -/
theorem consumeThen {kind : TokenKind} {next : Bool → Rule α}
    (h : s.cursor.kind = kind →
      Turns setting inner low level q p (.advance >>= fun _ => next true) s)
    (hn : s.cursor.kind ≠ kind → Turns setting inner low level q p (next false) s) :
    Turns setting inner low level q p (Rule.consume kind >>= next) s := by
  intro hs hd u hlast hu
  by_cases he : s.cursor.kind = kind
  · rw [run_bind_done (run_consume_of_eq he)]
    exact h he hs hd u hlast hu
  · rw [run_bind_done (run_consume_of_ne he)]
    exact hn he hs hd u hlast hu

theorem consume {kind : TokenKind} {next : Bool → Rule α} (hp : kind.isPlain = true)
    (h : s.cursor.kind = kind →
      Turns setting inner low level (Stems level before [] starts) p (next true) s.step)
    (hn : s.cursor.kind ≠ kind →
      Turns setting inner low level (Stems level before [] starts) p (next false) s) :
    Turns setting inner low level (Stems level before [] starts) p (Rule.consume kind >>= next)
      s :=
  consumeThen (fun he => advance he hp (h he)) hn

/-- **What stands in braces**, with the braces around it. -/
theorem braced (hi : inner.GoesOn) {rule : Rule β} {next : Span → β → Rule α}
    (hk : s.cursor.kind = .sign .leftBrace) (hq : ∀ u, q u → Stems .torn [] [] [] u)
    (h : Turns setting inner low .whole (· = []) r rule s.step)
    (hr : ∀ b v, r b v → Stems .torn [] [] [] v)
    (hn : ∀ b t, Turns setting inner low .whole
      (fun w => ∃ u left v right, w = u ++ (left :: v ++ [right]) ∧
        left.kind = .sign .leftBrace ∧ right.kind = .sign .rightBrace ∧ q u ∧ r b v) p
      (next s.cursor.current.span b) t) :
    Turns setting inner low .whole q p (.advance >>= fun span => do
      let b ← rule
      let _ ← expectSign .rightBrace
      next span b) s := by
  have hopen : ∀ u, q u → Stems .torn [] [] [] (u ++ [s.cursor.current]) :=
    fun u hu => (hq u hu).append (.opening hk)
  have hbehind : ∀ w, (∃ u, w = u ++ [s.cursor.current] ∧ q u) → Stems .torn [] [] [] w := by
    rintro _ ⟨u, rfl, hu⟩
    exact hopen u hu
  refine advanceThen (hk ▸ TokenKind.noConfusion) (andThen hi (apart hbehind h) fun b t _ => ?_)
  refine expectThen ?_ fun hclose => advanceThen (hclose ▸ TokenKind.noConfusion) ?_
  · rintro _ ⟨u, v, rfl, hu, hb⟩
    exact (hbehind u hu).append (hr b v hb)
  · refine (hn b t.step).given ?_
    rintro _ ⟨_, rfl, _, v, rfl, ⟨u, rfl, hu⟩, hb⟩
    exact ⟨u, _, v, _, by simp, hk, hclose, hu, hb⟩

/-! ### Repetitions and scopes -/

/-- What each step of a repetition keeps. -/
theorem loop (hi : inner.GoesOn) {step : α → Rule (Option α)} {a : α}
    (hs : ∀ b t, Turns setting inner low level (p b) (fun next => p (next.getD b)) (step b) t) :
    Turns setting inner low level (p a) p (.loop step a) s := by
  intro hsound hd u hlast hu
  change (Action.iterate _ (s.cursor.ahead.length + 1) a s).Leaves _ _ _ _
  generalize s.cursor.ahead.length + 1 = n
  induction n generalizing a s u with
  | zero => exact ⟨[], .refl _, (List.append_nil u).symm ▸ hu⟩
  | succ n ih =>
    have ho := hs a s hsound hd u hlast hu
    rw [Action.iterate]
    cases hr : (step a).run setting inner s with
    | failed d t =>
      rw [hr] at ho
      exact ho
    | done next t =>
      rw [hr] at ho
      obtain ⟨w, hw, hp⟩ := ho
      cases next with
      | none => exact ⟨w, hw, hp⟩
      | some b =>
        have hst := onward_of_done hi hr
        exact .trans hw (ih (hsound.onward hst.cursor) (hst.depth_scopes ▸ hd) _
          (hw.suffix hlast) hp)

theorem inScope {kind : ScopeKind} {rule : Rule α}
    (h : ∀ t, Turns setting inner (low + 1) level q p rule t) :
    Turns setting inner low level q p (.inScope kind rule) s := by
  intro hs hd u hlast hu
  have ho := h { s with scopes := s.scopes.push kind } hs (Nat.succ_le_succ hd) u hlast hu
  rw [run]
  cases hr : rule.run setting inner { s with scopes := s.scopes.push kind } with
  | done a t =>
    rw [hr] at ho
    exact ho
  | failed d t =>
    rw [hr] at ho
    exact ho

/-- Where subqueries are at hand, they are not in the way. -/
theorem requireSubqueries {feature : String} {next : Unit → Rule α}
    (hq : ∀ u, q u → Stems level.broken [] [] [] u)
    (h : Turns setting inner low level q p (next ()) s) :
    Turns setting inner low level q p (.requireSubqueries feature >>= next) s := by
  intro hs hd u hlast hu
  by_cases hsub : setting.rules.subqueries = true
  · rw [run_bind_done (run_requireSubqueries_done hsub)]
    exact h hs hd u hlast hu
  · rw [run_bind_failed (run_requireSubqueries_failed hsub)]
    exact ⟨[], .refl _, (List.append_nil u).symm ▸ hq u hu⟩

/-- More is known of what is not in braces if it is. -/
theorem loosen {rule : Rule α} (h : Turns setting inner low .whole q p rule s) :
    Turns setting inner low .loose q p rule s := by
  intro hs hd u hlast hu
  have ho := h hs hd u hlast hu
  cases hr : rule.run setting inner s with
  | done a t =>
    rw [hr] at ho
    exact ho
  | failed d t =>
    rw [hr] at ho
    obtain ⟨w, hw, -⟩ := ho
    exact ⟨w, hw, .waste⟩

end Turns

section Repetitions

variable {low : Nat} {level : Wholeness} {s : State}

theorem sprouts_consume {kind : TokenKind} (hk : kind.isPlain = true) :
    Sprouts setting inner low level (consume kind) s :=
  .isAt (.ite (fun h => .advance (of_decide_eq_true h) hk (.value rfl)) fun _ => .value rfl)

theorem sprouts_takeSign {sign : Sign} (hk : (TokenKind.sign sign).isPlain = true) :
    Sprouts setting inner low level (takeSign sign) s := sprouts_consume hk

theorem sprouts_takeWord (word : Keyword) :
    Sprouts setting inner low level (takeWord word) s := sprouts_consume rfl

theorem sprouts_isAt {kind : TokenKind} :
    Sprouts setting inner low level (isAt kind) s := .look (.value rfl)

variable (hi : inner.GoesOn)

include hi

theorem sprouts_optionally [Rooted α] {condition : Rule Bool} {rule : Rule α}
    (hc : Sprouts setting inner low level condition s)
    (h : ∀ t, condition.run setting inner s = .done true t →
      Sprouts setting inner low level rule t) :
    Sprouts setting inner low level (optionally condition rule) s := by
  refine .test hi hc fun b t hr => ?_
  cases b with
  | false => exact .value rfl
  | true =>
    refine .bind hi (h t hr) fun a u => .value ?_
    exact (List.flatMap_singleton ..).symm

theorem sprouts_skipIf [Rooted α] {condition : Rule Bool} {rule : Rule α}
    (hc : Sprouts setting inner low level condition s)
    (h : ∀ t, Sprouts setting inner low level rule t) :
    Sprouts setting inner low level (skipIf condition rule) s := by
  refine .skip hi hc fun b t => .ite (fun _ => .value rfl) fun _ => ?_
  exact .bind hi (h t) fun a u => .value (List.flatMap_singleton ..).symm

/-- What is known of some, when one more is read. -/
theorem turns_many {p : List α → List Token → Prop} {rule : Rule (Option α)} {items : List α}
    (h : ∀ items t, Turns setting inner low level (p items)
      (fun found => p (items ++ found.toList)) rule t) :
    Turns setting inner low level (p items) p (many rule items) s := by
  refine .loop hi fun found t => .andThen hi (h found t) fun one u _ => .pure fun w hw => ?_
  cases one with
  | none => exact (List.append_nil found) ▸ hw
  | some item => exact hw

/-- Reading many adds to what has been read. -/
theorem sprouts_manyFrom [Rooted α] {rule : Rule (Option α)} {starts : List Nat}
    (h : ∀ t, Sprouts setting inner low level rule t) (items : List α) :
    Turns setting inner low level (Stems level (roots items) [] starts)
      (fun all => Stems level (roots all) [] starts) (many rule items) s := by
  refine turns_many hi fun found t =>
    (Turns.beside (g := fun _ => []) (h t).alone).mono fun one w hw => ?_
  have hroots : roots (found ++ one.toList) = roots found ++ roots one := List.flatMap_append
  rwa [List.append_nil, ← hroots] at hw

theorem sprouts_many [Rooted α] {rule : Rule (Option α)}
    (h : ∀ t, Sprouts setting inner low level rule t) :
    Sprouts setting inner low level (many rule []) s := sprouts_manyFrom hi h []

/-- The first of several may leave its starts to others. -/
theorem turns_separated [Rooted α] {rule : Rule α} {starts : List Nat}
    (hf : Turns setting inner low level (Stems level [] [] [])
      (fun a => Stems level (roots a) [] starts) rule s)
    (h : ∀ t, Sprouts setting inner low level rule t) :
    Turns setting inner low level (Stems level [] [] [])
      (fun all => Stems level (roots all) [] starts) (separated rule) s := by
  refine .mark (g := fun _ => starts) hi hf fun first t => ?_
  have hfirst : roots [first] = roots first := List.flatMap_singleton ..
  exact hfirst ▸ sprouts_manyFrom hi (fun u => sprouts_optionally hi
    (sprouts_takeSign rfl) fun v _ => h v) [first]

theorem sprouts_separated [Rooted α] {rule : Rule α}
    (h : ∀ t, Sprouts setting inner low level rule t) :
    Sprouts setting inner low level (separated rule) s := turns_separated hi (h s) h

theorem sprouts_listUntil [Rooted α] {close : Sign} {rule : Rule α}
    (h : ∀ t, Sprouts setting inner low level rule t) :
    Sprouts setting inner low level (listUntil close rule) s :=
  .isAt (.ite (fun _ => .value rfl) fun _ => sprouts_separated hi h)

end Repetitions

end Rule

/-- **Nested rules whose values stem from the tokens that they pass.** -/
structure Inner.Sprouts (setting : Setting) (inner : Inner) : Prop where
  /-- They go on. -/
  goesOn : inner.GoesOn
  /-- So it is with expressions. -/
  expression (strength : Nat) (s : State) :
    Rule.Sprouts setting inner 1 .whole (.nested (.expression strength)) s
  /-- So it is with the bodies of subqueries. -/
  subquery (s : State) : Rule.Sprouts setting inner 1 .whole (.nested .subquery) s
  /-- So it is with the bodies of existence tests. -/
  existsBody (s : State) : Rule.Sprouts setting inner 1 .whole (.nested .existsBody) s

end Cypher
