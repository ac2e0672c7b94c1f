import Cypher.Proofs.Numbers.Pattern
import Cypher.Proofs.Writing

/-!
# Patterns and how they are written

A pattern can be written in more than one way: names may be quoted, a length of exactly so many
relationships may name the number once or twice, an arrow that points nowhere may have heads at both
ends or at neither, and a relationship about which nothing is said may have brackets or not. A
`Cypher.Style` settles all of this, and the text of the numbers with a fraction. What comes out is a
list of strokes (`Cypher.Stroke`): tokens, of which those are marked that name what the pattern
binds.

What is inside a pattern is written if it can be: a value by a literal, a variable or a parameter,
properties by a parameter or a map of such values, and the bounds of a length in sixty-four bits
(`Cypher.Pattern.Writable`).
-/

namespace Cypher

/-- **How a pattern is written**, where there is a choice. -/
structure Style where
  /-- Which names are quoted. -/
  quotes : String → Bool
  /-- The text of a number with a fraction. -/
  float : Number.Binary64 → String
  /-- Which lengths of exactly so many relationships are written with two bounds. -/
  twice : Nat → Bool
  /-- Whether types behind the first have a colon too. -/
  colons : Bool
  /-- Whether a relationship about which nothing is said has brackets. -/
  brackets : Bool
  /-- Whether an arrow that points nowhere has heads at both ends. -/
  heads : Bool

/-- **A token that is written**: the name of what a pattern binds, or something else. -/
inductive Stroke
  /-- The name of a variable that is bound here. -/
  | binder (name : String)
  /-- Any other token. -/
  | other (kind : TokenKind)
deriving DecidableEq, Repr

namespace Stroke

/-- The token that is written. -/
def kind (style : Style) : Stroke → TokenKind
  | binder name => nameWritten style.quotes name
  | other kind => kind

/-- The variable that is bound, if there is one. -/
def binder? : Stroke → Option String
  | binder name => some name
  | other _ => none

/-- Tokens that bind nothing. -/
def others (kinds : List TokenKind) : List Stroke := kinds.map other

@[simp] theorem map_kind_others (style : Style) (kinds : List TokenKind) :
    (others kinds).map (kind style) = kinds := by
  rw [others, List.map_map]
  exact List.map_id kinds

@[simp] theorem filterMap_others (kinds : List TokenKind) :
    (others kinds).filterMap binder? = [] := by
  rw [others, List.filterMap_map]
  exact List.filterMap_eq_nil_iff.2 fun _ _ => rfl

/-- The name that is bound, if there is one. -/
def ofBinder (name : Option Ident) : List Stroke := name.toList.map fun x => binder x.value

@[simp] theorem filterMap_ofBinder (name : Option Ident) :
    (ofBinder name).filterMap binder? = name.toList.map Located.value := by
  cases name <;> rfl

end Stroke

/-- Items one behind the other, with a comma between them. -/
def commaWritten {α γ : Type} (comma : γ) (written : α → List γ) : List α → List γ
  | [] => []
  | a :: as => written a ++ as.flatMap fun b => comma :: written b

theorem map_commaWritten {α γ δ : Type} (f : γ → δ) (comma : γ) (written : α → List γ)
    (as : List α) :
    (commaWritten comma written as).map f =
      commaWritten (f comma) (fun a => (written a).map f) as := by
  cases as with
  | nil => rfl
  | cons a as => simp only [commaWritten, List.map_append, List.map_flatMap, List.map_cons]

/-! ### Values and properties -/

section Values

variable (style : Style)

/-- A literal. -/
def Literal.written : Literal → List TokenKind
  | integer (.ofNat n) => [.integer (toString n)]
  | integer (.negSucc n) => [.sign .minus, .integer (toString (n + 1))]
  | float x => [.float (style.float x)]
  | string value => [.string value]
  | boolean true => [.keyword .TRUE]
  | boolean false => [.keyword .FALSE]
  | null => [.keyword .NULL]

/-- A literal that can be written: an integer that fits, of which only the least one is negative,
and a number whose text is that of a number with a fraction or an exponent and denotes it. -/
def Literal.Writable : Literal → Prop
  | integer (.ofNat n) => n ≤ Grammar.greatestInteger
  | integer (.negSucc n) => n = Grammar.greatestInteger
  | float x => (∃ p : Numeral.Pattern, p.form = .float ∧ (style.float x).toList ∈ p.language) ∧
      Number.Binary64.ofLiteral (style.float x).toList = x
  | _ => True

namespace Expression

/-- A value that stands by itself. -/
def atomWritten : Expression → List TokenKind
  | literal value _ => value.written style
  | parameter name _ => [.parameter name]
  | reference name _ => [nameWritten style.quotes name]
  | _ => []

/-- **A value that stands by itself**: a literal, a variable or a parameter. -/
def IsAtom : Expression → Prop
  | literal value _ => value.Writable style
  | parameter _ _ | reference _ _ => True
  | _ => False

/-- The properties of a node or a relationship. -/
def propertiesWritten : Expression → List TokenKind
  | parameter name _ => [.parameter name]
  | map entries _ => .sign .leftBrace :: (commaWritten (.sign .comma)
      (fun entry => nameWritten style.quotes entry.key.value :: .sign .colon ::
        entry.value.atomWritten style) entries ++ [.sign .rightBrace])
  | _ => []

/-- **Properties that can be written**: a parameter, or a map of values that stand by themselves. -/
def IsRow : Expression → Prop
  | parameter _ _ => True
  | map entries _ => ∀ entry ∈ entries, entry.value.IsAtom style
  | _ => False

end Expression

/-- Properties, if there are any. -/
def rowWritten (properties : Option Expression) : List TokenKind :=
  properties.toList.flatMap (·.propertiesWritten style)

end Values

/-! ### Nodes and relationships -/

section Parts

variable (style : Style)

/-- The bounds of a path length behind the star. -/
def PathLength.written : PathLength → List TokenKind
  | ⟨none, none⟩ => []
  | ⟨some m, none⟩ => [.integer (toString m), .sign .dotDot]
  | ⟨none, some n⟩ => [.sign .dotDot, .integer (toString n)]
  | ⟨some m, some n⟩ =>
    if m = n ∧ style.twice m = false then [.integer (toString m)]
    else [.integer (toString m), .sign .dotDot, .integer (toString n)]

/-- A path length whose bounds fit in sixty-four bits. -/
def PathLength.Writable (length : PathLength) : Prop :=
  (∀ m ∈ length.min, m < Number.unsignedLimit) ∧ ∀ n ∈ length.max, n < Number.unsignedLimit

/-- The types of a relationship, if there are any. -/
def typesWritten : List Ident → List TokenKind
  | [] => []
  | first :: others => .sign .colon :: nameWritten style.quotes first.value ::
      others.flatMap fun other => .sign .pipe ::
        ((if style.colons then [.sign .colon] else []) ++ [nameWritten style.quotes other.value])

/-- A length, if there is one. -/
def lengthWritten (length : Option PathLength) : List TokenKind :=
  length.toList.flatMap fun l => .sign .star :: l.written style

/-- Whether an arrow has a head at its left and at its right end. -/
def Direction.heads : Direction → Bool × Bool
  | left => (true, false)
  | right => (false, true)
  | undirected => (style.heads, style.heads)

/-- A sign that may be left out. -/
def signIf (present : Bool) (sign : Sign) : List TokenKind :=
  if present then [.sign sign] else []

/-- **A node.** -/
def NodePattern.strokes (node : NodePattern Expression) : List Stroke :=
  Stroke.others [.sign .leftParen] ++ Stroke.ofBinder node.binder ++
    Stroke.others (labelsWritten style.quotes (node.labels.map Located.value) ++
      (rowWritten style node.properties ++ [.sign .rightParen]))

/-- Whether nothing is said about a relationship but where it points. -/
def RelationshipPattern.isBare (relationship : RelationshipPattern Expression) : Bool :=
  relationship.binder.isNone && relationship.types.isEmpty && relationship.length.isNone &&
    relationship.properties.isNone

/-- What stands in the brackets of a relationship, up to the closing one. -/
def RelationshipPattern.detailStrokes (relationship : RelationshipPattern Expression) :
    List Stroke :=
  Stroke.ofBinder relationship.binder ++ Stroke.others (typesWritten style relationship.types ++
    (lengthWritten style relationship.length ++ (rowWritten style relationship.properties ++
      [.sign .rightBracket])))

/-- **A relationship.** -/
def RelationshipPattern.strokes (relationship : RelationshipPattern Expression) : List Stroke :=
  Stroke.others (signIf (relationship.direction.heads style).1 .lt ++ [.sign .minus]) ++
    ((if relationship.isBare && !style.brackets then []
      else .other (.sign .leftBracket) :: relationship.detailStrokes style) ++
    Stroke.others (.sign .minus :: signIf (relationship.direction.heads style).2 .gt))

/-- A relationship and the node it leads to. -/
def PatternStep.strokes (step : PatternStep Expression) : List Stroke :=
  step.relationship.strokes style ++ step.node.strokes style

/-- **A path**, with its name if it has one. -/
def PatternPart.strokes (part : PatternPart Expression) : List Stroke :=
  (part.binder.toList.flatMap fun x => [.binder x.value, .other (.sign .eq)]) ++
    (part.start.strokes style ++ part.chain.flatMap (·.strokes style))

/-- **A pattern**, its paths separated by commas. -/
def Pattern.strokes (pattern : Pattern Expression) : List Stroke :=
  commaWritten (.other (.sign .comma)) (·.strokes style) pattern.parts

/-- A node that can be written. -/
def NodePattern.Writable (node : NodePattern Expression) : Prop :=
  ∀ e ∈ node.properties, e.IsRow style

/-- A relationship that can be written. -/
structure RelationshipPattern.Writable (relationship : RelationshipPattern Expression) : Prop where
  /-- Its length can be written. -/
  length : ∀ l ∈ relationship.length, l.Writable
  /-- Its properties can be written. -/
  properties : ∀ e ∈ relationship.properties, e.IsRow style

/-- A path that can be written. -/
structure PatternPart.Writable (part : PatternPart Expression) : Prop where
  /-- Its first node can be written. -/
  start : part.start.Writable style
  /-- So can each of its steps. -/
  chain : ∀ step ∈ part.chain, step.relationship.Writable style ∧ step.node.Writable style

/-- **A pattern that can be written**: it has a path, and each of its paths can be written. -/
structure Pattern.Writable (pattern : Pattern Expression) : Prop where
  /-- There is a path. -/
  nonempty : pattern.parts ≠ []
  /-- Each path can be written. -/
  parts : ∀ part ∈ pattern.parts, part.Writable style

end Parts

/-! ### What a pattern binds -/

section Binders

variable {style : Style}

theorem NodePattern.filterMap_strokes (node : NodePattern Expression) :
    (node.strokes style).filterMap Stroke.binder? = node.binder.toList.map Located.value := by
  simp [strokes]

theorem RelationshipPattern.filterMap_strokes (relationship : RelationshipPattern Expression) :
    (relationship.strokes style).filterMap Stroke.binder? =
      relationship.binder.toList.map Located.value := by
  rw [strokes, List.filterMap_append, List.filterMap_append, Stroke.filterMap_others,
    Stroke.filterMap_others, List.nil_append, List.append_nil]
  split
  · next hbare =>
    -- a relationship without brackets binds nothing
    have hnone : relationship.binder = none := by
      simp only [isBare, Bool.and_eq_true, Option.isNone_iff_eq_none] at hbare
      exact hbare.1.1.1.1
    rw [hnone]
    rfl
  · change (detailStrokes style relationship).filterMap Stroke.binder? = _
    simp [detailStrokes]

/-- **The names written in a path, as far as they are bound there, are the names it binds.** -/
theorem PatternPart.filterMap_strokes (part : PatternPart Expression) :
    (part.strokes style).filterMap Stroke.binder? = part.binders.map Located.value := by
  have hname : (part.binder.toList.flatMap fun x => [Stroke.binder x.value, .other (.sign .eq)]
      ).filterMap Stroke.binder? = part.binder.toList.map Located.value := by
    cases part.binder <;> rfl
  have hstep (step : PatternStep Expression) :
      (step.strokes style).filterMap Stroke.binder? = step.binders.map Located.value := by
    rw [PatternStep.strokes, List.filterMap_append, RelationshipPattern.filterMap_strokes,
      NodePattern.filterMap_strokes, PatternStep.binders, List.map_append]
  rw [strokes, List.filterMap_append, List.filterMap_append, hname, NodePattern.filterMap_strokes,
    List.filterMap_flatMap, binders, List.map_append, List.map_append, List.map_flatMap,
    List.append_assoc]
  simp only [hstep]

end Binders

/-! ### Proper tokens -/

section Proper

variable (style : Style)

@[simp] theorem isProper_sign (sign : Sign) : (TokenKind.sign sign).isProper = true := rfl

theorem all_commaWritten {α γ : Type} {p : γ → Bool} {comma : γ} {written : α → List γ}
    {as : List α} (hcomma : p comma = true) (h : ∀ a ∈ as, (written a).all p = true) :
    (commaWritten comma written as).all p = true := by
  rcases as with - | ⟨a, as⟩
  · rfl
  rw [commaWritten, List.all_append, h a List.mem_cons_self, List.all_flatMap, Bool.true_and,
    List.all_eq_true]
  intro b hb
  rw [List.all_cons, hcomma, h b (List.mem_cons_of_mem a hb), Bool.true_and]

@[simp] theorem Literal.all_isProper_written (value : Literal) :
    (value.written style).all TokenKind.isProper = true := by
  rcases value with (n | n) | x | value | (- | -) | - <;> rfl

@[simp] theorem Expression.all_isProper_atomWritten (e : Expression) :
    (e.atomWritten style).all TokenKind.isProper = true := by
  cases e with
  | literal value => exact value.all_isProper_written style
  | reference name => simp [atomWritten]
  | _ => rfl

@[simp] theorem Expression.all_isProper_propertiesWritten (e : Expression) :
    (e.propertiesWritten style).all TokenKind.isProper = true := by
  cases e with
  | map entries =>
    rw [propertiesWritten, List.all_cons, List.all_append, all_commaWritten rfl fun entry _ => ?_]
    · rfl
    · simp
  | _ => rfl

@[simp] theorem all_isProper_rowWritten (row : Option Expression) :
    (rowWritten style row).all TokenKind.isProper = true := by
  rcases row with - | e
  · rfl
  · simp [rowWritten]

@[simp] theorem all_isProper_typesWritten (names : List Ident) :
    (typesWritten style names).all TokenKind.isProper = true := by
  rcases names with - | ⟨first, others⟩
  · rfl
  · cases hcolons : style.colons <;> simp [typesWritten, hcolons]

@[simp] theorem all_isProper_lengthWritten (length : Option PathLength) :
    (lengthWritten style length).all TokenKind.isProper = true := by
  rcases length with - | ⟨- | m, - | n⟩
  case some.some.some =>
    simp only [lengthWritten, Option.toList_some, List.flatMap_cons, List.flatMap_nil,
      List.append_nil, PathLength.written]
    split <;> rfl
  all_goals rfl

@[simp] theorem all_isProper_signIf (present : Bool) (sign : Sign) :
    (signIf present sign).all TokenKind.isProper = true := by
  cases present <;> rfl

@[simp] theorem Stroke.all_isProper_ofBinder (name : Option Ident) :
    ((ofBinder name).map (kind style)).all TokenKind.isProper = true := by
  rcases name with - | name
  · rfl
  · simp [ofBinder, kind]

@[simp] theorem NodePattern.all_isProper_strokes (node : NodePattern Expression) :
    ((node.strokes style).map (Stroke.kind style)).all TokenKind.isProper = true := by
  simp only [strokes, List.map_append, Stroke.map_kind_others, List.all_append, List.all_cons,
    List.all_nil, Stroke.all_isProper_ofBinder, all_isProper_labelsWritten,
    all_isProper_rowWritten, isProper_sign, Bool.and_self]

@[simp] theorem RelationshipPattern.all_isProper_strokes (arrow : RelationshipPattern Expression) :
    ((arrow.strokes style).map (Stroke.kind style)).all TokenKind.isProper = true := by
  have hdetail : ((arrow.detailStrokes style).map (Stroke.kind style)).all TokenKind.isProper =
      true := by
    simp only [detailStrokes, List.map_append, Stroke.map_kind_others, List.all_append,
      List.all_cons, List.all_nil, Stroke.all_isProper_ofBinder, all_isProper_typesWritten,
      all_isProper_lengthWritten, all_isProper_rowWritten, isProper_sign, Bool.and_self]
  simp only [strokes, List.map_append, Stroke.map_kind_others, List.all_append, List.all_cons,
    List.all_nil, all_isProper_signIf, isProper_sign, Bool.and_self, Bool.true_and,
    Bool.and_true]
  split
  · rfl
  · rw [List.map_cons, List.all_cons, hdetail]
    rfl

@[simp] theorem PatternPart.all_isProper_strokes (part : PatternPart Expression) :
    ((part.strokes style).map (Stroke.kind style)).all TokenKind.isProper = true := by
  have hname : ((part.binder.toList.flatMap fun x => [Stroke.binder x.value, .other (.sign .eq)]
      ).map (Stroke.kind style)).all TokenKind.isProper = true := by
    rcases part.binder with - | name
    · rfl
    · simp [Stroke.kind]
  have hchain (further : PatternStep Expression) :
      ((further.strokes style).map (Stroke.kind style)).all TokenKind.isProper = true := by
    rw [PatternStep.strokes, List.map_append, List.all_append,
      RelationshipPattern.all_isProper_strokes, NodePattern.all_isProper_strokes]
    rfl
  rw [strokes, List.map_append, List.map_append, List.all_append, List.all_append, hname,
    NodePattern.all_isProper_strokes, List.map_flatMap, List.all_flatMap]
  simp only [hchain, List.all_eq_true, implies_true, Bool.true_and]

/-- **Patterns are written in proper tokens.** -/
theorem Pattern.all_isProper_strokes (given : Pattern Expression) :
    ((given.strokes style).map (Stroke.kind style)).all TokenKind.isProper = true := by
  rw [strokes, map_commaWritten]
  exact all_commaWritten rfl fun part _ => part.all_isProper_strokes style

end Proper

end Cypher
