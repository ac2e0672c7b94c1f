import Cypher.Grammar.Expression

/-!
# Formulas and how they are written

A formula is a tree of operators over variables, parameters, strings and integers: the part of the
expressions in which precedence matters. The order of precedence is the one the language documents,
stated here once more as a ladder of levels (`Cypher.BinaryOperator.level`,
`Cypher.UnaryOperator.level`), apart from the strengths the grammar works with.

`Cypher.Formula.written` writes a formula as a list of tokens. Parentheses stand

* around an operand that is looser than its operator, and around an equally loose right operand;
* around a comparison that is an operand of a comparison, since comparisons form chains;
* around a label test on whose result labels are tested, since labels form lists;
* around an operator in front of its operand where that is itself a right operand, or comes behind
  another operator in front.
-/

namespace Cypher

/-! ### Precedence -/

/-- **The level of an operator between operands**, counted from the loosest: `OR`, `XOR`, `AND`,
`NOT`, comparisons, tests on strings and lists, sums, products, powers, signs, suffixes. -/
def BinaryOperator.level : BinaryOperator → Nat
  | or => 0
  | xor => 1
  | and => 2
  | eq | notEq | lt | gt | ltEq | gtEq => 4
  | startsWith | endsWith | contains | member | regexMatch => 5
  | add | subtract => 6
  | multiply | divide | modulo => 7
  | power => 8

/-- The level of an operator in front of its operand. -/
def UnaryOperator.level : UnaryOperator → Nat
  | not => 3
  | negate | plus => 9

/-- The strengths of the grammar follow the levels. -/
theorem BinaryOperator.strength_eq (operator : BinaryOperator) :
    operator.strength = 2 * operator.level + 1 := by
  cases operator <;> rfl

theorem UnaryOperator.strength_eq (operator : UnaryOperator) :
    operator.strength = 2 * operator.level + 1 := by
  cases operator <;> rfl

theorem BinaryOperator.level_lt (operator : BinaryOperator) : operator.level < 9 := by
  cases operator <;> decide

theorem UnaryOperator.level_lt (operator : UnaryOperator) : operator.level < 10 := by
  cases operator <;> decide

/-- **A tree of operators.** -/
inductive Formula
  /-- A variable. -/
  | reference (name : String)
  /-- A parameter. -/
  | parameter (name : String)
  /-- A string. -/
  | string (value : String)
  /-- An integer that a literal may stand for. -/
  | integer (value : Fin (Grammar.greatestInteger + 1))
  /-- The property under a key. -/
  | property (base : Formula) (key : String)
  /-- The element at an index. -/
  | index (base place : Formula)
  /-- Whether there are labels, of which there is at least one. -/
  | hasLabels (base : Formula) (label : String) (labels : List String)
  /-- An operator in front of its operand. -/
  | unary (operator : UnaryOperator) (operand : Formula)
  /-- An operator between its operands. -/
  | binary (operator : BinaryOperator) (left right : Formula)
  /-- Whether a value is missing, or with `negated` whether it is there. -/
  | isNull (operand : Formula) (negated : Bool)
deriving DecidableEq, Repr

/-- **The formula an expression is, up to spans**, if it is one. -/
def Expression.formula? : Expression → Option Formula
  | .reference name _ => some (.reference name)
  | .parameter name _ => some (.parameter name)
  | .literal (.string value) _ => some (.string value)
  | .literal (.integer (.ofNat n)) _ =>
    if h : n < Grammar.greatestInteger + 1 then some (.integer ⟨n, h⟩) else none
  | .property base key _ => do return .property (← base.formula?) key.value
  | .index base place _ => do return .index (← base.formula?) (← place.formula?)
  | .hasLabels base (label :: labels) _ => do
    return .hasLabels (← base.formula?) label.value (labels.map Located.value)
  | .unary operator operand _ => do return .unary operator (← operand.formula?)
  | .binary operator left right _ => do
    return .binary operator (← left.formula?) (← right.formula?)
  | .isNull operand negated _ => do return .isNull (← operand.formula?) negated
  | _ => none

namespace Formula

/-- The level of a suffix. -/
def suffixLevel : Nat := 10

/-- The level of the test for a missing value. -/
def testLevel : Nat := 5

/-- The level of the outermost operator; a formula without operators is tighter than any other. -/
def level : Formula → Nat
  | reference _ | parameter _ | string _ | integer _ => suffixLevel + 1
  | property .. | index .. | hasLabels .. => suffixLevel
  | unary operator _ => operator.level
  | binary operator _ _ => operator.level
  | isNull .. => testLevel

/-- Whether the outermost operator is a comparison. -/
def isComparison : Formula → Bool
  | binary operator _ _ => operator.isComparison
  | _ => false

/-- Whether the outermost operator is a label test. -/
def isLabelTest : Formula → Bool
  | hasLabels .. => true
  | _ => false

/-- Whether the outermost operator stands in front of its operand. -/
def isPrefixed : Formula → Bool
  | unary .. => true
  | _ => false

/-! ### Where parentheses stand -/

/-- Whether an operand is looser than an operator of some level. -/
def isLooser (operand : Formula) (level : Nat) : Bool := decide (operand.level < level)

/-- Whether the left operand of an operator stands in parentheses. -/
def parenthesizesLeft (operand : Formula) (operator : BinaryOperator) : Bool :=
  operand.isLooser operator.level || (operator.isComparison && operand.isComparison)

/-- Whether the right operand of an operator stands in parentheses. It does already if it is equally
loose. -/
def parenthesizesRight (operand : Formula) (operator : BinaryOperator) : Bool :=
  operand.isLooser (operator.level + 1) || operand.isPrefixed

/-- Whether the operand behind an operator stands in parentheses. -/
def parenthesizesBehind (operand : Formula) (operator : UnaryOperator) : Bool :=
  operand.isLooser operator.level || operand.isPrefixed

/-- Whether the operand of a label test stands in parentheses. -/
def parenthesizesLabelled (operand : Formula) : Bool :=
  operand.isLooser suffixLevel || operand.isLabelTest

end Formula

/-! ### Writing -/

/-- The tokens of an operator between operands. -/
def BinaryOperator.written : BinaryOperator → List TokenKind
  | or => [.keyword .OR]
  | xor => [.keyword .XOR]
  | and => [.keyword .AND]
  | eq => [.sign .eq]
  | notEq => [.sign .notEq]
  | lt => [.sign .lt]
  | gt => [.sign .gt]
  | ltEq => [.sign .ltEq]
  | gtEq => [.sign .gtEq]
  | regexMatch => [.sign .regexMatch]
  | startsWith => [.keyword .STARTS, .keyword .WITH]
  | endsWith => [.keyword .ENDS, .keyword .WITH]
  | contains => [.keyword .CONTAINS]
  | member => [.keyword .IN]
  | add => [.sign .plus]
  | subtract => [.sign .minus]
  | multiply => [.sign .star]
  | divide => [.sign .slash]
  | modulo => [.sign .percent]
  | power => [.sign .caret]

/-- The token of an operator in front of its operand. -/
def UnaryOperator.written : UnaryOperator → TokenKind
  | not => .keyword .NOT
  | negate => .sign .minus
  | plus => .sign .plus

/-- A name, quoted or not. -/
def nameWritten (quotes : String → Bool) (name : String) : TokenKind :=
  if quotes name then .quotedIdentifier name else .identifier name

/-- Labels, each behind a colon. -/
def labelsWritten (quotes : String → Bool) (labels : List String) : List TokenKind :=
  labels.flatMap fun label => [.sign .colon, nameWritten quotes label]

/-- Tokens in parentheses, if need be. -/
def enclosed (needed : Bool) (inside : List TokenKind) : List TokenKind :=
  if needed then .sign .leftParen :: (inside ++ [.sign .rightParen]) else inside

/-- What follows the word `IS`. -/
def testWritten (negated : Bool) : List TokenKind :=
  if negated then [.keyword .NOT, .keyword .NULL] else [.keyword .NULL]

/-- **The tokens of a formula**, given which names are quoted. -/
def Formula.written (quotes : String → Bool) : Formula → List TokenKind
  | reference name => [nameWritten quotes name]
  | parameter name => [.parameter name]
  | string value => [.string value]
  | integer value => [.integer (toString value.val)]
  | property base key =>
    enclosed (base.isLooser suffixLevel) (base.written quotes) ++
      [.sign .dot, nameWritten quotes key]
  | index base place =>
    enclosed (base.isLooser suffixLevel) (base.written quotes) ++
      .sign .leftBracket :: (place.written quotes ++ [.sign .rightBracket])
  | hasLabels base label labels =>
    enclosed base.parenthesizesLabelled (base.written quotes) ++
      labelsWritten quotes (label :: labels)
  | unary operator operand =>
    operator.written :: enclosed (operand.parenthesizesBehind operator) (operand.written quotes)
  | binary operator left right =>
    enclosed (left.parenthesizesLeft operator) (left.written quotes) ++
      (operator.written ++
        enclosed (right.parenthesizesRight operator) (right.written quotes))
  | isNull operand negated =>
    enclosed (operand.isLooser testLevel) (operand.written quotes) ++
      .keyword .IS :: testWritten negated

/-- `a - (b - c) * d`. -/
example :
    (Formula.binary .subtract (.reference "a")
      (.binary .multiply (.binary .subtract (.reference "b") (.reference "c"))
        (.reference "d"))).written (fun _ => false) =
    [.identifier "a", .sign .minus, .sign .leftParen, .identifier "b", .sign .minus,
      .identifier "c", .sign .rightParen, .sign .star, .identifier "d"] := by
  decide

/-! ### Integers -/

namespace Number

theorem ofDigits_append (base : Nat) (cs ds : List Char) :
    ofDigits base (cs ++ ds) = ds.foldl (fun n c => n * base + (digit? c).getD 0)
      (ofDigits base cs) := List.foldl_append

/-- The characters of the decimal numeral of a number are digits, and denote it. -/
theorem numeral?_toDigits (n : Nat) : numeral? 10 (Nat.toDigits 10 n) = some n := by
  suffices h : (Nat.toDigits 10 n).all (isDigitOf 10) = true ∧
      ofDigits 10 (Nat.toDigits 10 n) = n by
    rw [numeral?, if_pos ⟨Nat.toDigits_ne_nil, h.1⟩, h.2]
  have hdigit : ∀ d < 10, isDigitOf 10 (Nat.digitChar d) = true ∧
      (digit? (Nat.digitChar d)).getD 0 = d := by decide
  induction n using Nat.strongRecOn with
  | ind n ih =>
    rcases Nat.lt_or_ge n 10 with hn | hn
    · rw [Nat.toDigits_of_lt_base hn]
      obtain ⟨ha, hv⟩ := hdigit n hn
      refine ⟨by rw [List.all_cons, ha]; rfl, ?_⟩
      rw [ofDigits, List.foldl_cons, hv, List.foldl_nil, Nat.zero_mul, Nat.zero_add]
    · rw [Nat.toDigits_of_base_le (by decide) hn]
      obtain ⟨ha, hv⟩ := hdigit (n % 10) (Nat.mod_lt n (by decide))
      obtain ⟨iha, ihv⟩ := ih (n / 10) (by omega)
      refine ⟨by rw [List.all_append, iha, List.all_cons, ha]; rfl, ?_⟩
      rw [ofDigits_append, ihv, List.foldl_cons, hv, List.foldl_nil]
      omega

/-- **The decimal numeral of a number denotes it**, if it fits in sixty-four bits. -/
theorem unsigned?_toString {n : Nat} (h : n < unsignedLimit) :
    unsigned? (toString n).toList = some n := by
  have hs : (toString n).toList = Nat.toDigits 10 n := Nat.toList_repr
  have hd : ∀ c ∈ Nat.toDigits 10 n, c.isDigit := fun c hc =>
    Nat.isDigit_of_mem_toDigits (by decide) (by decide) hc
  rw [hs]
  unfold unsigned?
  split
  · next heq =>
    rw [heq] at hd
    exact absurd (hd 'x' (by simp)) (by decide)
  · next heq =>
    rw [heq] at hd
    exact absurd (hd 'X' (by simp)) (by decide)
  · next heq =>
    rw [heq] at hd
    exact absurd (hd 'o' (by simp)) (by decide)
  · have hplus : signedNumeral? 10 (Nat.toDigits 10 n) = numeral? 10 (Nat.toDigits 10 n) := by
      unfold signedNumeral?
      split
      · next heq =>
        rw [heq] at hd
        exact absurd (hd '+' (by simp)) (by decide)
      · rfl
    rw [hplus, numeral?_toDigits, Option.filter_some, if_pos (decide_eq_true h)]

end Number

theorem Grammar.integerValue?_toString (n : Fin (Grammar.greatestInteger + 1)) :
    Grammar.integerValue? (toString n.val) = some n.val := by
  have h : n.val < Number.unsignedLimit := Nat.lt_trans n.isLt (by decide)
  rw [integerValue?, Number.unsigned?_toString h, Option.filter_some,
    if_pos (decide_eq_true (Nat.le_of_lt_succ n.isLt))]

theorem Grammar.isLeastMagnitude_toString (n : Fin (Grammar.greatestInteger + 1)) :
    Grammar.isLeastMagnitude (.integer (toString n.val)) = false := by
  have h : n.val < Number.unsignedLimit := Nat.lt_trans n.isLt (by decide)
  rw [isLeastMagnitude, Number.unsigned?_toString h]
  exact decide_eq_false fun he => absurd n.isLt (Option.some.inj he ▸ by decide)

/-! ### How formulas begin and go on -/

namespace TokenKind

/-- Whether a token opens a group, or is an operator in front of an operand. -/
def opensOperand : TokenKind → Bool
  | sign .leftParen | sign .minus | sign .plus | keyword .NOT => true
  | _ => false

/-- Whether a token is a whole operand: a name, a parameter, a string, or an integer that fits. -/
def isOperand : TokenKind → Bool
  | identifier _ | quotedIdentifier _ | parameter _ | string _ => true
  | integer text => (Grammar.integerValue? text).isSome && !Grammar.isLeastMagnitude (integer text)
  | _ => false

/-- Whether a token may follow an operand inside a formula. -/
def followsOperand (kind : TokenKind) : Bool :=
  Grammar.opensSuffix kind || decide (kind = .keyword .IS) ||
    (Grammar.binaryOperator? kind (.keyword .WITH)).isSome

end TokenKind

theorem UnaryOperator.opensOperand_written (operator : UnaryOperator) :
    operator.written.opensOperand = true := by
  cases operator <;> rfl

theorem nameWritten_cases (quotes : String → Bool) (name : String) :
    nameWritten quotes name = .identifier name ∨
      nameWritten quotes name = .quotedIdentifier name := by
  unfold nameWritten
  split
  · exact Or.inr rfl
  · exact Or.inl rfl

theorem isOperand_nameWritten (quotes : String → Bool) (name : String) :
    (nameWritten quotes name).isOperand = true := by
  rcases nameWritten_cases quotes name with h | h <;> rw [h] <;> rfl

theorem isOperand_integer (value : Fin (Grammar.greatestInteger + 1)) :
    (TokenKind.integer (toString value.val)).isOperand = true := by
  rw [TokenKind.isOperand, Grammar.integerValue?_toString, Grammar.isLeastMagnitude_toString]
  rfl

/-- An operator between operands begins with a token that is no colon. -/
theorem BinaryOperator.exists_written_eq_cons (operator : BinaryOperator) :
    ∃ kind kinds, operator.written = kind :: kinds ∧ kind.followsOperand = true ∧
      kind ≠ .sign .colon := by
  cases operator <;> exact ⟨_, _, rfl, rfl, by decide⟩

namespace Formula

variable {quotes : String → Bool}

/-- **Tokens that begin like a formula with an operator**: with a parenthesis or an operator, or
with an operand, perhaps with labels, and something else behind it. -/
def Leads (quotes : String → Bool) (kinds : List TokenKind) : Prop :=
  (∃ kind more, kinds = kind :: more ∧ kind.opensOperand = true) ∨
  ∃ kind labels next more, kinds = kind :: (labelsWritten quotes labels ++ next :: more) ∧
    kind.isOperand = true ∧ next.followsOperand = true ∧ next ≠ .sign .colon

theorem Leads.append {kinds : List TokenKind} (h : Leads quotes kinds) (more : List TokenKind) :
    Leads quotes (kinds ++ more) := by
  rcases h with ⟨kind, rest, rfl, hk⟩ | ⟨kind, labels, next, rest, rfl, hk, hn, hc⟩
  · exact Or.inl ⟨kind, rest ++ more, rfl, hk⟩
  · refine Or.inr ⟨kind, labels, next, rest ++ more, ?_, hk, hn, hc⟩
    simp only [List.cons_append, List.append_assoc]

theorem leads_enclosed (kinds more : List TokenKind) :
    Leads quotes (enclosed true kinds ++ more) := Or.inl ⟨_, _, rfl, rfl⟩

/-- **How a formula begins**: in the way just said, unless it is a mere operand or a label test on
one. -/
def Begins (quotes : String → Bool) (f : Formula) : Prop :=
  Leads quotes (f.written quotes) ∨
  (suffixLevel < f.level ∧ ∃ kind, f.written quotes = [kind] ∧ kind.isOperand = true) ∨
  f.isLabelTest = true ∧ ∃ kind label labels,
    f.written quotes = kind :: labelsWritten quotes (label :: labels) ∧ kind.isOperand = true

/-- An operand that is followed by something other than labels. -/
theorem Begins.leads {operand : Formula} (h : operand.Begins quotes) (needed : Bool)
    {kind : TokenKind} {kinds : List TokenKind} (hk : kind.followsOperand = true)
    (hc : kind ≠ .sign .colon) :
    Leads quotes (enclosed needed (operand.written quotes) ++ kind :: kinds) := by
  cases needed with
  | true => exact leads_enclosed ..
  | false =>
    rcases h with h | ⟨-, first, h, hf⟩ | ⟨-, first, label, labels, h, hf⟩
    · exact h.append _
    · exact Or.inr ⟨first, [], kind, kinds, by rw [enclosed, h]; rfl, hf, hk, hc⟩
    · exact Or.inr ⟨first, label :: labels, kind, kinds, by rw [enclosed, h]; rfl, hf, hk, hc⟩

theorem begins (quotes : String → Bool) (f : Formula) : f.Begins quotes := by
  induction f with
  | reference name =>
    exact Or.inr (Or.inl ⟨Nat.lt_succ_self _, _, rfl, isOperand_nameWritten quotes name⟩)
  | parameter name => exact Or.inr (Or.inl ⟨Nat.lt_succ_self _, _, rfl, rfl⟩)
  | string value => exact Or.inr (Or.inl ⟨Nat.lt_succ_self _, _, rfl, rfl⟩)
  | integer value =>
    exact Or.inr (Or.inl ⟨Nat.lt_succ_self _, _, rfl, isOperand_integer value⟩)
  | property base key ih => exact Or.inl (ih.leads _ rfl (by decide))
  | index base place ih => exact Or.inl (ih.leads _ rfl (by decide))
  | hasLabels base label labels ih =>
    rw [Begins, written]
    cases hb : base.parenthesizesLabelled with
    | true => exact Or.inl (leads_enclosed ..)
    | false =>
      rcases ih with h | ⟨-, kind, h, hk⟩ | ⟨h, -⟩
      · exact Or.inl (h.append _)
      · exact Or.inr (Or.inr ⟨rfl, kind, label, labels, by rw [enclosed, h]; rfl, hk⟩)
      · rw [parenthesizesLabelled, h, Bool.or_true] at hb
        cases hb
  | unary operator operand => exact Or.inl (Or.inl ⟨_, _, rfl, operator.opensOperand_written⟩)
  | binary operator left right ih =>
    obtain ⟨kind, kinds, hw, hk, hc⟩ := operator.exists_written_eq_cons
    rw [Begins, written, hw]
    exact Or.inl (ih.leads _ hk hc)
  | isNull operand negated ih => exact Or.inl (ih.leads _ rfl (by decide))

/-- Whatever a formula begins with opens an operand or is one. -/
theorem exists_written_eq_cons (quotes : String → Bool) (f : Formula) :
    ∃ kind kinds, f.written quotes = kind :: kinds ∧
      (kind.opensOperand = true ∨ kind.isOperand = true) := by
  rcases f.begins quotes with
    (⟨kind, more, h, hk⟩ | ⟨kind, labels, next, more, h, hk, -⟩) | ⟨-, kind, h, hk⟩ |
      ⟨-, kind, label, labels, h, hk⟩
  · exact ⟨kind, more, h, Or.inl hk⟩
  · exact ⟨kind, _, h, Or.inr hk⟩
  · exact ⟨kind, _, h, Or.inr hk⟩
  · exact ⟨kind, _, h, Or.inr hk⟩

end Formula

/-! ### Tokens that stand for themselves -/

/-- Whether a token stands neither for a stray character nor for the end of the text. -/
def TokenKind.isProper : TokenKind → Bool
  | invalid | endOfInput => false
  | _ => true

section Proper

variable (quotes : String → Bool)

@[simp] theorem isProper_nameWritten (name : String) :
    (nameWritten quotes name).isProper = true := by
  rcases nameWritten_cases quotes name with h | h <;> rw [h] <;> rfl

@[simp] theorem all_isProper_labelsWritten (names : List String) :
    (labelsWritten quotes names).all TokenKind.isProper = true := by
  induction names with
  | nil => rfl
  | cons name names ih =>
    rw [labelsWritten, List.flatMap_cons, List.all_append, List.all_cons, List.all_cons,
      isProper_nameWritten]
    exact ih

@[simp] theorem all_isProper_enclosed (needed : Bool) (kinds : List TokenKind) :
    (enclosed needed kinds).all TokenKind.isProper = kinds.all TokenKind.isProper := by
  cases needed <;> simp [enclosed, TokenKind.isProper]

@[simp] theorem BinaryOperator.all_isProper_written (operator : BinaryOperator) :
    operator.written.all TokenKind.isProper = true := by
  cases operator <;> rfl

@[simp] theorem UnaryOperator.isProper_written (operator : UnaryOperator) :
    operator.written.isProper = true := by
  cases operator <;> rfl

@[simp] theorem all_isProper_testWritten (negated : Bool) :
    (testWritten negated).all TokenKind.isProper = true := by
  cases negated <;> rfl

/-- **Formulas are written in proper tokens.** -/
theorem Formula.all_isProper_written (f : Formula) :
    (f.written quotes).all TokenKind.isProper = true := by
  induction f with
  | reference name => simp [written]
  | parameter name => rfl
  | string value => rfl
  | integer value => rfl
  | property base key ih =>
    simp only [written, List.all_append, List.all_cons, all_isProper_enclosed, isProper_nameWritten,
      ih]
    rfl
  | index base place ihb ihp =>
    simp only [written, List.all_append, List.all_cons, all_isProper_enclosed, ihb, ihp]
    rfl
  | hasLabels base label labels ih =>
    simp only [written, List.all_append, all_isProper_enclosed, all_isProper_labelsWritten, ih]
    rfl
  | unary operator operand ih =>
    simp only [written, List.all_cons, all_isProper_enclosed, UnaryOperator.isProper_written, ih]
    rfl
  | binary operator left right ihl ihr =>
    simp only [written, List.all_append, all_isProper_enclosed, BinaryOperator.all_isProper_written,
      ihl, ihr]
    rfl
  | isNull operand negated ih =>
    simp only [written, List.all_append, List.all_cons, all_isProper_enclosed,
      all_isProper_testWritten, ih]
    rfl

end Proper

end Cypher
