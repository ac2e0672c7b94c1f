import Cypher.Proofs.LeftOperands
import Cypher.Proofs.Numbers.Value
import Cypher.Proofs.Tiling.Document

/-!
# Where integers are read

The grammar asks for the number that an integer says in three places, each with a range of its own:
an operand has to fit in a signed word, the bound of a path in an unsigned one, and behind a minus
sign the least signed number is read together with its sign, because without the sign it would not
fit. In each of these places the number is taken over as it is or not at all.

So whatever integer there is in a document, and whatever bound a path in it has, it is the number
that a token of the text says. This is kept in the ledger of integers
(`Cypher.Ledger.integers`), and the token is known from the span of the integer, or from the sign
that a bound stands behind and the span of the relationship around it.
-/

namespace Cypher

/-! ### One integer -/

namespace Grammar

open Numeral (Denotes)
open Rule

variable {setting : Setting} {inner : Inner} {s : State} {text : String} {n : Nat}

/-- An integer as an operand. -/
theorem run_operand_of_integer (hk : s.cursor.kind = .integer text)
    (hn : Denotes text.toList n) : operand.run setting inner s =
      if n ≤ 9223372036854775807 then
        .done (.literal (.integer n) s.cursor.current.span) s.step
      else .failed (s.diagnostic setting .integerOutOfRange) s := by
  have hvalue : integerValue? text = if n ≤ 9223372036854775807 then some n else none := by
    rw [integerValue?, Number.unsigned?_of_denotes hn]
    split_ifs with hlt hle hle
    · exact Option.filter_some_pos (decide_eq_true hle)
    · exact Option.filter_some_neg (decide_eq_false hle)
    · omega
    · rfl
  rw [operand, here, run_bind, run_look, Outcome.andThen_done, View.read,
    show s.cursor.current.kind = .integer text from hk]
  dsimp only
  rw [hvalue]
  by_cases hle : n ≤ 9223372036854775807
  · simp only [if_pos hle]
    rfl
  · simp only [if_neg hle]
    rfl

/-- An integer as the bound of a path. -/
theorem run_lengthBound_of_integer (hk : s.cursor.kind = .integer text)
    (hn : Denotes text.toList n) : lengthBound.run setting inner s =
      if n < 18446744073709551616 then .done (some n) s.step
      else .failed (s.diagnostic setting .boundOutOfRange) s := by
  rw [lengthBound, here, run_bind, run_look, Outcome.andThen_done, View.read,
    show s.cursor.current.kind = .integer text from hk]
  dsimp only
  rw [Number.unsigned?_of_denotes hn]
  by_cases hlt : n < 18446744073709551616
  · simp only [if_pos hlt]
    rfl
  · simp only [if_neg hlt]
    rfl

/-- **Only the least integer is read together with the minus sign before it.** -/
theorem run_leading_of_minus (hk : s.cursor.kind = .sign .minus)
    (hnext : s.cursor.advance.kind = .integer text) (hn : Denotes text.toList n) :
    leading.run setting inner s =
      if n = 9223372036854775808 then
        .done (.literal (.integer (-9223372036854775808))
          ⟨s.cursor.current.span.start, s.step.cursor.current.span.stop⟩) s.step.step
      else
        (inner (.expression UnaryOperator.negate.strength) s.step).andThen fun x t =>
          .done (.unary .negate x ⟨s.cursor.current.span.start, x.span.stop⟩) t := by
  have hoperator : unaryOperator? s.cursor.kind = some .negate := by rw [hk]; rfl
  have hleast : isLeastMagnitude s.cursor.advance.kind = decide (n = 9223372036854775808) := by
    rw [hnext]
    change decide (Number.unsigned? text.toList = some leastMagnitude) = _
    rw [Number.unsigned?_of_denotes hn, decide_eq_decide]
    split
    · exact Option.some_inj
    · next hlt => exact iff_of_false nofun (by omega)
  rw [run_leading_of_some hoperator, hleast, decide_eq_true rfl, Bool.true_and]
  simp only [decide_eq_true_eq]
  rfl

end Grammar


/-! ### The integers of a document -/

open Numeral (Denotes)

/-- **An integer that tokens write**: the digits of a number that fits in a signed word, or a minus
sign and the digits of the least one. -/
inductive Token.WriteInteger (all : List Token) : Int → Span → Prop
  | digits {t : Token} {text : String} {n : Nat} (mem : t ∈ all) (kind : t.kind = .integer text)
      (denotes : Denotes text.toList n) (fits : n ≤ 9223372036854775807) :
      WriteInteger all n t.span
  | least {minus t : Token} {text : String} (row : [minus, t] <:+: all)
      (sign : minus.kind = .sign .minus) (kind : t.kind = .integer text)
      (denotes : Denotes text.toList 9223372036854775808) :
      WriteInteger all (-9223372036854775808) ⟨minus.span.start, t.span.stop⟩

/-- **A bound that tokens write** within a span: the digits of a number that fits in an unsigned
word, behind a sign. -/
def Token.WriteBound (all : List Token) (outer : Span) (sign : Sign) (n : Nat) : Prop :=
  ∃ mark t text, [mark, t] <:+: all ∧ mark.isIn outer = true ∧ mark.kind = .sign sign ∧
    t.kind = .integer text ∧ Denotes text.toList n ∧ n < 18446744073709551616

/-- **Tokens whose integers say a number each**, as those of a text do. -/
def Token.IntegersSay (all : List Token) : Prop :=
  ∀ t ∈ all, ∀ text, t.kind = .integer text → ∃ n, Denotes text.toList n

/-- **The length of a path that tokens write**: the least number behind the star, and the greatest
behind the two points if they are not the same. -/
def PathLength.IsWritten (all : List Token) (outer : Span) (length : PathLength) : Prop :=
  (∀ n ∈ length.min, Token.WriteBound all outer .star n) ∧
    (length.max = length.min ∨ ∀ n ∈ length.max, Token.WriteBound all outer .dotDot n)

/-- **The demand that integers and bounds are written by tokens.** -/
def Element.AsksDigits (all : List Token) : Element → Prop
  | expression (.literal (.integer value) span) => Token.WriteInteger all value span
  | relationship r => ∀ length ∈ r.length, length.IsWritten all r.span
  | _ => True

namespace Number

/-- **What is read of an integer that says a number** is this number, and it fits. -/
theorem denotes_of_unsigned? {cs : List Char} {n : Nat} (hnumbers : ∃ m, Denotes cs m)
    (h : unsigned? cs = some n) : Denotes cs n ∧ n < 18446744073709551616 := by
  obtain ⟨m, hm⟩ := hnumbers
  rw [unsigned?_of_denotes hm] at h
  split at h
  · next hlt =>
    cases h
    exact ⟨hm, hlt⟩
  · cases h

end Number

namespace Grammar

open Rule

variable {setting : Setting} {inner : Inner} {all : List Token} {s t : State}

section Says

variable (hnumbers : Token.IntegersSay all)

include hnumbers

/-- **What is read of the integer at the cursor** is the number that it says. -/
theorem denotes_of_kind {c : Cursor} {text : String} {n : Nat} (h : c.Over all)
    (digits : c.kind = .integer text) (value : Number.unsigned? text.toList = some n) :
    Denotes text.toList n ∧ n < 18446744073709551616 :=
  Number.denotes_of_unsigned? (hnumbers _ (h.tokens_eq ▸ c.current_mem_tokens) text digits) value

theorem writeInteger_of_integerValue? {c : Cursor} {text : String} {n : Nat} (h : c.Over all)
    (digits : c.kind = .integer text) (value : integerValue? text = some n) :
    Token.WriteInteger all n c.current.span := by
  obtain ⟨hvalue, hle⟩ := Option.filter_eq_some_iff.1 value
  exact .digits (h.tokens_eq ▸ c.current_mem_tokens) digits
    (denotes_of_kind hnumbers h digits hvalue).1 (of_decide_eq_true hle)

theorem writeInteger_of_isLeastMagnitude {c : Cursor} (h : c.Over all)
    (minus : c.kind = .sign .minus) (digits : isLeastMagnitude c.advance.kind = true) :
    Token.WriteInteger all (-leastMagnitude)
      ⟨c.current.span.start, c.advance.current.span.stop⟩ := by
  obtain ⟨text, hk⟩ : ∃ text, c.advance.kind = .integer text := by
    unfold isLeastMagnitude at digits
    split at digits
    · exact ⟨_, by assumption⟩
    · cases digits
  rw [hk] at digits
  have hrow := Cursor.infix_tokens (h.closed.ahead_ne_nil (by rw [minus]; nofun))
  rw [h.tokens_eq] at hrow
  exact .least hrow minus hk (denotes_of_kind hnumbers h.advance hk (of_decide_eq_true digits)).1

omit hnumbers in
/-- A token that has been passed. -/
theorem isIn_of_passed (ha : Token.Apart all) {c : Cursor} (hs : s.cursor.Over all)
    (hsc : s.cursor.Onward c) (hc : c.kind ≠ .endOfInput) (hct : c.advance.Onward t.cursor) :
    c.current.isIn (t.cursor.spanFrom s.cursor.front) = true := by
  obtain ⟨w, hw⟩ := hsc.exists_across
  obtain ⟨w', hw'⟩ := hct.exists_across
  obtain ⟨u, us, hahead⟩ := List.exists_cons_of_ne_nil
    ((hs.onward hsc).closed.ahead_ne_nil hc)
  have hacross := (hw.trans (.advance hahead)).trans hw'
  refine (hacross.isIn_spanFrom (hs.tokens_eq ▸ ha) ?_).2 ?_
  · rw [hs.tokens_eq, ← (hs.onward hsc).tokens_eq]
    exact c.current_mem_tokens
  · simp

/-- **A bound behind a sign.** -/
theorem writeBound_of_lengthBound {outer : Span} {sign : Sign} {c : Cursor} {n : Nat}
    (hc : c.Over all) (hk : c.kind = .sign sign) (hin : c.current.isIn outer = true)
    (hs : s.cursor = c.advance) (hr : lengthBound.run setting inner s = .done (some n) t) :
    Token.WriteBound all outer sign n := by
  obtain ⟨token, u, hu, hr⟩ := done_of_bind hr
  cases hu
  split at hr
  · next text hkind =>
    split at hr
    · next m hm =>
      cases hr
      have hover : s.cursor.Over all := hs ▸ hc.advance
      obtain ⟨hn, hlt⟩ := denotes_of_kind hnumbers hover hkind hm
      have hrow := Cursor.infix_tokens (hc.closed.ahead_ne_nil (by rw [hk]; nofun))
      rw [hc.tokens_eq] at hrow
      refine ⟨_, _, text, hrow, hin, hk, ?_, hn, hlt⟩
      rw [← hs]
      exact hkind
    · cases hr
  · cases hr

/-- **The length behind a star.** -/
theorem isWritten_of_pathLength (hi : inner.GoesOn) {outer : Span}
    {c : Cursor} (hc : c.Over all) (hk : c.kind = .sign .star) (hin : c.current.isIn outer = true)
    (hs : s.cursor = c.advance)
    (hwithin : ∀ c' : Cursor, s.cursor.Onward c' → c'.kind ≠ .endOfInput →
      c'.advance.Onward t.cursor → c'.current.isIn outer = true)
    {length : PathLength} (hr : pathLength.run setting inner s = .done length t) :
    length.IsWritten all outer := by
  obtain ⟨least, u, hu, hr⟩ := done_of_bind hr
  have hmin : ∀ n ∈ least, Token.WriteBound all outer .star n := by
    rintro n rfl
    exact writeBound_of_lengthBound hnumbers hc hk hin hs hu
  obtain ⟨dots, v, hv, hrest⟩ := done_of_bind hr
  obtain ⟨rfl, hdots, rfl⟩ | ⟨rfl, -, rfl⟩ := of_consume hv
  · obtain ⟨greatest, w, hw, hend⟩ := done_of_bind hrest
    cases hend
    have hsu := (onward_of_done hi hu).cursor
    have hover : u.cursor.Over all := (hc.onward (hs ▸ Cursor.onward_advance c)).onward hsu
    refine ⟨hmin, .inr ?_⟩
    rintro n rfl
    exact writeBound_of_lengthBound hnumbers hover hdots
      (hwithin _ hsu (by rw [hdots]; nofun) (onward_of_done hi hw).cursor) rfl hw
  · cases hrest
    exact ⟨hmin, .inl rfl⟩

/-- The length in the brackets of a relationship, if there are any. -/
theorem isWritten_of_detailIfAny (hi : inner.GoesOn) {outer : Span}
    (hs : s.cursor.Over all)
    (hwithin : ∀ c : Cursor, s.cursor.Onward c → c.kind ≠ .endOfInput →
      c.advance.Onward t.cursor → c.current.isIn outer = true)
    {d : Detail} (hr : detailIfAny.run setting inner s = .done d t) :
    ∀ length ∈ d.length, length.IsWritten all outer := by
  obtain ⟨brackets, u, hu, hr⟩ := done_of_bind hr
  have hsu := onward_of_done hi hu
  cases brackets with
  | false =>
    cases hr
    exact nofun
  | true =>
    obtain ⟨binder, v, hv, hr⟩ := done_of_bind hr
    obtain ⟨types, w, hw, hr⟩ := done_of_bind hr
    have hsw := hsu.trans ((onward_of_done hi hv).trans (onward_of_done hi hw))
    obtain ⟨found, x, hx, hr⟩ := done_of_bind hr
    have hxt := onward_of_done hi hr
    obtain ⟨properties, _, -, hr⟩ := done_of_bind hr
    obtain ⟨_, _, -, hr⟩ := done_of_bind hr
    cases hr
    rintro length rfl
    obtain ⟨a, y, hy, ha', ⟨⟩⟩ | ⟨-, ⟨⟩⟩ := done_of_optionally hx
    obtain ⟨-, hstar, rfl⟩ | ⟨⟨⟩, -⟩ := of_consume hy
    have hover := hs.onward hsw.cursor
    have hyx := onward_of_done hi ha'
    have hk : w.cursor.kind ≠ .endOfInput := by rw [hstar]; nofun
    refine isWritten_of_pathLength hnumbers hi hover hstar
      (hwithin _ hsw.cursor hk (hyx.trans hxt).cursor) rfl (fun c hc hkc hcx => ?_) ha'
    exact hwithin c (hsw.cursor.trans ((Cursor.onward_advance _).trans hc)) hkc
      (hcx.trans hxt.cursor)

/-- **The length of a relationship.** -/
theorem isWritten_of_relationship (hi : inner.GoesOn) (ha : Token.Apart all)
    (hs : s.cursor.Over all) {r : RelationshipPattern Expression}
    (hr : relationship.run setting inner s = .done r t) :
    ∀ length ∈ r.length, length.IsWritten all r.span := by
  have hst := onward_of_done hi hr
  obtain ⟨_, _, ⟨⟩, hr⟩ := done_of_bind hr
  obtain ⟨left, u, hu, hr⟩ := done_of_bind hr
  obtain ⟨_, v, hv, hr⟩ := done_of_bind hr
  obtain ⟨detail, w, hw, hr⟩ := done_of_bind hr
  have hwt := onward_of_done hi hr
  have hsv := (onward_of_done hi hu).trans (onward_of_done hi hv)
  obtain ⟨_, _, -, hr⟩ := done_of_bind hr
  obtain ⟨right, x, hx, hr⟩ := done_of_bind hr
  obtain ⟨_, _, ⟨⟩, hr⟩ := done_of_bind hr
  cases hr
  have hin {c : Cursor} (hvc : v.cursor.Onward c) (hk : c.kind ≠ .endOfInput)
      (hcw : c.advance.Onward w.cursor) :
      c.current.isIn (t.cursor.spanFrom s.cursor.front) = true :=
    isIn_of_passed ha hs (hsv.cursor.trans hvc) hk (hcw.trans hwt.cursor)
  intro length hlength
  exact isWritten_of_detailIfAny hnumbers hi (hs.onward hsv.cursor) (fun c => hin) hw length hlength

end Says

end Grammar

/-- Nothing is asked of elements other than integers and relationships. -/
theorem Element.asksDigits_of_isPlain {all : List Token} {e : Element} (h : e.isPlain = true) :
    e.AsksDigits all := by
  unfold AsksDigits
  split
  · cases h
  · cases h
  · trivial

/-- A suffix is no integer. -/
theorem Element.asksDigits_of_base? {all : List Token} {e base : Expression}
    (h : e.base? = some base) : (Element.expression e).AsksDigits all := by
  cases e with
  | literal => cases h
  | _ => trivial

/-- Nor is anything that an operator makes. -/
theorem Element.asksDigits_of_mem_joined {all : List Token} {chain : Grammar.Chain}
    {operator : BinaryOperator} {right e : Expression} (h : e ∈ chain.joined operator right) :
    (Element.expression e).AsksDigits all := by
  obtain ⟨_, _, _, rfl⟩ := Grammar.Chain.exists_of_mem_joined h
  trivial

/-- **The ledger of integers**, in which problems do not count. All that is known of a cursor is
which tokens it is over. -/
def Ledger.integers (setting : Setting) {all : List Token} (ha : Token.Apart all)
    (hnumbers : Token.IntegersSay all) : Ledger setting where
  demand := Element.AsksDigits all
  counts := False
  known c := c.Over all
  advance := Cursor.Over.advance
  plain := Element.asksDigits_of_isPlain
  relationship h steady run := Grammar.isWritten_of_relationship hnumbers steady.goesOn ha h run
  integer := Grammar.writeInteger_of_integerValue? hnumbers
  least := Grammar.writeInteger_of_isLeastMagnitude hnumbers
  call _ _ _ _ _ _ := trivial
  suffix _ _ _ base := Element.asksDigits_of_base? base
  nullTest _ _ _ _ _ := trivial
  operation _ _ _ joined := Element.asksDigits_of_mem_joined joined
  clauseError _ := iff_of_true trivial id
  statementError _ := iff_of_true trivial id
  branch _ := iff_of_true trivial False.elim
  query _ _ := iff_of_true trivial False.elim
  patternBody _ _ := trivial

/-- The integers and bounds of a document are those that the tokens of its text write. -/
theorem Element.asksDigits_of_parse {source : String} {options : Options} {document : Document}
    {e : Element} (h : (parse source options).document = some document)
    (hw : (Element.document document).Within e) :
    e.AsksDigits
      ((tokenize source options.dialect).tokens.filter fun t => t.kind ≠ .invalid) := by
  rw [document_parse] at h
  obtain ⟨words, e, hfilter, he, -, ha⟩ := exists_words source options.dialect
  have hnumbers : Token.IntegersSay ((tokenize source options.dialect).tokens.filter fun t =>
      t.kind ≠ .invalid) :=
    fun t ht text hk => (t.exists_denotes (List.mem_of_mem_filter ht) hk).2
  rw [hfilter] at hnumbers ⊢
  have hover := (Cursor.over_ofTokens hfilter he).1
  exact ((Ledger.integers _ ha hnumbers).throughout_document hover h).2 False.elim _ hw

/-- **Integers are read as what they say, or not at all.** Every integer of a text says one number.
It is the number of sixty-four bits it is read as, if there is one. As an operand it is read if it
fits in a signed word, behind a minus sign the least number is read together with the sign, and as
the bound of a path it is read if it fits in an unsigned word. So the integers and the bounds of a
document are numbers that the tokens of its text say. -/
theorem integers_read :
    (∀ source dialect, ∀ t ∈ (tokenize source dialect).tokens, ∀ text, t.kind = .integer text →
      t.lexeme = text ∧ ∃! n, Denotes text.toList n) ∧
    (∀ text n, Denotes text.toList n →
      Number.unsigned? text.toList = (if n < 18446744073709551616 then some n else none) ∧
      ∀ (setting : Setting) (inner : Inner) (s : State),
        (s.cursor.kind = .integer text →
          Grammar.operand.run setting inner s =
              (if n ≤ 9223372036854775807 then
                .done (.literal (.integer n) s.cursor.current.span) s.step
              else .failed (s.diagnostic setting .integerOutOfRange) s) ∧
            Grammar.lengthBound.run setting inner s =
              if n < 18446744073709551616 then .done (some n) s.step
              else .failed (s.diagnostic setting .boundOutOfRange) s) ∧
        (s.cursor.kind = .sign .minus → s.cursor.advance.kind = .integer text →
          n = 9223372036854775808 → Grammar.leading.run setting inner s =
            .done (.literal (.integer (-9223372036854775808))
              ⟨s.cursor.current.span.start, s.step.cursor.current.span.stop⟩) s.step.step) ∧
        (s.diagnostic setting .integerOutOfRange).code = some .integerOutOfRange) ∧
    ∀ source options document, (parse source options).document = some document →
      ∀ e, (Element.document document).Within e →
        e.AsksDigits
          ((tokenize source options.dialect).tokens.filter fun t => t.kind ≠ .invalid) := by
  refine ⟨fun source dialect t ht text hk => ?_, fun text n hn => ?_,
    fun source options document h e hw => Element.asksDigits_of_parse h hw⟩
  · obtain ⟨hlexeme, n, hn⟩ := t.exists_denotes ht hk
    exact ⟨hlexeme, n, hn, fun m hm => hm.unique hn⟩
  · refine ⟨Number.unsigned?_of_denotes hn, fun setting inner s => ⟨fun hk => ⟨?_, ?_⟩,
      fun hk hnext hleast => ?_, rfl⟩⟩
    · exact Grammar.run_operand_of_integer hk hn
    · exact Grammar.run_lengthBound_of_integer hk hn
    · exact (Grammar.run_leading_of_minus hk hnext hn).trans (if_pos hleast)

/-- Whether an expression is an integer of a value at a span. -/
def Expression.isInteger (value : Int) (span : Span) : Expression → Bool
  | literal (.integer n) s => n = value && s = span
  | _ => false

/-- The least integer is a case in point. -/
theorem integers_read_least :
    let source := "RETURN -9223372036854775808"
    let text := "9223372036854775808"
    let t : Token := ⟨.integer text, text, ⟨8, 27⟩, 1, 9⟩
    let s : State := .start [⟨.sign .minus, "-", ⟨7, 8⟩, 1, 8⟩, t]
    t ∈ (tokenize source .openCypher).tokens ∧ (∃! n, Denotes text.toList n) ∧
      Number.unsigned? text.toList = some 9223372036854775808 ∧
      (∀ (setting : Setting) (inner : Inner),
        Grammar.leading.run setting inner s =
            .done (.literal (.integer (-9223372036854775808)) ⟨7, 27⟩) s.step.step ∧
          Grammar.operand.run setting inner s.step =
            .failed (s.step.diagnostic setting .integerOutOfRange) s.step ∧
          Grammar.lengthBound.run setting inner s.step =
            .done (some 9223372036854775808) s.step.step) ∧
      ∃ document e, (parse source .standard).document = some document ∧
        (Element.document document).Within (.expression e) ∧
        e.isInteger (-9223372036854775808) ⟨7, 27⟩ = true ∧
        (Element.expression e).AsksDigits
          ((tokenize source .openCypher).tokens.filter fun t => t.kind ≠ .invalid) := by
  intro source text t s
  obtain ⟨hlexer, hread, hdocument⟩ := integers_read
  have ht : t ∈ (tokenize source .openCypher).tokens := by decide +kernel
  have hn : Denotes text.toList 9223372036854775808 := by
    have hvalue : Number.positional 10 text.toList = 9223372036854775808 := by decide +kernel
    have hdigits : text.toList.all Number.isDecimal = true := by decide +kernel
    exact hvalue ▸ .decimal ⟨by decide, fun c hc =>
      (Number.isDecimal_iff c).1 (List.all_eq_true.1 hdigits c hc)⟩
  obtain ⟨document, e, hparse, hwithin, htest⟩ := exists_expression source .standard
    (Expression.isInteger (-9223372036854775808) ⟨7, 27⟩) (by decide +kernel)
  rw [← document_parse] at hparse
  obtain ⟨hunsigned, hgrammar⟩ := hread text _ hn
  refine ⟨ht, (hlexer source .openCypher t ht text rfl).2, hunsigned, fun setting inner => ?_,
    document, e, hparse, hwithin, htest, hdocument source .standard document hparse _ hwithin⟩
  obtain ⟨hoperand, hbound⟩ := (hgrammar setting inner s.step).1 rfl
  exact ⟨(hgrammar setting inner s).2.1 rfl rfl rfl, hoperand, hbound⟩

end Cypher
