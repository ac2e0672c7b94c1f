import Cypher.Diagnostic.Report
import Mathlib.Data.List.Forall2
import Mathlib.Order.Basic

/-!
# Reports say what diagnostics say, where it can be shown

A diagnostic may come from anywhere, and its labels need not fit the text that it is shown on: they
may be reversed, begin behind the end of the text, or run past it. A report has to be drawn
nevertheless. So every label is brought into the text first, and only then is its length taken; the
length is a difference of two offsets, for which these have to be in order.

Bringing a span into a text (`Cypher.Span.clamp`) goes through both ends one by one. What comes out
is best said by what it does to the bytes: a byte is covered afterwards if and only if it was before
and is one of the text (`Cypher.Span.covers_clamp`), so that a reversed span, which covers nothing,
becomes an empty one. The spans that were in order are those that stay as they are
(`Cypher.Span.clamp_eq_self_iff`), which makes doing it twice the same as doing it once.

All else that a diagnostic says is in its report unchanged and in the same order
(`Cypher.Diagnostic.ReportedAs`), whichever the diagnostics are (`Cypher.Source.reports_faithful`).
-/

namespace Cypher

/-! ### Spans -/

namespace Span

variable {span : Span} {size : Nat}

theorem isWithin_iff :
    span.isWithin size = true ↔ span.start ≤ span.stop ∧ span.stop ≤ size := by
  rw [isWithin, Bool.and_eq_true, Bool.and_eq_true, decide_eq_true_eq, decide_eq_true_eq,
    decide_eq_true_eq]
  omega

/-- **A span that is brought into a text is in order there.** -/
theorem isWithin_clamp (span : Span) (size : Nat) : (span.clamp size).isWithin size = true := by
  rw [isWithin_iff, clamp]
  dsimp only
  omega

/-- **The spans in order are those that stay as they are.** -/
theorem clamp_eq_self_iff : span.clamp size = span ↔ span.isWithin size = true := by
  constructor
  · intro h
    rw [← h]
    exact isWithin_clamp span size
  · intro h
    obtain ⟨hle, hsize⟩ := isWithin_iff.1 h
    rw [clamp, Nat.min_eq_left (Nat.le_trans hle hsize), Nat.min_eq_left hsize, Nat.max_eq_left hle]

theorem clamp_clamp (span : Span) (size : Nat) : (span.clamp size).clamp size = span.clamp size :=
  clamp_eq_self_iff.2 (isWithin_clamp span size)

/-- A byte is one of those that a span covers. -/
def Covers (span : Span) (byte : Nat) : Prop := span.start ≤ byte ∧ byte < span.stop

/-- **Of the bytes that a span covers, those of the text are kept**, and no other is added. -/
theorem covers_clamp {byte : Nat} :
    (span.clamp size).Covers byte ↔ span.Covers byte ∧ byte < size := by
  rw [Covers, Covers, clamp]
  dsimp only
  omega

/-- The length of a span in order leads from its start to its stop. -/
theorem start_add_length (h : span.start ≤ span.stop) : span.start + span.length = span.stop :=
  Nat.add_sub_cancel' h

end Span

/-! ### Sources -/

/-- The size of a source is the number of its bytes. -/
theorem Source.size_eq (source : Source) : source.size = source.content.utf8ByteSize := by
  have hsize (cs : List Char) : Text.size cs = (String.ofList cs).utf8ByteSize := by
    induction cs with
    | nil => rfl
    | cons c cs ih =>
      rw [Text.size_cons, String.ofList_cons, String.utf8ByteSize_append,
        String.utf8ByteSize_singleton, ih]
  rw [size, hsize, String.ofList_toList]

/-- **A span has been brought into a source.** -/
structure Source.BroughtIn (source : Source) (span into : Span) : Prop where
  /-- It is in order there. -/
  accepted : source.accepts into = true
  /-- It is the same as before if and only if it was in order before. -/
  same : into = span ↔ source.accepts span = true
  /-- Doing it again changes nothing. -/
  again : source.clamp into = into
  /-- It covers the bytes of the source that it covered before. -/
  covers : ∀ byte, into.Covers byte ↔ span.Covers byte ∧ byte < source.content.utf8ByteSize

theorem Source.broughtIn (source : Source) (span : Span) :
    source.BroughtIn span (source.clamp span) where
  accepted := span.isWithin_clamp source.size
  same := Span.clamp_eq_self_iff
  again := span.clamp_clamp source.size
  covers byte := by
    rw [← source.size_eq]
    exact Span.covers_clamp

/-! ### Labels and diagnostics -/

/-- **A label is drawn into a source** the way it should be. -/
structure Label.DrawnAs (source : Source) (l : Label) (drawn : DrawnLabel) : Prop where
  /-- It has the same remark. -/
  message : drawn.message = l.message
  /-- It plays the same part. -/
  primary : drawn.primary = true ↔ l.role = .primary
  /-- It begins where the span does, once this is in the source. -/
  offset : drawn.offset = (source.clamp l.span).start
  /-- The offsets of which the length is the difference are in order. -/
  ordered : (source.clamp l.span).start ≤ (source.clamp l.span).stop
  /-- It ends where the span does, once this is in the source. -/
  stop : drawn.offset + drawn.length = (source.clamp l.span).stop
  /-- It does not run past the last byte of the source. -/
  within : drawn.offset + drawn.length ≤ source.content.utf8ByteSize
  /-- If its span was in order, it is drawn at this span. -/
  kept : source.accepts l.span = true →
    drawn.offset = l.span.start ∧ drawn.offset + drawn.length = l.span.stop

theorem Label.drawnAs (source : Source) (l : Label) : l.DrawnAs source (l.draw source) := by
  obtain ⟨hordered, hwithin⟩ := Span.isWithin_iff.1 (source.broughtIn l.span).accepted
  have hstop : (source.clamp l.span).start + (source.clamp l.span).length =
      (source.clamp l.span).stop := Span.start_add_length hordered
  exact {
    message := rfl
    primary := decide_eq_true_iff
    offset := rfl
    ordered := hordered
    stop := hstop
    within := by
      rw [← source.size_eq]
      exact hstop.trans_le hwithin
    kept := by
      intro haccepts
      have hsame : source.clamp l.span = l.span := (source.broughtIn l.span).same.2 haccepts
      exact ⟨congrArg Span.start hsame, hstop.trans (congrArg Span.stop hsame)⟩ }

/-- **A diagnostic is reported on a source** the way it should be: nothing is lost, and each label
is drawn. -/
structure Diagnostic.ReportedAs (source : Source) (d : Diagnostic) (report : Report) : Prop where
  /-- It has the same message. -/
  message : report.message = d.message
  /-- It is as bad. -/
  severity : report.severity = d.severity
  /-- It has the same code. -/
  code : report.code = d.code
  /-- It has the same help line. -/
  help : report.help = d.help
  /-- Its labels are drawn, one by one. -/
  labels : List.Forall₂ (Label.DrawnAs source) d.labels report.labels
  /-- Its notes are given as advice, one by one. -/
  advice : report.advice = d.notes

/-- What is made of the items of a list one by one is made of each of them. -/
theorem forall₂_map {α β : Type} {p : α → β → Prop} {f : α → β} (h : ∀ a, p a (f a))
    (as : List α) : List.Forall₂ p as (as.map f) :=
  List.forall₂_map_right_iff.2 (List.forall₂_same.2 fun a _ => h a)

theorem Diagnostic.reportedAs (source : Source) (d : Diagnostic) :
    d.ReportedAs source (d.report source) where
  message := rfl
  severity := rfl
  code := rfl
  help := rfl
  labels := forall₂_map (Label.drawnAs source) d.labels
  advice := rfl

/-- **Reports are faithful, and safe to draw.** On any source, there is one report for each of some
diagnostics, in the same order, which says what the diagnostic says; and whatever the spans of the
labels may be, they are brought into the source, where those in order already stay as they are. -/
theorem Source.reports_faithful (source : Source) (ds : List Diagnostic) :
    List.Forall₂ (Diagnostic.ReportedAs source) ds (source.reports ds) ∧
      ∀ span, source.BroughtIn span (source.clamp span) :=
  ⟨forall₂_map (Diagnostic.reportedAs source) ds, source.broughtIn⟩

/-- A reversed label, one that runs past the end, and one that lies behind it, on a text of six
bytes. -/
example :
    ((Diagnostic.error "m").primary ⟨4, 1⟩ "a" |>.secondary ⟨2, 9⟩ "b" |>.secondary ⟨8, 7⟩ "c"
        |>.noted "n").report ⟨"naïve", none⟩ =
      ⟨"m", .error, none, none, [⟨4, 0, "a", true⟩, ⟨2, 4, "b", false⟩, ⟨6, 0, "c", false⟩],
        ["n"]⟩ := by decide +kernel

end Cypher
