import Cypher.Proofs.Blocks
import Cypher.Proofs.Shape.Document

/-!
# Where brackets are closed

When mistakes are not forgiven, brackets are passed in pairs. So whatever is read in brackets ends
behind the token that closes them, and two rules that begin at the same bracket end in the same
place: a group and a node (`Cypher.Grammar.beyond_of_group`, `Cypher.Grammar.beyond_of_node`), or a
list and the detail of a relationship (`Cypher.Grammar.beyond_of_listLiteral`,
`Cypher.Grammar.beyond_of_detail`).
-/

namespace Cypher

/-- **A bracket that is opened is closed** by the token behind what shuts all others. -/
theorem Cursor.beyond_of_shuts {c d : Cursor} (hc : c.Closed) (hd : d.Closed)
    (ho : c.kind.isOpening = true) (hs : c.advance.Shuts 0 d) (hk : d.kind.isClosing = true) :
    c.beyond 0 = some d.advance.rest := by
  have hc' := hc.ahead_ne_nil (TokenKind.ne_endOfInput_of_isOpening ho)
  have hd' := hd.ahead_ne_nil (TokenKind.ne_endOfInput_of_isClosing hk)
  rw [Cursor.beyond_of_isOpening hc' ho]
  exact (hs.beyond_eq 0).trans (Cursor.beyond_one_of_isClosing hd' hk)

/-- Places ahead of the same place are the same if the same is left. -/
theorem Cursor.Onward.eq_of_rest {c d d' : Cursor} (h : c.Onward d) (h' : c.Onward d')
    (hr : d.rest = d'.rest) : d = d' := by
  obtain ⟨w, hw, hbehind⟩ := h.exists_across
  obtain ⟨w', hw', hbehind'⟩ := h'.exists_across
  rw [hr] at hw
  obtain rfl : w = w' := List.append_cancel_right (hw.symm.trans hw')
  have hb := List.reverse_injective (hbehind.trans hbehind'.symm)
  obtain ⟨hcurrent, hahead⟩ := List.cons.inj hr
  rcases d with ⟨behind, current, ahead⟩
  rcases d' with ⟨behind', current', ahead'⟩
  cases hb
  cases hcurrent
  cases hahead
  rfl

namespace Grammar

open Rule hiding pure bind
open Composed (elements)

variable {setting : Setting} {room : Nat} {s t : State}

section Strict

variable (hf : setting.forgiving = false)

include hf

/-- When mistakes are not forgiven, nothing is noted. -/
theorem problems_of_done {α : Type} {rule : Rule α} {a : α}
    (hr : rule.run setting (runNested setting body room) s = .done a t) :
    t.problems = s.problems := by
  have hinner : Inner.Foretells (runNested setting.strict body room)
    (runNested setting.lenient body room) := foretells_runNested body room
  have hrun : (rule.run setting.strict (runNested setting.strict body room) s).Foretells s.problems
      (rule.run setting.lenient (runNested setting.lenient body room) s) :=
    foretells_run hinner rule s
  rw [Setting.strict_of_not_forgiving hf, hr] at hrun
  exact hrun.1

/-- Nor is there any stand-in in what is read. -/
theorem clear_of_done {α : Type} [Composed α] {rule : Rule α} {a : α}
    (hmarks : Accounts (Ledger.marks setting) (runNested setting body room) [] rule s)
    (hr : rule.run setting (runNested setting body room) s = .done a t) :
    Element.All Element.Clear (elements a) := by
  have hmet := (hmarks trivial a t hr).2
    ⟨Ledger.met_nil, Ledger.still_of_eq (problems_of_done hf hr)⟩
  refine fun e he x hx => Bool.eq_false_iff.2 fun hstandIn => hmet e he x hx ?_
  unfold Element.isStandIn at hstandIn
  split at hstandIn
  · trivial
  · trivial
  · cases hstandIn

/-- **Brackets are passed in pairs.** -/
theorem shuts_of_done {α : Type} [Composed α] {rule : Rule α} {a : α} (hc : s.cursor.Closed)
    (hforms : Forms setting (runNested setting body room) [] 0 rule s)
    (hmarks : Accounts (Ledger.marks setting) (runNested setting body room) [] rule s)
    (hr : rule.run setting (runNested setting body room) s = .done a t) :
    s.cursor.Shuts 0 t.cursor ∧ t.cursor.Closed := by
  have hi : Inner.GoesOn (runNested setting body room) := goesOn_runNested setting body room
  exact ⟨((hforms hc a t hr).2 (clear_of_done hf hmarks hr)).2,
    hc.onward (onward_of_done hi hr).cursor⟩

variable (hopens : ∀ c : Cursor, setting.opensPattern c = true → c.opensPattern = true)
  (hc : s.cursor.Closed)

include hopens hc

/-! ### Groups and lists -/

/-- A group ends where its parenthesis is closed. -/
theorem beyond_of_group {e : Expression} (hk : s.cursor.kind = .sign .leftParen)
    (hr : group.run setting (runNested setting body room) s = .done e t) :
    s.cursor.beyond 0 = some t.cursor.rest := by
  obtain ⟨_, _, ⟨⟩, hr⟩ := done_of_bind hr
  obtain ⟨inner, u, hu, hr⟩ := done_of_bind hr
  obtain ⟨_, v, hv, hr⟩ := done_of_bind hr
  obtain ⟨hclose, rfl⟩ := of_expect hv
  cases hr
  obtain ⟨hshuts, hcu⟩ := shuts_of_done hf hc.advance
    (forms_expression (forms_runNested hopens room))
    (accounts_expression (accounts_runNested _ room)) hu
  exact Cursor.beyond_of_shuts hc hcu (hk ▸ rfl) hshuts (hclose ▸ rfl)

/-- What is between the brackets of a list made from another. -/
theorem shuts_of_comprehension {start : Nat} {close : Sign} {projects : Bool}
    {found : Comprehension Expression}
    (hr : (comprehension start close projects).run setting (runNested setting body room) s =
      .done found t) :
    ∃ u : State, s.cursor.Shuts 0 u.cursor ∧ u.cursor.Closed ∧ u.cursor.kind = .sign close ∧
      t = u.step := by
  have hforms := forms_runNested hopens room
  have hmarks := accounts_runNested (Ledger.marks setting) room
  obtain ⟨binder, u, hu, hr⟩ := done_of_bind hr
  obtain ⟨_, v, hv, hr⟩ := done_of_bind hr
  obtain ⟨hin, rfl⟩ := of_expect hv
  obtain ⟨list, w, hw, hr⟩ := done_of_bind hr
  obtain ⟨predicate, x, hx, hr⟩ := done_of_bind hr
  obtain ⟨projection, y, hy, hr⟩ := done_of_bind hr
  obtain ⟨_, z, hz, hr⟩ := done_of_bind hr
  obtain ⟨hclose, rfl⟩ := of_expect hz
  cases hr
  obtain ⟨hsu, hcu⟩ := shuts_of_done hf hc forms_variableName accounts_variableName hu
  have huv := Cursor.shuts_advance (hcu.ahead_ne_nil (hin ▸ nofun)) (hin ▸ rfl)
  obtain ⟨hvw, hcw⟩ := shuts_of_done hf hcu.advance (forms_expression hforms)
    (accounts_expression hmarks) hw
  obtain ⟨hwx, hcx⟩ := shuts_of_done hf hcw (forms_behind hforms rfl)
    (accounts_optionally hmarks.steady (.consume _) fun _ _ => accounts_expression hmarks) hx
  obtain ⟨hxy, hcy⟩ := shuts_of_done hf hcx (forms_elementProjection hforms projects)
    (accounts_elementProjection hmarks projects) hy
  exact ⟨y, (((hsu.trans huv).trans hvw).trans hwx).trans hxy, hcy, hclose, rfl⟩

/-- A list ends where its bracket is closed. -/
theorem beyond_of_listLiteral {e : Expression}
    (hr : listLiteral.run setting (runNested setting body room) s = .done e t) :
    s.cursor.beyond 0 = some t.cursor.rest := by
  obtain ⟨_, u, hu, hr⟩ := done_of_bind hr
  obtain ⟨hopen, rfl⟩ := of_expect hu
  obtain ⟨binds, v, hv, hr⟩ := done_of_bind hr
  rw [run_atVariableBefore] at hv
  cases hv
  split at hr
  · obtain ⟨found, w, hw, hr⟩ := done_of_bind hr
    cases hr
    obtain ⟨x, hshuts, hcx, hclose, rfl⟩ := shuts_of_comprehension hf hopens hc.advance hw
    exact Cursor.beyond_of_shuts hc hcx (hopen ▸ rfl) hshuts (hclose ▸ rfl)
  · obtain ⟨items, w, hw, hr⟩ := done_of_bind hr
    obtain ⟨_, x, hx, hr⟩ := done_of_bind hr
    obtain ⟨hclose, rfl⟩ := of_expect hx
    cases hr
    obtain ⟨hshuts, hcw⟩ := shuts_of_done hf hc.advance
      (forms_expressionList (forms_runNested hopens room) _)
      (accounts_expressionList (accounts_runNested _ room) _) hw
    exact Cursor.beyond_of_shuts hc hcw (hopen ▸ rfl) hshuts (hclose ▸ rfl)

/-! ### Nodes and the details of relationships -/

/-- A node ends where its parenthesis is closed. -/
theorem beyond_of_node {node : NodePattern Expression}
    (hr : pathNode.run setting (runNested setting body room) s = .done node t) :
    s.cursor.beyond 0 = some t.cursor.rest :=
  beyond_of_pathNode (forms_runNested hopens room) hc hr
    (clear_of_done hf (accounts_pathNode (accounts_runNested _ room)) hr)

/-- The detail of a relationship ends where its bracket is closed. -/
theorem beyond_of_detail {found : Detail} (hk : s.cursor.kind = .sign .leftBracket)
    (hr : detail.run setting (runNested setting body room) s.step = .done found t) :
    s.cursor.beyond 0 = some t.cursor.rest := by
  have hforms := forms_runNested hopens room
  have hmarks := accounts_runNested (Ledger.marks setting) room
  obtain ⟨binder, u, hu, hr⟩ := done_of_bind hr
  obtain ⟨types, v, hv, hr⟩ := done_of_bind hr
  obtain ⟨length, w, hw, hr⟩ := done_of_bind hr
  obtain ⟨properties, x, hx, hr⟩ := done_of_bind hr
  obtain ⟨_, y, hy, hr⟩ := done_of_bind hr
  obtain ⟨hclose, rfl⟩ := of_expect hy
  cases hr
  obtain ⟨hsu, hcu⟩ := shuts_of_done hf hc.advance (forms_binder hforms.goesOn)
    (accounts_optionally hmarks.steady .atVariable fun _ _ => accounts_variableName) hu
  obtain ⟨huv, hcv⟩ := shuts_of_done hf hcu (forms_relationshipTypes hforms)
    (.names quiet_relationshipTypes fun _ _ => exists_name_of_mem) hv
  obtain ⟨hvw, hcw⟩ := shuts_of_done hf hcv (forms_optionally hforms.goesOn (forms_takeSign rfl)
    fun _ _ => forms_pathLength hforms) (.names (.optionally (.consume _) quiet_pathLength)
      fun a e he => absurd (Composed.Bare.elements_eq_nil a ▸ he) List.not_mem_nil) hw
  obtain ⟨hwx, hcx⟩ := shuts_of_done hf hcw (forms_properties hforms)
    (accounts_properties hmarks) hx
  exact Cursor.beyond_of_shuts hc hcx (hk ▸ rfl) (((hsu.trans huv).trans hvw).trans hwx)
    (hclose ▸ rfl)

end Strict

end Grammar

end Cypher
