import Cypher.Proofs.Clean
import Cypher.Proofs.Nodes
import Cypher.Proofs.Shape.Clause

/-!
# The shape of documents

A clause that could not be read is replaced by a stand-in, and tokens are skipped for it with no
regard to brackets. Nothing else is passed but clauses, the words between them and semicolons, so
that everything in a document is well formed (`Cypher.formed_of_parseTokens`). When mistakes are not
forgiven there is no stand-in, and a path that stands for a test always has a step.

When they are, it may have none. In `RETURN (a {x: EXISTS { RETURN ) ) ) -[]-(b) } })` the first
parenthesis is closed, as far as the lookahead can tell, by the last of the three in a row, and a
relationship follows there. But these three are skipped for the clause that fails inside the braces,
the node goes on up to the end of the text, and nothing follows it
(`Cypher.exists_path_without_steps`).
-/

namespace Cypher.Grammar

open Rule hiding pure bind
open Composed (elements)
open Element (All Formed Clear)

variable {setting : Setting} {inner : Inner} {s : State}

/-! ### Rules that pass no token -/

theorem forms_record (kind : ClauseKind) : Forms setting inner [] 0 (.record kind) s := by
  intro _ a t hr
  cases hr
  exact ⟨id, fun hc => ⟨hc, .refl _⟩⟩

theorem forms_complain (problem : Problem) :
    Forms setting inner [] 0 (.complain problem) s := by
  intro _ a t hr
  rw [run] at hr
  split at hr
  · cases hr
    exact ⟨id, fun hc => ⟨hc, .refl _⟩⟩
  · cases hr

theorem forms_atClausesEnd : Forms setting inner [] 0 atClausesEnd s := .look (.look (.value _))

theorem forms_requireClauses (context : String) (clauses : List Clause) :
    Forms setting inner [] 0 (requireClauses context clauses) s :=
  .ite (fun _ => forms_complain _) fun _ => .value _

section Queries

variable (h : inner.Forms setting)

include h

theorem forms_recordAll (clauses : List Clause) :
    Forms setting inner [] 0 (recordAll clauses) s := by
  induction clauses generalizing s with
  | nil => exact .value _
  | cons clause clauses ih => exact .skip h.goesOn (forms_record _) fun _ _ _ => ih

/-! ### Branches -/

/-- **A clause or its stand-in**, which keeps the promise that brackets come in pairs from being
made. -/
theorem forms_clauseOrError : Forms setting inner [] 0 clauseOrError s := by
  refine .startHere (.look (.bind h.goesOn ?_ fun clause t _ =>
    .skip h.goesOn (forms_record _) fun _ _ _ => .pure fun _ => .rfl))
  intro hs a t hr
  rw [run] at hr
  cases hrun : clause.run setting inner s with
  | done b u =>
    rw [hrun] at hr
    cases hr
    exact forms_clause h hs a t hrun
  | failed d u =>
    rw [hrun] at hr
    dsimp only at hr
    split at hr
    · obtain ⟨_, v, -, hr⟩ := done_of_bind hr
      obtain ⟨_, w, -, hr⟩ := done_of_bind hr
      cases hr
      refine ⟨fun _ => Element.all_singleton.2 ⟨trivial, Element.all_nil⟩, fun hc => ?_⟩
      cases (Element.all_singleton.1 hc).1
    · cases hr

theorem forms_nextClause : Forms setting inner [] 0 nextClause s :=
  .skip h.goesOn forms_atClausesEnd fun _ _ _ => .ite (fun _ => .pure fun _ => .rfl) fun _ =>
    .bind h.goesOn (forms_clauseOrError h) fun _ _ _ => .pure (by simp [elements])

theorem forms_branchIn (kind : ScopeKind) (context : String) :
    Forms setting inner [] 0 (branchIn kind context) s := by
  refine .bind h.goesOn (forms_inScope fun t => forms_many h.goesOn fun _ => forms_nextClause h)
    fun clauses t _ => ?_
  exact .skip h.goesOn (forms_requireClauses _ _) fun _ _ _ => .pure fun _ => .rfl

theorem forms_unionBranch {kind : ScopeKind} {word : Keyword}
    (hk : s.cursor.kind = .keyword word) : Forms setting inner [] 0 (unionBranch kind) s := by
  refine .advance hk rfl (.skip h.goesOn (forms_takeWord _) fun all t _ => ?_)
  exact .bind h.goesOn (forms_branchIn h _ _) fun clauses u _ =>
    .look (.close rfl trivial rfl fun _ => .rfl)

/-! ### Queries -/

/-- **Queries are formed.** -/
theorem forms_query (kind : ScopeKind) : Forms setting inner [] 0 (query kind) s := by
  refine .startHere (.bind h.goesOn (forms_branchIn h _ _) fun clauses t _ => ?_)
  refine .bind h.goesOn (forms_many h.goesOn fun _ => forms_optionally h.goesOn forms_isAt
    fun u hu => ?_) fun unions u _ => .look (.close rfl trivial rfl fun _ => .rfl)
  obtain ⟨rfl, hk⟩ := kind_of_isAt hu
  exact forms_unionBranch h hk

/-- The pattern of the short form becomes a clause, which asks for nothing more. -/
theorem forms_patternBody : Forms setting inner [] 0 patternBody s := by
  intro hs q u hr
  obtain ⟨_, _, hstart, hr⟩ := done_of_bind hr
  cases hstart
  obtain ⟨pattern, t, ht, hr⟩ := done_of_bind hr
  have hpattern := forms_pattern h hs pattern t ht
  have hct := hs.onward (onward_of_done h.goesOn ht).cursor
  have hclause : ∀ demand : Element → Prop,
      demand (.clause (.matchPattern false pattern pattern.span)) →
      (All demand [.clause (.matchPattern false pattern pattern.span)] ↔
        All demand (elements pattern)) :=
    fun demand hd => Element.all_singleton.trans (and_iff_right hd)
  rw [← hclause Formed trivial, ← hclause Clear rfl] at hpattern
  have hrest : Forms setting inner [.clause (.matchPattern false pattern pattern.span)] 0 (do
      let filter ← optionally (atWord .WHERE) whereClause
      let clauses := ClauseOf.matchPattern false pattern pattern.span :: filter.toList
      recordAll clauses
      return (⟨clauses, [], ← look (.spanFrom s.cursor.front)⟩ : Query)) t := by
    refine .bind h.goesOn (forms_optionally h.goesOn forms_isAt fun v hv => ?_) fun filter v _ => ?_
    · obtain ⟨rfl, hk⟩ := kind_of_isAt hv
      exact forms_whereClause h hk
    · refine .skip h.goesOn (forms_recordAll h _) fun _ w _ => .look (.close rfl trivial rfl ?_)
      cases filter <;> simp [Element.children, elements]
  obtain ⟨hformed, hclear⟩ := hrest hct q u hr
  refine ⟨fun hnil => hformed (hpattern.1 hnil), fun hc => ⟨Element.all_nil, ?_⟩⟩
  exact (hpattern.2 (hclear hc).1).2.trans (hclear hc).2

theorem forms_existsBody : Forms setting inner [] 0 existsBody s :=
  .look (.ite (fun _ => forms_query h .subquery) fun _ => forms_inScope fun _ => forms_patternBody h)

end Queries

/-! ### Nested rules -/

/-- What a nested rule reads is formed if what its body reads is. -/
theorem forms_deeper {α : Type} [Composed α] {room : Nat} {rule : Nested α}
    (h : ∀ t, Forms setting (runNested setting body room) [] 0 (body rule) t) :
    Forms setting (runNested setting body (room + 1)) [] 0 (.nested rule) s := by
  intro hs a t hr
  obtain ⟨u, hu, rfl⟩ := done_of_runNested hr
  exact h { s with depth := s.depth + 1 } hs a u hu

/-- **Nested rules form what they read.** -/
theorem forms_runNested
    (hopens : ∀ c : Cursor, setting.opensPattern c = true → c.opensPattern = true) (room : Nat) :
    Inner.Forms setting (runNested setting body room) := by
  induction room with
  | zero =>
    refine ⟨goesOn_runNested setting body 0, hopens _, fun strength s _ e t hr => ?_,
      fun s _ q t hr => ?_, fun s _ q t hr => ?_⟩
    all_goals cases hr
  | succ room ih =>
    exact ⟨goesOn_runNested setting body _, hopens _, fun strength s => forms_deeper fun t =>
      forms_expressionOf ih strength, fun s => forms_deeper fun t => forms_query ih .subquery,
      fun s => forms_deeper fun t => forms_existsBody ih⟩

/-! ### Documents -/

section Documents

variable (h : inner.Forms setting)

include h

theorem forms_moveOverSemicolons : Forms setting inner [] 0 moveOverSemicolons s := by
  intro hs a t hr
  refine ⟨id, fun hc => ⟨hc, (loop_induct (p := fun _ u => s.Onward u ∧
    s.cursor.Shuts 0 u.cursor) (fun b u next v hu hv => ?_) ⟨.refl s, .refl _⟩ hr).2⟩⟩
  obtain ⟨honward, hshuts⟩ := hu
  have hstep : Forms setting inner [] 0 (optionally (takeSign .semicolon) (pure ())) u :=
    forms_optionally h.goesOn (forms_takeSign rfl) fun _ _ => .value _
  have hpassed := (hstep (hs.onward honward.cursor) next v hv).2
  rw [Composed.Bare.elements_eq_nil next] at hpassed
  exact ⟨honward.trans (onward_of_done h.goesOn hv), hshuts.trans (hpassed Element.all_nil).2⟩

/-- **Statements are formed**, also those of which nothing could be read. -/
theorem forms_statement : Forms setting inner [] 0 statement s := by
  refine .look (.part h.goesOn (forms_query h .statement) fun q t _ => ?_)
  intro hs x u hr
  split at hr
  · cases hr
    refine ⟨fun _ => Element.all_singleton.2 ⟨trivial, Element.all_nil⟩, fun hc => ?_⟩
    cases (Element.all_singleton.1 hc).1
  · refine Rule.Forms.close (a := Statement.query q) (e := .statement (.query q)) rfl trivial rfl
      (fun _ => .rfl) hs x u hr

theorem forms_nextStatement : Forms setting inner [] 0 nextStatement s :=
  .skip h.goesOn (forms_moveOverSemicolons h) fun _ _ _ => .isAt (.ite (fun _ => .pure fun _ => .rfl)
    fun _ => .bind h.goesOn (forms_statement h) fun _ _ _ => .pure (by simp [elements]))

theorem forms_document : Forms setting inner [] 0 document s :=
  .bind h.goesOn (forms_many h.goesOn fun _ => forms_nextStatement h) fun _ _ _ =>
    .look (.close rfl trivial rfl fun _ => .rfl)

end Documents

/-- **A document that is read is well formed.** -/
theorem formed_of_read (hopens : setting.opensPattern = Cursor.opensPattern) {tokens : List Token}
    {tree : Document} (hr : (read setting tokens).document = some tree) :
    (Element.document tree).Throughout Formed := by
  unfold read at hr
  cases hrun : start setting document (.start tokens) with
  | done a t =>
    rw [hrun] at hr
    cases hr
    have hinner := forms_runNested (fun c hc => hopens ▸ hc) setting.limit
    have hformed := (forms_document hinner (s := .start tokens)
      (Cursor.closed_ofTokens tokens) tree t hrun).1 Element.all_nil
    exact hformed _ List.mem_cons_self
  | failed d t =>
    rw [hrun] at hr
    cases hr

/-- **When mistakes are not forgiven, there is no stand-in** in a document. -/
theorem clear_of_read (hf : setting.forgiving = false) {tokens : List Token} {tree : Document}
    (hr : (read setting tokens).document = some tree) :
    (Element.document tree).Throughout Clear := by
  have hproblems : (read setting tokens).problems = [] := by
    rcases read_strict_cases setting tokens with ⟨_, _, hs, -⟩ | ⟨_, _, _, _, _, hs, -⟩
    all_goals
      rw [Setting.strict_of_not_forgiving hf] at hs
      rw [hs] at hr ⊢
    cases hr
  intro e he
  refine Bool.eq_false_iff.2 fun hstandIn => (isClean_iff hr).2 hproblems e he ?_
  unfold Element.isStandIn at hstandIn
  split at hstandIn
  · trivial
  · trivial
  · cases hstandIn

end Cypher.Grammar

namespace Cypher

/-- **A path that stands for a test leads somewhere**: it has a step. -/
def Element.Leads : Element → Prop
  | expression (.pattern path) => path.chain ≠ []
  | _ => True

/-- A path of the right shape leads somewhere if there is no stand-in inside it. -/
theorem Element.leads_of_formed {e : Element} (hf : e.Formed) (hc : e.Throughout Clear) :
    e.Leads := by
  unfold Leads
  split
  · next path =>
    intro hnil
    obtain ⟨x, hx, hstandIn⟩ := hf.2 hnil
    have hwithin : (expression (.pattern path)).Within x :=
      .of_child List.mem_cons_self (.of_child (c := .pathNode path.start) (by
        simp [children, Composed.elements]) hx)
    exact Bool.noConfusion ((hc x hwithin).symm.trans hstandIn)
  · trivial

/-- **The shape of every tree that is read.** Whatever the tokens, the dialect, the mode and the
limit, all of a document is well formed, where a path that stands for a test has a step or else a
stand-in inside its first node. When mistakes are not forgiven, there is no stand-in for a clause or
for a statement, and each such path has a step. -/
theorem formed_of_parseTokens {tokens : List Token} {options : Options} {document : Document}
    (h : (parseTokens tokens options).document = some document) :
    (Element.document document).Throughout Element.Formed ∧
      (options.recoverErrors = false →
        (Element.document document).Throughout fun e => e.isStandIn = false ∧ e.Leads) := by
  have hformed := Grammar.formed_of_read rfl h
  refine ⟨hformed, fun hstrict e he => ?_⟩
  have hclear := Grammar.clear_of_read hstrict h
  exact ⟨hclear e he, Element.leads_of_formed (hformed e he) fun x hx => hclear x (he.trans hx)⟩

/-! ### A path in a document -/

/-- The path that is all that the one statement of a document returns. -/
def Document.path? (document : Document) : Option (PatternPart Expression) :=
  match document.statements with
  | [.query ⟨[.returnColumns ⟨_, _, [⟨.pattern part, _, _⟩], _, _, _⟩ _], _, _⟩] => some part
  | _ => none

theorem Document.within_of_path? {document : Document} {part : PatternPart Expression}
    (h : document.path? = some part) :
    (Element.document document).Within (.expression (.pattern part)) := by
  unfold path? at h
  split at h
  · next hstatements =>
    cases h
    have hstatement : ∀ x ∈ document.statements,
        Element.statement x ∈ (Element.document document).children := fun x hx =>
      List.mem_flatMap.2 ⟨x, hx, List.mem_cons_self⟩
    -- from the document to the statement, its query, the clause, the column and the path
    refine .of_child (hstatement _ (hstatements ▸ List.mem_cons_self)) ?_
    iterate 4 refine .of_child List.mem_cons_self ?_
    exact .refl
  · cases h

theorem exists_path (source : String) (options : Options) (test : PatternPart Expression → Bool)
    (h : ((parseTokens (tokenize source options.dialect).tokens options).document.map
      fun document => document.path?.any test) = some true) :
    ∃ document path, (parseTokens (tokenize source options.dialect).tokens options).document =
      some document ∧ (Element.document document).Within (.expression (.pattern path)) ∧
      test path = true := by
  obtain ⟨document, hread, hany⟩ := Option.map_eq_some_iff.1 h
  obtain ⟨path, hpath, htest⟩ := (Option.any_eq_true test document.path?).1 hany
  exact ⟨document, path, hread, document.within_of_path? hpath, htest⟩

/-- A path that is tested has a step, as it should. -/
theorem formed_of_parseTokens_path :
    let options := Options.standard
    let tokens := (tokenize "RETURN (a)--(b)" options.dialect).tokens
    ∃ document path, (parseTokens tokens options).document = some document ∧
      (Element.document document).Within (.expression (.pattern path)) ∧
      (Element.document document).Throughout Element.Formed ∧ path.chain ≠ [] := by
  intro options tokens
  obtain ⟨document, path, hread, hwithin, -⟩ :=
    exists_path "RETURN (a)--(b)" options (fun _ => true) (by decide +kernel)
  have hformed := formed_of_parseTokens hread
  exact ⟨document, path, hread, hwithin, hformed.1, (hformed.2 rfl _ hwithin).2⟩

/-- **A path without steps** is read as a test: what closes the first parenthesis in the eyes of the
lookahead has been skipped for the clause that fails inside the braces. -/
theorem exists_path_without_steps :
    let options := (Options.standard.withDialect .neo4j5).withRecoverErrors true
    let source := "RETURN (a {x: EXISTS { RETURN ) ) ) -[]-(b) } })"
    ∃ document path, (parseTokens (tokenize source options.dialect).tokens options).document =
      some document ∧ (Element.document document).Within (.expression (.pattern path)) ∧
      path.chain = [] := by
  intro options source
  obtain ⟨document, path, hread, hwithin, hnil⟩ :=
    exists_path source options (fun path => path.chain.isEmpty) (by decide +kernel)
  exact ⟨document, path, hread, hwithin, List.isEmpty_iff.1 hnil⟩

end Cypher
