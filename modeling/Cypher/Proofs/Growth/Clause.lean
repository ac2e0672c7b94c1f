import Cypher.Proofs.Growth.Expression
import Cypher.Grammar.Clause

/-!
# How clauses grow

The same for clauses and their parts. None of them needs a token or takes a step further down: they
stand around the expressions inside them. The maps in patterns are not nested, so that a clause is a
level above expressions that are.
-/

namespace Cypher.Grammar

open Rule hiding pure bind
open Rooted (roots map_eq_roots toList_map_eq_roots)

variable {setting : Setting} {inner : Inner} {fold level : Nat}
  (h : inner.Grows setting fold level) {s : State}

include h

/-! ### Reading data -/

theorem spends_matchClause :
    Spends setting inner (Yields (fold + 1) (level + 1)) 0 matchClause s := by
  refine .startHere (.skip h.goesOn fun optional t k => .skip h.goesOn fun _ u l => ?_)
  refine .bind h.goesOn (spends_pattern h) fun pattern v m hpattern => .look (.pure ?_)
  exact Grown.frame hpattern rfl (map_eq_roots (fun _ => rfl) pattern.parts) (by omega)

theorem spends_whereClause :
    Spends setting inner (Yields (fold + 1) (level + 1)) 0 whereClause s := by
  refine .skip h.goesOn fun word t k => ?_
  refine .bind h.goesOn (spends_expression h) fun predicate u l hpredicate => .look (.pure ?_)
  exact Grown.frame hpredicate.higher rfl rfl (by omega)

theorem spends_unwindClause :
    Spends setting inner (Yields (fold + 1) (level + 1)) 0 unwindClause s := by
  refine .skip h.goesOn fun word t k => ?_
  refine .bind h.goesOn (spends_expression h) fun list u l hlist => .skip h.goesOn fun _ v m => ?_
  refine .skip h.goesOn fun binder w n => .look (.pure ?_)
  exact Grown.frame hlist.higher rfl rfl (by omega)

theorem spends_procedureArguments :
    Spends setting inner (Yields (fold + 1) level) 0 procedureArguments s := by
  refine .bind h.goesOn (spends_expressionList h _) fun arguments t k harguments => ?_
  exact .skip h.goesOn fun _ u l => .pure (Grown.more harguments (by omega))

theorem spends_procedureCall :
    Spends setting inner (Yields (fold + 1) level) 0 procedureCall s := by
  refine .skip h.goesOn fun name t k => ?_
  refine .bind h.goesOn (spends_optionally h.goesOn fun _ => spends_procedureArguments h)
    fun arguments u l harguments => ?_
  refine .skip h.goesOn fun yields v m => .ite (fun _ => ?_) fun _ => ?_
  · refine .skip h.goesOn fun star w n => .ite (fun _ => ?_) fun _ => ?_
    · exact .pure (Grown.more harguments (by omega))
    · exact .skip h.goesOn fun items x o => .pure (Grown.more harguments (by omega))
  · exact .pure (Grown.more harguments (by omega))

omit h in
theorem getD_map_eq_roots (arguments : Option (List Expression)) :
    (arguments.getD []).map Node.expression = roots arguments := by
  cases arguments with
  | none => rfl
  | some es =>
    rw [Option.getD_some, map_eq_roots (fun _ => rfl) es]
    exact (List.flatMap_singleton ..).symm

theorem spends_callClause :
    Spends setting inner (Yields (fold + 1) (level + 1)) 0 callClause s := by
  refine .skip h.goesOn fun word t k => .skip h.goesOn fun brace u l =>
    .ite (fun _ => ?_) fun _ => ?_
  · refine .skip h.goesOn fun _ v m => .skip h.goesOn fun _ w n => ?_
    refine .bind h.goesOn (h.subquery w) fun body x o hbody => .skip h.goesOn fun _ y i =>
      .look (.pure ?_)
    have hsubquery := Grown.frame (n := .subquery body) hbody.higher rfl rfl (Nat.le_refl _)
    exact Grown.frame hsubquery rfl rfl (by omega)
  · refine .bind h.goesOn (spends_procedureCall h) fun call v m hcall => .look (.pure ?_)
    exact Grown.frame hcall.higher rfl (getD_map_eq_roots call.arguments) (by omega)

/-! ### Projections -/

theorem spends_projectionItem :
    Spends setting inner (Yields (fold + 1) (level + 1)) 0 projectionItem s := by
  refine .startHere (.bind h.goesOn (spends_expression h) fun value t k hvalue => ?_)
  refine .skip h.goesOn fun rename u l => .look (.pure ?_)
  exact Grown.frame hvalue.higher rfl rfl (by omega)

theorem spends_sortItem :
    Spends setting inner (Yields (fold + 1) (level + 1)) 0 sortItem s := by
  refine .startHere (.bind h.goesOn (spends_expression h) fun value t k hvalue => ?_)
  exact .skip h.goesOn fun descending u l => .look (.pure (hvalue.higher.more (by omega)))

theorem spends_columns :
    Spends setting inner (Yields (fold + 1) (level + 1)) 0 columns s := by
  have hitems : ∀ {t : State}, Spends setting inner (Yields (fold + 1) (level + 1)) 0
      (separated projectionItem) t :=
    spends_separated h.goesOn fun _ => spends_projectionItem h
  refine .skip h.goesOn fun star t k => .ite (fun _ => ?_) fun _ => ?_
  · refine .skip h.goesOn fun comma u l => .ite (fun _ => ?_) fun _ => .pure .empty
    exact .bind h.goesOn hitems fun items v m hitems => .pure (Grown.more hitems (by omega))
  · exact .bind h.goesOn hitems fun items u l hitems => .pure (Grown.more hitems (by omega))

theorem spends_sorting :
    Spends setting inner (Yields (fold + 1) (level + 1)) 0 sorting s := by
  refine .skip h.goesOn fun order t k => .ite (fun _ => ?_) fun _ => .pure .nil
  refine .skip h.goesOn fun _ u l => ?_
  exact (spends_separated h.goesOn fun _ => spends_sortItem h).last fun items m hitems =>
    Grown.more hitems (by omega)

theorem spends_projection :
    Spends setting inner (Yields (fold + 1) (level + 1)) 0 projection s := by
  have hcount : ∀ {word : Keyword} {t : State}, Spends setting inner (Yields (fold + 1) level) 0
      (optionally (takeWord word) expression) t :=
    fun {_ _} => spends_optionally h.goesOn fun _ => spends_expression h
  refine .skip h.goesOn fun distinct t k => ?_
  refine .bind h.goesOn (spends_columns h) fun items u l hitems => ?_
  refine .bind h.goesOn (spends_sorting h) fun orderBy v m horderBy => ?_
  refine .bind h.goesOn hcount fun skip w n hskip => ?_
  refine .bind h.goesOn hcount fun limit x o hlimit => .pure ?_
  have hall := ((Grown.append hitems horderBy).append hskip.higher).append hlimit.higher
  have hnodes : Node.ofProjection ⟨distinct, items.1, items.2, orderBy, skip, limit⟩ =
      roots items ++ roots orderBy ++ roots skip ++ roots limit := by
    rw [Node.ofProjection, map_eq_roots (fun _ => rfl) items.2, map_eq_roots (fun _ => rfl) orderBy,
      toList_map_eq_roots (fun _ => rfl) skip, toList_map_eq_roots (fun _ => rfl) limit]
    rfl
  exact (hnodes ▸ hall).more (by omega)

theorem spends_withClause :
    Spends setting inner (Yields (fold + 1) (level + 1)) 0 withClause s := by
  refine .skip h.goesOn fun word t k => ?_
  refine .bind h.goesOn (spends_projection h) fun projection u l hprojection => .look (.pure ?_)
  exact Grown.frame hprojection rfl rfl (by omega)

theorem spends_returnClause :
    Spends setting inner (Yields (fold + 1) (level + 1)) 0 returnClause s := by
  refine .skip h.goesOn fun word t k => ?_
  refine .bind h.goesOn (spends_projection h) fun projection u l hprojection => .look (.pure ?_)
  exact Grown.frame hprojection rfl rfl (by omega)

/-! ### Changing data -/

theorem spends_propertyTarget :
    Spends setting inner (Yields (fold + 1) level) 0 propertyTarget s := by
  refine .startHere (.bind h.goesOn (h.expression _ s) fun target t k htarget => ?_)
  exact .ite (fun _ => .pure (Grown.more htarget (by omega))) fun _ => .fail _

theorem spends_propertyAssignment (start : Nat) :
    Spends setting inner (Yields (fold + 1) (level + 1)) 0 (propertyAssignment start) s := by
  refine .bind h.goesOn (spends_propertyTarget h) fun target t k htarget => ?_
  refine .skip h.goesOn fun _ u l => ?_
  refine .bind h.goesOn (spends_expression h) fun value v m hvalue => .look (.pure ?_)
  exact Grown.frame (Grown.append htarget hvalue).higher rfl rfl (by omega)

theorem spends_setItem : Spends setting inner (Yields (fold + 1) (level + 1)) 0 setItem s := by
  refine .look (.ite (fun _ => .look ?_) fun _ => spends_propertyAssignment h _)
  split
  · refine .skip h.goesOn fun name t k => ?_
    refine .bind h.goesOn (spends_expression h) fun value u l hvalue => .look (.pure ?_)
    exact Grown.frame hvalue.higher rfl rfl (by omega)
  · refine .skip h.goesOn fun name t k => ?_
    refine .bind h.goesOn (spends_expression h) fun value u l hvalue => .look (.pure ?_)
    exact Grown.frame hvalue.higher rfl rfl (by omega)
  · refine .skip h.goesOn fun name t k => .skip h.goesOn fun labels u l => .look (.pure ?_)
    exact Grown.frame .empty rfl rfl (Nat.le_refl _)
  · exact spends_propertyAssignment h _

theorem spends_removeItem :
    Spends setting inner (Yields (fold + 1) (level + 1)) 0 removeItem s := by
  refine .startHere (.skip h.goesOn fun labelled t k => .ite (fun _ => ?_) fun _ => ?_)
  · exact .skip h.goesOn fun name u l => .skip h.goesOn fun labels v m => .look (.pure .empty)
  · exact .bind h.goesOn (spends_propertyTarget h) fun target u l htarget =>
      .pure (htarget.higher.more (by omega))

theorem spends_createClause :
    Spends setting inner (Yields (fold + 1) (level + 1)) 0 createClause s := by
  refine .skip h.goesOn fun word t k => ?_
  refine .bind h.goesOn (spends_pattern h) fun pattern u l hpattern => .look (.pure ?_)
  exact Grown.frame hpattern rfl (map_eq_roots (fun _ => rfl) pattern.parts) (by omega)

theorem spends_mergeAction :
    Spends setting inner (Yields (fold + 1) (level + 1)) 0 mergeAction s := by
  refine .skip h.goesOn fun word t k => .skip h.goesOn fun event u l => ?_
  refine .skip h.goesOn fun _ v m => ?_
  exact .bind h.goesOn (spends_separated h.goesOn fun _ => spends_setItem h)
    fun items w n hitems => .look (.pure (Grown.more hitems (by omega)))

theorem spends_mergeClause :
    Spends setting inner (Yields (fold + 1) (level + 1)) 0 mergeClause s := by
  refine .skip h.goesOn fun word t k => .bind h.goesOn (spends_part h) fun part u l hpart => ?_
  refine .bind h.goesOn (spends_many h.goesOn fun _ => spends_optionally h.goesOn fun _ =>
    spends_mergeAction h) fun actions v m hactions => .look (.pure ?_)
  have hnodes : (actions.flatMap fun a => a.items.map Node.setItem) = roots actions :=
    congrArg (actions.flatMap ·) (funext fun a => map_eq_roots (fun _ => rfl) a.items)
  exact Grown.frame (hpart.append hactions) rfl (congrArg (_ :: ·) hnodes) (by omega)

theorem spends_deleteClause :
    Spends setting inner (Yields (fold + 1) (level + 1)) 0 deleteClause s := by
  refine .startHere (.skip h.goesOn fun detach t k => .skip h.goesOn fun _ u l => ?_)
  refine .bind h.goesOn (spends_separated h.goesOn fun _ => spends_expression h)
    fun values v m hvalues => .look (.pure ?_)
  exact Grown.frame hvalues.higher rfl (map_eq_roots (fun _ => rfl) values) (by omega)

theorem spends_setClause :
    Spends setting inner (Yields (fold + 1) (level + 1)) 0 setClause s := by
  refine .skip h.goesOn fun word t k => ?_
  refine .bind h.goesOn (spends_separated h.goesOn fun _ => spends_setItem h)
    fun items u l hitems => .look (.pure ?_)
  exact Grown.frame hitems rfl (map_eq_roots (fun _ => rfl) items) (by omega)

theorem spends_removeClause :
    Spends setting inner (Yields (fold + 1) (level + 1)) 0 removeClause s := by
  refine .skip h.goesOn fun word t k => ?_
  refine .bind h.goesOn (spends_separated h.goesOn fun _ => spends_removeItem h)
    fun items u l hitems => .look (.pure ?_)
  exact Grown.frame hitems rfl rfl (by omega)

/-- **Clauses grow.** -/
theorem spends_clause : Spends setting inner (Yields (fold + 1) (level + 1)) 0 clause s := by
  refine .look ?_
  dsimp only
  split
  · split
    · exact spends_matchClause h
    · exact spends_matchClause h
    · exact spends_whereClause h
    · exact spends_withClause h
    · exact spends_returnClause h
    · exact spends_unwindClause h
    · exact spends_createClause h
    · exact spends_mergeClause h
    · exact spends_deleteClause h
    · exact spends_deleteClause h
    · exact spends_setClause h
    · exact spends_removeClause h
    · exact spends_callClause h
    · exact .fail _
  · exact .fail _

end Cypher.Grammar
