import Cypher.Tree.Document

/-!
# Trees without their spans

What a text says does not depend on where it says it. To speak of the one without the other, every
span in a tree is replaced by the empty span at the start: `Cypher.Strip.strip`. Two trees are the
same but for their spans if they are equal once both are stripped.

An expression holds queries, and a query holds expressions, so all their parts are stripped
together (`Cypher.Strip.expression` and what follows it). From then on `strip` is one function for
all types, which goes inside (`Cypher.Strip.strip_query` and the like) and leaves alone what holds
no spans (`Cypher.Plain`).
-/

namespace Cypher

/-- **Values whose spans can be taken out.** -/
class Strip (α : Type) where
  /-- The value with each span replaced by the empty span at the start. -/
  strip : α → α

export Strip (strip)

/-- Values in which there are no spans. -/
class Plain (α : Type) [Strip α] : Prop where
  /-- Nothing is taken out. -/
  strip_eq (a : α) : strip a = a

/-- Plain values that are the same but for their spans are the same. -/
theorem Plain.eq {α : Type} [Strip α] [Plain α] {a b : α} (h : strip a = strip b) : a = b := by
  rwa [strip_eq, strip_eq] at h

instance : Strip Unit := ⟨id⟩
instance : Strip Bool := ⟨id⟩
instance : Strip Nat := ⟨id⟩
instance : Strip String := ⟨id⟩
instance : Strip PathLength := ⟨id⟩
instance : Strip MergeEvent := ⟨id⟩

instance : Plain Unit := ⟨fun _ => rfl⟩
instance : Plain Bool := ⟨fun _ => rfl⟩
instance : Plain Nat := ⟨fun _ => rfl⟩
instance : Plain String := ⟨fun _ => rfl⟩
instance : Plain PathLength := ⟨fun _ => rfl⟩
instance : Plain MergeEvent := ⟨fun _ => rfl⟩

instance : Strip Span := ⟨fun _ => ⟨0, 0⟩⟩

section

variable {α β : Type}

instance : Strip (Located α) := ⟨fun x => ⟨x.value, strip x.span⟩⟩

variable [Strip α] [Strip β]

instance : Strip (Option α) := ⟨Option.map strip⟩
instance : Strip (List α) := ⟨List.map strip⟩
instance : Strip (α × β) := ⟨fun x => (strip x.1, strip x.2)⟩

instance [Plain α] : Plain (Option α) := ⟨fun a => by
  cases a with
  | none => rfl
  | some a => exact congrArg some (Plain.strip_eq a)⟩

instance [Plain α] : Plain (List α) := ⟨fun as => List.map_id'' Plain.strip_eq as⟩

end

namespace Strip

/-! ### Taking the spans out of a tree -/

mutual

/-- An expression without spans. -/
def expression : Expression → Expression
  | .literal value span => .literal value (strip span)
  | .parameter name span => .parameter name (strip span)
  | .reference name span => .reference name (strip span)
  | .property base key span => .property (expression base) (strip key) (strip span)
  | .index base index span => .index (expression base) (expression index) (strip span)
  | .slice base lower upper span =>
    .slice (expression base) (maybe lower) (maybe upper) (strip span)
  | .hasLabels base labels span => .hasLabels (expression base) (strip labels) (strip span)
  | .list items span => .list (items.map fun e => expression e) (strip span)
  | .map entries span => .map (entries.map fun e => entry e) (strip span)
  | .call name distinct arguments span =>
    .call name distinct (arguments.map fun e => expression e) (strip span)
  | .countStar span => .countStar (strip span)
  | .unary operator operand span => .unary operator (expression operand) (strip span)
  | .binary operator left right span =>
    .binary operator (expression left) (expression right) (strip span)
  | .isNull operand negated span => .isNull (expression operand) negated (strip span)
  | .case operand alternatives otherwise span =>
    .case (maybe operand) (alternatives.map fun a => alternative a) (maybe otherwise) (strip span)
  | .comprehension body => .comprehension (comprehension body)
  | .quantified quantifier body => .quantified quantifier (comprehension body)
  | .existsQuery body span => .existsQuery (query body) (strip span)
  | .pattern path => .pattern (part path)
termination_by e => sizeOf e

/-- What may be an expression. -/
def maybe : Option Expression → Option Expression
  | none => none
  | some e => some (expression e)
termination_by e => sizeOf e

/-- The entry of a map. -/
def entry : MapEntry Expression → MapEntry Expression
  | ⟨key, value⟩ => ⟨strip key, expression value⟩
termination_by e => sizeOf e

/-- A case. -/
def alternative : CaseAlternative Expression → CaseAlternative Expression
  | ⟨condition, result⟩ => ⟨expression condition, expression result⟩
termination_by a => sizeOf a

/-- What is done with the elements of a list. -/
def comprehension : Comprehension Expression → Comprehension Expression
  | ⟨binder, list, predicate, projection, span⟩ =>
    ⟨strip binder, expression list, maybe predicate, maybe projection, strip span⟩
termination_by c => sizeOf c

/-- A node of a path. -/
def pathNode : NodePattern Expression → NodePattern Expression
  | ⟨binder, labels, properties, span⟩ =>
    ⟨strip binder, strip labels, maybe properties, strip span⟩
termination_by n => sizeOf n

/-- A relationship of a path. -/
def relationship : RelationshipPattern Expression → RelationshipPattern Expression
  | ⟨direction, binder, types, length, properties, span⟩ =>
    ⟨direction, strip binder, strip types, length, maybe properties, strip span⟩
termination_by r => sizeOf r

/-- A step of a path. -/
def step : PatternStep Expression → PatternStep Expression
  | ⟨arrow, node⟩ => ⟨relationship arrow, pathNode node⟩
termination_by s => sizeOf s

/-- A path. -/
def part : PatternPart Expression → PatternPart Expression
  | ⟨binder, start, chain, span⟩ =>
    ⟨strip binder, pathNode start, chain.map fun s => step s, strip span⟩
termination_by p => sizeOf p

/-- A pattern. -/
def pattern : Pattern Expression → Pattern Expression
  | ⟨parts, span⟩ => ⟨parts.map fun p => part p, strip span⟩
termination_by p => sizeOf p

/-- A column. -/
def item : ProjectionItem Expression → ProjectionItem Expression
  | ⟨value, rename, span⟩ => ⟨expression value, strip rename, strip span⟩
termination_by i => sizeOf i

/-- A value to sort by. -/
def sortItem : SortItem Expression → SortItem Expression
  | ⟨value, descending, span⟩ => ⟨expression value, descending, strip span⟩
termination_by i => sizeOf i

/-- A projection. -/
def projection : Projection Expression → Projection Expression
  | ⟨distinct, star, items, orderBy, skip, limit⟩ =>
    ⟨distinct, star, items.map fun i => item i, orderBy.map fun i => sortItem i, maybe skip,
      maybe limit⟩
termination_by p => sizeOf p

/-- An assignment. -/
def setItem : SetItem Expression → SetItem Expression
  | .property target value span => .property (expression target) (expression value) (strip span)
  | .replace binder value span => .replace (strip binder) (expression value) (strip span)
  | .merge binder value span => .merge (strip binder) (expression value) (strip span)
  | .labels binder labels span => .labels (strip binder) (strip labels) (strip span)
termination_by i => sizeOf i

/-- Something to remove. -/
def removeItem : RemoveItem Expression → RemoveItem Expression
  | .property target => .property (expression target)
  | .labels binder labels span => .labels (strip binder) (strip labels) (strip span)
termination_by i => sizeOf i

/-- An action of a merge. -/
def action : MergeAction Expression → MergeAction Expression
  | ⟨event, items, span⟩ => ⟨event, items.map fun i => setItem i, strip span⟩
termination_by a => sizeOf a

/-- The arguments of a procedure, if there are any. -/
def arguments : Option (List Expression) → Option (List Expression)
  | none => none
  | some es => some (es.map fun e => expression e)
termination_by a => sizeOf a

/-- The call of a procedure. -/
def call : ProcedureCall Expression → ProcedureCall Expression
  | ⟨name, values, yieldItems, yieldAll⟩ =>
    ⟨strip name, arguments values,
      yieldItems.map fun i => ⟨strip i.field, strip i.rename⟩, yieldAll⟩
termination_by c => sizeOf c

/-- A clause. -/
def clause : Clause → Clause
  | .matchPattern optional paths span => .matchPattern optional (pattern paths) (strip span)
  | .whereHolds predicate span => .whereHolds (expression predicate) (strip span)
  | .withColumns columns span => .withColumns (projection columns) (strip span)
  | .returnColumns columns span => .returnColumns (projection columns) (strip span)
  | .unwindList list binder span => .unwindList (expression list) (strip binder) (strip span)
  | .createPattern paths span => .createPattern (pattern paths) (strip span)
  | .mergePart path actions span =>
    .mergePart (part path) (actions.map fun a => action a) (strip span)
  | .deleteValues detach values span =>
    .deleteValues detach (values.map fun e => expression e) (strip span)
  | .setItems items span => .setItems (items.map fun i => setItem i) (strip span)
  | .removeItems items span => .removeItems (items.map fun i => removeItem i) (strip span)
  | .callProcedure procedure span => .callProcedure (call procedure) (strip span)
  | .callQuery body span => .callQuery (query body) (strip span)
  | .error span => .error (strip span)
termination_by c => sizeOf c

/-- A branch behind a union. -/
def branch : UnionBranch Clause → UnionBranch Clause
  | ⟨all, clauses, span⟩ => ⟨all, clauses.map fun c => clause c, strip span⟩
termination_by b => sizeOf b

/-- A query. -/
def query : Query → Query
  | ⟨clauses, unions, span⟩ =>
    ⟨clauses.map fun c => clause c, unions.map fun b => branch b, strip span⟩
termination_by q => sizeOf q

end

instance : Strip Expression := ⟨expression⟩
instance : Strip (MapEntry Expression) := ⟨entry⟩
instance : Strip (CaseAlternative Expression) := ⟨alternative⟩
instance : Strip (Comprehension Expression) := ⟨comprehension⟩
instance : Strip (NodePattern Expression) := ⟨pathNode⟩
instance : Strip (RelationshipPattern Expression) := ⟨relationship⟩
instance : Strip (PatternStep Expression) := ⟨step⟩
instance : Strip (PatternPart Expression) := ⟨part⟩
instance : Strip (Pattern Expression) := ⟨pattern⟩
instance : Strip (ProjectionItem Expression) := ⟨item⟩
instance : Strip (SortItem Expression) := ⟨sortItem⟩
instance : Strip (Projection Expression) := ⟨projection⟩
instance : Strip (SetItem Expression) := ⟨setItem⟩
instance : Strip (RemoveItem Expression) := ⟨removeItem⟩
instance : Strip (MergeAction Expression) := ⟨action⟩
instance : Strip YieldItem := ⟨fun i => ⟨strip i.field, strip i.rename⟩⟩
instance : Strip (ProcedureCall Expression) := ⟨call⟩
instance : Strip Clause := ⟨clause⟩
instance : Strip (UnionBranch Clause) := ⟨branch⟩
instance : Strip Query := ⟨query⟩

/-! ### Going inside -/

section

variable {α β : Type}

@[simp] theorem strip_span (span : Span) : strip span = ⟨0, 0⟩ := rfl

@[simp] theorem strip_located (value : α) (span : Span) :
    strip (Located.mk value span) = ⟨value, strip span⟩ := rfl

/-- Names that are the same but for their spans. -/
theorem value_eq {x y : Located α} (h : strip x = strip y) : x.value = y.value := by
  injection h

variable [Strip α] [Strip β]

@[simp] theorem strip_none : strip (none : Option α) = none := rfl

@[simp] theorem strip_some (a : α) : strip (some a) = some (strip a) := rfl

@[simp] theorem strip_nil : strip ([] : List α) = [] := rfl

@[simp] theorem strip_cons (a : α) (as : List α) : strip (a :: as) = strip a :: strip as := rfl

@[simp] theorem strip_append (as bs : List α) : strip (as ++ bs) = strip as ++ strip bs :=
  List.map_append

@[simp] theorem strip_pair (a : α) (b : β) : strip (a, b) = (strip a, strip b) := rfl

@[simp] theorem length_strip (as : List α) : (strip as).length = as.length := List.length_map _

@[simp] theorem isEmpty_strip (as : List α) : (strip as).isEmpty = as.isEmpty := List.isEmpty_map

/-- Lists that are the same but for their spans are empty together. -/
theorem isEmpty_eq {as bs : List α} (h : strip as = strip bs) : as.isEmpty = bs.isEmpty := by
  rw [← isEmpty_strip as, h, isEmpty_strip]

/-! What is the same as nothing, as a value, as an empty list or as a longer one is so itself. -/

theorem eq_none {a : Option α} (h : strip none = strip a) : a = none :=
  Option.map_eq_none_iff.1 h.symm

theorem exists_eq_some {a : α} {b : Option α} (h : strip (some a) = strip b) :
    ∃ a', b = some a' ∧ strip a = strip a' :=
  let ⟨a', hb, ha⟩ := Option.map_eq_some_iff.1 h.symm
  ⟨a', hb, ha.symm⟩

theorem eq_nil {as : List α} (h : strip [] = strip as) : as = [] := List.map_eq_nil_iff.1 h.symm

theorem exists_eq_cons {a : α} {as bs : List α} (h : strip (a :: as) = strip bs) :
    ∃ a' as', bs = a' :: as' ∧ strip a = strip a' ∧ strip as = strip as' :=
  let ⟨a', as', hbs, ha, has⟩ := List.map_eq_cons_iff.1 h.symm
  ⟨a', as', hbs, ha.symm, has.symm⟩

end

@[simp] theorem maybe_eq (e : Option Expression) : maybe e = strip e := by
  cases e <;> simp only [maybe] <;> rfl

@[simp] theorem arguments_eq (values : Option (List Expression)) :
    arguments values = strip values := by
  cases values <;> simp only [arguments] <;> rfl

/-- Taking the spans out of an expression goes inside. -/
@[simp] theorem strip_expression :
    (∀ value span, strip (Expression.literal value span) = .literal value (strip span)) ∧
    (∀ name span, strip (Expression.parameter name span) = .parameter name (strip span)) ∧
    (∀ name span, strip (Expression.reference name span) = .reference name (strip span)) ∧
    (∀ base key span, strip (Expression.property base key span) =
      .property (strip base) (strip key) (strip span)) ∧
    (∀ base index span, strip (Expression.index base index span) =
      .index (strip base) (strip index) (strip span)) ∧
    (∀ base lower upper span, strip (Expression.slice base lower upper span) =
      .slice (strip base) (strip lower) (strip upper) (strip span)) ∧
    (∀ base labels span, strip (Expression.hasLabels base labels span) =
      .hasLabels (strip base) (strip labels) (strip span)) ∧
    (∀ items span, strip (Expression.list items span) = .list (strip items) (strip span)) ∧
    (∀ entries span, strip (Expression.map entries span) = .map (strip entries) (strip span)) ∧
    (∀ name distinct arguments span, strip (Expression.call name distinct arguments span) =
      .call name distinct (strip arguments) (strip span)) ∧
    (∀ span, strip (Expression.countStar span) = .countStar (strip span)) ∧
    (∀ operator operand span, strip (Expression.unary operator operand span) =
      .unary operator (strip operand) (strip span)) ∧
    (∀ operator left right span, strip (Expression.binary operator left right span) =
      .binary operator (strip left) (strip right) (strip span)) ∧
    (∀ operand negated span, strip (Expression.isNull operand negated span) =
      .isNull (strip operand) negated (strip span)) ∧
    (∀ operand alternatives otherwise span,
      strip (Expression.case operand alternatives otherwise span) =
        .case (strip operand) (strip alternatives) (strip otherwise) (strip span)) ∧
    (∀ body, strip (Expression.comprehension body) = .comprehension (strip body)) ∧
    (∀ quantifier body, strip (Expression.quantified quantifier body) =
      .quantified quantifier (strip body)) ∧
    (∀ body span, strip (Expression.existsQuery body span) =
      .existsQuery (strip body) (strip span)) ∧
    ∀ path, strip (Expression.pattern path) = .pattern (strip path) := by
  simp only [strip, expression, maybe_eq, implies_true, and_self]

/-- It goes inside the parts of expressions and of paths. -/
@[simp] theorem strip_parts :
    (∀ key value, strip (⟨key, value⟩ : MapEntry Expression) = ⟨strip key, strip value⟩) ∧
    (∀ condition result, strip (⟨condition, result⟩ : CaseAlternative Expression) =
      ⟨strip condition, strip result⟩) ∧
    (∀ binder list predicate projection span,
      strip (⟨binder, list, predicate, projection, span⟩ : Comprehension Expression) =
        ⟨strip binder, strip list, strip predicate, strip projection, strip span⟩) ∧
    (∀ binder labels properties span,
      strip (⟨binder, labels, properties, span⟩ : NodePattern Expression) =
        ⟨strip binder, strip labels, strip properties, strip span⟩) ∧
    (∀ direction binder types length properties span,
      strip (⟨direction, binder, types, length, properties, span⟩ :
          RelationshipPattern Expression) =
        ⟨direction, strip binder, strip types, length, strip properties, strip span⟩) ∧
    (∀ arrow node, strip (⟨arrow, node⟩ : PatternStep Expression) = ⟨strip arrow, strip node⟩) ∧
    (∀ binder start chain span,
      strip (⟨binder, start, chain, span⟩ : PatternPart Expression) =
        ⟨strip binder, strip start, strip chain, strip span⟩) ∧
    ∀ parts span, strip (⟨parts, span⟩ : Pattern Expression) = ⟨strip parts, strip span⟩ := by
  simp only [strip, entry, alternative, comprehension, pathNode, relationship, step, part, pattern,
    maybe_eq, implies_true, and_self]

/-- It goes inside the parts of clauses. -/
@[simp] theorem strip_items :
    (∀ value rename span, strip (⟨value, rename, span⟩ : ProjectionItem Expression) =
      ⟨strip value, strip rename, strip span⟩) ∧
    (∀ value descending span, strip (⟨value, descending, span⟩ : SortItem Expression) =
      ⟨strip value, descending, strip span⟩) ∧
    (∀ distinct star items orderBy skip limit,
      strip (⟨distinct, star, items, orderBy, skip, limit⟩ : Projection Expression) =
        ⟨distinct, star, strip items, strip orderBy, strip skip, strip limit⟩) ∧
    (∀ target value span, strip (.property target value span : SetItem Expression) =
      .property (strip target) (strip value) (strip span)) ∧
    (∀ binder value span, strip (.replace binder value span : SetItem Expression) =
      .replace (strip binder) (strip value) (strip span)) ∧
    (∀ binder value span, strip (.merge binder value span : SetItem Expression) =
      .merge (strip binder) (strip value) (strip span)) ∧
    (∀ binder labels span, strip (.labels binder labels span : SetItem Expression) =
      .labels (strip binder) (strip labels) (strip span)) ∧
    (∀ target, strip (.property target : RemoveItem Expression) = .property (strip target)) ∧
    (∀ binder labels span, strip (.labels binder labels span : RemoveItem Expression) =
      .labels (strip binder) (strip labels) (strip span)) ∧
    (∀ event items span, strip (⟨event, items, span⟩ : MergeAction Expression) =
      ⟨event, strip items, strip span⟩) ∧
    (∀ field rename, strip (⟨field, rename⟩ : YieldItem) = ⟨strip field, strip rename⟩) ∧
    ∀ name values yieldItems yieldAll,
      strip (⟨name, values, yieldItems, yieldAll⟩ : ProcedureCall Expression) =
        ⟨strip name, strip values, strip yieldItems, yieldAll⟩ := by
  simp only [strip, item, sortItem, projection, setItem, removeItem, action, call, maybe_eq,
    arguments_eq, implies_true, and_self]

/-- It goes inside clauses. -/
@[simp] theorem strip_clause :
    (∀ optional paths span, strip (.matchPattern optional paths span : Clause) =
      .matchPattern optional (strip paths) (strip span)) ∧
    (∀ predicate span, strip (.whereHolds predicate span : Clause) =
      .whereHolds (strip predicate) (strip span)) ∧
    (∀ columns span, strip (.withColumns columns span : Clause) =
      .withColumns (strip columns) (strip span)) ∧
    (∀ columns span, strip (.returnColumns columns span : Clause) =
      .returnColumns (strip columns) (strip span)) ∧
    (∀ list binder span, strip (.unwindList list binder span : Clause) =
      .unwindList (strip list) (strip binder) (strip span)) ∧
    (∀ paths span, strip (.createPattern paths span : Clause) =
      .createPattern (strip paths) (strip span)) ∧
    (∀ path actions span, strip (.mergePart path actions span : Clause) =
      .mergePart (strip path) (strip actions) (strip span)) ∧
    (∀ detach values span, strip (.deleteValues detach values span : Clause) =
      .deleteValues detach (strip values) (strip span)) ∧
    (∀ items span, strip (.setItems items span : Clause) =
      .setItems (strip items) (strip span)) ∧
    (∀ items span, strip (.removeItems items span : Clause) =
      .removeItems (strip items) (strip span)) ∧
    (∀ procedure span, strip (.callProcedure procedure span : Clause) =
      .callProcedure (strip procedure) (strip span)) ∧
    (∀ body span, strip (.callQuery body span : Clause) =
      .callQuery (strip body) (strip span)) ∧
    ∀ span, strip (.error span : Clause) = .error (strip span) := by
  simp only [strip, clause, implies_true, and_self]

@[simp] theorem strip_unionBranch (all : Bool) (clauses : List Clause) (span : Span) :
    strip (UnionBranch.mk all clauses span) = ⟨all, strip clauses, strip span⟩ := by
  simp only [strip, branch]

@[simp] theorem strip_query (clauses : List Clause) (unions : List (UnionBranch Clause))
    (span : Span) :
    strip (QueryOf.mk clauses unions span) = ⟨strip clauses, strip unions, strip span⟩ := by
  simp only [strip, query]

end Strip

/-! ### Documents -/

instance : Strip Statement :=
  ⟨fun
    | .query query => .query (strip query)
    | .error span => .error (strip span)⟩

instance : Strip Document := ⟨fun d => ⟨strip d.statements, strip d.span⟩⟩

end Cypher
