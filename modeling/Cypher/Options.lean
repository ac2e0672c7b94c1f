import Cypher.Dialect.Basic

/-!
# Options

Three things can be chosen for reading a text: the dialect, whether reading goes on after a mistake,
and how deep expressions and subqueries may nest. Options can also be given as named fields, as they
come from a settings file; a field that is left out keeps its default, and a field with another name
means nothing.
-/

namespace Cypher

/-- **How to read a text.** -/
structure Options where
  /-- Whether reading goes on after a mistake. -/
  recoverErrors : Bool := false
  /-- The dialect. -/
  dialect : Dialect := .openCypher
  /-- The number of levels of nesting that are allowed. -/
  maxNestingDepth : Nat := 128
deriving DecidableEq, Repr

/-- The value of a field. -/
inductive FieldValue
  | flag (value : Bool)
  | text (value : String)
  | count (value : Nat)
  /-- A value of any other sort. -/
  | other
deriving DecidableEq, Repr

namespace Options

/-- The options that apply when nothing is chosen. -/
def standard : Options := {}

/-- The options with reading after a mistake on or off. -/
def withRecoverErrors (o : Options) (value : Bool) : Options := { o with recoverErrors := value }

/-- The options with another dialect. -/
def withDialect (o : Options) (value : Dialect) : Options := { o with dialect := value }

/-- The options with another limit on nesting. -/
def withMaxNestingDepth (o : Options) (value : Nat) : Options := { o with maxNestingDepth := value }

/-- Limits on nesting lie below this number. -/
def depthLimit : Nat := 0x10000000000000000

/-- Sets one field, unless the value does not fit it. -/
def setField (o : Options) (name : String) (value : FieldValue) : Option Options :=
  if name = "recover_errors" then
    match value with
    | .flag b => some (o.withRecoverErrors b)
    | _ => none
  else if name = "dialect" then
    match value with
    | .text s => (Dialect.ofName? s).map o.withDialect
    | _ => none
  else if name = "max_nesting_depth" then
    match value with
    | .count n => if n < depthLimit then some (o.withMaxNestingDepth n) else none
    | _ => none
  else some o

/-- **The options given by some fields**, unless one of them does not fit. -/
def ofFields? (fields : List (String × FieldValue)) : Option Options :=
  fields.foldlM (fun o field => o.setField field.1 field.2) standard

/-- **The fields that give the options.** -/
def fields (o : Options) : List (String × FieldValue) :=
  [("recover_errors", .flag o.recoverErrors), ("dialect", .text o.dialect.name),
   ("max_nesting_depth", .count o.maxNestingDepth)]

end Options

end Cypher
