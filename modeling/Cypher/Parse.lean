import Cypher.Check.Validator
import Cypher.Grammar.Query
import Cypher.Options

/-!
# Reading a text

A text is split into tokens, the tokens are read by the grammar, and the tree they form is checked.
Problems of all three stages are collected in this order, and none of them is ever a failure of
reading itself: the result always says what was found, and holds a document unless a mistake in the
grammar was not to be forgiven.
-/

namespace Cypher

/-- The tokens and lexical problems of a text in a dialect. -/
def tokenize (source : String) (dialect : Dialect) : Lexed :=
  .ofText dialect.rules.reserves source

/-- The way to run the grammar that some options ask for. -/
def Setting.ofOptions (o : Options) : Setting :=
  { rules := o.dialect.rules, forgiving := o.recoverErrors, limit := o.maxNestingDepth }

/-- **What was found in a text.** -/
structure Parsed where
  /-- The document. -/
  document : Option Document
  /-- The problems, in the order of the stages. -/
  diagnostics : List Diagnostic
  /-- Whether one of the problems is an error. -/
  hasErrors : Bool

namespace Parsed

/-- The problems with a given code. -/
def withCode (result : Parsed) (code : Code) : List Diagnostic :=
  result.diagnostics.filter fun d => d.code = some code

/-- The result that a log amounts to. -/
def ofLog (document : Option Document) (log : Log) : Parsed :=
  ⟨document, log.entries, log.hasErrors⟩

end Parsed

/-- Reads a document from tokens as some options ask for. -/
def parseTokens (tokens : List Token) (options : Options) : Grammar.Reading :=
  Grammar.read (.ofOptions options) tokens

/-- **Reads a text.** -/
def parse (source : String) (options : Options) : Parsed :=
  let lexed := tokenize source options.dialect
  let reading := parseTokens lexed.tokens options
  let log : Log := (Log.empty.extend lexed.problems).extend reading.problems
  match reading.document with
  | none => .ofLog none log
  | some document =>
    let (_, log) := (Validator.ofDialect options.dialect).validate document reading.scopes log
    .ofLog (some document) log

end Cypher
