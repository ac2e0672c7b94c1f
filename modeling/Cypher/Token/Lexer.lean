import Cypher.Diagnostic.Basic
import Cypher.Text.Escape
import Cypher.Token.Piece

/-!
# From text to tokens

The tokens of a text are the tokens of its pieces, each at the place where its piece starts, with a
token for the end of the text behind them. The problems found on the way are the problems of the
pieces in the same order. Tokens and problems are two independent readings of one list of pieces.

Whether a word is reserved depends on the dialect; everything else about a piece does not.
-/

namespace Cypher

namespace Place

/-- The span of a piece of text that starts at a place. -/
def span (p : Place) (cs : List Char) : Span := ⟨p.offset, p.offset + Text.size cs⟩

end Place

namespace Piece

/-! ### Tokens -/

/-- The kind of a word: reserved if the dialect reserves it, a name otherwise. -/
def wordKind (reserved : Keyword → Bool) (cs : List Char) : TokenKind :=
  match (Keyword.ofWord? cs).filter reserved with
  | some word => .keyword word
  | none => .identifier (String.ofList cs)

/-- The kind of the token a piece stands for; blanks and comments stand for none. -/
def kind? (reserved : Keyword → Bool) (x : Piece) : Option TokenKind :=
  match x.shape with
  | .blank => none
  | .comment _ => none
  | .word => some (wordKind reserved x.written)
  | .quotedName name _ => some (.quotedIdentifier (String.ofList name))
  | .string _ fragments _ => some (.string (String.ofList (Fragment.values fragments)))
  | .number .integer => some (.integer (String.ofList x.written))
  | .number .float => some (.float (String.ofList x.written))
  | .number .malformed => some (.float (String.ofList x.written))
  | .parameter => some (.parameter (String.ofList (x.written.drop 1)))
  | .sign s => some (.sign s)
  | .unknown => some .invalid

/-- The token a piece stands for at a place. -/
def token? (reserved : Keyword → Bool) (p : Place) (x : Piece) : Option Token :=
  (x.kind? reserved).map fun kind =>
    ⟨kind, String.ofList x.written, p.span x.written, p.line, p.column⟩

/-- The token for the end of a text. -/
def endToken (p : Place) : Token := ⟨.endOfInput, "", .empty p.offset, p.line, p.column⟩

/-- The tokens of pieces of which the first starts at a place. -/
def tokens (reserved : Keyword → Bool) : Place → List Piece → List Token
  | p, [] => [endToken p]
  | p, x :: xs => (x.token? reserved p).toList ++ tokens reserved (p.past x.written) xs

/-! ### Problems -/

/-- A lexical problem with its place. -/
def problem (span : Span) (code : Code) (message : String) : Diagnostic :=
  ((Diagnostic.error message).primary span "here").coded code

/-- The problem of a number whose exponent has no digits. -/
def malformedNumber (span : Span) (cs : List Char) : Diagnostic :=
  (((Diagnostic.error ("malformed number `" ++ String.ofList cs ++ "`")).primary span
    "exponent has no digits").helped "write at least one digit after the exponent marker").coded
    .malformedNumber

/-- The problem of a backslash form that means nothing. -/
def invalidEscape (span : Span) (cs : List Char) : Diagnostic :=
  (((Diagnostic.error ("invalid escape sequence `" ++ String.ofList cs ++ "`")).primary span
    "unknown escape").helped
    "valid escapes are \\t \\b \\n \\r \\f \\\x27 \\\" \\\\ \\uXXXX and \\UXXXXXXXX").coded
    .invalidEscape

/-- The problem of a string without its closing quote. -/
def unterminatedString (span : Span) (quote : Char) : Diagnostic :=
  (((Diagnostic.error "unterminated string literal").primary span "string starts here").helped
    ("add a closing " ++ quote.toString)).coded .unterminatedString

/-- The problems of a string literal: its meaningless forms in order, then a missing quote. -/
def stringProblems (p : Place) (x : Piece) (quote : Char) (fragments : List Fragment)
    (closed : Bool) : List Diagnostic :=
  (Fragment.unknowns (p.offset + 1) fragments).map
      (fun (offset, cs) => invalidEscape ⟨offset, offset + Text.size cs⟩ cs) ++
    if closed then [] else [unterminatedString (p.span x.written) quote]

/-- **The problems of a piece** at a place. -/
def problems (p : Place) (x : Piece) : List Diagnostic :=
  match x.shape with
  | .comment false =>
    [problem ⟨p.offset, p.offset + 2⟩ .unterminatedComment "unterminated block comment"]
  | .quotedName _ false =>
    [problem (p.span x.written) .unterminatedQuotedIdentifier "unterminated quoted identifier"]
  | .string quote fragments closed => stringProblems p x quote fragments closed
  | .number .malformed => [malformedNumber (p.span x.written) x.written]
  | .unknown =>
    [problem (p.span x.written) .unrecognizedCharacter
      ("unrecognized character `" ++ String.join (x.written.map Text.escaped) ++ "`")]
  | _ => []

/-- The problems of pieces of which the first starts at a place. -/
def allProblems : Place → List Piece → List Diagnostic
  | _, [] => []
  | p, x :: xs => x.problems p ++ allProblems (p.past x.written) xs

end Piece

/-! ### The lexer -/

/-- **The result of splitting a text into tokens.** -/
structure Lexed where
  /-- The tokens; the last stands for the end of the text. -/
  tokens : List Token
  /-- The problems found. -/
  problems : List Diagnostic

/-- **Splits a text into tokens** under a set of reserved words. -/
def Lexed.ofText (reserved : Keyword → Bool) (source : String) : Lexed :=
  let pieces := Piece.split source.toList
  ⟨Piece.tokens reserved .origin pieces, Piece.allProblems .origin pieces⟩

end Cypher
