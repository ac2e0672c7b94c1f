import Cypher.Text.Place
import Cypher.Token.Keyword

/-!
# Tokens

A token is a kind, the text it was read from, and the place of that text. Kinds that stand for a
name or a literal carry its content: names and strings with their quoting resolved, numbers as they
are written.
-/

namespace Cypher

/-- **A sign**: an operator or a punctuation mark. -/
inductive Sign
  | plus | minus | star | slash | percent | caret
  | eq | notEq | lt | gt | ltEq | gtEq | regexMatch | plusEq
  | leftParen | rightParen | leftBracket | rightBracket | leftBrace | rightBrace
  | comma | dot | dotDot | colon | semicolon | pipe
deriving DecidableEq, Repr

namespace Sign

/-- The characters of a sign. -/
def spelling : Sign → String
  | plus => "+" | minus => "-" | star => "*" | slash => "/" | percent => "%" | caret => "^"
  | eq => "=" | notEq => "<>" | lt => "<" | gt => ">" | ltEq => "<=" | gtEq => ">="
  | regexMatch => "=~" | plusEq => "+="
  | leftParen => "(" | rightParen => ")" | leftBracket => "[" | rightBracket => "]"
  | leftBrace => "\x7b" | rightBrace => "\x7d"
  | comma => "," | dot => "." | dotDot => ".." | colon => ":" | semicolon => ";" | pipe => "|"

/-- Whether a sign is an operator rather than a punctuation mark. -/
def isOperator : Sign → Bool
  | plus | minus | star | slash | percent | caret | eq | notEq | lt | gt | ltEq | gtEq
  | regexMatch | plusEq => true
  | _ => false

/-- The sign spelled by two characters. -/
def ofPair? : Char → Char → Option Sign
  | '<', '>' => some notEq
  | '<', '=' => some ltEq
  | '>', '=' => some gtEq
  | '=', '~' => some regexMatch
  | '+', '=' => some plusEq
  | '.', '.' => some dotDot
  | _, _ => none

/-- The sign spelled by one character. -/
def ofChar? : Char → Option Sign
  | '+' => some plus
  | '-' => some minus
  | '*' => some star
  | '/' => some slash
  | '%' => some percent
  | '^' => some caret
  | '=' => some eq
  | '<' => some lt
  | '>' => some gt
  | '(' => some leftParen
  | ')' => some rightParen
  | '[' => some leftBracket
  | ']' => some rightBracket
  | '\x7b' => some leftBrace
  | '\x7d' => some rightBrace
  | ',' => some comma
  | '.' => some dot
  | ':' => some colon
  | ';' => some semicolon
  | '|' => some pipe
  | _ => none

end Sign

/-- **The kind of a token.** -/
inductive TokenKind
  /-- A reserved word. -/
  | keyword (word : Keyword)
  /-- An unquoted name. -/
  | identifier (name : String)
  /-- A quoted name, without its quotes. -/
  | quotedIdentifier (name : String)
  /-- An integer, as written. -/
  | integer (text : String)
  /-- A number with a fraction or an exponent, as written. -/
  | float (text : String)
  /-- A string, without its quotes. -/
  | string (value : String)
  /-- A parameter, without its dollar sign. -/
  | parameter (name : String)
  /-- An operator or a punctuation mark. -/
  | sign (s : Sign)
  /-- A character that starts no token. -/
  | invalid
  /-- The end of the text. -/
  | endOfInput
deriving DecidableEq, Repr

namespace TokenKind

/-- Whether a token is a reserved word. -/
def isKeyword : TokenKind → Bool
  | keyword _ => true
  | _ => false

/-- Whether a token stands for a value by itself. -/
def isLiteral : TokenKind → Bool
  | integer _ | float _ | string _ => true
  | keyword .NULL | keyword .TRUE | keyword .FALSE => true
  | _ => false

/-- Whether a token is an operator sign. -/
def isOperator : TokenKind → Bool
  | sign s => s.isOperator
  | _ => false

/-- Whether a token can name a variable. -/
def isVariable : TokenKind → Bool
  | identifier _ | quotedIdentifier _ => true
  | _ => false

/-- Whether a token can go on a name after a dot: an unquoted name or a reserved word. -/
def isNamePart : TokenKind → Bool
  | identifier _ | keyword _ => true
  | _ => false

/-- How a message speaks of a token. -/
def describe : TokenKind → String
  | keyword word => word.spelling
  | identifier name | quotedIdentifier name => "identifier `" ++ name ++ "`"
  | integer text | float text => "number " ++ text
  | string _ => "string literal"
  | parameter name => "parameter $" ++ name
  | sign s => s.spelling
  | invalid => "invalid token"
  | endOfInput => "end of input"

end TokenKind

/-- **A token.** -/
structure Token where
  /-- What it is. -/
  kind : TokenKind
  /-- The text it was read from. -/
  lexeme : String
  /-- Where that text stands. -/
  span : Span
  /-- Line of the start of the span. -/
  line : Nat
  /-- Column of the start of the span. -/
  column : Nat
deriving DecidableEq, Repr

end Cypher
