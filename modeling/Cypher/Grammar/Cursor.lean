import Cypher.Token.Lexer

/-!
# Cursors over tokens

The grammar reads tokens through a cursor: the tokens behind it, the token it is at, and the tokens
ahead. There always is a token to be at, since a list of tokens is closed by an end token when it
lacks one; moving on from the last token stays there. Tokens for characters that start nothing were
reported when they were found, and are left out.

Some constructs can only be told apart by looking ahead: a name is a function when an argument list
follows it, and a parenthesis opens a path rather than a group when a relationship and another node
follow it. Those tests walk along the tokens ahead and never move the cursor.
-/

namespace Cypher

namespace TokenKind

/-- Whether a token opens a bracket. -/
def isOpening : TokenKind → Bool
  | sign .leftParen | sign .leftBracket | sign .leftBrace => true
  | _ => false

/-- Whether a token closes a bracket. -/
def isClosing : TokenKind → Bool
  | sign .rightParen | sign .rightBracket | sign .rightBrace => true
  | _ => false

/-- Whether a token can start a clause. -/
def startsClause : TokenKind → Bool
  | keyword word =>
    match word with
    | .MATCH | .OPTIONAL | .WHERE | .WITH | .RETURN | .UNWIND | .CREATE | .MERGE | .DELETE
    | .DETACH | .SET | .REMOVE | .CALL => true
    | _ => false
  | _ => false

/-- Whether a token ends the clauses of a branch, given whether a closing brace may. -/
def endsClauses (nested : Bool) : TokenKind → Bool
  | endOfInput => true
  | sign .semicolon => true
  | keyword .UNION => true
  | sign .rightBrace => nested
  | _ => false

end TokenKind

/-- **A place among tokens.** -/
structure Cursor where
  /-- The tokens behind, the nearest first. -/
  behind : List Token
  /-- The token at the cursor. -/
  current : Token
  /-- The tokens ahead, the nearest first. -/
  ahead : List Token
deriving DecidableEq, Repr

namespace Cursor

/-! ### Starting -/

/-- An end token just behind a token. -/
def endAfter (t : Token) : Token := ⟨.endOfInput, "", .empty t.span.stop, t.line, t.column⟩

/-- The tokens `rest` behind a token, closed by an end token unless they or, for want of any, the
token itself already end with one. -/
def closed : Token → List Token → List Token
  | t, [] => if t.kind = .endOfInput then [] else [endAfter t]
  | _, u :: us => u :: closed u us

/-- The cursor at the first of some tokens, closed by an end token. -/
def atFirst : List Token → Cursor
  | [] => ⟨[], Piece.endToken .origin, []⟩
  | t :: rest => ⟨[], t, closed t rest⟩

/-- **The cursor at the start of a list of tokens.** -/
def ofTokens (tokens : List Token) : Cursor :=
  atFirst (tokens.filter fun t => t.kind ≠ .invalid)

/-! ### Moving -/

/-- Moves on to the next token, or stays at the last. -/
def advance (c : Cursor) : Cursor :=
  match c.ahead with
  | [] => c
  | t :: ts => ⟨c.current :: c.behind, t, ts⟩

/-- The number of tokens behind. -/
def position (c : Cursor) : Nat := c.behind.length

/-- Moves a cursor given by its parts over a number of tokens, or to the last. -/
def forward (behind : List Token) (current : Token) : List Token → Nat → Cursor
  | ahead, 0 => ⟨behind, current, ahead⟩
  | [], _ + 1 => ⟨behind, current, []⟩
  | t :: ts, n + 1 => forward (current :: behind) t ts n

/-- Moves a cursor given by its parts back to the first token. -/
def back : List Token → Token → List Token → Token × List Token
  | [], current, ahead => (current, ahead)
  | t :: ts, current, ahead => back ts t (current :: ahead)

/-- Moves to the token with a number of tokens behind it, or to the last. -/
def seek (c : Cursor) (n : Nat) : Cursor :=
  let (first, rest) := back c.behind c.current c.ahead
  forward [] first rest n

/-! ### Looking -/

/-- The kind of the token at the cursor. -/
def kind (c : Cursor) : TokenKind := c.current.kind

/-- The kind of the token a number of places behind the first of some tokens, or of the last. -/
def kindAt (t : Token) : List Token → Nat → TokenKind
  | _, 0 => t.kind
  | [], _ + 1 => t.kind
  | u :: us, n + 1 => kindAt u us n

/-- The kind of the token a number of places ahead, or of the last. -/
def peek (c : Cursor) (n : Nat) : TokenKind := kindAt c.current c.ahead n

/-- Whether the cursor is at an end token. -/
def isAtEnd (c : Cursor) : Bool := c.kind = .endOfInput

/-- The span of the token just behind; before the first token, the empty span at its start. -/
def previousSpan (c : Cursor) : Span :=
  match c.behind with
  | [] => .empty c.current.span.start
  | t :: _ => t.span

/-- The kind of the token just behind. -/
def previousKind? (c : Cursor) : Option TokenKind := c.behind.head?.map Token.kind

/-- The span from an offset to the end of the token just behind, empty if that lies before it. -/
def spanFrom (c : Cursor) (start : Nat) : Span := ⟨start, max c.previousSpan.stop start⟩

/-! ### Looking ahead -/

/-- Whether the tokens behind a name go on to an argument list, perhaps through further parts of
the name. -/
def argumentsFollow : List Token → Bool
  | t :: u :: rest =>
    if t.kind = .sign .leftParen then true
    else if t.kind = .sign .dot && u.kind.isNamePart then argumentsFollow rest
    else false
  | [t] => t.kind = .sign .leftParen
  | [] => false

/-- **Whether the name at the cursor is called**: whether an argument list follows it. -/
def opensCall (c : Cursor) : Bool := argumentsFollow c.ahead

/-- The tokens behind the bracket that closes the outermost one, with `depth` brackets open before
the first of the tokens. Brackets of all kinds count alike. -/
def afterClose : Nat → List Token → Option (List Token)
  | _, [] => none
  | depth, t :: ts =>
    if t.kind.isOpening then afterClose (depth + 1) ts
    else if t.kind.isClosing then
      match depth with
      | 0 => none
      | 1 => some ts
      | depth + 2 => afterClose (depth + 1) ts
    else if t.kind = .endOfInput then none
    else afterClose depth ts

/-- Whether a token may come first in a node, behind the name it may have. -/
def opensDetail : TokenKind → Bool
  | .sign .rightParen | .sign .colon | .sign .leftBrace => true
  | .parameter _ => true
  | _ => false

/-- Whether some tokens start like the inside of a node: perhaps a name, and then the end of the
node, a label or properties. -/
def startsLikeNode : List Token → Bool
  | t :: ts =>
    if t.kind.isVariable then (ts.head?.map Token.kind).any opensDetail else opensDetail t.kind
  | [] => false

/-- The tokens behind one of a kind, if that kind comes first. -/
def skip? (kind : TokenKind) : List Token → Option (List Token)
  | t :: ts => if t.kind = kind then some ts else none
  | [] => none

/-- The tokens behind one of a kind, or all if that kind does not come first. -/
def skipMaybe (kind : TokenKind) (ts : List Token) : List Token := (skip? kind ts).getD ts

/-- The tokens behind the detail of a relationship and the dash that follows it, or behind the dash
alone if there is no detail. -/
def afterDetail? : List Token → Option (List Token)
  | t :: ts =>
    if t.kind = .sign .minus then some ts
    else if t.kind = .sign .leftBracket then (afterClose 0 (t :: ts)).bind (skip? (.sign .minus))
    else none
  | [] => none

/-- Whether some tokens start with a relationship and the parenthesis of another node. -/
def startsWithRelationship (ts : List Token) : Bool :=
  match (skip? (.sign .minus) (skipMaybe (.sign .lt) ts)).bind afterDetail? with
  | some rest => (skip? (.sign .leftParen) (skipMaybe (.sign .gt) rest)).isSome
  | none => false

/-- **Whether the parenthesis at the cursor opens a path**: a node that is followed by a
relationship and another node. -/
def opensPattern (c : Cursor) : Bool :=
  c.kind = .sign .leftParen && startsLikeNode c.ahead &&
    (afterClose 0 (c.current :: c.ahead)).any startsWithRelationship

/-! ### Finding the next clause -/

/-- Whether reading can be taken up again at a token, with no bracket opened since the failure. -/
def resumesAt (nested : Bool) (previous : Option TokenKind) (kind : TokenKind) : Bool :=
  kind.endsClauses nested ||
    (kind.startsClause && previous ≠ some (.keyword .ON))

/-- The number of brackets open behind a token. A bracket that was open before the failure may be
closed without having been counted. -/
def depthAfter (depth : Nat) (kind : TokenKind) : Nat :=
  if kind.isOpening then depth + 1 else if kind.isClosing then depth - 1 else depth

/-- Skips tokens up to one at which reading can be taken up again outside the brackets opened on the
way, or to the end. -/
def resumeFrom (nested : Bool) (behind : List Token) (current : Token) :
    List Token → Nat → Cursor
  | ahead, depth =>
    if current.kind = .endOfInput then ⟨behind, current, ahead⟩
    else if depth = 0 && resumesAt nested (behind.head?.map Token.kind) current.kind then
      ⟨behind, current, ahead⟩
    else
      match ahead with
      | [] => ⟨behind, current, []⟩
      | t :: ts => resumeFrom nested (current :: behind) t ts (depthAfter depth current.kind)

/-- **Skips to the next token at which reading can be taken up again**: one that starts a clause or
ends a sequence of clauses. Brackets opened on the way are skipped as a whole. -/
def resume (c : Cursor) (nested : Bool) : Cursor :=
  resumeFrom nested c.behind c.current c.ahead 0

/-! ### Small facts -/

theorem advance_of_ahead_eq_nil {c : Cursor} (h : c.ahead = []) : c.advance = c := by
  simp [advance, h]

theorem advance_of_ahead_eq_cons {c : Cursor} {t : Token} {ts : List Token}
    (h : c.ahead = t :: ts) : c.advance = ⟨c.current :: c.behind, t, ts⟩ := by
  simp [advance, h]

end Cursor

end Cypher
