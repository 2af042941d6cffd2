import ProtoSchema.Keyword
import ProtoSchema.Log
import ProtoSchema.Text.Quoted
import ProtoSchema.Text.Utf8

/-! # Tokens

A token is a kind, the byte offset at which it starts, and its text as it stands in the source.
Two kinds end a stream of tokens: the end of input, with empty text, and an error, whose text is
the message.

* `TokenKind.description` — how a kind is called where it was expected;
* `Token.display` — how a token is shown where it was found;
* `Token.stop`, `Token.record?` — where it ends, and what the log says about it.
-/

namespace ProtoSchema

/-! ## §1 Kinds -/

inductive TokenKind where
  | error | endOfInput
  | dot | equals | semicolon | comma
  | leftBrace | rightBrace | leftParen | rightParen
  | leftBracket | rightBracket | leftAngle | rightAngle
  | identifier | qualified | stringLit | integerLit | booleanLit | comment
  | keyword (word : Keyword)
  deriving DecidableEq, Repr

namespace TokenKind

def isKeyword : TokenKind → Bool
  | keyword _ => true
  | _ => false

/-- The kinds after which a stream gives no token. -/
def isLast : TokenKind → Bool
  | error | endOfInput => true
  | _ => false

/-- How a message names the kind. -/
def description : TokenKind → String
  | error => "error"
  | endOfInput => "end of input"
  | dot => "'.'"
  | equals => "'='"
  | semicolon => "';'"
  | comma => "','"
  | leftBrace => "'\x7b'"
  | rightBrace => "'\x7d'"
  | leftParen => "'('"
  | rightParen => "')'"
  | leftBracket => "'['"
  | rightBracket => "']'"
  | leftAngle => "'<'"
  | rightAngle => "'>'"
  | identifier => "identifier"
  | qualified => "qualified identifier"
  | stringLit => "string literal"
  | integerLit => "integer literal"
  | booleanLit => "boolean literal"
  | comment => "comment"
  | keyword word => "'" ++ word.text ++ "'"

end TokenKind

/-! ## §2 Tokens -/

structure Token where
  kind : TokenKind
  offset : Nat
  text : String
  deriving DecidableEq, Repr

namespace Token

/-- The end of an empty input. -/
instance : Inhabited Token := ⟨⟨.endOfInput, 0, ""⟩⟩

/-- One past the last byte of the text. -/
def stop (t : Token) : Nat := t.offset + t.text.utf8ByteSize

/-- How a message shows a token that it found: the end of input by name, an error by its message,
a keyword between angle brackets, any other token by its text, quoted. -/
def display (t : Token) : String :=
  match t.kind with
  | .endOfInput => "EOF"
  | .error => t.text
  | .keyword _ => "<" ++ t.text ++ ">"
  | _ => String.ofList (Text.quoteShort t.text.toList)

/-- The record that reports an error token when it is pulled. -/
def record? (t : Token) : Option Record :=
  if t.kind = .error then
    some ⟨.debug, .lexer, s!"lexical error at offset {t.offset}: {t.text}"⟩
  else none

end Token

end ProtoSchema
