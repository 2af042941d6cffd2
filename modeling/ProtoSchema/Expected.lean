import ProtoSchema.Tree

/-! # What a parser waits for

Each place of the grammar at which a token is refused waits for tokens of certain kinds.
`Expected.kinds` lists them, and `Expected.text` is how a message names them together.
-/

namespace ProtoSchema

inductive Expected where
  /-- Exactly one kind of token. -/
  | kind (kind : TokenKind)
  /-- The name of a type or an option, which may be qualified. -/
  | typeName
  | declaration
  /-- The rest of an import: modifiers, or the path. -/
  | importPath
  | optionValue
  /-- A member of a scope, or the end of the scope. -/
  | member (scope : Scope)
  /-- A statement of a service, or the end of the service. -/
  | statement
  deriving DecidableEq, Repr

namespace Expected

def text : Expected → String
  | kind k => k.description
  | typeName => TokenKind.identifier.description
  | declaration => "'import', 'package', 'option', 'message', 'enum' or 'service'"
  | importPath => "'weak', 'public' or string literal"
  | optionValue => "string or boolean literal"
  | member .message =>
    "field, 'message', 'enum', 'oneof', 'option', 'repeated', 'map', ';' or '\x7d'"
  | member .oneOf => "field, 'message', 'option', 'map', ';' or '\x7d'"
  | member .enum => "enum field, 'option', ';' or '\x7d'"
  | statement => "'rpc', 'option', ';' or '\x7d'"

/-- The kinds of tokens that `text` names, where a field starts with an identifier. -/
def kinds : Expected → List TokenKind
  | kind k => [k]
  | typeName => [.identifier]
  | declaration =>
    [.keyword .importKw, .keyword .packageKw, .keyword .optionKw, .keyword .messageKw,
      .keyword .enumKw, .keyword .serviceKw]
  | importPath => [.keyword .weakKw, .keyword .publicKw, .stringLit]
  | optionValue => [.stringLit, .booleanLit]
  | member .message =>
    [.identifier, .keyword .messageKw, .keyword .enumKw, .keyword .oneofKw, .keyword .optionKw,
      .keyword .repeatedKw, .keyword .mapKw, .semicolon, .rightBrace]
  | member .oneOf =>
    [.identifier, .keyword .messageKw, .keyword .optionKw, .keyword .mapKw, .semicolon,
      .rightBrace]
  | member .enum => [.identifier, .keyword .optionKw, .semicolon, .rightBrace]
  | statement => [.keyword .rpcKw, .keyword .optionKw, .semicolon, .rightBrace]

end Expected

end ProtoSchema
