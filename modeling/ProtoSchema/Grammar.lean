import ProtoSchema.Expected
import ProtoSchema.Parser

/-! # The grammar of schema files

One parser per construct, each given the token that it was recognised by and reading on behind it.
`file` reads a whole stream.

The constructs that enclose members share one loop, `members`, which differs only in the token that
closes it and in the members it admits.  Scopes nest, and only they: `scope limit room` may open
`room` scopes within each other, and refuses the keyword of one more.  The number of rooms goes
down with each level, which is also why reading ends.

* §1 tokens and names, §2 declarations without members, §3 members, scopes and services;
* §4 files.
-/

namespace ProtoSchema

namespace Grammar

open ProtoSchema.Parser

/-! ## §1 Tokens and names -/

/-- Refuse the token `t` where `expected` should stand. -/
def refuse {α : Type} (t : Token) (expected : Expected) : Parser α :=
  fail (.unexpected t.offset expected.text t.display)

/-- The next token, which must be of kind `kind`. -/
def expect (kind : TokenKind) : Parser Token := do
  let t ← next
  if t.kind = kind then return t else refuse t (.kind kind)

def identifier : Parser Ident := do
  return (← expect .identifier).ident

/-- The name of a type or an option, plain or qualified. -/
def typeName : Parser Ident := do
  let t ← next
  if t.kind = .identifier ∨ t.kind = .qualified then return t.ident else refuse t .typeName

/-! ## §2 Declarations without members -/

/-- One token of an import behind its keyword, when `modifiers` have been read. -/
def importTurn (keyword : Token) (modifiers : List Ident) (t : Token) :
    Parser (Turn (List Ident) Node) :=
  match t.kind with
  | .keyword .weakKw | .keyword .publicKw =>
    if modifiers.any (·.name = t.text) then fail (.duplicateModifier t.offset t.text)
    else return .again (modifiers ++ [t.ident])
  | .stringLit => do
    let semi ← expect .semicolon
    return .finish (.importDecl ⟨modifiers, t.literal .string, keyword.spanTo semi⟩)
  | _ => refuse t .importPath

/-- `import (weak | public)* "path" ;`, no modifier twice. -/
def importDecl (keyword : Token) : Parser Node := loop (importTurn keyword) []

/-- One token of a package declaration behind its keyword. -/
def packageTurn (keyword : Token) (_ : Unit) (t : Token) : Parser (Turn Unit Node) :=
  match t.kind with
  | .semicolon => return .finish (.package (keyword.spanTo t))
  | .endOfInput => refuse t (.kind .semicolon)
  | _ => return .again ()

/-- `package ... ;`.  Whatever stands before the semicolon is skipped. -/
def packageDecl (keyword : Token) : Parser Node := loop (packageTurn keyword) ()

/-- The value of an option. -/
def optionValue : Parser Literal := do
  let t ← next
  match t.kind with
  | .stringLit => return t.literal .string
  | .booleanLit => return t.literal .boolean
  | _ => refuse t .optionValue

/-- `option name = value ;` -/
def optionDecl (keyword : Token) : Parser Node := do
  let name ← typeName
  let _ ← expect .equals
  let value ← optionValue
  let semi ← expect .semicolon
  return .option ⟨name, value, keyword.spanTo semi⟩

/-- `name = number ;` behind a field type.  The field starts at `first`. -/
def field (first : Token) (type : FieldType) (repeated : Option Ident) : Parser Node := do
  let name ← expect .identifier
  let _ ← expect .equals
  let number ← expect .integerLit
  let semi ← expect .semicolon
  return .field ⟨name.ident, number.literal .integer, type, repeated, first.spanTo semi⟩

/-- `repeated type name = number ;` -/
def repeatedField (keyword : Token) : Parser Node := do
  let type ← typeName
  field keyword (.named type) (some keyword.ident)

/-- `map < key , value >` -/
def mapType (keyword : Token) : Parser MapType := do
  let _ ← expect .leftAngle
  let key ← typeName
  let _ ← expect .comma
  let value ← typeName
  let close ← expect .rightAngle
  return ⟨key, value, keyword.spanTo close⟩

/-- `map < key , value > name = number ;` -/
def mapField (keyword : Token) : Parser Node := do
  let type ← mapType keyword
  field keyword (.map type) none

/-- `name = number ;` in an enum. -/
def enumField (name : Token) : Parser Node := do
  let _ ← expect .equals
  let value ← expect .integerLit
  let semi ← expect .semicolon
  return .enumField ⟨name.ident, value.text, name.spanTo semi⟩

/-- `rpc name ( input ) returns ( output ) { }` -/
def rpc (keyword : Token) : Parser Node := do
  let name ← identifier
  let _ ← expect .leftParen
  let input ← typeName
  let _ ← expect .rightParen
  let _ ← expect (.keyword .returnsKw)
  let _ ← expect .leftParen
  let output ← typeName
  let _ ← expect .rightParen
  let _ ← expect .leftBrace
  let close ← expect .rightBrace
  return .rpc ⟨name, input, output, keyword.spanTo close⟩

/-! ## §3 Members -/

/-- One member behind `nodes`, or the end of the members. -/
def memberTurn (close : TokenKind) (expected : Expected) (member : Token → Option (Parser Node))
    (nodes : Array Node) (t : Token) : Parser (Turn (Array Node) (List Node × Token)) :=
  if t.kind = close then return .finish (nodes.toList, t)
  else match member t with
    | some p => do
      let node ← p
      return .again (nodes.push node)
    | none => refuse t expected

/-- Members up to the first token of kind `close`, which is given with them.  `member` says how a
member is read on from its first token, if a member may start with it. -/
def members (close : TokenKind) (expected : Expected)
    (member : Token → Option (Parser Node)) : Parser (List Node × Token) :=
  loop (memberTurn close expected member) #[]

/-- The members that a scope admits, where `nested` reads a scope further in.  A oneof has no
enums, no oneofs and no repeated fields; an enum has fields and options only. -/
def scopeMember (nested : Scope → Token → Parser Node) (scope : Scope) (t : Token) :
    Option (Parser Node) :=
  match scope, t.kind with
  | _, .semicolon => some (pure (.empty t.span))
  | _, .keyword .optionKw => some (optionDecl t)
  | .enum, .identifier => some (enumField t)
  | .enum, _ => none
  | .message, .keyword .oneofKw => some (nested .oneOf t)
  | .message, .keyword .enumKw => some (nested .enum t)
  | .message, .keyword .repeatedKw => some (repeatedField t)
  | _, .keyword .messageKw => some (nested .message t)
  | _, .keyword .mapKw => some (mapField t)
  | _, .identifier => some (field t (.named t.ident) none)
  | _, .qualified => some (field t (.named t.ident) none)
  | _, _ => none

/-- `keyword name { members }`, with room for `room` scopes, itself included, within each other.
Without room the keyword is refused, whatever follows it. -/
def scope (limit : Nat) : (room : Nat) → Scope → Token → Parser Node
  | 0, _, keyword => fail (.nestingTooDeep keyword.offset limit)
  | room + 1, kind, keyword => do
    let name ← identifier
    let _ ← expect .leftBrace
    let (nodes, close) ← members .rightBrace (.member kind) (scopeMember (scope limit room) kind)
    return .scope kind name nodes (keyword.spanTo close)

/-- The statements that a service admits. -/
def statement (t : Token) : Option (Parser Node) :=
  match t.kind with
  | .semicolon => some (pure (.empty t.span))
  | .keyword .optionKw => some (optionDecl t)
  | .keyword .rpcKw => some (rpc t)
  | _ => none

/-- `service name { statements }` -/
def service (keyword : Token) : Parser Node := do
  let name ← identifier
  let opening ← expect .leftBrace
  let (nodes, close) ← members .rightBrace .statement statement
  return .service name opening.offset nodes close.offset (keyword.spanTo close)

/-! ## §4 Files -/

/-- A token of the preamble, which must pass `accepts`. -/
def preambleToken (accepts : Token → Bool) : Parser Unit := do
  let t ← next
  if accepts t then return () else fail (.missingPreamble t.offset t.display)

/-- `syntax = "proto3" ;` -/
def preamble : Parser Unit := do
  preambleToken (·.kind = .keyword .syntaxKw)
  preambleToken (·.kind = .equals)
  preambleToken fun t => t.kind = .stringLit && t.text = "\"proto3\""
  preambleToken (·.kind = .semicolon)

/-- The declarations at the top of a file.  There is room for `limit` scopes within each other. -/
def declaration (limit : Nat) (t : Token) : Option (Parser Node) :=
  match t.kind with
  | .keyword .importKw => some (importDecl t)
  | .keyword .packageKw => some (packageDecl t)
  | .keyword .optionKw => some (optionDecl t)
  | .keyword .messageKw => some (scope limit limit .message t)
  | .keyword .enumKw => some (scope limit limit .enum t)
  | .keyword .serviceKw => some (service t)
  | _ => none

/-- Read a declaration, and report it. -/
def reported (p : Parser Node) : Parser Node := do
  let node ← p
  record ⟨.trace, .grammar, "parsed declaration at " ++ describeSpan node.span⟩
  return node
where
  describeSpan (s : Span) : String := s!"Span \x7b start: {s.start}, end: {s.stop} \x7d"

/-- A whole file, from its first token to the end of input. -/
def file (limit : Nat) : Parser File := do
  preamble
  let (nodes, last) ← members .endOfInput .declaration fun t => (declaration limit t).map reported
  record ⟨.debug, .grammar, s!"parsed {nodes.length} top-level declarations"⟩
  return ⟨.proto3, nodes, ⟨0, last.stop⟩⟩

end Grammar

end ProtoSchema
