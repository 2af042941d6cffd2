import ProtoSchema.Grammar

/-!
# Derivations

The grammar of schema files as a relation between tokens and nodes, without a word on how they are
read.  Comments and the end of input are no part of it.

* §1 the constructs, the places where they stand side by side, and which place admits which
  construct (`Place.admits`);
* §2 the constructs that hold no others (`Leaf`);
* §3 members of a place, to any depth (`Members`), and whole files (`Derives`).

`Members place room` lets at most `room` scopes stand within each other.
-/

namespace ProtoSchema

/-! ## §1 Constructs and places -/

inductive Construct where
  | importDecl | package | option | service
  | scope (kind : Scope)
  | plainField | repeatedField | mapField | enumField
  | rpc | empty
  deriving DecidableEq

/-- Where constructs stand side by side: at the top of a file, or between braces. -/
inductive Place where
  | file | inScope (kind : Scope) | inService
  deriving DecidableEq

/-- A oneof admits no enums, oneofs or repeated fields; only files have imports, packages and
services. -/
def Place.admits : Place → List Construct
  | file => [.importDecl, .package, .option, .scope .message, .scope .enum, .service]
  | inScope .message =>
    [.empty, .scope .oneOf, .scope .message, .scope .enum, .option, .repeatedField, .mapField,
      .plainField]
  | inScope .oneOf => [.empty, .scope .message, .option, .mapField, .plainField]
  | inScope .enum => [.empty, .option, .enumField]
  | inService => [.empty, .option, .rpc]

def Scope.keyword : Scope → Keyword
  | message => .messageKw
  | oneOf => .oneofKw
  | enum => .enumKw

/-! ## §2 Constructs that hold no others -/

/-- A type is named by an identifier, plain or qualified; so is an option. -/
def Token.IsTypeName (t : Token) : Prop := t.kind = .identifier ∨ t.kind = .qualified

/-- A token of the text itself: no comment, and not the end of a stream. -/
structure Token.Ordinary (t : Token) : Prop where
  not_comment : t.kind ≠ .comment
  not_last : t.kind.isLast = false

theorem Token.Ordinary.not_error {t : Token} (h : t.Ordinary) : t.kind ≠ .error := by
  intro heq
  have := h.not_last
  rw [heq] at this
  cases this

theorem Token.Ordinary.not_end {t : Token} (h : t.Ordinary) : t.kind ≠ .endOfInput := by
  intro heq
  have := h.not_last
  rw [heq] at this
  cases this

/-- `weak` or `public`. -/
def Token.IsModifier (t : Token) : Prop :=
  t.kind = .keyword .weakKw ∨ t.kind = .keyword .publicKw

/-- `name = number ;` -/
structure FieldEnd (name equals number semi : Token) : Prop where
  name_kind : name.kind = .identifier
  equals_kind : equals.kind = .equals
  number_kind : number.kind = .integerLit
  semi_kind : semi.kind = .semicolon

/-- `map < key , value >` -/
structure MapHead (keyword opening key comma value closing : Token) : Prop where
  keyword_kind : keyword.kind = .keyword .mapKw
  opening_kind : opening.kind = .leftAngle
  key_type : key.IsTypeName
  comma_kind : comma.kind = .comma
  value_type : value.IsTypeName
  closing_kind : closing.kind = .rightAngle

/-- The kinds of literal that an option may have for its value. -/
inductive OptionValue : TokenKind → LiteralKind → Prop
  | string : OptionValue .stringLit .string
  | boolean : OptionValue .booleanLit .boolean

inductive Leaf : Construct → List Token → Node → Prop
  | empty {semi : Token} (hsemi : semi.kind = .semicolon) : Leaf .empty [semi] (.empty semi.span)
  /-- `import (weak | public)* path ;`, no modifier twice. -/
  | importDecl {keyword path semi : Token} {modifiers : List Token}
      (hkeyword : keyword.kind = .keyword .importKw)
      (hmodifiers : ∀ m ∈ modifiers, m.IsModifier)
      (hnodup : (modifiers.map (·.text)).Nodup)
      (hpath : path.kind = .stringLit) (hsemi : semi.kind = .semicolon) :
      Leaf .importDecl (keyword :: (modifiers ++ [path, semi]))
        (.importDecl ⟨modifiers.map (·.ident), path.literal .string, keyword.spanTo semi⟩)
  /-- `package ... ;`, with anything but a semicolon between. -/
  | package {keyword semi : Token} {skipped : List Token}
      (hkeyword : keyword.kind = .keyword .packageKw)
      (hskipped : ∀ t ∈ skipped, t.kind ≠ .semicolon) (hsemi : semi.kind = .semicolon) :
      Leaf .package (keyword :: (skipped ++ [semi])) (.package (keyword.spanTo semi))
  /-- `option name = value ;` -/
  | option {keyword name equals value semi : Token} {kind : LiteralKind}
      (hkeyword : keyword.kind = .keyword .optionKw) (hname : name.IsTypeName)
      (hequals : equals.kind = .equals) (hvalue : OptionValue value.kind kind)
      (hsemi : semi.kind = .semicolon) :
      Leaf .option [keyword, name, equals, value, semi]
        (.option ⟨name.ident, value.literal kind, keyword.spanTo semi⟩)
  /-- `type name = number ;` -/
  | plainField {type name equals number semi : Token} (htype : type.IsTypeName)
      (hend : FieldEnd name equals number semi) :
      Leaf .plainField [type, name, equals, number, semi]
        (.field ⟨name.ident, number.literal .integer, .named type.ident, none, type.spanTo semi⟩)
  /-- `repeated type name = number ;` -/
  | repeatedField {keyword type name equals number semi : Token}
      (hkeyword : keyword.kind = .keyword .repeatedKw) (htype : type.IsTypeName)
      (hend : FieldEnd name equals number semi) :
      Leaf .repeatedField [keyword, type, name, equals, number, semi]
        (.field ⟨name.ident, number.literal .integer, .named type.ident, some keyword.ident,
          keyword.spanTo semi⟩)
  /-- `map < key , value > name = number ;` -/
  | mapField {keyword opening key comma value closing name equals number semi : Token}
      (hmap : MapHead keyword opening key comma value closing)
      (hend : FieldEnd name equals number semi) :
      Leaf .mapField [keyword, opening, key, comma, value, closing, name, equals, number, semi]
        (.field ⟨name.ident, number.literal .integer,
          .map ⟨key.ident, value.ident, keyword.spanTo closing⟩, none, keyword.spanTo semi⟩)
  /-- `name = number ;` in an enum. -/
  | enumField {name equals value semi : Token} (hend : FieldEnd name equals value semi) :
      Leaf .enumField [name, equals, value, semi]
        (.enumField ⟨name.ident, value.text, name.spanTo semi⟩)
  /-- `rpc name ( input ) returns ( output ) { }` -/
  | rpc {keyword name open₁ input close₁ returns open₂ output close₂ opening closing : Token}
      (hkeyword : keyword.kind = .keyword .rpcKw) (hname : name.kind = .identifier)
      (hopen₁ : open₁.kind = .leftParen) (hinput : input.IsTypeName)
      (hclose₁ : close₁.kind = .rightParen) (hreturns : returns.kind = .keyword .returnsKw)
      (hopen₂ : open₂.kind = .leftParen) (houtput : output.IsTypeName)
      (hclose₂ : close₂.kind = .rightParen) (hopening : opening.kind = .leftBrace)
      (hclosing : closing.kind = .rightBrace) :
      Leaf .rpc
        [keyword, name, open₁, input, close₁, returns, open₂, output, close₂, opening, closing]
        (.rpc ⟨name.ident, input.ident, output.ident, keyword.spanTo closing⟩)

/-! ## §3 Members and files -/

/-- `keyword name {`, the front of a construct that holds others, and the brace that ends it. -/
structure Braced (word : Keyword) (keyword name opening closing : Token) : Prop where
  keyword_kind : keyword.kind = .keyword word
  name_kind : name.kind = .identifier
  opening_kind : opening.kind = .leftBrace
  closing_kind : closing.kind = .rightBrace

/-- Tokens that spell the nodes side by side in a place, with room for `room` scopes within each
other. -/
inductive Members : Place → Nat → List Token → List Node → Prop
  | nil {place : Place} {room : Nat} : Members place room [] []
  | leaf {place : Place} {room : Nat} {c : Construct} {ts rest : List Token} {n : Node}
      {ns : List Node} (hadmits : c ∈ place.admits) (hleaf : Leaf c ts n)
      (hrest : Members place room rest ns) : Members place room (ts ++ rest) (n :: ns)
  | scope {place : Place} {room : Nat} {kind : Scope} {keyword name opening closing : Token}
      {inner rest : List Token} {nodes ns : List Node}
      (hadmits : .scope kind ∈ place.admits)
      (hbraced : Braced kind.keyword keyword name opening closing)
      (hinner : Members (.inScope kind) room inner nodes)
      (hrest : Members place (room + 1) rest ns) :
      Members place (room + 1) (keyword :: name :: opening :: (inner ++ closing :: rest))
        (.scope kind name.ident nodes (keyword.spanTo closing) :: ns)
  | service {place : Place} {room : Nat} {keyword name opening closing : Token}
      {inner rest : List Token} {nodes ns : List Node}
      (hadmits : .service ∈ place.admits)
      (hbraced : Braced .serviceKw keyword name opening closing)
      (hinner : Members .inService room inner nodes)
      (hrest : Members place room rest ns) :
      Members place room (keyword :: name :: opening :: (inner ++ closing :: rest))
        (.service name.ident opening.offset nodes closing.offset (keyword.spanTo closing) :: ns)

/-- `syntax = "proto3" ;` -/
structure Preamble (keyword equals language semi : Token) : Prop where
  keyword_kind : keyword.kind = .keyword .syntaxKw
  equals_kind : equals.kind = .equals
  language_kind : language.kind = .stringLit
  language_text : language.text = "\"proto3\""
  semi_kind : semi.kind = .semicolon

/-- Tokens that spell a file with these declarations: the preamble, then members. -/
inductive Derives (limit : Nat) : List Token → List Node → Prop
  | file {keyword equals language semi : Token} {body : List Token} {nodes : List Node}
      (hpreamble : Preamble keyword equals language semi)
      (hbody : Members .file limit body nodes) :
      Derives limit (keyword :: equals :: language :: semi :: body) nodes

end ProtoSchema
