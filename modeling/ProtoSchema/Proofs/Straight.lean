import ProtoSchema.Proofs.Acceptance

/-!
# Straight parsers

Most constructs that hold no others are read straight on: one token after the other, each of a kind
that is known before (`straight_of_leaf`).  What holds of a parser that does nothing, and is kept
by putting such a token in front, holds of all of them, by induction on `Straight`.
-/

namespace ProtoSchema

open ProtoSchema.Parser ProtoSchema.Grammar

/-- The kinds of token that constructs wait for by name. -/
def awaited : List TokenKind :=
  [.identifier, .equals, .integerLit, .semicolon, .comma, .leftAngle, .rightAngle, .leftParen,
    .rightParen, .leftBrace, .rightBrace, .keyword .returnsKw]

theorem isLast_of_mem_awaited : ∀ kind ∈ awaited, kind.isLast = false := by
  decide

/-- Parsers that take tokens of known kinds, one after the other. -/
inductive Straight : {α : Type} → Parser α → Prop
  | pure {α : Type} (a : α) : Straight (Pure.pure a : Parser α)
  | expect {α : Type} {kind : TokenKind} {f : Token → Parser α} (hkind : kind ∈ awaited)
      (hf : ∀ t, Straight (f t)) : Straight (Grammar.expect kind >>= f)
  | typeName {α : Type} {f : Ident → Parser α} (hf : ∀ i, Straight (f i)) :
      Straight (Grammar.typeName >>= f)
  | optionValue {α : Type} {f : Literal → Parser α} (hf : ∀ l, Straight (f l)) :
      Straight (Grammar.optionValue >>= f)

/-- A name is a token that is an identifier. -/
theorem identifier_bind {α : Type} (f : Ident → Parser α) :
    (identifier >>= f) = expect .identifier >>= fun t => f t.ident := by
  simp only [identifier, bind_assoc, Parser.pure_bind]

theorem straight_optionDecl (keyword : Token) : Straight (optionDecl keyword) :=
  .typeName fun _ => .expect (by decide) fun _ => .optionValue fun _ =>
    .expect (by decide) fun _ => .pure _

theorem straight_field (first : Token) (type : FieldType) (repeated : Option Ident) :
    Straight (field first type repeated) :=
  .expect (by decide) fun _ => .expect (by decide) fun _ => .expect (by decide) fun _ =>
    .expect (by decide) fun _ => .pure _

theorem straight_mapField (keyword : Token) : Straight (mapField keyword) := by
  simp only [mapField, mapType, bind_assoc, Parser.pure_bind]
  exact .expect (by decide) fun _ => .typeName fun _ => .expect (by decide) fun _ =>
    .typeName fun _ => .expect (by decide) fun _ => straight_field _ _ _

theorem straight_enumField (name : Token) : Straight (enumField name) :=
  .expect (by decide) fun _ => .expect (by decide) fun _ => .expect (by decide) fun _ => .pure _

theorem straight_rpc (keyword : Token) : Straight (rpc keyword) := by
  rw [rpc, identifier_bind]
  exact .expect (by decide) fun _ => .expect (by decide) fun _ => .typeName fun _ =>
    .expect (by decide) fun _ => .expect (by decide) fun _ => .expect (by decide) fun _ =>
    .typeName fun _ => .expect (by decide) fun _ => .expect (by decide) fun _ =>
    .expect (by decide) fun _ => .pure _

/-- The constructs that hold no others are read straight on, but for the two of any length. -/
theorem straight_of_leaf {c : Construct} (hc : c.isLeaf = true) :
    c = .importDecl ∨ c = .package ∨ ∀ nested t, Straight (c.parser nested t) := by
  cases c with
  | importDecl => exact .inl rfl
  | package => exact .inr (.inl rfl)
  | service | scope => cases hc
  | option => exact .inr (.inr fun _ => straight_optionDecl)
  | plainField => exact .inr (.inr fun _ t => straight_field t (.named t.ident) none)
  | repeatedField =>
    exact .inr (.inr fun _ t => .typeName fun type => straight_field t (.named type) (some t.ident))
  | mapField => exact .inr (.inr fun _ => straight_mapField)
  | enumField => exact .inr (.inr fun _ => straight_enumField)
  | rpc => exact .inr (.inr fun _ => straight_rpc)
  | empty => exact .inr (.inr fun _ _ => .pure _)

end ProtoSchema
