import ProtoSchema.Token

/-! # Schema trees

The tree of a schema file: declarations, their members, the names and literals in them, each with
the bytes of the source that it covers (`Span`).

Messages, oneofs and enums are alike, a keyword and a name before members in braces, so they are
one constructor, `Node.scope`, told apart by `Scope`; the three nest, and their nesting is what the
parser limits.  A service's statements stand in a block that keeps the offsets of its braces.
Trees may be built by hand, so a member list holds nodes of every kind.
-/

namespace ProtoSchema

/-! ## §1 Spans and leaves -/

/-- The bytes from `start` up to and without `stop`. -/
structure Span where
  start : Nat
  stop : Nat
  deriving DecidableEq, Repr

/-- The bytes of a token. -/
def Token.span (t : Token) : Span := ⟨t.offset, t.stop⟩

/-- The bytes from the start of one token to the end of another. -/
def Token.spanTo (first last : Token) : Span := ⟨first.offset, last.stop⟩

/-- A name, plain or qualified, or a word that modifies a declaration. -/
structure Ident where
  name : String
  span : Span
  deriving DecidableEq, Repr

inductive LiteralKind where
  | string | integer | boolean
  deriving DecidableEq, Repr

/-- A literal as it is written: a string keeps its quotes. -/
structure Literal where
  kind : LiteralKind
  value : String
  span : Span
  deriving DecidableEq, Repr

/-- A token as a name. -/
def Token.ident (t : Token) : Ident := ⟨t.text, t.span⟩

/-- A token as a literal. -/
def Token.literal (t : Token) (kind : LiteralKind) : Literal := ⟨kind, t.text, t.span⟩

/-! ## §2 Declarations without members -/

structure Import where
  modifiers : List Ident
  path : Literal
  span : Span
  deriving DecidableEq, Repr

structure OptionDecl where
  name : Ident
  value : Literal
  span : Span
  deriving DecidableEq, Repr

structure MapType where
  key : Ident
  value : Ident
  span : Span
  deriving DecidableEq, Repr

inductive FieldType where
  | named (name : Ident)
  | map (type : MapType)
  deriving DecidableEq, Repr

def FieldType.span : FieldType → Span
  | named name => name.span
  | map type => type.span

/-- A field of a message or a oneof.  `repeated` is the word itself, if it stands there. -/
structure Field where
  name : Ident
  number : Literal
  type : FieldType
  repeated : Option Ident
  span : Span
  deriving DecidableEq, Repr

structure EnumField where
  name : Ident
  value : String
  span : Span
  deriving DecidableEq, Repr

structure Rpc where
  name : Ident
  input : Ident
  output : Ident
  span : Span
  deriving DecidableEq, Repr

/-! ## §3 Nodes and files -/

/-- The declarations with a name and members, which nest. -/
inductive Scope where
  | message | oneOf | enum
  deriving DecidableEq, Repr

inductive Node where
  | importDecl (decl : Import)
  /-- A package declaration.  Its name is not kept. -/
  | package (span : Span)
  | option (decl : OptionDecl)
  | scope (kind : Scope) (name : Ident) (members : List Node) (span : Span)
  | field (decl : Field)
  | enumField (decl : EnumField)
  /-- A service; `opening` and `closing` are the offsets of its braces. -/
  | service (name : Ident) (opening : Nat) (statements : List Node) (closing : Nat) (span : Span)
  | rpc (decl : Rpc)
  /-- A semicolon that ends nothing. -/
  | empty (span : Span)

def Node.span : Node → Span
  | importDecl decl => decl.span
  | package span => span
  | option decl => decl.span
  | scope _ _ _ span => span
  | field decl => decl.span
  | enumField decl => decl.span
  | service _ _ _ _ span => span
  | rpc decl => decl.span
  | empty span => span

mutual

/-- Whether two nodes are the same, spans included. -/
def Node.same : Node → Node → Bool
  | .importDecl a, .importDecl b => a = b
  | .package a, .package b => a = b
  | .option a, .option b => a = b
  | .scope k n ms s, .scope k' n' ms' s' => k = k' && n = n' && s = s' && Node.sameAll ms ms'
  | .field a, .field b => a = b
  | .enumField a, .enumField b => a = b
  | .service n o ms c s, .service n' o' ms' c' s' =>
    n = n' && o = o' && c = c' && s = s' && Node.sameAll ms ms'
  | .rpc a, .rpc b => a = b
  | .empty a, .empty b => a = b
  | _, _ => false

def Node.sameAll : List Node → List Node → Bool
  | [], [] => true
  | a :: as, b :: bs => Node.same a b && Node.sameAll as bs
  | _, _ => false

end

mutual

theorem Node.same_iff : ∀ a b : Node, Node.same a b = true ↔ a = b
  | .scope _ _ ms _, b => by cases b <;> simp [Node.same, Node.sameAll_iff ms]; grind
  | .service _ _ ms _ _, b => by cases b <;> simp [Node.same, Node.sameAll_iff ms]; grind
  | .importDecl _, b => by cases b <;> simp [Node.same]
  | .package _, b => by cases b <;> simp [Node.same]
  | .option _, b => by cases b <;> simp [Node.same]
  | .field _, b => by cases b <;> simp [Node.same]
  | .enumField _, b => by cases b <;> simp [Node.same]
  | .rpc _, b => by cases b <;> simp [Node.same]
  | .empty _, b => by cases b <;> simp [Node.same]

theorem Node.sameAll_iff : ∀ as bs : List Node, Node.sameAll as bs = true ↔ as = bs
  | [], bs => by cases bs <;> simp [Node.sameAll]
  | a :: as, bs => by cases bs <;> simp [Node.sameAll, Node.same_iff a, Node.sameAll_iff as]

end

instance : DecidableEq Node := fun a b => decidable_of_iff _ (Node.same_iff a b)

/-- The language that a file is written in; the only one there is. -/
inductive Dialect where
  | proto3
  deriving DecidableEq, Repr

structure File where
  dialect : Dialect
  declarations : List Node
  span : Span
  deriving DecidableEq

end ProtoSchema
