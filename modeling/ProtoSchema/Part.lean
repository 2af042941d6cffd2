import ProtoSchema.Tree

/-! # Parts of a tree

A traversal visits more than declarations: names, literals, map types and service blocks have a
turn of their own.  `Part` is any of these, seen alike: a kind, a span, and its parts in the order
in which they are visited (`Part.children`).

* §1 parts and their kinds, §2 children, and that they are smaller (`sizeOf_lt_of_mem_children`);
* §3 the parts below a part, itself first (`Part.reached`, `Part.subtree`).
-/

namespace ProtoSchema

/-! ## §1 Parts -/

inductive Part where
  | file (file : File)
  | node (node : Node)
  | ident (ident : Ident)
  | literal (literal : Literal)
  | mapType (type : MapType)
  /-- The statements of a service between the offsets of its braces. -/
  | block (opening : Nat) (statements : List Node) (closing : Nat)
  deriving DecidableEq

inductive PartKind where
  | file | ident | literal | importDecl | package | option | message | field | mapType
  | oneOf | enum | enumField | service | block | rpc | empty
  deriving DecidableEq, Repr

def Scope.partKind : Scope → PartKind
  | message => .message
  | oneOf => .oneOf
  | enum => .enum

def Node.kind : Node → PartKind
  | importDecl _ => .importDecl
  | package _ => .package
  | option _ => .option
  | scope kind _ _ _ => kind.partKind
  | field _ => .field
  | enumField _ => .enumField
  | service _ _ _ _ _ => .service
  | rpc _ => .rpc
  | empty _ => .empty

/-- A field's type as a part: the name of a type, or a map type. -/
def FieldType.part : FieldType → Part
  | named name => .ident name
  | map type => .mapType type

namespace Part

def kind : Part → PartKind
  | file _ => .file
  | node n => n.kind
  | ident _ => .ident
  | literal _ => .literal
  | mapType _ => .mapType
  | block _ _ _ => .block

/-- The bytes of a part; those of a block include both braces. -/
def span : Part → Span
  | file f => f.span
  | node n => n.span
  | ident i => i.span
  | literal l => l.span
  | mapType m => m.span
  | block opening _ closing => ⟨opening, closing + 1⟩

/-! ## §2 Children -/

end Part

/-- The parts of a node in visiting order.  It is the order of the source, but for a field, which
has its name and number before its type, and the word `repeated` last. -/
def Node.children : Node → List Part
  | importDecl decl => decl.modifiers.map .ident ++ [.literal decl.path]
  | package _ => []
  | option decl => [.ident decl.name, .literal decl.value]
  | scope _ name members _ => .ident name :: members.map .node
  | field decl =>
    [.ident decl.name, .literal decl.number, decl.type.part] ++ decl.repeated.toList.map .ident
  | enumField decl => [.ident decl.name]
  | service name opening statements closing _ =>
    [.ident name, .block opening statements closing]
  | rpc decl => [.ident decl.name, .ident decl.input, .ident decl.output]
  | empty _ => []

namespace Part

def children : Part → List Part
  | file f => f.declarations.map .node
  | node n => n.children
  | ident _ => []
  | literal _ => []
  | mapType m => [.ident m.key, .ident m.value]
  | block _ statements _ => statements.map .node

/-- Going down to a child always ends. -/
theorem sizeOf_lt_of_mem_children {p c : Part} (h : c ∈ p.children) : sizeOf c < sizeOf p := by
  cases p with
  | file f =>
    obtain ⟨d, ds, s⟩ := f
    simp only [children, List.mem_map] at h
    obtain ⟨n, hn, rfl⟩ := h
    have := List.sizeOf_lt_of_mem hn
    simp
    omega
  | node n =>
    cases n with
    | importDecl d =>
      obtain ⟨ms, path, s⟩ := d
      simp only [children, Node.children, List.mem_append, List.mem_map, List.mem_singleton] at h
      rcases h with ⟨m, hm, rfl⟩ | rfl
      · have := List.sizeOf_lt_of_mem hm
        simp
        omega
      · simp
        omega
    | scope k name ms s =>
      simp only [children, Node.children, List.mem_cons, List.mem_map] at h
      rcases h with rfl | ⟨n, hn, rfl⟩
      · simp
        omega
      · have := List.sizeOf_lt_of_mem hn
        simp
        omega
    | field d =>
      obtain ⟨name, number, type, repeated, s⟩ := d
      cases type <;> cases repeated <;>
        simp [children, Node.children, FieldType.part] at h <;>
        rcases h with rfl | rfl | rfl | rfl <;> simp <;> omega
    | option d =>
      obtain ⟨name, value, s⟩ := d
      simp [children, Node.children] at h
      rcases h with rfl | rfl <;> simp <;> omega
    | enumField d =>
      obtain ⟨name, value, s⟩ := d
      simp [children, Node.children] at h
      subst h
      simp
      omega
    | service name o ss c s =>
      simp [children, Node.children] at h
      rcases h with rfl | rfl <;> simp <;> omega
    | rpc d =>
      obtain ⟨name, input, output, s⟩ := d
      simp [children, Node.children] at h
      rcases h with rfl | rfl | rfl <;> simp <;> omega
    | package s => simp [children, Node.children] at h
    | empty s => simp [children, Node.children] at h
  | mapType m =>
    obtain ⟨k, v, s⟩ := m
    simp [children] at h
    rcases h with rfl | rfl <;> simp <;> omega
  | block o ss c =>
    simp only [children, List.mem_map] at h
    obtain ⟨n, hn, rfl⟩ := h
    have := List.sizeOf_lt_of_mem hn
    simp
    omega
  | _ => simp [children] at h

/-! ## §3 Below a part -/

/-- The part `p` and the parts below it, each before its own children, going down only from parts
that `descend` lets through. -/
def reached (descend : Part → Bool) (p : Part) : List Part :=
  p :: if descend p then p.children.attach.flatMap fun ⟨c, h⟩ =>
    have := sizeOf_lt_of_mem_children h
    reached descend c
  else []
termination_by sizeOf p

theorem reached_eq (descend : Part → Bool) (p : Part) :
    p.reached descend = p :: if descend p then p.children.flatMap (reached descend) else [] := by
  rw [reached]
  simp

/-- All parts below `p`, and `p` itself, in visiting order. -/
def subtree (p : Part) : List Part := p.reached fun _ => true

theorem subtree_eq (p : Part) : p.subtree = p :: p.children.flatMap subtree := by
  rw [subtree, reached_eq]
  rfl

end Part

end ProtoSchema
