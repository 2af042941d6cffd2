import ProtoSchema.Number
import ProtoSchema.Walk

/-! # Naming rules

A rule picks the parts of one kind and wants their names in one style.  The three styles allow
ASCII only.  `Rule.problems` walks a file for one rule; a rule whose parts never hold one another
does not look below them.
-/

namespace ProtoSchema

/-! ## §1 Styles -/

inductive NameStyle where
  | camelCase | allCaps | lowerSnakeCase
  deriving DecidableEq, Repr

namespace NameStyle

def name : NameStyle → String
  | camelCase => "CamelCase"
  | allCaps => "ALL_CAPS"
  | lowerSnakeCase => "lower_snake_case"

/-- The characters that a name may start with. -/
def allowsFirst : NameStyle → Char → Bool
  | camelCase, c => c.isUpper
  | allCaps, c => c.isUpper
  | lowerSnakeCase, c => c.isLower

/-- The characters that a name may go on with. -/
def allowsLater : NameStyle → Char → Bool
  | camelCase, c => c.isAlphanum
  | allCaps, c => c.isUpper || c.isDigit || c = '_'
  | lowerSnakeCase, c => c.isLower || c.isDigit || c = '_'

def admits (style : NameStyle) (name : String) : Bool :=
  match name.toList with
  | [] => false
  | c :: cs => style.allowsFirst c && cs.all style.allowsLater

end NameStyle

/-! ## §2 Problems -/

structure Problem where
  /-- The offset at which the part with the bad name starts. -/
  position : Nat
  text : String
  /-- How sure it is that this is a problem, out of one. -/
  confidence : Decimal
  category : String
  deriving DecidableEq, Repr

/-! ## §3 Rules -/

inductive Rule where
  | enumNames | enumFieldNames | messageNames | fieldNames | serviceNames | rpcNames
  deriving DecidableEq, Repr

namespace Rule

/-- The rules in the order in which they are applied. -/
def all : List Rule :=
  [enumNames, enumFieldNames, messageNames, fieldNames, serviceNames, rpcNames]

theorem mem_all (r : Rule) : r ∈ all := by cases r <;> decide

def style : Rule → NameStyle
  | enumFieldNames => .allCaps
  | fieldNames => .lowerSnakeCase
  | enumNames | messageNames | serviceNames | rpcNames => .camelCase

/-- What the rule is about. -/
def subject : Rule → String
  | enumNames => "enum"
  | enumFieldNames => "enum field"
  | messageNames => "message"
  | fieldNames => "field"
  | serviceNames => "service"
  | rpcNames => "rpc"

/-- The name that the rule looks at in a part, if the part is of the rule's kind. -/
def name? : Rule → Part → Option Ident
  | enumNames, .node (.scope .enum name _ _) => some name
  | enumFieldNames, .node (.enumField decl) => some decl.name
  | messageNames, .node (.scope .message name _ _) => some name
  | fieldNames, .node (.field decl) => some decl.name
  | serviceNames, .node (.service name _ _ _ _) => some name
  | rpcNames, .node (.rpc decl) => some decl.name
  | _, _ => none

/-- Whether the parts below a part of the rule's kind are looked at. -/
def descends : Rule → Bool
  | messageNames | serviceNames => true
  | enumNames | enumFieldNames | fieldNames | rpcNames => false

/-- The problem that the rule has with one part. -/
def problem? (r : Rule) (p : Part) : Option Problem :=
  match r.name? p with
  | none => none
  | some name =>
    if r.style.admits name.name then none
    else some {
      position := p.span.start
      text := s!"{r.subject} names should be {r.style.name}; {name.name}"
      confidence := ⟨9, -1⟩
      category := "naming" }

/-- The problems that the rule has with a file, in the order of the walk. -/
def problems (r : Rule) (f : File) : List Problem :=
  ((Part.file f).reached fun p => (r.name? p).isNone || r.descends).filterMap r.problem?

end Rule

end ProtoSchema
