import ProtoSchema.Token

/-! # What can be wrong with a schema file

A fault is a cause and the byte offset at which it was found; `Fault.message` is its wording.  A
`ParseError` is a fault together with the names of the files that it was reported for, the
outermost first; each name stands in front of the message.
-/

namespace ProtoSchema

/-! ## §1 Faults -/

inductive Fault where
  /-- No token can be read. -/
  | lexical (offset : Nat) (message : String)
  /-- A token that may not stand there, and what might have stood there. -/
  | unexpected (offset : Nat) (expected found : String)
  /-- The file does not start by naming its language. -/
  | missingPreamble (offset : Nat) (found : String)
  /-- An import says `weak` or `public` twice. -/
  | duplicateModifier (offset : Nat) (modifier : String)
  | nestingTooDeep (offset limit : Nat)
  /-- The bytes from there on are no UTF-8 text. -/
  | invalidUtf8 (offset : Nat)
  deriving DecidableEq, Repr

namespace Fault

def offset : Fault → Nat
  | lexical offset _ => offset
  | unexpected offset _ _ => offset
  | missingPreamble offset _ => offset
  | duplicateModifier offset _ => offset
  | nestingTooDeep offset _ => offset
  | invalidUtf8 offset => offset

/-- What is wrong, without the place. -/
def complaint : Fault → String
  | lexical _ message => message
  | unexpected _ expected found => s!"expected {expected}, found {found}"
  | missingPreamble _ found =>
    "proto files must start with syntax = \"proto3\"; found " ++ found
  | duplicateModifier _ modifier => s!"multiple {modifier} modifiers found"
  | nestingTooDeep _ limit => s!"declarations nested deeper than {limit} levels"
  | invalidUtf8 _ => "invalid utf-8"

/-- Whether the fault lies in the text, before there are tokens. -/
def isLexical : Fault → Bool
  | lexical _ _ | invalidUtf8 _ => true
  | _ => false

def message (f : Fault) : String :=
  (if f.isLexical then "lexical" else "syntax") ++ s!" error at offset {f.offset}: " ++ f.complaint

end Fault

/-! ## §2 Faults in files -/

/-- A fault, and the files that it was reported for, the outermost first. -/
structure ParseError where
  fault : Fault
  files : List String := []
  deriving DecidableEq, Repr

namespace ParseError

/-- Report the error for the file `name`. -/
def inFile (e : ParseError) (name : String) : ParseError := { e with files := name :: e.files }

def offset (e : ParseError) : Nat := e.fault.offset

/-- The error without the names of files. -/
def root (e : ParseError) : ParseError := { fault := e.fault }

def message (e : ParseError) : String :=
  e.files.foldr (fun name rest => name ++ ": " ++ rest) e.fault.message

theorem message_inFile (e : ParseError) (name : String) :
    (e.inFile name).message = name ++ ": " ++ e.message := rfl

end ParseError

end ProtoSchema
