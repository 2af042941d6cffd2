import ProtoSchema.FileTree
import ProtoSchema.Grammar
import ProtoSchema.Lexer

/-! # Reading schema files

The ways to a tree: from text, from bytes that should be text, and from a file that should be
readable.  Each step adds a way to fail, and each gives its log beside its result.  The tokens of
the text are the stream that the grammar reads.
-/

namespace ProtoSchema

/-- How many messages, oneofs and enums may stand within each other. -/
def nestingLimit : Nat := 100

/-- The outcome of reading the tokens of `source` as a file. -/
def outcomeOf (source : String) : Outcome File :=
  (Grammar.file nestingLimit).run (tokenize source)

/-- The tree of `source`, or the first fault in it. -/
def parseText (source : String) : Logged (Except Fault File) :=
  let outcome := outcomeOf source
  ⟨outcome.result,
    ⟨.debug, .grammar, s!"parsing {source.utf8ByteSize} bytes"⟩ :: outcome.log⟩

/-- The error that reports `fault` for the file `name`, if it has a name. -/
def ParseError.of (fault : Fault) : Option String → ParseError
  | none => { fault }
  | some name => ParseError.inFile { fault } name

/-- The tree of the text that `bytes` spell.  Bytes that spell none are not looked into.  `name`
only appears in the error. -/
def parseBytes (bytes : ByteArray) (name : Option String) : Logged (Except ParseError File) :=
  match Text.decode bytes with
  | .error valid => pure (.error (.of (.invalidUtf8 valid) name))
  | .ok source => do return (← parseText source).mapError (.of · name)

/-- Why there is nothing to say about a file. -/
inductive FileError where
  | unreadable (path : String) (cause : ReadError)
  | malformed (error : ParseError)
  deriving DecidableEq, Repr

def FileError.message : FileError → String
  | unreadable path cause => s!"failed to read {path}: " ++ cause.message
  | malformed error => error.message

/-- Hand the bytes of the file at `path` to `use`, if `read` finds them. -/
def withFile {α : Type} (read : String → Except ReadError ByteArray) (path : String)
    (use : String → ByteArray → Logged (Except ParseError α)) : Logged (Except FileError α) :=
  match read path with
  | .error cause => pure (.error (.unreadable path cause))
  | .ok bytes => do return (← use path bytes).mapError .malformed

/-- The tree of the file at `path`, which names the file in errors. -/
def parseFile (read : String → Except ReadError ByteArray) (path : String) :
    Logged (Except FileError File) :=
  withFile read path fun name bytes => parseBytes bytes (some name)

end ProtoSchema
