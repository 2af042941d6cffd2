import ProtoSchema.Command

/-! # The program `pblint`

The outer layer of the command: arguments, the file system, the two output streams and the exit
status.  Each file is read when its turn comes.
-/

namespace ProtoSchema.Command

/-- The number by which the operating system knows an error.  Some calls give it negated, as a
word of 32 bits. -/
def errorNumber (code : UInt32) : Nat :=
  if code.toNat < 0x80000000 then code.toNat else (-code).toNat

/-- The cause of a failure to read, in the words of the library. -/
def readErrorOf (e : IO.Error) : ReadError :=
  match e with
  | .noFileOrDirectory _ code text | .inappropriateType _ code text
  | .invalidArgument _ code text | .permissionDenied _ code text
  | .resourceExhausted _ code text =>
    match errorNumber code with
    | 2 => .notFound
    | 13 => .other "Permission denied (os error 13)"
    | 20 => .notDirectory
    | 21 => .isDirectory
    | 36 => .nameTooLong
    | n => .other (text ++ s!" (os error {n})")
  | e => .other (toString e)

def readFile (path : String) : IO (Except ReadError ByteArray) := do
  try
    return .ok (← IO.FS.readBinFile path)
  catch e =>
    return .error (readErrorOf e)

/-- The file system and the output streams of the process. -/
def process : World IO := ⟨readFile, IO.eprint, IO.print⟩

end ProtoSchema.Command

open ProtoSchema.Command in
def main (args : List String) : IO UInt32 := do
  match Options.ofArgs args with
  | .error .helpWanted =>
    IO.println UsageError.helpWanted.message
    return 0
  | .error e =>
    IO.eprintln ("error: " ++ e.message)
    return 2
  | .ok options =>
    let report ← process.run options
    return report.exitStatus.toUInt32
