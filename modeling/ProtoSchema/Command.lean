import ProtoSchema.Linter
import ProtoSchema.Text.JsonText

/-! # The command line `pblint`

Options and files in, one report per file out.  `Options.ofArgs` reads the arguments or tells why
they cannot be used; `lintFiles` goes through the files, each for itself (`lintFiles_append`), with
a function that stands for the file system.  The program does the same in the world (`World.run`),
and writes as it goes.

* §1 options, §2 arguments, §3 output lines, §4 running, §5 the world outside.
-/

namespace ProtoSchema.Command

/-! ## §1 Options -/

inductive Format where
  | text | json
  deriving DecidableEq, Repr

def Format.ofText? : String → Option Format
  | "text" => some .text
  | "json" => some .json
  | _ => none

structure Options where
  files : List String
  minConfidence : Float
  format : Format
  /-- How often more talk was asked for. -/
  verbosity : Nat

namespace Options

def linter (o : Options) : Linter := ({} : Linter).withMinConfidence o.minConfidence

/-- The least urgent records that the log shows. -/
def logLevel (o : Options) : Level :=
  match o.verbosity with
  | 0 => .warn
  | 1 => .info
  | 2 => .debug
  | _ => .trace

end Options

/-! ## §2 Arguments -/

/-- Why arguments cannot be used. -/
inductive UsageError where
  | unknownOption (arg : String)
  | repeatedOption (name : String)
  | missingValue (name : String)
  | badValue (name value : String)
  | unwantedValue (name : String)
  | emptyFileName
  | noFiles
  /-- The arguments ask for an explanation of the arguments. -/
  | helpWanted
  deriving DecidableEq, Repr

def UsageError.message : UsageError → String
  | unknownOption arg => s!"unexpected argument '{arg}'"
  | repeatedOption name => s!"the argument '{name}' cannot be used multiple times"
  | missingValue name => s!"a value is required for '{name}'"
  | badValue name value => s!"invalid value '{value}' for '{name}'"
  | unwantedValue name => s!"no value is wanted for '{name}'"
  | emptyFileName => "a file name is empty"
  | noFiles => "no files are given"
  | helpWanted => "pblint [--min-confidence NUMBER] [--format text|json] [-v]... [--] FILES..."

/-- What the arguments have said so far. -/
structure Settings where
  files : List String := []
  minConfidence : Option Float := none
  format : Option Format := none
  verbosity : Nat := 0

namespace Settings

def addFile (s : Settings) (file : String) : Except UsageError Settings :=
  if file = "" then .error .emptyFileName else .ok { s with files := s.files ++ [file] }

/-- The setting of a named option that takes a value. -/
def setValue (s : Settings) (name value : String) : Except UsageError Settings :=
  if name = "--min-confidence" then
    match s.minConfidence, Number.ofText? value with
    | some _, _ => .error (.repeatedOption name)
    | none, none => .error (.badValue name value)
    | none, some n => .ok { s with minConfidence := some n.toFloat }
  else
    match s.format, Format.ofText? value with
    | some _, _ => .error (.repeatedOption name)
    | none, none => .error (.badValue name value)
    | none, some f => .ok { s with format := some f }

/-- The options that take a value. -/
def takesValue (name : String) : Bool := name = "--min-confidence" || name = "--format"

/-- Single-letter options behind one dash. -/
def addLetters (arg : String) : Settings → List Char → Except UsageError Settings
  | s, [] => .ok s
  | s, 'v' :: cs => addLetters arg { s with verbosity := s.verbosity + 1 } cs
  | _, 'h' :: _ => .error .helpWanted
  | _, _ => .error (.unknownOption arg)

/-- Cut an argument at its first equals sign. -/
def splitValue (arg : String) : String × Option String :=
  let name := arg.toList.takeWhile (· ≠ '=')
  match arg.toList.dropWhile (· ≠ '=') with
  | [] => (arg, none)
  | _ :: value => (String.ofList name, some (String.ofList value))

/-- Whether an argument is an option and not a value.  A dash by itself is a value. -/
def isOption (arg : String) : Bool :=
  match arg.toList with
  | '-' :: _ :: _ => true
  | _ => false

/-- Read arguments one after the other.  Behind `--` all are files. -/
def readArgs (s : Settings) : List String → Except UsageError Settings
  | [] => .ok s
  | arg :: args =>
    if arg = "--" then args.foldlM addFile s
    else if !isOption arg then do readArgs (← s.addFile arg) args
    else if arg.toList.take 2 ≠ ['-', '-'] then do
      readArgs (← addLetters arg s (arg.toList.drop 1)) args
    else match splitValue arg with
      | (name, some value) =>
        if takesValue name then do readArgs (← s.setValue name value) args
        else if name = "--verbose" ∨ name = "--help" then .error (.unwantedValue name)
        else .error (.unknownOption arg)
      | (name, none) =>
        if takesValue name then
          match args with
          | [] => .error (.missingValue name)
          | value :: args =>
            if isOption value then .error (.missingValue name)
            else do readArgs (← s.setValue name value) args
        else if name = "--verbose" then readArgs { s with verbosity := s.verbosity + 1 } args
        else if name = "--help" then .error .helpWanted
        else .error (.unknownOption arg)

end Settings

/-- The options that the arguments give.  What they do not say is settled here: a confidence of
eight tenths and output as text. -/
def Options.ofArgs (args : List String) : Except UsageError Options := do
  let s ← Settings.readArgs {} args
  if s.files.isEmpty then throw .noFiles
  return {
    files := s.files
    minConfidence := s.minConfidence.getD (Decimal.toFloat ⟨8, -1⟩)
    format := s.format.getD .text
    verbosity := s.verbosity }

/-! ## §3 Output lines -/

/-- The line that reports a problem of the file `path`. -/
def Format.line (path : String) (p : Problem) : Format → String
  | text => s!"{path}:{p.position} {p.text}"
  | json =>
    "\x7b\"path\":" ++ Text.jsonString path ++ ",\"position\":" ++ toString p.position ++
      ",\"text\":" ++ Text.jsonString p.text ++ ",\"confidence\":" ++ p.confidence.text ++
      ",\"category\":" ++ Text.jsonString p.category ++ "\x7d"

/-! ## §4 Running -/

/-- What comes of going through files: the lines written, and whether one of them failed. -/
structure Report where
  lines : List String
  failed : Bool
  deriving DecidableEq, Repr

namespace Report

/-- One report after another. -/
def append (r r' : Report) : Report := ⟨r.lines ++ r'.lines, r.failed || r'.failed⟩

/-- The text written on standard output. -/
def output (r : Report) : String := String.join (r.lines.map (· ++ "\n"))

def exitStatus (r : Report) : Nat := if r.failed then 1 else 0

end Report

/-- Lint one file, given its content or why there is none. -/
def lintContent (o : Options) (path : String) (content : Except ReadError ByteArray) :
    Logged Report :=
  match content with
  | .error cause => do
    Logged.write [⟨.error, .command, s!"{path}: " ++ cause.message⟩]
    return ⟨[], true⟩
  | .ok bytes => do
    match ← o.linter.lint path bytes with
    | .error e =>
      Logged.write [⟨.error, .command, e.message⟩]
      return ⟨[], true⟩
    | .ok problems =>
      Logged.write [⟨.info, .command, s!"{path}: {problems.length} problems"⟩]
      return ⟨problems.map (o.format.line path), false⟩

/-- Report on files one after the other, each by `report`. -/
def reportEach {m : Type → Type} [Monad m] (report : String → m Report) : List String → m Report
  | [] => return ⟨[], false⟩
  | path :: paths => do
    let first ← report path
    let others ← reportEach report paths
    return first.append others

/-- Lint files one after the other. -/
def lintFiles (o : Options) (read : String → Except ReadError ByteArray) (paths : List String) :
    Logged Report :=
  reportEach (fun path => lintContent o path (read path)) paths

section

variable (o : Options) (read : String → Except ReadError ByteArray)

theorem lintFiles_nil : lintFiles o read [] = pure ⟨[], false⟩ := rfl

theorem lintFiles_cons (path : String) (paths : List String) :
    lintFiles o read (path :: paths) = (do
      let first ← lintContent o path (read path)
      let others ← lintFiles o read paths
      return first.append others) := rfl

/-- Files are reported on independently of one another: two runs, one after the other, are one run
over the files of both. -/
theorem lintFiles_append (as bs : List String) :
    lintFiles o read (as ++ bs) = (do
      let first ← lintFiles o read as
      let others ← lintFiles o read bs
      return first.append others) := by
  induction as with
  | nil => simp [lintFiles_nil, Report.append, bind, pure, Logged.bind, Logged.pure]
  | cons a as ih =>
    simp [lintFiles_cons, ih, Report.append, bind, pure, Logged.bind, Logged.pure, Bool.or_assoc]

end

/-- Going through the files that the options name. -/
def run (o : Options) (read : String → Except ReadError ByteArray) : Logged Report :=
  lintFiles o read o.files

/-- The text of the log, as far as the options want it. -/
def logText {α : Type} (o : Options) (x : Logged α) : String :=
  String.join ((x.shown o.logLevel).map Record.text)

/-! ## §5 The world outside -/

/-- What the command needs of the world outside: reading a file, and writing on the two output
streams, one of which takes the log. -/
structure World (m : Type → Type) where
  read : String → m (Except ReadError ByteArray)
  writeLog : String → m Unit
  print : String → m Unit

namespace World

variable {m : Type → Type} [Monad m]

/-- Read a file, lint it and write what there is to say. -/
def reportOn (w : World m) (o : Options) (path : String) : m Report := do
  let report := lintContent o path (← w.read path)
  w.writeLog (logText o report)
  w.print report.value.output
  return report.value

/-- Going through the files that the options name, each when its turn comes. -/
def run (w : World m) (o : Options) : m Report := reportEach (w.reportOn o) o.files

end World

end ProtoSchema.Command
