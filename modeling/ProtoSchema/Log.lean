import ProtoSchema.Text.ControlSequence

/-! # Log records

What a run reports about itself besides its result: records with a level, a target (the part of the
program that speaks) and a message.  A computation that writes records is a value beside its log
(`Logged`), so the log is data like any other; `Level.shows` says which records a chosen level lets
through.
-/

namespace ProtoSchema

/-! ## §1 Records -/

/-- How urgent a record is, the most urgent first. -/
inductive Level where
  | error | warn | info | debug | trace
  deriving DecidableEq, Repr

namespace Level

/-- The place of a level, counted from the most urgent. -/
def rank : Level → Nat
  | error => 0
  | warn => 1
  | info => 2
  | debug => 3
  | trace => 4

def name : Level → String
  | error => "ERROR"
  | warn => "WARN"
  | info => "INFO"
  | debug => "DEBUG"
  | trace => "TRACE"

/-- The name filled with blanks to five characters, so that log lines align. -/
def column (l : Level) : String := String.ofList (l.name.toList.rightpad 5 ' ')

/-- Whether a log set to `limit` shows records of level `l`: it shows its own level and all that
are more urgent. -/
def shows (limit l : Level) : Bool := l.rank ≤ limit.rank

end Level

/-- The part of the program that a record comes from. -/
inductive Target where
  | lexer | grammar | lint | command
  deriving DecidableEq, Repr

def Target.name : Target → String
  | lexer => "pb::parser::lexer"
  | grammar => "pb::parser::grammar"
  | lint => "pb::lint"
  | command => "pblint"

structure Record where
  level : Level
  target : Target
  message : String
  deriving DecidableEq, Repr

/-- A record as the log shows it.  A line break in the message does not start a record: what
follows it is set in by four blanks. -/
def Record.line (r : Record) : String :=
  s!"[{r.level.column} {r.target.name}] " ++ String.ofList (r.message.toList.flatMap indent)
where
  indent (c : Char) : List Char := if c = '\n' then ['\n', ' ', ' ', ' ', ' '] else [c]

/-- What the log holds for a record: its line and a line break, without commands to a terminal.
Each record is read by itself, so what its message leaves open hides nothing of the next one. -/
def Record.text (r : Record) : String :=
  String.ofList (Text.visible (r.line.toList ++ ['\n']))

/-! ## §2 Values with a log -/

/-- A value and the records written on the way to it, in order. -/
structure Logged (α : Type) where
  value : α
  log : List Record

namespace Logged

variable {α β : Type}

/-- A value with nothing to report. -/
protected def pure (a : α) : Logged α := ⟨a, []⟩

/-- Go on from the value; the later records follow the earlier ones. -/
protected def bind (x : Logged α) (f : α → Logged β) : Logged β :=
  ⟨(f x.value).value, x.log ++ (f x.value).log⟩

instance : Monad Logged where
  pure := Logged.pure
  bind := Logged.bind

@[simp] theorem value_pure (a : α) : (pure a : Logged α).value = a := rfl
@[simp] theorem log_pure (a : α) : (pure a : Logged α).log = [] := rfl
@[simp] theorem value_bind (x : Logged α) (f : α → Logged β) :
    (x >>= f).value = (f x.value).value := rfl
@[simp] theorem log_bind (x : Logged α) (f : α → Logged β) :
    (x >>= f).log = x.log ++ (f x.value).log := rfl

/-- Write `records`. -/
def write (records : List Record) : Logged Unit := ⟨(), records⟩

/-- The records that a log set to `limit` shows. -/
def shown (limit : Level) (x : Logged α) : List Record :=
  x.log.filter fun r => limit.shows r.level

end Logged

end ProtoSchema
