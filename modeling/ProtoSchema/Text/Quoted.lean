import ProtoSchema.Text.CodePoint
import ProtoSchema.Text.Unprintable

/-! # Quoted text

A text between double quotes on one line.  The quote and the backslash take a backslash; NUL, tab,
line feed and carriage return have letters; any other unprintable character is spelled by its code
point between braces.  The apostrophe stands for itself.
-/

namespace ProtoSchema.Text

/-- How one character is written inside quotes. -/
def quoteChar (c : Char) : List Char :=
  if c = '\x00' then ['\\', '0']
  else if c = '\t' then ['\\', 't']
  else if c = '\n' then ['\\', 'n']
  else if c = '\r' then ['\\', 'r']
  else if c = '"' then ['\\', '"']
  else if c = '\\' then ['\\', '\\']
  else if isUnprintable c then '\\' :: 'u' :: '{' :: (hexDigits c ++ ['}'])
  else [c]

/-- The text of `cs` between double quotes. -/
def quote (cs : List Char) : List Char := '"' :: (cs.flatMap quoteChar ++ ['"'])

/-- Quoting shows the start of a text only, when the text is longer than this. -/
def shownLength : Nat := 10

/-- `cs` quoted; a long text is cut to its first `shownLength` characters, and dots after the
closing quote say so. -/
def quoteShort (cs : List Char) : List Char :=
  if shownLength < cs.length then quote (cs.take shownLength) ++ ['.', '.', '.'] else quote cs

end ProtoSchema.Text
