import ProtoSchema.Text.CodePoint

/-! # JSON strings

A text as a JSON string.  Quote, backslash and the control characters below U+0020 are escaped,
five of the latter by letters and the others by `\u` and four hexadecimal digits; every other
character stands for itself.
-/

namespace ProtoSchema.Text

/-- How one character is written in a JSON string. -/
def jsonChar (c : Char) : List Char :=
  if c = '"' then ['\\', '"']
  else if c = '\\' then ['\\', '\\']
  else if c = '\x08' then ['\\', 'b']
  else if c = '\t' then ['\\', 't']
  else if c = '\n' then ['\\', 'n']
  else if c = '\x0c' then ['\\', 'f']
  else if c = '\r' then ['\\', 'r']
  else if c.toNat < 32 then '\\' :: 'u' :: (hexDigits c).leftpad 4 '0'
  else [c]

def jsonString (s : String) : String :=
  String.ofList ('"' :: (s.toList.flatMap jsonChar ++ ['"']))

end ProtoSchema.Text
