import ProtoSchema.Lexer

/-!
# The lexical grammar

What stands at the front of a text that starts with no blank, as a relation (`Item`): a token with
its text and what follows it, or the fault that stands there instead.  Names and integers are the
longest that stand there (`Longest`); brackets are not looked at.

* §1 the longest start of a text that has a property;
* §2 names and what kind of token they are;
* §3 integers;
* §4 items.
-/

namespace ProtoSchema

/-! ## §1 Longest starts -/

/-- `w` is the longest start of `w ++ rest` in the language `L`. -/
structure Longest (L : List Char → Prop) (w rest : List Char) : Prop where
  mem : L w
  length_le : ∀ v, v <+: w ++ rest → L v → v.length ≤ w.length

/-- A run, not empty, of characters that pass `p`. -/
structure IsRun (p : Char → Bool) (w : List Char) : Prop where
  ne_nil : w ≠ []
  all : ∀ c ∈ w, p c = true

/-! ## §2 Names -/

/-- A letter or an underscore, and then letters, underscores and digits. -/
inductive IsSegment : List Char → Prop
  | mk {c : Char} {cs : List Char} (hstart : isIdentStart c = true)
      (hcontinue : ∀ d ∈ cs, isIdentContinue d = true) : IsSegment (c :: cs)

/-- Segments with dots between. -/
inductive IsName : List Char → Prop
  | segment {s : List Char} (hs : IsSegment s) : IsName s
  | qualify {s w : List Char} (hs : IsSegment s) (hw : IsName w) : IsName (s ++ '.' :: w)

/-- The kind of a name: by its dots, then by its spelling. -/
inductive NameKind (w : List Char) : TokenKind → Prop
  | qualified (hdot : '.' ∈ w) : NameKind w .qualified
  | keyword {k : Keyword} (hdot : '.' ∉ w) (htext : w = k.text.toList) : NameKind w (.keyword k)
  | boolean (hdot : '.' ∉ w) (hword : w = "true".toList ∨ w = "false".toList) :
      NameKind w .booleanLit
  | identifier (hdot : '.' ∉ w) (hkeyword : ∀ k : Keyword, w ≠ k.text.toList)
      (hboolean : ¬ (w = "true".toList ∨ w = "false".toList)) : NameKind w .identifier

/-! ## §3 Integers -/

def IsDecimal (w : List Char) : Prop := IsRun Char.isDigit w

/-- `0x` or `0X`, and hexadecimal digits. -/
inductive IsHex : List Char → Prop
  | mk {x : Char} {ds : List Char} (hx : x = 'x' ∨ x = 'X') (hds : IsRun Text.isHexDigit ds) :
      IsHex ('0' :: x :: ds)

/-- The digits of an integer: hexadecimal where that form applies, and else decimal. -/
inductive Numeral (ds rest : List Char) : Prop
  | hex (hds : Longest IsHex ds rest)
  | decimal (hhex : ∀ v, v <+: ds ++ rest → ¬ IsHex v) (hds : Longest IsDecimal ds rest)

/-- A sign is a minus or nothing. -/
def IsSign (sign : List Char) : Prop := sign = [] ∨ sign = ['-']

/-! ## §4 Items -/

/-- The tokens of one character. -/
def marks : List (Char × TokenKind) :=
  [('.', .dot), ('=', .equals), (';', .semicolon), (',', .comma), ('{', .leftBrace),
    ('}', .rightBrace), ('(', .leftParen), (')', .rightParen), ('[', .leftBracket),
    (']', .rightBracket), ('<', .leftAngle), ('>', .rightAngle)]

/-- How the tokens of a kind are spelled, if all of them are spelled alike. -/
def TokenKind.spelling? : TokenKind → Option String
  | keyword word => some word.text
  | kind => (marks.find? (·.2 = kind)).map fun mark => String.singleton mark.1

/-- `c`, before `rest`, could be the first character of a token. -/
def StartsToken (c : Char) (rest : List Char) : Prop :=
  c ∈ marks.map (·.1) ∨ c = '"' ∨ c = '/' ∨ isIdentStart c = true ∨ c.isDigit = true ∨
    (c = '-' ∧ ∃ d ∈ rest.head?, d.isDigit = true)

inductive Item : List Char → Except LexFault Lexeme → Prop
  | mark {c : Char} {kind : TokenKind} {rest : List Char} (hmark : (c, kind) ∈ marks) :
      Item (c :: rest) (.ok ⟨kind, [c], rest⟩)
  | name {w rest : List Char} {kind : TokenKind} (hw : Longest IsName w rest)
      (hkind : NameKind w kind) : Item (w ++ rest) (.ok ⟨kind, w, rest⟩)
  | integer {sign ds rest : List Char} (hsign : IsSign sign) (hds : Numeral ds rest)
      (hend : ∀ c ∈ rest.head?, isIdentContinue c = false) :
      Item (sign ++ ds ++ rest) (.ok ⟨.integerLit, sign ++ ds, rest⟩)
  /-- An integer that runs into a character of a name. -/
  | integerTail {sign ds rest : List Char} {c : Char} (hsign : IsSign sign)
      (hds : Numeral ds (c :: rest)) (hc : isIdentContinue c = true) :
      Item (sign ++ ds ++ c :: rest) (.error (.integerTail c))
  /-- A string ends at the first quote. -/
  | string {inner rest : List Char} (hinner : ∀ c ∈ inner, c ≠ '"' ∧ c ≠ '\n') :
      Item ('"' :: (inner ++ '"' :: rest)) (.ok ⟨.stringLit, '"' :: (inner ++ ['"']), rest⟩)
  /-- The line or the text ends before a string does. -/
  | unterminated {inner rest : List Char} (hinner : ∀ c ∈ inner, c ≠ '"' ∧ c ≠ '\n')
      (hend : ∀ c ∈ rest.head?, c = '\n') :
      Item ('"' :: (inner ++ rest)) (.error .unterminatedString)
  /-- A comment ends where the line does. -/
  | comment {inner rest : List Char} (hinner : ∀ c ∈ inner, c ≠ '\n' ∧ c ≠ '\r')
      (hend : ∀ c ∈ rest.head?, c = '\n' ∨ c = '\r') :
      Item ('/' :: '/' :: (inner ++ rest)) (.ok ⟨.comment, '/' :: '/' :: inner, rest⟩)
  | loneSlash {rest : List Char} (hrest : rest.head? ≠ some '/') :
      Item ('/' :: rest) (.error .loneSlash)
  | unrecognized {c : Char} {rest : List Char} (hc : ¬ StartsToken c rest) :
      Item (c :: rest) (.error (.unrecognized c))

end ProtoSchema
