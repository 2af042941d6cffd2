import ProtoSchema.Text.Alphabetic
import ProtoSchema.Text.Numeric
import ProtoSchema.Token

/-! # Lexemes — one token at the front of a text

What stands at the front of a list of characters, brackets regarded one at a time: `scan` gives the
kind and the text of the longest lexeme there and what follows it, or the fault that rules every
lexeme out.  Nothing here depends on what came before, so the same characters give the same lexeme
wherever they stand; the count of open brackets is the business of the lexer.

* §1 character classes, §2 faults, §3 the scanners, §4 no character is lost or made up
  (`text_append_rest`), and a lexeme of a text that is not empty is not empty (`text_ne_nil`).
-/

namespace ProtoSchema

/-! ## §1 Character classes -/

/-- Layout between tokens: space, tab, line feed and carriage return, and no other character. -/
def isBlank (c : Char) : Bool := c = ' ' || c = '\t' || c = '\n' || c = '\r'

def isLineEnd (c : Char) : Bool := c = '\n' || c = '\r'

/-- The characters that start a segment of an identifier. -/
def isIdentStart (c : Char) : Bool := c = '_' || Text.isAlphabetic c

/-- The characters that go on with a segment of an identifier. -/
def isIdentContinue (c : Char) : Bool := c = '_' || Text.isAlphabetic c || Text.isNumeric c

theorem isIdentContinue_of_isIdentStart {c : Char} (h : isIdentStart c = true) :
    isIdentContinue c = true := by
  simp only [isIdentStart, isIdentContinue, Bool.or_eq_true] at h ⊢
  exact .inl h

/-! ## §2 Faults -/

/-- Why a text has no token at some place. -/
inductive LexFault where
  | unopenedBrace
  | commaOutsideMap
  | unterminatedString
  | loneSlash
  /-- An integer runs into the character `c`, which could go on with an identifier. -/
  | integerTail (c : Char)
  | unrecognized (c : Char)
  deriving DecidableEq, Repr

def LexFault.message : LexFault → String
  | unopenedBrace => "unexpected right brace " ++ Text.describeChar '}'
  | commaOutsideMap => "unexpected comma outside of map definition " ++ Text.describeChar ','
  | unterminatedString => "unterminated quoted string"
  | loneSlash => "comments must start with two slashes"
  | integerTail c => "invalid character " ++ Text.describeChar c ++ " in integer literal"
  | unrecognized c => "unrecognized character " ++ Text.describeChar c

/-! ## §3 Scanners -/

/-- A lexeme at the front of a text, and what follows it. -/
structure Lexeme where
  kind : TokenKind
  text : List Char
  rest : List Char
  deriving DecidableEq, Repr

namespace Lexeme

/-- The characters that are a token by themselves. -/
def punctuation? : Char → Option TokenKind
  | '.' => some .dot
  | '=' => some .equals
  | ';' => some .semicolon
  | ',' => some .comma
  | '{' => some .leftBrace
  | '}' => some .rightBrace
  | '(' => some .leftParen
  | ')' => some .rightParen
  | '[' => some .leftBracket
  | ']' => some .rightBracket
  | '<' => some .leftAngle
  | '>' => some .rightAngle
  | _ => none

/-- A string after its opening quote: all up to the next quote, which must stand on the same
line.  There are no escapes. -/
def scanString (cs : List Char) : Except LexFault Lexeme :=
  match cs.dropWhile inside with
  | '"' :: rest => .ok ⟨.stringLit, '"' :: (cs.takeWhile inside ++ ['"']), rest⟩
  | _ => .error .unterminatedString
where
  inside (c : Char) : Bool := c ≠ '"' && c ≠ '\n'

/-- A comment after its first slash: a second slash, and all up to the end of the line. -/
def scanComment : List Char → Except LexFault Lexeme
  | '/' :: cs =>
    .ok ⟨.comment, '/' :: '/' :: cs.takeWhile (!isLineEnd ·), cs.dropWhile (!isLineEnd ·)⟩
  | _ => .error .loneSlash

/-- The digits at the front of a text: hexadecimal if `0x` and one such digit stand there,
decimal otherwise. -/
def digits : List Char → List Char × List Char
  | '0' :: x :: d :: cs =>
    if (x = 'x' || x = 'X') && Text.isHexDigit d then
      ('0' :: x :: (d :: cs).takeWhile Text.isHexDigit, (d :: cs).dropWhile Text.isHexDigit)
    else
      (('0' :: x :: d :: cs).takeWhile Char.isDigit, ('0' :: x :: d :: cs).dropWhile Char.isDigit)
  | cs => (cs.takeWhile Char.isDigit, cs.dropWhile Char.isDigit)

/-- An integer, whose `sign` has been read.  It must not run into an identifier. -/
def scanInteger (sign cs : List Char) : Except LexFault Lexeme :=
  match digits cs with
  | (ds, []) => .ok ⟨.integerLit, sign ++ ds, []⟩
  | (ds, c :: rest) =>
    if isIdentContinue c then .error (.integerTail c)
    else .ok ⟨.integerLit, sign ++ ds, c :: rest⟩

/-- Cut a text behind its identifier, which may be made of segments joined by dots.  A dot belongs
to it only if a segment starts behind the dot. -/
def spanWord : List Char → List Char × List Char
  | [] => ([], [])
  | c :: cs =>
    if isIdentContinue c || (c = '.' && cs.head?.any isIdentStart) then
      let (word, rest) := spanWord cs
      (c :: word, rest)
    else ([], c :: cs)

/-- What a word is: qualified if it has a dot, else a keyword, a boolean or an identifier. -/
def wordKind (word : List Char) : TokenKind :=
  if '.' ∈ word then .qualified
  else match Keyword.ofText? (String.ofList word) with
    | some k => .keyword k
    | none =>
      if String.ofList word = "true" ∨ String.ofList word = "false" then .booleanLit
      else .identifier

def scanWord (cs : List Char) : Lexeme :=
  let (word, rest) := spanWord cs
  ⟨wordKind word, word, rest⟩

/-- The lexeme at the front of a text that starts with no blank.  An empty text gives the end of
input. -/
def scan : List Char → Except LexFault Lexeme
  | [] => .ok ⟨.endOfInput, [], []⟩
  | c :: cs =>
    match punctuation? c with
    | some kind => .ok ⟨kind, [c], cs⟩
    | none =>
      if c = '"' then scanString cs
      else if c = '/' then scanComment cs
      else if c.isDigit then scanInteger [] (c :: cs)
      else if c = '-' && cs.head?.any Char.isDigit then scanInteger [c] cs
      else if isIdentStart c then .ok (scanWord (c :: cs))
      else .error (.unrecognized c)

/-! ## §4 Nothing is lost -/

theorem spanWord_append (cs : List Char) : (spanWord cs).1 ++ (spanWord cs).2 = cs := by
  induction cs with
  | nil => rfl
  | cons c cs ih =>
    rw [spanWord]
    split
    · simp [ih]
    · rfl

theorem scanWord_append (cs : List Char) : (scanWord cs).text ++ (scanWord cs).rest = cs :=
  spanWord_append cs

theorem digits_append (cs : List Char) : (digits cs).1 ++ (digits cs).2 = cs := by
  unfold digits
  split
  · split
    · simp
    · exact List.takeWhile_append_dropWhile
  · exact List.takeWhile_append_dropWhile

theorem scanString_append {cs : List Char} {l : Lexeme} (h : scanString cs = .ok l) :
    l.text ++ l.rest = '"' :: cs := by
  unfold scanString at h
  split at h
  · next rest hrest =>
    cases h
    have := List.takeWhile_append_dropWhile (p := scanString.inside) (l := cs)
    rw [hrest] at this
    simpa using this
  · cases h

theorem scanComment_append {cs : List Char} {l : Lexeme} (h : scanComment cs = .ok l) :
    l.text ++ l.rest = '/' :: cs := by
  unfold scanComment at h
  split at h
  · cases h
    simp
  · cases h

theorem scanInteger_append {sign cs : List Char} {l : Lexeme}
    (h : scanInteger sign cs = .ok l) : l.text ++ l.rest = sign ++ cs := by
  have hd := digits_append cs
  unfold scanInteger at h
  split at h
  · next ds hds =>
    cases h
    simp_all
  · next ds c rest hds =>
    split at h
    · cases h
    · cases h
      rw [hds] at hd
      simp [← hd]

/-- The text of a lexeme and what follows it are the text that was scanned. -/
theorem text_append_rest {cs : List Char} {l : Lexeme} (h : scan cs = .ok l) :
    l.text ++ l.rest = cs := by
  unfold scan at h
  split at h
  · cases h; rfl
  · next c cs =>
    split at h
    · cases h; rfl
    · split at h
      · next hc => subst hc; exact scanString_append h
      · split at h
        · next hc => subst hc; exact scanComment_append h
        · split at h
          · exact scanInteger_append h
          · split at h
            · exact scanInteger_append h
            · split at h
              · cases h
                exact scanWord_append _
              · cases h

theorem digits_ne_nil {c : Char} (h : c.isDigit = true) (cs : List Char) :
    (digits (c :: cs)).1 ≠ [] := by
  unfold digits
  split
  · split
    · simp
    · simp
  · simp [h]

theorem scanInteger_ne_nil {sign cs : List Char} {l : Lexeme} (h : scanInteger sign cs = .ok l)
    (hne : sign ≠ [] ∨ (digits cs).1 ≠ []) : l.text ≠ [] := by
  unfold scanInteger at h
  split at h
  · next hds =>
    cases h
    simp [hds] at hne ⊢
    intro h0; simpa [h0] using hne
  · next hds =>
    split at h
    · cases h
    · cases h
      simp [hds] at hne ⊢
      intro h0; simpa [h0] using hne

/-- A text that is not empty has no empty lexeme, so scanning moves on. -/
theorem text_ne_nil {c : Char} {cs : List Char} {l : Lexeme} (h : scan (c :: cs) = .ok l) :
    l.text ≠ [] := by
  simp only [scan] at h
  split at h
  · cases h; simp
  · split at h
    · unfold scanString at h
      split at h
      · cases h; simp
      · cases h
    · split at h
      · unfold scanComment at h
        split at h
        · cases h; simp
        · cases h
      · split at h
        · next hc => exact scanInteger_ne_nil h (.inr (digits_ne_nil hc cs))
        · split at h
          · exact scanInteger_ne_nil h (.inl (by simp))
          · split at h
            · next hc =>
              cases h
              simp [scanWord, spanWord, isIdentContinue_of_isIdentStart hc]
            · cases h

theorem length_rest_lt {c : Char} {cs : List Char} {l : Lexeme} (h : scan (c :: cs) = .ok l) :
    l.rest.length < (c :: cs).length := by
  have happ := congrArg List.length (text_append_rest h)
  have hpos := List.length_pos_iff.mpr (text_ne_nil h)
  rw [List.length_append] at happ
  omega

end Lexeme

end ProtoSchema
