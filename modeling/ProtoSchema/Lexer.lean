import ProtoSchema.Lexeme

/-! # The lexer — tokens pulled from a source one at a time

A `Cursor` is a place in a source.  `Cursor.read` skips the blanks there and reads one token,
without regard to brackets.  A `Lexer` is a cursor that also counts open brackets: a closing brace
needs an open one, a comma needs an open angle bracket, and an angle bracket that closes nothing is
let pass.  Each `Lexer.next?` gives one token and the lexer after it; the end of input, or the
first fault as an error token, is the last.

* §1 cursors, §2 brackets, §3 one pull and why pulls end (`size_lt_of_next?`);
* §4 all tokens at once (`tokens`, `tokenize`);
* §5 uses of a lexer that pull several tokens, each with the tokens that it pulled.
-/

namespace ProtoSchema

/-! ## §1 Cursors -/

/-- A place in a source: the number of bytes before it, and the text from there on. -/
structure Cursor where
  offset : Nat
  rest : List Char
  deriving DecidableEq, Repr

/-- The error token that stands for `fault` at `offset`. -/
def Token.ofFault (offset : Nat) (fault : LexFault) : Token := ⟨.error, offset, fault.message⟩

namespace Cursor

/-- The place behind the blanks. -/
def skipBlanks (c : Cursor) : Cursor :=
  ⟨c.offset + Text.utf8Length (c.rest.takeWhile isBlank), c.rest.dropWhile isBlank⟩

/-- The token behind the blanks, and the place behind the token.  Where no token stands, an error
token tells why, and the place is where the token should have started. -/
def read (c : Cursor) : Token × Cursor :=
  let here := c.skipBlanks
  match Lexeme.scan here.rest with
  | .ok l =>
    (⟨l.kind, here.offset, String.ofList l.text⟩,
      ⟨here.offset + Text.utf8Length l.text, l.rest⟩)
  | .error fault => (Token.ofFault here.offset fault, here)

theorem read_of_scan_eq_ok {c : Cursor} {l : Lexeme}
    (h : Lexeme.scan c.skipBlanks.rest = .ok l) :
    c.read = (⟨l.kind, c.skipBlanks.offset, String.ofList l.text⟩,
      ⟨c.skipBlanks.offset + Text.utf8Length l.text, l.rest⟩) := by
  simp only [read, h]

theorem read_of_scan_eq_error {c : Cursor} {fault : LexFault}
    (h : Lexeme.scan c.skipBlanks.rest = .error fault) :
    c.read = (Token.ofFault c.skipBlanks.offset fault, c.skipBlanks) := by
  simp only [read, h]

theorem length_skipBlanks_le (c : Cursor) : c.skipBlanks.rest.length ≤ c.rest.length :=
  (List.dropWhile_suffix _).length_le

/-- Only the end of input and errors leave the cursor where it was. -/
theorem length_read_lt {c : Cursor} (h : c.read.1.kind.isLast = false) :
    c.read.2.rest.length < c.rest.length := by
  have hskip := length_skipBlanks_le c
  cases hscan : Lexeme.scan c.skipBlanks.rest with
  | error fault => simp [read_of_scan_eq_error hscan, Token.ofFault, TokenKind.isLast] at h
  | ok l =>
    cases hrest : c.skipBlanks.rest with
    | nil =>
      rw [read_of_scan_eq_ok hscan] at h
      rw [hrest, Lexeme.scan] at hscan
      cases hscan
      simp [TokenKind.isLast] at h
    | cons d ds =>
      rw [hrest] at hscan hskip
      have := Lexeme.length_rest_lt hscan
      rw [read_of_scan_eq_ok (hrest ▸ hscan)]
      exact Nat.lt_of_lt_of_le this hskip

end Cursor

/-! ## §2 Brackets -/

/-- How many brackets are open. -/
structure Brackets where
  braces : Nat := 0
  angles : Nat := 0
  deriving DecidableEq, Repr

/-- The count after a token of some kind, or why the token may not stand there. -/
def Brackets.pass (b : Brackets) : TokenKind → Except LexFault Brackets
  | .leftBrace => .ok { b with braces := b.braces + 1 }
  | .rightBrace =>
    if b.braces = 0 then .error .unopenedBrace else .ok { b with braces := b.braces - 1 }
  | .leftAngle => .ok { b with angles := b.angles + 1 }
  | .rightAngle => .ok { b with angles := b.angles - 1 }
  | .comma => if b.angles = 0 then .error .commaOutsideMap else .ok b
  | _ => .ok b

/-! ## §3 One pull -/

structure Lexer where
  cursor : Cursor
  brackets : Brackets
  finished : Bool
  deriving DecidableEq, Repr

namespace Lexer

/-- The lexer that has all of `source` before it. -/
def ofList (source : List Char) : Lexer := ⟨⟨0, source⟩, {}, false⟩

def ofString (source : String) : Lexer := ofList source.toList

/-- Pull one token.  After the end of input or an error there is none. -/
def next? (l : Lexer) : Option (Token × Lexer) :=
  if l.finished then none
  else
    let (t, behind) := l.cursor.read
    match l.brackets.pass t.kind with
    | .ok brackets => some (t, ⟨behind, brackets, t.kind.isLast⟩)
    | .error fault => some (Token.ofFault t.offset fault, ⟨l.cursor.skipBlanks, l.brackets, true⟩)

/-- A bound on the number of tokens left. -/
def size (l : Lexer) : Nat := if l.finished then 0 else l.cursor.rest.length + 1

theorem size_lt_of_next? {l l' : Lexer} {t : Token} (h : l.next? = some (t, l')) :
    l'.size < l.size := by
  unfold next? at h
  split at h
  · cases h
  · next hf =>
    dsimp only at h
    split at h
    · cases h
      cases hlast : l.cursor.read.1.kind.isLast with
      | true => simp [size, hf]
      | false =>
        have := Cursor.length_read_lt hlast
        simp only [size, hf]
        simp
        omega
    · cases h
      simp [size, hf]

/-! ## §4 All tokens -/

/-- The tokens that are left. -/
def tokens (l : Lexer) : List Token :=
  match h : l.next? with
  | none => []
  | some (t, l') =>
    have := size_lt_of_next? h
    t :: l'.tokens
termination_by l.size

theorem tokens_of_next?_eq_none {l : Lexer} (h : l.next? = none) : l.tokens = [] := by
  rw [tokens]
  split
  · rfl
  · simp_all

theorem tokens_of_next?_eq_some {l l' : Lexer} {t : Token} (h : l.next? = some (t, l')) :
    l.tokens = t :: l'.tokens := by
  rw [tokens]
  split
  · simp_all
  · simp_all

end Lexer

/-- All tokens of a source, the end of input or an error as the last. -/
def tokenize (source : String) : List Token := (Lexer.ofString source).tokens

/-! ## §5 Uses that pull several tokens -/

/-- The outcome of using a lexer: an answer, the tokens pulled for it, and the lexer after that. -/
structure Pull (α : Type) where
  value : α
  pulled : List Token
  lexer : Lexer

/-- What the log says about the tokens pulled. -/
def Pull.log {α : Type} (p : Pull α) : List Record := p.pulled.filterMap Token.record?

namespace Lexer

/-- The next token, if there is one. -/
def next (l : Lexer) : Pull (Option Token) :=
  match l.next? with
  | none => ⟨none, [], l⟩
  | some (t, l') => ⟨some t, [t], l'⟩

/-- The token behind the next `n`. -/
def nth : Nat → Lexer → Pull (Option Token)
  | 0, l => l.next
  | n + 1, l =>
    match l.next? with
    | none => ⟨none, [], l⟩
    | some (t, l') =>
      let p := nth n l'
      { p with pulled := t :: p.pulled }

/-- The first token of kind `kind`; without one, the lexer is used up. -/
def find (kind : TokenKind) (l : Lexer) : Pull (Option Token) :=
  match h : l.next? with
  | none => ⟨none, [], l⟩
  | some (t, l') =>
    have := size_lt_of_next? h
    if t.kind = kind then ⟨some t, [t], l'⟩
    else
      let p := find kind l'
      { p with pulled := t :: p.pulled }
termination_by l.size

/-- The number of tokens left, which uses up the lexer. -/
def count (l : Lexer) : Pull Nat :=
  match h : l.next? with
  | none => ⟨0, [], l⟩
  | some (t, l') =>
    have := size_lt_of_next? h
    let p := count l'
    { p with value := p.value + 1, pulled := t :: p.pulled }
termination_by l.size

end Lexer

end ProtoSchema
