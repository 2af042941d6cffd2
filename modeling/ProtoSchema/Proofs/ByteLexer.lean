import ProtoSchema.Proofs.Stream

/-!
# A lexer that stands at bytes

The lexer of the library carries the text ahead of it.  The one here carries the whole source and
two numbers of bytes: where the token that it reads starts, and how far it has read.  Its steps can
go wrong.  A text is cut between characters only, a byte is looked up inside a text only, a sum may
be more than a word of the machine holds, and nothing is taken from zero.  A step that would do one
of these has no outcome, so a run that has one did none of them.

* §1 words of a machine, §2 texts cut at bytes;
* §3 the lexer and its steps, §4 the scanners, §5 pulls;
* §6 where a lexer stands (`At`), and what its steps do there.
-/

namespace ProtoSchema

/-! ## §1 Words of a machine -/

/-- A machine that counts bytes and brackets in words. -/
structure Machine where
  /-- The greatest number that a word holds. -/
  maxWord : Nat
  /-- A word has at least sixteen bits. -/
  sixteenBits : 0xFFFF ≤ maxWord

/-- A text takes at most half of the bytes that words can number, as any one object in memory
does. -/
def Machine.Fits (m : Machine) (source : String) : Prop := 2 * source.utf8ByteSize ≤ m.maxWord

instance (m : Machine) (source : String) : Decidable (m.Fits source) :=
  inferInstanceAs (Decidable (_ ≤ _))

/-- The sum of two words, if a word holds it. -/
def Machine.add (m : Machine) (a b : Nat) : Option Nat :=
  if a + b ≤ m.maxWord then some (a + b) else none

theorem Machine.add_of_le {m : Machine} {a b : Nat} (h : a + b ≤ m.maxWord) :
    m.add a b = some (a + b) := if_pos h

/-- Sums of places inside a text. -/
theorem Machine.Fits.add {m : Machine} {source : String} (h : m.Fits source) {a b : Nat}
    (hle : a + b ≤ source.utf8ByteSize) : m.add a b = some (a + b) := by
  rw [Machine.Fits] at h
  exact Machine.add_of_le (by omega)

/-- One less, unless that is less than zero. -/
def oneLess : Nat → Option Nat
  | 0 => none
  | n + 1 => some n

theorem oneLess_of_ne_zero {n : Nat} (h : n ≠ 0) : oneLess n = some (n - 1) := by
  obtain ⟨k, rfl⟩ := Nat.exists_eq_succ_of_ne_zero h
  rfl

/-! ## §2 Texts cut at bytes -/

namespace Text

/-- What stands in `s` from the byte `i` on, if a character starts there or `s` ends there. -/
def from? (s : String) (i : Nat) : Option String :=
  if h : (⟨i⟩ : String.Pos.Raw).IsValid s then some (s.sliceFrom ⟨⟨i⟩, h⟩).copy else none

/-- What stands in `s` from the byte `i` up to the byte `j`, if both are places between
characters, in this order. -/
def between? (s : String) (i j : Nat) : Option String :=
  if h : (⟨i⟩ : String.Pos.Raw).IsValid s ∧ (⟨j⟩ : String.Pos.Raw).IsValid s ∧ i ≤ j then
    some (s.slice ⟨⟨i⟩, h.1⟩ ⟨⟨j⟩, h.2.1⟩ h.2.2).copy
  else none

/-- The byte `i` of `s`, if there is one. -/
def byte? (s : String) (i : Nat) : Option UInt8 := s.toByteArray.data[i]?

theorem eq_append_of_toList_eq {s : String} {front back : List Char}
    (h : s.toList = front ++ back) : s = String.ofList front ++ String.ofList back := by
  rw [← String.ofList_append, ← h, String.ofList_toList]

/-- Behind a start of a text is a place between characters, which cuts the text there. -/
theorem exists_splits {s : String} {front back : List Char} {i : Nat}
    (h : s.toList = front ++ back) (hi : i = utf8Length front) :
    ∃ hvalid, String.Pos.Splits (⟨⟨i⟩, hvalid⟩ : s.Pos) (String.ofList front)
      (String.ofList back) := by
  have happ := eq_append_of_toList_eq h
  have hend : (⟨i⟩ : String.Pos.Raw) = (String.ofList front).rawEndPos := by
    rw [String.Pos.Raw.ext_iff, String.byteIdx_rawEndPos, utf8ByteSize_ofList, hi]
  exact ⟨String.Pos.Raw.isValid_iff_exists_append.mpr ⟨_, _, happ, hend⟩, happ, hend⟩

theorem from?_of_toList_eq {s : String} {front back : List Char} (h : s.toList = front ++ back) :
    from? s (utf8Length front) = some (String.ofList back) := by
  obtain ⟨hvalid, hsplits⟩ := exists_splits h rfl
  rw [from?, dif_pos hvalid]
  exact congrArg some hsplits.copy_sliceFrom_eq

example : from? "aéb" 2 = none ∧ from? "aéb" 3 = some "b" := by decide +kernel

/-- A text that can be cut is cut into two. -/
theorem exists_of_from? {s t : String} {i : Nat} (h : from? s i = some t) :
    ∃ front, s.toList = front ++ t.toList ∧ i = utf8Length front := by
  have hsome := congrArg Option.isSome h
  unfold from? at hsome
  split at hsome
  · next hvalid =>
    obtain ⟨front, back, rfl, hi⟩ := String.Pos.Raw.isValid_iff_exists_append.mp hvalid
    have hfront : i = utf8Length front.toList := by
      rw [utf8Length_toList]
      simpa [String.Pos.Raw.ext_iff] using hi
    rw [hfront, from?_of_toList_eq String.toList_append] at h
    cases h
    exact ⟨front.toList, by simp, hfront⟩
  · cases hsome

theorem between?_of_toList_eq {s : String} {front text back : List Char}
    (h : s.toList = front ++ text ++ back) :
    between? s (utf8Length front) (utf8Length front + utf8Length text) =
      some (String.ofList text) := by
  obtain ⟨hi, hsplits⟩ := exists_splits (h.trans (List.append_assoc _ _ _)) rfl
  obtain ⟨hj, hsplits'⟩ := exists_splits h (utf8Length_append front text).symm
  rw [String.ofList_append] at hsplits hsplits'
  rw [between?, dif_pos ⟨hi, hj, Nat.le_add_right _ _⟩]
  obtain ⟨_, hcopy⟩ := String.copy_slice_eq_iff_splits.mpr ⟨_, _, hsplits, hsplits'⟩
  exact congrArg some hcopy

theorem byte?_of_toList_eq {s : String} {front back : List Char} {c : Char}
    (h : s.toList = front ++ c :: back) (hc : c.utf8Size = 1) :
    byte? s (utf8Length front) = some c.toUInt8 := by
  have hsize : (String.ofList front).toByteArray.data.size = utf8Length front := by
    rw [← utf8ByteSize_ofList]
    rfl
  rw [byte?, eq_append_of_toList_eq h, String.toByteArray_append, ByteArray.data_append,
    Array.getElem?_append_right (Nat.le_of_eq hsize), hsize, Nat.sub_self,
    String.toByteArray_ofList, List.utf8Encode_cons, ByteArray.data_append,
    List.utf8Encode_singleton, String.utf8EncodeChar_eq_singleton hc, List.data_toByteArray,
    Array.getElem?_append_left (by simp)]
  rfl

end Text

/-! ## §3 The lexer -/

/-- A lexer that stands at bytes of its source. -/
structure ByteLexer where
  input : String
  /-- How far the source is read. -/
  pos : Nat := 0
  /-- Where the token starts that is being read. -/
  start : Nat := 0
  braceDepth : Nat := 0
  mapDepth : Nat := 0
  finished : Bool := false
  deriving DecidableEq, Repr

namespace ByteLexer

/-- The lexer that has all of `source` before it. -/
def ofString (source : String) : ByteLexer := { input := source }

/-- The next character, if there is one. -/
def peek (l : ByteLexer) : Option (Option Char) :=
  (Text.from? l.input l.pos).map fun ahead => ahead.toList.head?

/-- The character behind the next one. -/
def peekSecond (l : ByteLexer) : Option (Option Char) :=
  (Text.from? l.input l.pos).map fun ahead => ahead.toList.tail.head?

/-- Read a character. -/
def advance (m : Machine) (l : ByteLexer) : Option (Option Char × ByteLexer) :=
  match l.peek with
  | none => none
  | some none => some (none, l)
  | some (some c) => do
    let pos ← m.add l.pos c.utf8Size
    some (some c, { l with pos })

/-- The number of bytes ahead. -/
def left (l : ByteLexer) : Nat := l.input.utf8ByteSize - l.pos

theorem left_lt_of_advance {m : Machine} {l l' : ByteLexer} {c : Char}
    (h : l.advance m = some (some c, l')) : l'.left < l.left := by
  unfold advance at h
  split at h
  · cases h
  · cases h
  · next hpeek =>
    obtain ⟨pos, hpos, heq⟩ := Option.bind_eq_some_iff.mp h
    cases heq
    obtain ⟨ahead, hahead, hhead⟩ := Option.map_eq_some_iff.mp hpeek
    obtain ⟨front, hinput, hfront⟩ := Text.exists_of_from? hahead
    obtain ⟨rest, hrest⟩ := List.head?_eq_some_iff.mp hhead
    have hsize := congrArg Text.utf8Length hinput
    rw [Text.utf8Length_toList, Text.utf8Length_append, hrest, Text.utf8Length_cons] at hsize
    have hc := c.utf8Size_pos
    unfold Machine.add at hpos
    split at hpos
    · cases hpos
      simp only [left]
      omega
    · cases hpos

theorem eq_of_advance_none {m : Machine} {l l' : ByteLexer} (h : l.advance m = some (none, l')) :
    l' = l := by
  unfold advance at h
  split at h
  · cases h
  · cases h
    rfl
  · obtain ⟨pos, -, heq⟩ := Option.bind_eq_some_iff.mp h
    cases heq

/-- Read as long as the characters are of one kind. -/
def skipWhile (m : Machine) (p : Char → Bool) (l : ByteLexer) : Option ByteLexer :=
  match l.peek with
  | none => none
  | some c =>
    if c.any p then
      match h : l.advance m with
      | some (some _, l') =>
        have := left_lt_of_advance h
        skipWhile m p l'
      | stopped => stopped.map (·.2)
    else some l
termination_by l.left

theorem left_le_of_skipWhile {m : Machine} {p : Char → Bool} {l l' : ByteLexer}
    (h : l.skipWhile m p = some l') : l'.left ≤ l.left := by
  fun_induction skipWhile m p l with
  | case1 => cases h
  | case2 l c hpeek hp d l₁ hadvance hlt ih => exact Nat.le_trans (ih h) (Nat.le_of_lt hlt)
  | case3 l c hpeek hp hstop =>
    obtain ⟨⟨d, l₁⟩, hadvance, rfl⟩ := Option.map_eq_some_iff.mp h
    cases d with
    | none => exact Nat.le_of_eq (congrArg left (eq_of_advance_none hadvance))
    | some d => exact Nat.le_of_lt (left_lt_of_advance hadvance)
  | case4 =>
    cases h
    exact Nat.le_refl _

/-- Start a token here. -/
def restart (l : ByteLexer) : ByteLexer := { l with start := l.pos }

/-- Skip blanks, and start a token behind them. -/
def skipBlanks (m : Machine) (l : ByteLexer) : Option ByteLexer := do
  let l ← l.skipWhile m isBlank
  some l.restart

/-- Give what was read as a token. -/
def emit (kind : TokenKind) (l : ByteLexer) : Option (Token × ByteLexer) := do
  let text ← Text.between? l.input l.start l.pos
  some (⟨kind, l.start, text⟩, l.restart)

/-- Give no more tokens. -/
def finish (l : ByteLexer) : ByteLexer := { l with finished := true }

/-- Give an error, and no more tokens. -/
def fail (fault : LexFault) (l : ByteLexer) : Option (Token × ByteLexer) :=
  some (Token.ofFault l.start fault, l.finish)

/-! ## §4 The scanners -/

/-- A mark that was read, if the open brackets allow it. -/
def scanMark (m : Machine) (kind : TokenKind) (l : ByteLexer) : Option (Token × ByteLexer) :=
  match kind with
  | .leftAngle => do
    let mapDepth ← m.add l.mapDepth 1
    { l with mapDepth }.emit kind
  | .rightAngle => { l with mapDepth := l.mapDepth - 1 }.emit kind
  | .leftBrace => do
    let braceDepth ← m.add l.braceDepth 1
    { l with braceDepth }.emit kind
  | .rightBrace =>
    if l.braceDepth = 0 then l.fail .unopenedBrace
    else do
      let braceDepth ← oneLess l.braceDepth
      { l with braceDepth }.emit kind
  | .comma => if l.mapDepth = 0 then l.fail .commaOutsideMap else l.emit kind
  | kind => l.emit kind

/-- A comment, whose first slash was read. -/
def scanComment (m : Machine) (l : ByteLexer) : Option (Token × ByteLexer) := do
  let (c, l) ← l.advance m
  if c = some '/' then
    let l ← l.skipWhile m (!isLineEnd ·)
    l.emit .comment
  else l.fail .loneSlash

/-- A string, whose opening quote was read. -/
def scanString (m : Machine) (l : ByteLexer) : Option (Token × ByteLexer) :=
  match h : l.advance m with
  | none => none
  | some (none, l') => l'.fail .unterminatedString
  | some (some c, l') =>
    if c = '\n' then l'.fail .unterminatedString
    else if c = '"' then l'.emit .stringLit
    else
      have := left_lt_of_advance h
      scanString m l'
termination_by l.left

/-- An integer, all digits of which were read.  It must not run into a name. -/
def endInteger (m : Machine) (l : ByteLexer) : Option (Token × ByteLexer) := do
  match ← l.peek with
  | none => l.emit .integerLit
  | some c =>
    if isIdentContinue c then
      let pos ← m.add l.pos c.utf8Size
      fail (.integerTail c) { l with pos }
    else l.emit .integerLit

/-- An integer, whose first digit was read. -/
def scanDigits (m : Machine) (leadingZero : Bool) (l : ByteLexer) :
    Option (Token × ByteLexer) := do
  let x ← l.peek
  let d ← l.peekSecond
  if leadingZero && x.any (fun x => x = 'x' || x = 'X') && d.any Text.isHexDigit then
    let (_, l) ← l.advance m
    let l ← l.skipWhile m Text.isHexDigit
    l.endInteger m
  else
    let l ← l.skipWhile m Char.isDigit
    l.endInteger m

/-- An integer, whose first digit or minus was read.  Which of them it was is looked up in the
source. -/
def scanInteger (m : Machine) (l : ByteLexer) : Option (Token × ByteLexer) := do
  let first ← Text.byte? l.input l.start
  if first = '-'.toUInt8 then
    let digit ← l.peek
    let (_, l) ← l.advance m
    l.scanDigits m (digit = some '0')
  else l.scanDigits m (first = '0'.toUInt8)

/-- Read on in a name, and tell whether it has a dot. -/
def skipWord (m : Machine) (qualified : Bool) (l : ByteLexer) : Option (Bool × ByteLexer) :=
  match hskip : l.skipWhile m isIdentContinue with
  | none => none
  | some l₁ =>
    match l₁.peek, l₁.peekSecond with
    | some c, some d =>
      if c = some '.' && d.any isIdentStart then
        match h : l₁.advance m with
        | some (some _, l₂) =>
          have := Nat.lt_of_lt_of_le (left_lt_of_advance h) (left_le_of_skipWhile hskip)
          skipWord m true l₂
        | stopped => stopped.map fun p => (qualified, p.2)
      else some (qualified, l₁)
    | _, _ => none
termination_by l.left

/-- A name, whose first character was read. -/
def scanWord (m : Machine) (l : ByteLexer) : Option (Token × ByteLexer) := do
  let (qualified, l) ← l.skipWord m false
  let word ← Text.between? l.input l.start l.pos
  if qualified then l.emit .qualified
  else match Keyword.ofText? word with
    | some k => l.emit (.keyword k)
    | none => if word = "true" ∨ word = "false" then l.emit .booleanLit else l.emit .identifier

/-- A token, whose first character `c` was read. -/
def scanBehind (m : Machine) (c : Char) (l : ByteLexer) : Option (Token × ByteLexer) :=
  match Lexeme.punctuation? c with
  | some kind => l.scanMark m kind
  | none =>
    if c = '"' then l.scanString m
    else if c = '/' then l.scanComment m
    else do
      let d ← l.peek
      if (c = '-' && d.any Char.isDigit) || c.isDigit then l.scanInteger m
      else if isIdentStart c then l.scanWord m
      else l.fail (.unrecognized c)

/-! ## §5 Pulls -/

/-- A token behind the blanks. -/
def scan (m : Machine) (l : ByteLexer) : Option (Token × ByteLexer) := do
  let l ← l.skipBlanks m
  match ← l.advance m with
  | (none, l) => l.finish.emit .endOfInput
  | (some c, l) => l.scanBehind m c

/-- Pull a token.  Behind the end of input or an error there is none. -/
def next (m : Machine) (l : ByteLexer) : Option (Option Token × ByteLexer) :=
  if l.finished then some (none, l)
  else do
    let (t, l) ← l.scan m
    some (some t, l)

/-- Pull `n` times. -/
def run (m : Machine) : Nat → ByteLexer → Option (List Token × ByteLexer)
  | 0, l => some ([], l)
  | n + 1, l => do
    let (t, l) ← l.next m
    let (ts, l) ← run m n l
    some (t.toList ++ ts, l)

/-! ## §6 Places -/

/-- The number of open brackets, as the lexer of the library keeps it. -/
def brackets (l : ByteLexer) : Brackets := ⟨l.braceDepth, l.mapDepth⟩

/-- The lexer behind `w`, which its token goes on with. -/
def past (w : List Char) (l : ByteLexer) : ByteLexer :=
  { l with pos := l.pos + Text.utf8Length w }

theorem past_past (v w : List Char) (l : ByteLexer) : (l.past v).past w = l.past (v ++ w) := by
  simp only [past, Text.utf8Length_append, Nat.add_assoc]

/-- The source is cut at the two places where the lexer stands: `word` is read of a token, and
`rest` is ahead. -/
structure At (l : ByteLexer) (front word rest : List Char) : Prop where
  input : l.input.toList = front ++ word ++ rest
  start : l.start = Text.utf8Length front
  pos : l.pos = Text.utf8Length front + Text.utf8Length word

section

variable {m : Machine} {l : ByteLexer} {front word rest w : List Char}

theorem At.past (h : l.At front word (w ++ rest)) : (l.past w).At front (word ++ w) rest where
  input := by
    show l.input.toList = _
    rw [h.input]
    simp only [List.append_assoc]
  start := h.start
  pos := by
    show l.pos + _ = _
    rw [h.pos, Text.utf8Length_append, Nat.add_assoc]

theorem At.finish (h : l.At front word rest) : l.finish.At front word rest :=
  ⟨h.input, h.start, h.pos⟩

theorem At.restart (h : l.At front word rest) : l.restart.At (front ++ word) [] rest where
  input := by
    show l.input.toList = _
    rw [h.input, List.append_nil]
  start := by
    show l.pos = _
    rw [h.pos, Text.utf8Length_append]
  pos := by
    show l.pos = _
    rw [h.pos, Text.utf8Length_append, Text.utf8Length_nil, Nat.add_zero]

/-- The counts of brackets are not about the source. -/
theorem At.count (h : l.At front word rest) (b : Brackets) :
    ({ l with braceDepth := b.braces, mapDepth := b.angles } : ByteLexer).At front word rest :=
  ⟨h.input, h.start, h.pos⟩

theorem At.pos_eq (h : l.At front word rest) : l.pos = Text.utf8Length (front ++ word) := by
  rw [h.pos, Text.utf8Length_append]

/-- Where nothing of a token is read yet, both places are one. -/
theorem At.start_eq (h : l.At front [] rest) : l.start = l.pos := by
  rw [h.start, h.pos, Text.utf8Length_nil, Nat.add_zero]

theorem At.size_eq (h : l.At front word rest) :
    l.input.utf8ByteSize = l.pos + Text.utf8Length rest := by
  rw [← Text.utf8Length_toList, h.input, Text.utf8Length_append, h.pos_eq]

theorem At.peek (h : l.At front word rest) : l.peek = some rest.head? := by
  rw [ByteLexer.peek, h.pos_eq, Text.from?_of_toList_eq h.input]
  simp

theorem At.peekSecond (h : l.At front word rest) : l.peekSecond = some rest.tail.head? := by
  rw [ByteLexer.peekSecond, h.pos_eq, Text.from?_of_toList_eq h.input]
  simp

theorem At.advance_nil (h : l.At front word []) : l.advance m = some (none, l) := by
  rw [advance, h.peek]
  rfl

theorem At.add {c : Char} (h : l.At front word (c :: rest)) (hfits : m.Fits l.input) :
    m.add l.pos c.utf8Size = some (l.past [c]).pos := by
  refine hfits.add ?_
  rw [h.size_eq, Text.utf8Length_cons]
  omega

theorem At.advance_cons {c : Char} (h : l.At front word (c :: rest)) (hfits : m.Fits l.input) :
    l.advance m = some (some c, l.past [c]) := by
  rw [advance, h.peek]
  simp only [List.head?_cons, h.add hfits, Option.bind_eq_bind, Option.bind_some]
  rfl

theorem At.skipWhile (h : l.At front word rest) (hfits : m.Fits l.input) (p : Char → Bool) :
    l.skipWhile m p = some (l.past (rest.takeWhile p)) := by
  induction rest generalizing l word with
  | nil =>
    rw [ByteLexer.skipWhile, h.peek]
    rfl
  | cons c rest ih =>
    rw [ByteLexer.skipWhile, h.peek]
    by_cases hp : p c = true
    · have hih := ih (At.past (w := [c]) h) hfits
      simp only [List.head?_cons, Option.any_some, hp, if_true]
      split
      · next hadvance =>
        rw [h.advance_cons hfits] at hadvance
        cases hadvance
        rw [hih, past_past, List.takeWhile_cons_of_pos hp]
        rfl
      · next hstop => exact absurd (h.advance_cons hfits) (hstop _ _)
    · simp only [List.head?_cons, Option.any_some, hp, List.takeWhile_cons]
      rfl

theorem At.emit (h : l.At front word rest) (kind : TokenKind) :
    l.emit kind = some (⟨kind, l.start, String.ofList word⟩, l.restart) := by
  rw [ByteLexer.emit, h.pos, h.start, Text.between?_of_toList_eq h.input]
  rfl

end

end ByteLexer

end ProtoSchema
