import ProtoSchema.Proofs.SingleLines
import ProtoSchema.Text.JsonText

/-!
# Quoted text is read back

A text between double quotes is read character by character (`Quoting.read?`).  Most characters
stand for themselves, and a backslash starts an escape; ways of quoting differ in which characters
are plain and in what an escape may be.  Where each character is written in a way that is read as it
(`Quoting.Writes`), the text is read back, and where the closing quote stands is found
(`Quoting.read?_flatMap`).

* §1 reading quoted text, §2 code points in digits, §3 quotes in messages, §4 JSON strings.
-/

namespace ProtoSchema

/-! ## §1 Reading -/

structure Quoting where
  /-- The characters that may stand for themselves.  A quote or a backslash never does. -/
  plain : Char → Bool
  /-- The character that is spelled behind a backslash, and the length of its spelling. -/
  escape? : List Char → Option (Char × Nat)

namespace Quoting

/-- Read a text up to its closing quote: the text, and the length of what was read. -/
def read? (q : Quoting) : List Char → Option (List Char × Nat)
  | [] => none
  | '"' :: _ => some ([], 1)
  | '\\' :: cs =>
    match q.escape? cs with
    | some (c, n) => (q.read? (cs.drop n)).map fun (text, m) => (c :: text, n + 1 + m)
    | none => none
  | c :: cs =>
    if q.plain c then (q.read? cs).map fun (text, m) => (c :: text, 1 + m) else none
termination_by cs => cs.length

/-- `w` is read as the character `c`. -/
inductive Writes (q : Quoting) (c : Char) : List Char → Prop
  | plain (hquote : c ≠ '"') (hbackslash : c ≠ '\\') (h : q.plain c = true) : Writes q c [c]
  | escape {w : List Char} (h : ∀ rest, q.escape? (w ++ rest) = some (c, w.length)) :
      Writes q c ('\\' :: w)

variable {q : Quoting}

theorem Writes.read?_append {c : Char} {w : List Char} (h : q.Writes c w) (cs : List Char) :
    q.read? (w ++ cs) = (q.read? cs).map fun (text, n) => (c :: text, w.length + n) := by
  cases h with
  | plain hquote hbackslash h =>
    rw [List.singleton_append, read?]
    · rw [if_pos h]
      rfl
    · exact fun heq => hquote heq
    · exact fun heq => hbackslash heq
  | @escape w h =>
    rw [List.cons_append, read?, h]
    dsimp only
    rw [List.drop_left]
    rfl

/-- What is written character by character is read back, up to the closing quote. -/
theorem read?_flatMap {write : Char → List Char} (h : ∀ c, q.Writes c (write c))
    (cs rest : List Char) :
    q.read? (cs.flatMap write ++ ['"'] ++ rest) =
      some (cs, (cs.flatMap write ++ ['"']).length) := by
  induction cs with
  | nil =>
    rw [List.flatMap_nil, List.nil_append, List.singleton_append, read?]
    rfl
  | cons c cs ih =>
    have hlength : (write c ++ (cs.flatMap write ++ ['"'])).length =
        (write c).length + (cs.flatMap write ++ ['"']).length := List.length_append
    simp only [List.flatMap_cons, List.append_assoc] at ih ⊢
    rw [(h c).read?_append, ih, hlength]
    rfl

end Quoting

/-! ## §2 Code points -/

/-- The character with code point `n`, if there is one. -/
def ofCodePoint? (n : Nat) : Option Char := if n.isValidChar then some (Char.ofNat n) else none

theorem ofCodePoint?_toNat (c : Char) : ofCodePoint? c.toNat = some c := by
  rw [ofCodePoint?, if_pos (show c.toNat.isValidChar from c.valid), Char.ofNat_toNat]

/-- The value of a digit of base sixteen. -/
def hexDigitValue (c : Char) : Nat :=
  if c.isDigit then c.toNat - '0'.toNat else 10 + (c.toLower.toNat - 'a'.toNat)

/-- The number that digits of base sixteen spell. -/
def hexValue (ds : List Char) : Nat := ds.foldl (fun n d => 16 * n + hexDigitValue d) 0

theorem hexValue_concat (ds : List Char) (d : Char) :
    hexValue (ds ++ [d]) = 16 * hexValue ds + hexDigitValue d := by
  simp [hexValue]

theorem hexValue_toDigits (n : Nat) : hexValue (Nat.toDigits 16 n) = n := by
  have hdigit : ∀ k < 16, hexDigitValue (Nat.digitChar k) = k := by decide
  induction n using Nat.strongRecOn with
  | ind n ih =>
    rw [Nat.toDigits_eq_if (by decide)]
    split
    · next hn => simpa [hexValue] using hdigit n hn
    · next hn =>
      rw [hexValue_concat, ih (n / 16) (Nat.div_lt_self (by omega) (by decide)),
        hdigit _ (Nat.mod_lt _ (by decide))]
      exact Nat.div_add_mod n 16

theorem isHexDigit_hexDigits (c : Char) : ∀ d ∈ Text.hexDigits c, Text.isHexDigit d = true := by
  intro d hd
  obtain ⟨k, hk, rfl⟩ := exists_digit_of_mem_toDigits (by decide) hd
  have hdigits : ∀ k < 16, Text.isHexDigit (Nat.digitChar k) = true := by decide
  exact hdigits k hk

/-! ## §3 Quotes in messages -/

/-- A code point in digits behind its opening brace, up to the closing brace. -/
def bracedCodePoint? (cs : List Char) : Option (Char × Nat) :=
  let ds := cs.takeWhile Text.isHexDigit
  if ds ≠ [] ∧ (cs.drop ds.length).head? = some '}' then
    (ofCodePoint? (hexValue ds)).map (·, ds.length + 1)
  else none

/-- How texts are quoted in messages. -/
def messageQuoting : Quoting where
  plain c := !Text.isUnprintable c
  escape?
    | '0' :: _ => some ('\x00', 1)
    | 't' :: _ => some ('\t', 1)
    | 'n' :: _ => some ('\n', 1)
    | 'r' :: _ => some ('\r', 1)
    | '"' :: _ => some ('"', 1)
    | '\\' :: _ => some ('\\', 1)
    | 'u' :: '{' :: cs => (bracedCodePoint? cs).map fun (c, n) => (c, n + 2)
    | _ => none

theorem bracedCodePoint?_hexDigits (c : Char) (rest : List Char) :
    bracedCodePoint? (Text.hexDigits c ++ '}' :: rest) =
      some (c, (Text.hexDigits c).length + 1) := by
  have hdigits : (Text.hexDigits c ++ '}' :: rest).takeWhile Text.isHexDigit =
      Text.hexDigits c :=
    (takeWhile_append_of_ends _ (isHexDigit_hexDigits c) (by rintro _ ⟨⟩; decide)).1
  rw [bracedCodePoint?, hdigits, List.drop_left,
    if_pos ⟨Nat.toDigits_ne_nil, List.head?_cons⟩, Text.hexDigits, hexValue_toDigits,
    ofCodePoint?_toNat]
  rfl

theorem messageQuoting_writes (c : Char) : messageQuoting.Writes c (Text.quoteChar c) := by
  unfold Text.quoteChar
  -- six characters have escapes of their own
  iterate 6
    split
    · next h =>
      subst h
      exact .escape fun _ => rfl
  split
  · refine .escape fun rest => ?_
    have hbraced := bracedCodePoint?_hexDigits c rest
    simp only [messageQuoting, List.cons_append, List.append_assoc, List.nil_append, hbraced]
    simp
  · next hquote hbackslash h => exact .plain hquote hbackslash (by simp [messageQuoting, h])

/-! ## §4 JSON strings -/

/-- The number that four digits of base sixteen spell at the front of a text. -/
def fourDigits? (cs : List Char) : Option Nat :=
  let ds := cs.take 4
  if ds.length = 4 ∧ ds.all Text.isHexDigit then some (hexValue ds) else none

/-- A code unit in four digits.  A code point beyond 65535 takes two of them, one of each kind of
surrogate, and a surrogate by itself is no character. -/
def codeUnits? (cs : List Char) : Option (Char × Nat) :=
  (fourDigits? cs).bind fun high =>
    if 0xD800 ≤ high ∧ high < 0xDC00 then
      match cs.drop 4 with
      | '\\' :: 'u' :: cs =>
        (fourDigits? cs).bind fun low =>
          if 0xDC00 ≤ low ∧ low < 0xE000 then
            (ofCodePoint? (0x10000 + 0x400 * (high - 0xD800) + (low - 0xDC00))).map (·, 10)
          else none
      | _ => none
    else (ofCodePoint? high).map (·, 4)

/-- How strings are quoted in JSON. -/
def jsonQuoting : Quoting where
  plain c := 32 ≤ c.toNat
  escape?
    | '"' :: _ => some ('"', 1)
    | '\\' :: _ => some ('\\', 1)
    | '/' :: _ => some ('/', 1)
    | 'b' :: _ => some ('\x08', 1)
    | 'f' :: _ => some ('\x0c', 1)
    | 'n' :: _ => some ('\n', 1)
    | 'r' :: _ => some ('\r', 1)
    | 't' :: _ => some ('\t', 1)
    | 'u' :: cs => (codeUnits? cs).map fun (c, n) => (c, n + 1)
    | _ => none

theorem fourDigits?_append {ds : List Char} (h : ds.length = 4) (rest : List Char) :
    fourDigits? (ds ++ rest) = fourDigits? ds := by
  rw [fourDigits?, fourDigits?, List.take_append_of_le_length (Nat.le_of_eq h.symm)]

/-- The characters that JSON wants escaped are written in one code unit. -/
theorem codeUnits?_control {c : Char} (h : c.toNat < 32) (rest : List Char) :
    ((Text.hexDigits c).leftpad 4 '0').length = 4 ∧
      codeUnits? ((Text.hexDigits c).leftpad 4 '0' ++ rest) = some (c, 4) := by
  have hpadded : ∀ n < 32, ((Nat.toDigits 16 n).leftpad 4 '0').length = 4 ∧
      fourDigits? ((Nat.toDigits 16 n).leftpad 4 '0') = some n := by
    decide +kernel
  obtain ⟨hlength, hvalue⟩ := hpadded c.toNat h
  refine ⟨hlength, ?_⟩
  rw [codeUnits?, Text.hexDigits, fourDigits?_append hlength, hvalue, Option.bind_some,
    if_neg (by omega), ofCodePoint?_toNat]
  rfl

theorem jsonQuoting_writes (c : Char) : jsonQuoting.Writes c (Text.jsonChar c) := by
  unfold Text.jsonChar
  iterate 7
    split
    · next h =>
      subst h
      exact .escape fun _ => rfl
  split
  · next h =>
    refine .escape fun rest => ?_
    obtain ⟨hlength, hunits⟩ := codeUnits?_control h rest
    rw [List.length_cons, hlength]
    exact congrArg (Option.map _) hunits
  · next hquote hbackslash _ _ _ _ _ h =>
    exact .plain hquote hbackslash (decide_eq_true (Nat.le_of_not_lt h))

end ProtoSchema
