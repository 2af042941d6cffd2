import ProtoSchema.Proofs.Language

/-! # Bytes that are no text

Sources arrive as bytes.  `Text.WellFormed` is UTF-8 as the Unicode standard defines it: a table of
the byte sequences that spell one character, and texts as rows of such sequences.  Against it stand
the two things that `parseBytes` does: bytes that spell a text are read as that text, and all others
are refused at the end of their longest well-formed start, whatever that start holds.

* `Text.wellFormed_iff` — the table gives the encodings of character lists, no more and no less;
* `Text.longestStart_validPrefix` — where decoding stops;
* `parseBytes_exact` — what `parseBytes` answers for every sequence of bytes.
-/

namespace ProtoSchema

namespace Text

/-! ## §1 Well-formed bytes -/

/-- The ranges of the bytes that spell one character, a row for each range of first bytes.  After
`E0` and `F0` the second byte starts where a shorter sequence would no longer do, after `ED` it ends
below the surrogates, and after `F4` at the last code point. -/
def sequences : List (List (Nat × Nat)) :=
  [[(0x00, 0x7F)],
    [(0xC2, 0xDF), (0x80, 0xBF)],
    [(0xE0, 0xE0), (0xA0, 0xBF), (0x80, 0xBF)],
    [(0xE1, 0xEC), (0x80, 0xBF), (0x80, 0xBF)],
    [(0xED, 0xED), (0x80, 0x9F), (0x80, 0xBF)],
    [(0xEE, 0xEF), (0x80, 0xBF), (0x80, 0xBF)],
    [(0xF0, 0xF0), (0x90, 0xBF), (0x80, 0xBF), (0x80, 0xBF)],
    [(0xF1, 0xF3), (0x80, 0xBF), (0x80, 0xBF), (0x80, 0xBF)],
    [(0xF4, 0xF4), (0x80, 0x8F), (0x80, 0xBF), (0x80, 0xBF)]]

/-- As many numbers as ranges, each in its range. -/
def Within : List (Nat × Nat) → List Nat → Prop
  | [], [] => True
  | (low, high) :: bounds, n :: ns => (low ≤ n ∧ n ≤ high) ∧ Within bounds ns
  | _, _ => False

def IsSequence (ns : List Nat) : Prop := ∃ bounds ∈ sequences, Within bounds ns

/-- Bytes that spell a text, one character after another. -/
inductive WellFormed : List UInt8 → Prop
  | nil : WellFormed []
  | append {char rest : List UInt8} : IsSequence (char.map UInt8.toNat) → WellFormed rest →
      WellFormed (char ++ rest)

/-! ## §2 The table and the encoding of characters -/

/-- The bytes of a code point, as numbers. -/
def codeUnits (v : Nat) : List Nat :=
  if v ≤ 0x7F then [v]
  else if v ≤ 0x7FF then [0xC0 + v / 64, 0x80 + v % 64]
  else if v ≤ 0xFFFF then [0xE0 + v / 4096, 0x80 + v / 64 % 64, 0x80 + v % 64]
  else [0xF0 + v / 262144, 0x80 + v / 4096 % 64, 0x80 + v / 64 % 64, 0x80 + v % 64]

theorem isSequence_codeUnits {v : Nat} (h : v.isValidChar) : IsSequence (codeUnits v) := by
  unfold Nat.isValidChar at h
  unfold IsSequence sequences codeUnits
  simp only [List.mem_cons, List.not_mem_nil, or_false, exists_eq_or_imp, exists_eq_left]
  split
  · simp only [Within, and_true, and_false, or_false]
    omega
  split
  · simp only [Within, and_true, and_false, or_false, false_or]
    omega
  split
  · simp only [Within, and_true, and_false, or_false, false_or]
    omega
  · simp only [Within, and_true, and_false, false_or]
    omega

theorem map_toNat_encodeChar (c : Char) :
    (String.utf8EncodeChar c).map UInt8.toNat = codeUnits c.toNat := by
  have hv : c.toNat.isValidChar := c.valid
  unfold Nat.isValidChar at hv
  unfold String.utf8EncodeChar codeUnits
  rw [show c.val.toNat = c.toNat from rfl]
  generalize c.toNat = v at hv
  dsimp only
  split
  · simp only [List.map_cons, List.map_nil, UInt8.toNat_ofNat', List.cons.injEq, and_true]
    omega
  split
  · simp only [List.map_cons, List.map_nil, UInt8.toNat_ofNat', List.cons.injEq, and_true]
    omega
  split
  · simp only [List.map_cons, List.map_nil, UInt8.toNat_ofNat', List.cons.injEq, and_true]
    omega
  · simp only [List.map_cons, List.map_nil, UInt8.toNat_ofNat', List.cons.injEq, and_true]
    omega

/-- No sequence of the table is overlong, spells half of a pair or lies beyond the last code
point. -/
theorem exists_codeUnits {ns : List Nat} (h : IsSequence ns) :
    ∃ v, v.isValidChar ∧ codeUnits v = ns := by
  unfold IsSequence sequences at h
  simp only [List.mem_cons, List.not_mem_nil, or_false, exists_eq_or_imp, exists_eq_left] at h
  match ns with
  | [] => simp [Within] at h
  | [a] =>
    simp only [Within, and_true, and_false, or_false] at h
    refine ⟨a, ?_, ?_⟩
    · unfold Nat.isValidChar; omega
    · unfold codeUnits; rw [if_pos (by omega)]
  | [a, b] =>
    simp only [Within, and_true, and_false, or_false, false_or] at h
    refine ⟨(a - 0xC0) * 64 + (b - 0x80), ?_, ?_⟩
    · unfold Nat.isValidChar; omega
    · unfold codeUnits
      rw [if_neg (by omega), if_pos (by omega)]
      simp only [List.cons.injEq, and_true]
      omega
  | [a, b, c] =>
    simp only [Within, and_true, and_false, or_false, false_or] at h
    refine ⟨(a - 0xE0) * 4096 + (b - 0x80) * 64 + (c - 0x80), ?_, ?_⟩
    · unfold Nat.isValidChar; omega
    · unfold codeUnits
      rw [if_neg (by omega), if_neg (by omega), if_pos (by omega)]
      simp only [List.cons.injEq, and_true]
      omega
  | [a, b, c, d] =>
    simp only [Within, and_true, and_false, false_or] at h
    refine ⟨(a - 0xF0) * 262144 + (b - 0x80) * 4096 + (c - 0x80) * 64 + (d - 0x80), ?_, ?_⟩
    · unfold Nat.isValidChar; omega
    · unfold codeUnits
      rw [if_neg (by omega), if_neg (by omega), if_neg (by omega)]
      simp only [List.cons.injEq, and_true]
      omega
  | _ :: _ :: _ :: _ :: _ :: _ => simp [Within] at h

/-- The rows of the table are the encodings of characters. -/
theorem isSequence_iff {char : List UInt8} :
    IsSequence (char.map UInt8.toNat) ↔ ∃ c, char = String.utf8EncodeChar c := by
  constructor
  · intro h
    obtain ⟨v, hv, hunits⟩ := exists_codeUnits h
    refine ⟨Char.ofNat v, ?_⟩
    have hnat : (Char.ofNat v).toNat = v := by
      rw [Char.ofNat, dif_pos hv]
      rfl
    apply (List.map_inj_right fun _ _ => UInt8.toNat_inj.1).1
    rw [map_toNat_encodeChar, hnat, hunits]
  · rintro ⟨c, rfl⟩
    rw [map_toNat_encodeChar]
    exact isSequence_codeUnits c.valid

theorem wellFormed_flatMap (cs : List Char) : WellFormed (cs.flatMap String.utf8EncodeChar) := by
  induction cs with
  | nil => exact .nil
  | cons c cs ih => exact .append (isSequence_iff.2 ⟨c, rfl⟩) ih

theorem exists_flatMap {bytes : List UInt8} (h : WellFormed bytes) :
    ∃ cs : List Char, bytes = cs.flatMap String.utf8EncodeChar := by
  induction h with
  | nil => exact ⟨[], rfl⟩
  | append hchar _ ih =>
    obtain ⟨c, rfl⟩ := isSequence_iff.1 hchar
    obtain ⟨cs, rfl⟩ := ih
    exact ⟨c :: cs, rfl⟩

theorem wellFormed_iff {bytes : ByteArray} : WellFormed bytes.data.toList ↔ bytes.IsValidUTF8 := by
  constructor
  · intro h
    obtain ⟨cs, hcs⟩ := exists_flatMap h
    refine ⟨cs, ByteArray.ext ?_⟩
    rw [List.utf8Encode, ← hcs, List.data_toByteArray]
  · rintro ⟨cs, rfl⟩
    rw [List.utf8Encode, List.data_toByteArray]
    exact wellFormed_flatMap cs

/-- The well-formed bytes are those of strings. -/
theorem wellFormed_iff_exists {bytes : ByteArray} :
    WellFormed bytes.data.toList ↔ ∃ s : String, bytes = s.toByteArray := by
  rw [wellFormed_iff]
  constructor
  · intro h
    exact ⟨String.fromUTF8 bytes h, rfl⟩
  · rintro ⟨s, rfl⟩
    exact s.isValidUTF8

/-! ## §3 The longest start -/

/-- The first `n` bytes are well-formed, and no more of them are. -/
structure LongestStart (bytes : ByteArray) (n : Nat) : Prop where
  le_size : n ≤ bytes.size
  wellFormed : WellFormed (bytes.data.toList.take n)
  longest : ∀ m ≤ bytes.size, WellFormed (bytes.data.toList.take m) → m ≤ n

theorem wellFormed_take {bytes : ByteArray} {n : Nat} :
    WellFormed (bytes.data.toList.take n) ↔ (bytes.extract 0 n).IsValidUTF8 := by
  rw [← wellFormed_iff, ByteArray.data_extract, Array.toList_extract, List.extract_eq_take_drop]
  rfl

variable {bytes : ByteArray} {i m : Nat} {c : Char}

theorem extract_char (hc : bytes.utf8DecodeChar? i = some c) :
    bytes.extract i (i + c.utf8Size) = [c].utf8Encode := by
  have hsome : (bytes.utf8DecodeChar? i).isSome := by rw [hc]; rfl
  have hchar : bytes.utf8DecodeChar i hsome = c := by
    simp only [ByteArray.utf8DecodeChar, hc, Option.get_some]
  have h := ByteArray.utf8EncodeChar_utf8DecodeChar (h := hsome)
  rw [hchar] at h
  rw [List.utf8Encode_singleton, h]

/-- A text that starts at `i` starts with the character that stands there. -/
theorem exists_char_of_isValidUTF8 (hm : m ≤ bytes.size) (him : i < m)
    (h : (bytes.extract i m).IsValidUTF8) :
    ∃ c, bytes.utf8DecodeChar? i = some c ∧ i + c.utf8Size ≤ m ∧
      (bytes.extract (i + c.utf8Size) m).IsValidUTF8 := by
  have ⟨cs, hcs⟩ := h
  cases cs with
  | nil =>
    rw [List.utf8Encode_nil, ByteArray.extract_eq_empty_iff] at hcs
    omega
  | cons c cs =>
    have hhead : (bytes.extract i m).utf8DecodeChar? 0 = some c := by
      rw [hcs, List.utf8DecodeChar?_utf8Encode_cons]
    have hc : bytes.utf8DecodeChar? i = some c := by
      rw [ByteArray.utf8DecodeChar?_eq_utf8DecodeChar?_extract,
        ByteArray.extract_eq_extract_append_extract m (Nat.le_of_lt him) hm]
      exact ByteArray.utf8DecodeChar?_append_eq_some hhead _
    have hsize : i + c.utf8Size ≤ m := by
      have := ByteArray.le_size_of_utf8DecodeChar?_eq_some hhead
      rw [ByteArray.size_extract] at this
      omega
    refine ⟨c, hc, hsize, ?_⟩
    rwa [ByteArray.extract_eq_extract_append_extract (i + c.utf8Size) (Nat.le_add_right _ _) hsize,
      extract_char hc, ByteArray.isValidUTF8_utf8Encode_singleton_append_iff] at h

theorem le_validFrom (bytes : ByteArray) (i : Nat) : i ≤ validFrom bytes i := by
  fun_induction validFrom bytes i with
  | case1 => exact Nat.le_refl _
  | case2 i c _ _ _ ih => omega

theorem validFrom_le_size (h : i ≤ bytes.size) : validFrom bytes i ≤ bytes.size := by
  fun_induction validFrom bytes i with
  | case1 => exact h
  | case2 i c _ hsize _ ih => exact ih hsize

theorem isValidUTF8_extract_validFrom (bytes : ByteArray) (i : Nat) :
    (bytes.extract i (validFrom bytes i)).IsValidUTF8 := by
  fun_induction validFrom bytes i with
  | case1 i hnone =>
    rw [ByteArray.extract_same]
    exact ByteArray.isValidUTF8_empty
  | case2 i c hc _ _ ih =>
    rw [ByteArray.extract_eq_extract_append_extract (i + c.utf8Size) (Nat.le_add_right _ _)
      (le_validFrom _ _), extract_char hc]
    exact ByteArray.isValidUTF8_utf8Encode.append ih

/-- No valid range that starts at `i` goes further than the walk from character to character. -/
theorem le_validFrom_of_isValidUTF8 (hm : m ≤ bytes.size)
    (h : (bytes.extract i m).IsValidUTF8) (him : i ≤ m) : m ≤ validFrom bytes i := by
  fun_induction validFrom bytes i with
  | case1 i hnone =>
    rcases Nat.eq_or_lt_of_le him with rfl | hlt
    · exact Nat.le_refl _
    · obtain ⟨c, hc, -⟩ := exists_char_of_isValidUTF8 hm hlt h
      rw [hnone] at hc
      cases hc
  | case2 i c hc _ _ ih =>
    rcases Nat.eq_or_lt_of_le him with rfl | hlt
    · have := le_validFrom bytes (i + c.utf8Size)
      omega
    · obtain ⟨d, hd, hsize, hrest⟩ := exists_char_of_isValidUTF8 hm hlt h
      obtain rfl : c = d := Option.some.inj (hc.symm.trans hd)
      exact ih hrest hsize

theorem longestStart_validPrefix (bytes : ByteArray) : LongestStart bytes (validPrefix bytes) where
  le_size := validFrom_le_size (Nat.zero_le _)
  wellFormed := wellFormed_take.2 (isValidUTF8_extract_validFrom bytes 0)
  longest _ hm h := le_validFrom_of_isValidUTF8 hm (wellFormed_take.1 h) (Nat.zero_le _)

/-- Of bytes that are no text, not all are in the longest start. -/
theorem LongestStart.lt_size {n : Nat} (h : LongestStart bytes n)
    (hbytes : ¬ WellFormed bytes.data.toList) : n < bytes.size := by
  rcases Nat.eq_or_lt_of_le h.le_size with rfl | hlt
  · have hall := h.wellFormed
    rw [← ByteArray.size_data, ← Array.length_toList, List.take_length] at hall
    exact absurd hall hbytes
  · exact hlt

theorem decode_of_not_wellFormed (h : ¬ WellFormed bytes.data.toList) :
    decode bytes = .error (validPrefix bytes) := by
  rw [decode, dif_neg (mt wellFormed_iff.2 h)]

end Text

/-! ## §4 What reading bytes gives -/

/-- A file name does not take part in reading. -/
theorem value_parseBytes_some (bytes : ByteArray) (name : String) :
    (parseBytes bytes (some name)).value =
      (parseBytes bytes none).value.mapError (·.inFile name) := by
  unfold parseBytes
  cases Text.decode bytes with
  | error valid => rfl
  | ok source =>
    change (parseText source).value.mapError _ = ((parseText source).value.mapError _).mapError _
    cases (parseText source).value <;> rfl

theorem files_of_parseBytes_none {bytes : ByteArray} {e : ParseError}
    (h : (parseBytes bytes none).value = .error e) : e.files = [] := by
  unfold parseBytes at h
  cases hbytes : Text.decode bytes with
  | error valid =>
    rw [hbytes] at h
    cases h
    rfl
  | ok source =>
    rw [hbytes] at h
    change (parseText source).value.mapError _ = _ at h
    cases hvalue : (parseText source).value with
    | error fault =>
      rw [hvalue] at h
      cases h
      rfl
    | ok file =>
      rw [hvalue] at h
      cases h

/-- Reading bytes is reading the text that they spell; bytes that spell none are refused at the end
of their longest well-formed start, even if the text of that start would be refused for something
else.  A file name only stands in the error, once and in front of it. -/
theorem parseBytes_exact (bytes : ByteArray) :
    (Text.WellFormed bytes.data.toList ↔ ∃ s : String, bytes = s.toByteArray) ∧
    (∀ s : String, bytes = s.toByteArray →
      parseBytes bytes none = do return (← parseText s).mapError fun fault => { fault }) ∧
    ((¬ ∃ s : String, bytes = s.toByteArray) → ∃ n < bytes.size, Text.LongestStart bytes n ∧
      (parseBytes bytes none).value = .error { fault := .invalidUtf8 n }) ∧
    ∀ name : String,
      (∀ file, (parseBytes bytes none).value = .ok file →
        (parseBytes bytes (some name)).value = .ok file) ∧
      ∀ e, (parseBytes bytes none).value = .error e →
        e.files = [] ∧ (parseBytes bytes (some name)).value = .error (e.inFile name) ∧
          (e.inFile name).offset = e.offset ∧ (e.inFile name).root = e.root := by
  refine ⟨Text.wellFormed_iff_exists, ?_, ?_, fun name => ⟨?_, ?_⟩⟩
  · rintro s rfl
    rw [parseBytes, Text.decode_toByteArray]
    rfl
  · intro hnone
    have hbytes : ¬ Text.WellFormed bytes.data.toList := mt Text.wellFormed_iff_exists.1 hnone
    have hlongest := Text.longestStart_validPrefix bytes
    refine ⟨Text.validPrefix bytes, hlongest.lt_size hbytes, hlongest, ?_⟩
    rw [parseBytes, Text.decode_of_not_wellFormed hbytes]
    rfl
  · intro file hfile
    rw [value_parseBytes_some, hfile]
    rfl
  · intro e he
    refine ⟨files_of_parseBytes_none he, ?_, rfl, rfl⟩
    rw [value_parseBytes_some, he]
    rfl

/-- A closing brace too many, and then half of a surrogate pair. -/
def strayBraceThenSurrogate : ByteArray := ⟨#[0x7D, 0xED, 0xA0, 0x80]⟩

/-- The start that spells a text is one byte long and could not be read either; what is reported
is the encoding. -/
theorem parseBytes_strayBraceThenSurrogate :
    (¬ ∃ s : String, strayBraceThenSurrogate = s.toByteArray) ∧
    (∃ n < strayBraceThenSurrogate.size, Text.LongestStart strayBraceThenSurrogate n ∧
      (parseBytes strayBraceThenSurrogate none).value = .error { fault := .invalidUtf8 n }) ∧
    (parseBytes strayBraceThenSurrogate (some "a.proto")).value =
      .error { fault := .invalidUtf8 1, files := ["a.proto"] } ∧
    (parseText "\x7d").value = .error (.lexical 0 "unexpected right brace U+007D '\x7d'") := by
  have hnone : ¬ ∃ s : String, strayBraceThenSurrogate = s.toByteArray := by
    rw [← Text.wellFormed_iff_exists, Text.wellFormed_iff]
    decide +kernel
  have hvalue : (parseBytes strayBraceThenSurrogate none).value =
      .error { fault := .invalidUtf8 1 } := by decide +kernel
  obtain ⟨-, -, hrefused, hnamed⟩ := parseBytes_exact strayBraceThenSurrogate
  exact ⟨hnone, hrefused hnone, ((hnamed "a.proto").2 _ hvalue).2.1, by decide +kernel⟩

end ProtoSchema
