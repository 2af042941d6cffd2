/-! # UTF-8

Sizes of text in bytes, and reading bytes as text.  All offsets of the library count bytes, so a
list of characters is measured by `utf8Length`.  Bytes that are no UTF-8 text are refused at the
end of the longest start that is (`validPrefix`).
-/

namespace ProtoSchema.Text

/-! ## Sizes -/

/-- The number of bytes of the UTF-8 form of `cs`. -/
def utf8Length : List Char → Nat
  | [] => 0
  | c :: cs => c.utf8Size + utf8Length cs

@[simp] theorem utf8Length_nil : utf8Length [] = 0 := rfl

@[simp] theorem utf8Length_cons (c : Char) (cs : List Char) :
    utf8Length (c :: cs) = c.utf8Size + utf8Length cs := rfl

@[simp] theorem utf8Length_append (as bs : List Char) :
    utf8Length (as ++ bs) = utf8Length as + utf8Length bs := by
  induction as with
  | nil => simp
  | cons a as ih => simp [ih, Nat.add_assoc]

/-- Every character takes some bytes. -/
theorem eq_nil_of_utf8Length_eq_zero {cs : List Char} (h : utf8Length cs = 0) : cs = [] := by
  cases cs with
  | nil => rfl
  | cons c cs =>
    rw [utf8Length_cons] at h
    have := c.utf8Size_pos
    omega

theorem utf8ByteSize_ofList (cs : List Char) :
    (String.ofList cs).utf8ByteSize = utf8Length cs := by
  induction cs with
  | nil => rfl
  | cons c cs ih =>
    have h : String.ofList (c :: cs) = String.singleton c ++ String.ofList cs := by
      rw [String.singleton_eq_ofList, ← String.ofList_append]; rfl
    rw [h, String.utf8ByteSize_append, String.utf8ByteSize_singleton, ih]
    rfl

theorem utf8Length_toList (s : String) : utf8Length s.toList = s.utf8ByteSize := by
  rw [← utf8ByteSize_ofList, String.ofList_toList]

/-! ## Reading bytes -/

/-- From byte `i` on, the end of the run of whole characters. -/
def validFrom (bytes : ByteArray) (i : Nat) : Nat :=
  match h : bytes.utf8DecodeChar? i with
  | none => i
  | some c =>
    have := ByteArray.le_size_of_utf8DecodeChar?_eq_some h
    have := c.utf8Size_pos
    validFrom bytes (i + c.utf8Size)
termination_by bytes.size - i

/-- The length of the longest start of `bytes` that is UTF-8 text. -/
def validPrefix (bytes : ByteArray) : Nat := validFrom bytes 0

/-- The text that `bytes` spell, or how far they spell one. -/
def decode (bytes : ByteArray) : Except Nat String :=
  if h : bytes.IsValidUTF8 then .ok (String.fromUTF8 bytes h) else .error (validPrefix bytes)

/-- The bytes of a text read back as that text. -/
theorem decode_toByteArray (s : String) : decode s.toByteArray = .ok s := by
  rw [decode, dif_pos s.isValidUTF8]
  rfl

end ProtoSchema.Text
