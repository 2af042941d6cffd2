import ProtoSchema.Proofs.Quoting

/-!
# Reading JSON

A JSON text is cut into tokens (`jsonTokens?`), from which a value is built up by a machine that
remembers the arrays and objects it is in (`JsonState`).  Nothing is read that is not JSON: numbers
have no needless zeros, members have names, nothing stands behind the value.

What programs write that use no blanks is cut at their marks: strings and numbers are tokens
(`jsonTokens?_string`, `jsonTokens?_toString`), and so is each mark (`jsonTokens?_mark`).

* §1 values and numbers, §2 tokens, §3 the machine, §4 how tokens are cut off.
-/

namespace ProtoSchema

/-! ## §1 Values -/

inductive Json where
  | null
  | boolean (value : Bool)
  | number (negative : Bool) (size : Decimal)
  | string (text : String)
  | array (items : List Json)
  | object (members : List (String × Json))

namespace Json

/-- Cut a point and digits off a text, if it starts with a point. -/
def fraction? : List Char → Option (List Char × List Char)
  | '.' :: cs =>
    if cs.takeWhile Char.isDigit = [] then none
    else some (cs.takeWhile Char.isDigit, cs.dropWhile Char.isDigit)
  | cs => some ([], cs)

/-- A number without its sign: digits of which no zero leads, a fraction and an exponent. -/
def unsigned? (negative : Bool) (cs : List Char) : Option Json :=
  let whole := cs.takeWhile Char.isDigit
  if whole = [] ∨ whole.head? = some '0' ∧ whole ≠ ['0'] then none
  else (fraction? (cs.dropWhile Char.isDigit)).bind fun (fraction, rest) =>
    (Number.exponent? rest).map fun e =>
      number negative ⟨Number.ofDigits (whole ++ fraction), e - fraction.length⟩

/-- The number that makes up all of a text. -/
def number? (cs : List Char) : Option Json :=
  if cs.head? = some '-' then unsigned? true cs.tail else unsigned? false cs

/-- A value that is a word or a number. -/
def word? (cs : List Char) : Option Json :=
  (number? cs).or
    (if cs = "null".toList then some null
    else if cs = "true".toList then some (boolean true)
    else if cs = "false".toList then some (boolean false)
    else none)

end Json

/-! ## §2 Tokens -/

inductive JsonToken where
  | mark (c : Char)
  /-- A value that holds no others. -/
  | value (v : Json)

def jsonMarks : List Char := ['[', ']', '{', '}', ':', ',']

/-- The characters that words and numbers are made of. -/
def isJsonWord (c : Char) : Bool := c.isAlphanum || c = '+' || c = '-' || c = '.'

/-- The tokens of a text, if it is nothing but tokens and blanks. -/
def jsonTokens? : List Char → Option (List JsonToken)
  | [] => some []
  | c :: cs =>
    if isBlank c then jsonTokens? cs
    else if c ∈ jsonMarks then (jsonTokens? cs).map (.mark c :: ·)
    else if c = '"' then
      match jsonQuoting.read? cs with
      | some (text, n) =>
        (jsonTokens? (cs.drop n)).map (.value (.string (String.ofList text)) :: ·)
      | none => none
    else
      match Json.word? (c :: cs.takeWhile isJsonWord) with
      | some v => (jsonTokens? (cs.dropWhile isJsonWord)).map (.value v :: ·)
      | none => none
termination_by cs => cs.length
decreasing_by
  · exact Nat.lt_succ_self _
  · exact Nat.lt_succ_self _
  · rw [List.length_drop, List.length_cons]
    omega
  · exact Nat.lt_succ_of_le (List.dropWhile_suffix isJsonWord).length_le

/-! ## §3 The machine -/

/-- An array or an object that is not complete. -/
inductive JsonFrame where
  | array (items : List Json)
  /-- The next value is the one of this name. -/
  | object (members : List (String × Json)) (name : String)

/-- What has been read, and what may come next.  The innermost frame is the first. -/
inductive JsonState where
  | value (frames : List JsonFrame)
  /-- A value, or the end of an array without items. -/
  | item (frames : List JsonFrame)
  /-- A name, or the end of an object without members. -/
  | member (frames : List JsonFrame)
  | name (members : List (String × Json)) (frames : List JsonFrame)
  | colon (members : List (String × Json)) (name : String) (frames : List JsonFrame)
  /-- The value `v` has been read, and stands in the innermost frame. -/
  | read (v : Json) (frames : List JsonFrame)

namespace JsonState

def startValue (frames : List JsonFrame) : JsonToken → Option JsonState
  | .value v => some (read v frames)
  | .mark '[' => some (item frames)
  | .mark '{' => some (member frames)
  | .mark _ => none

def step : JsonState → JsonToken → Option JsonState
  | value frames, t => startValue frames t
  | item frames, .mark ']' => some (read (.array []) frames)
  | item frames, t => startValue (.array [] :: frames) t
  | member frames, .mark '}' => some (read (.object []) frames)
  | member frames, .value (.string s) => some (colon [] s frames)
  | name members frames, .value (.string s) => some (colon members s frames)
  | colon members s frames, .mark ':' => some (value (.object members s :: frames))
  | read v (.array items :: frames), .mark ',' => some (value (.array (items ++ [v]) :: frames))
  | read v (.array items :: frames), .mark ']' => some (read (.array (items ++ [v])) frames)
  | read v (.object members s :: frames), .mark ',' => some (name (members ++ [(s, v)]) frames)
  | read v (.object members s :: frames), .mark '}' =>
    some (read (.object (members ++ [(s, v)])) frames)
  | _, _ => none

end JsonState

/-- The value that tokens make up. -/
def Json.ofTokens? (ts : List JsonToken) : Option Json :=
  match ts.foldlM JsonState.step (.value []) with
  | some (.read v []) => some v
  | _ => none

/-- The value that a text is. -/
def Json.read? (s : String) : Option Json := (jsonTokens? s.toList).bind Json.ofTokens?

example : Json.read? "\x7b\"\\uD83D\\uDE00\" : [-1.50e2]\x7d" =
    some (.object [("😀", .array [.number true ⟨150, 0⟩])]) := by
  cbv

/-- No comma stands behind the last item. -/
example : Json.read? "[1,]" = none := by
  cbv

/-! ## §4 Cutting off tokens -/

theorem jsonTokens?_nil : jsonTokens? [] = some [] := by
  rw [jsonTokens?]

theorem of_mem_jsonMarks {c : Char} (h : c ∈ jsonMarks) :
    isBlank c = false ∧ isJsonWord c = false := by
  have hmarks : jsonMarks.all (fun c => !isBlank c && !isJsonWord c) = true := by decide
  simpa using List.all_eq_true.mp hmarks c h

theorem jsonTokens?_mark {c : Char} (h : c ∈ jsonMarks) (cs : List Char) :
    jsonTokens? (c :: cs) = (jsonTokens? cs).map (.mark c :: ·) := by
  rw [jsonTokens?, (of_mem_jsonMarks h).1, if_neg Bool.false_ne_true, if_pos h]

theorem jsonTokens?_string (s : String) (cs : List Char) :
    jsonTokens? ((Text.jsonString s).toList ++ cs) =
      (jsonTokens? cs).map (.value (.string s) :: ·) := by
  have hread := Quoting.read?_flatMap jsonQuoting_writes s.toList cs
  have hlist : (Text.jsonString s).toList ++ cs =
      '"' :: (s.toList.flatMap Text.jsonChar ++ ['"'] ++ cs) := by
    rw [Text.jsonString, String.toList_ofList]
    rfl
  rw [hlist, jsonTokens?, if_neg (by decide), if_neg (by decide), if_pos rfl, hread]
  dsimp only
  rw [List.drop_left, String.ofList_toList]

/-- What starts another token is no part of a word. -/
theorem notMem_of_isJsonWord {c : Char} (h : isJsonWord c = true) :
    c ∉ '"' :: (jsonMarks ++ [' ', '\t', '\n', '\r']) := by
  intro hmem
  have hnone : ('"' :: (jsonMarks ++ [' ', '\t', '\n', '\r'])).any isJsonWord = false := by decide
  exact absurd h (by simpa using List.any_eq_false.mp hnone c hmem)

/-- A word is cut off at a mark. -/
theorem jsonTokens?_word {w : List Char} {c : Char} {v : Json} (hne : w ≠ [])
    (hw : ∀ d ∈ w, isJsonWord d = true) (hv : Json.word? w = some v) (hc : c ∈ jsonMarks)
    (cs : List Char) :
    jsonTokens? (w ++ c :: cs) = (jsonTokens? (c :: cs)).map (.value v :: ·) := by
  obtain ⟨d, w, rfl⟩ := List.exists_cons_of_ne_nil hne
  obtain ⟨hd, hw⟩ := List.forall_mem_cons.mp hw
  have hends : ∀ e ∈ (c :: cs).head?, isJsonWord e = false := by
    rintro _ ⟨⟩
    exact (of_mem_jsonMarks hc).2
  obtain ⟨htake, hdrop⟩ := takeWhile_append_of_ends (c :: cs) hw hends
  have hstart := notMem_of_isJsonWord hd
  simp only [List.mem_cons, List.mem_append, List.not_mem_nil, or_false, not_or] at hstart
  obtain ⟨hquote, hmark, hblank⟩ := hstart
  rw [List.cons_append, jsonTokens?, if_neg (by simpa [isBlank, and_assoc] using hblank),
    if_neg hmark, if_neg hquote]
  simp only [htake, hv, hdrop]

/-- Decimal digits are written without needless zeros. -/
theorem head?_toDigits (n : Nat) : n ≠ 0 → (Nat.toDigits 10 n).head? ≠ some '0' := by
  have hdigit : ∀ k < 10, k ≠ 0 → Nat.digitChar k ≠ '0' := by decide
  induction n using Nat.strongRecOn with
  | ind n ih =>
    intro hn
    rw [Nat.toDigits_eq_if (by decide)]
    split
    · next hlt => simpa using hdigit n hlt hn
    · obtain ⟨d, ds, hd⟩ := List.exists_cons_of_ne_nil (Nat.toDigits_ne_nil (b := 10) (n := n / 10))
      have hhead := ih (n / 10) (by omega) (by omega)
      rw [hd] at hhead ⊢
      exact hhead

theorem Json.number?_toDigits (n : Nat) :
    Json.number? (Nat.toDigits 10 n) = some (.number false ⟨n, 0⟩) := by
  have hdigits : ∀ d ∈ Nat.toDigits 10 n, d.isDigit = true :=
    fun d hd => Nat.isDigit_of_mem_toDigits (by decide) (by decide) hd
  have hne : Nat.toDigits 10 n ≠ [] := Nat.toDigits_ne_nil
  have hvalue : Number.ofDigits (Nat.toDigits 10 n) = n := Nat.ofDigitChars_ten_toDigits
  have hzero : ¬ ((Nat.toDigits 10 n).head? = some '0' ∧ Nat.toDigits 10 n ≠ ['0']) := by
    rintro ⟨hhead, hmore⟩
    by_cases hn : n = 0
    · subst hn
      exact hmore rfl
    · exact head?_toDigits n hn hhead
  generalize Nat.toDigits 10 n = ds at *
  obtain ⟨htake, hdrop⟩ := takeWhile_append_of_ends [] hdigits (by simp)
  rw [List.append_nil] at htake hdrop
  have hsign : ¬ ds.head? = some '-' := by
    intro hminus
    exact absurd (hdigits '-' (List.mem_of_head? hminus)) (by decide)
  rw [number?, if_neg hsign, unsigned?, htake, hdrop]
  dsimp only
  rw [if_neg (not_or.mpr ⟨hne, hzero⟩), fraction?, Option.bind_some, List.append_nil, hvalue]
  · rfl
  · rintro _ ⟨⟩

theorem jsonTokens?_toString (n : Nat) {c : Char} (hc : c ∈ jsonMarks) (cs : List Char) :
    jsonTokens? ((toString n).toList ++ c :: cs) =
      (jsonTokens? (c :: cs)).map (.value (.number false ⟨n, 0⟩) :: ·) := by
  rw [Nat.toString_eq_repr, Nat.toList_repr]
  refine jsonTokens?_word Nat.toDigits_ne_nil (fun d hd => ?_) ?_ hc cs
  · have hdigit : d.isDigit = true := Nat.isDigit_of_mem_toDigits (by decide) (by decide) hd
    simp [isJsonWord, isAlphanum_iff.mpr (.inr hdigit)]
  · rw [Json.word?, Json.number?_toDigits, Option.some_or]

end ProtoSchema
