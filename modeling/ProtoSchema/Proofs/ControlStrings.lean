import ProtoSchema.Text.ControlSequence

/-!
# Texts that leave no control string open

Of the control sequences that a text can leave open, some show a line feed that follows, and some
take it for a part of a string for a device or for the system.  No single character opens a string:
it takes an escape character and one of five others behind it (`Reading.noString_next`).  So a text
opens none, wherever it is put, if each of its control characters is followed by a mark that is not
of the five (`Reading.steady_next_of_mark`, `Harmless`).

* §1 characters, §2 reading, §3 texts.
-/

namespace ProtoSchema

namespace Text

/-! ## §1 Characters -/

theorem ne_of_not_control {c d : Char} (hc : isControl c = false) (hd : isControl d = true) :
    c ≠ d := by
  rintro rfl
  rw [hc] at hd
  cases hd

theorem isBlankControl_of_not_control {c : Char} (h : isControl c = false) :
    isBlankControl c = false := by
  have hne : ∀ d, isControl d = true → c ≠ d := fun _ hd => ne_of_not_control h hd
  simp [isBlankControl, hne '\t' rfl, hne '\n' rfl, hne '\x0c' rfl, hne '\r' rfl]

/-- Behind more than the escape character, a sequence that shows blanks goes on or ends. -/
theorem Sequence.next_eq_or {s : Sequence} (h : s.showsBlanks = true) (hs : s ≠ .escape)
    (c : Char) : s.next c = none ∨ s.next c = some s := by
  cases s with
  | escape => exact absurd rfl hs
  | intermediate | function =>
    simp only [Sequence.next]
    split
    · exact .inl rfl
    · exact .inr rfl
  | _ => cases h

/-- Control characters have no meaning right behind the escape character. -/
theorem Sequence.next_escape {c : Char} (h : isControl c = true) :
    Sequence.escape.next c = some .escape := by
  have hall : ∀ n < 128, isControl (Char.ofNat n) = true →
      Sequence.escape.next (Char.ofNat n) = some .escape := by
    decide
  have hlt : c.toNat < 128 := by
    simp only [isControl, Bool.or_eq_true, decide_eq_true_eq] at h
    omega
  have hnext := hall c.toNat hlt
  rw [Char.ofNat_toNat] at hnext
  exact hnext h

/-! ## §2 Reading -/

namespace Reading

/-- No string for a device or the system is open. -/
def noString : Reading → Bool
  | text => true
  | inside s => s.showsBlanks
  | suspended s => s.showsBlanks

/-- No string is open, and no single character opens one. -/
def steady (r : Reading) : Bool := r.noString && r != inside .escape

section

variable {r : Reading}

theorem steady_iff : r.steady = true ↔ r.noString = true ∧ r ≠ inside .escape := by
  rw [steady, Bool.and_eq_true, bne_iff_ne]

theorem shows_newline (h : r.noString = true) : r.shows '\n' = true := by
  cases r with
  | text => rfl
  | inside s => exact (Bool.and_true _).trans h
  | suspended s => rfl

theorem noString_advance {s : Sequence} (hs : s.showsBlanks = true) {c : Char}
    (h : s = .escape → isControl c = true) : (advance s c).noString = true := by
  unfold advance
  split
  · rfl
  · split
    · rfl
    · by_cases hescape : s = .escape
      · subst hescape
        rw [Sequence.next_escape (h rfl)]
        rfl
      · rcases Sequence.next_eq_or hs hescape c with hnext | hnext <;> rw [hnext]
        · rfl
        · exact hs

theorem noString_next (h : r.steady = true) (c : Char) : (r.next c).noString = true := by
  obtain ⟨hr, hescape⟩ := steady_iff.mp h
  cases r with
  | text =>
    simp only [next]
    split <;> rfl
  | inside s =>
    simp only [next]
    split
    · exact hr
    · exact noString_advance hr fun hs => absurd (congrArg inside hs) hescape
  | suspended s =>
    simp only [next]
    split
    · split
      · exact hr
      · rfl
    · next hshown =>
      -- what is not shown is a control character
      refine noString_advance hr fun _ => ?_
      simp only [isShown, Bool.or_eq_true, Bool.not_eq_true', not_or, Bool.not_eq_false] at hshown
      exact hshown.1

theorem steady_next (h : r.steady = true) {c : Char} (hc : isControl c = false) :
    (r.next c).steady = true := by
  refine steady_iff.mpr ⟨noString_next h c, ?_⟩
  obtain ⟨hr, hinside⟩ := steady_iff.mp h
  have hescape : c ≠ '\x1b' := ne_of_not_control hc rfl
  cases r with
  | text => simp [next, hescape]
  | inside s =>
    have hcancel : ¬ (c = '\x18' ∨ c = '\x1a') :=
      not_or.mpr ⟨ne_of_not_control hc rfl, ne_of_not_control hc rfl⟩
    have hs : s ≠ .escape := fun hs => hinside (congrArg inside hs)
    simp only [next, isBlankControl_of_not_control hc, Bool.and_false, Bool.false_eq_true, if_false,
      advance, hcancel, hescape]
    rcases Sequence.next_eq_or hr hs c with hnext | hnext <;> rw [hnext]
    · simp
    · exact hinside
  | suspended s =>
    have hshown : isShown c = true := by simp [isShown, hc]
    simp only [next, hshown, if_true]
    split <;> simp

/-- A colon or a quote ends the escape sequence that it stands in, or goes on with it. -/
theorem steady_next_of_mark (h : r.noString = true) {c : Char} (hc : c = ':' ∨ c = '\'') :
    (r.next c).steady = true := by
  by_cases hescape : r = inside .escape
  · subst hescape
    rcases hc with rfl | rfl <;> rfl
  · have hplain : isControl c = false := by rcases hc with rfl | rfl <;> rfl
    exact steady_next (steady_iff.mpr ⟨h, hescape⟩) hplain

theorem steady_after (h : r.steady = true) {cs : List Char}
    (hcs : ∀ c ∈ cs, isControl c = false) : (r.after cs).steady = true := by
  induction cs generalizing r with
  | nil => exact h
  | cons c cs ih =>
    obtain ⟨hc, hcs⟩ := List.forall_mem_cons.mp hcs
    exact ih (steady_next h hc) hcs

end

end Reading

end Text

open Text

/-! ## §3 Texts -/

theorem any_eq_false_iff {p : Char → Bool} {cs : List Char} :
    cs.any p = false ↔ ∀ c ∈ cs, p c = false := by
  simp

/-- No control characters. -/
def Plain (s : String) : Prop := ∀ c ∈ s.toList, isControl c = false

/-- The strings for a device or the system that start in the text end in it. -/
def EndsStrings (s : String) : Prop := (Reading.text.after s.toList).noString = true

/-- From where no string is open and no single character opens one, reading the text leads to such a
place again. -/
def Harmless (s : String) : Prop :=
  ∀ r : Reading, r.steady = true → (r.after s.toList).steady = true

instance decidablePlain (s : String) : Decidable (Plain s) :=
  decidable_of_iff (s.toList.any isControl = false) any_eq_false_iff

instance decidableEndsStrings (s : String) : Decidable (EndsStrings s) :=
  inferInstanceAs (Decidable (_ = _))

section

variable {s t : String}

theorem plain_ofList {cs : List Char} :
    Plain (String.ofList cs) ↔ ∀ c ∈ cs, isControl c = false := by
  rw [Plain, String.toList_ofList]

theorem Plain.append (hs : Plain s) (ht : Plain t) : Plain (s ++ t) := by
  intro c hc
  rw [String.toList_append] at hc
  exact (List.mem_append.mp hc).elim (hs c) (ht c)

theorem Plain.notMem_escape (h : Plain s) : '\x1b' ∉ s.toList :=
  fun hmem => ne_of_not_control (h _ hmem) rfl rfl

theorem Plain.harmless (h : Plain s) : Harmless s := fun _ hr => Reading.steady_after hr h

theorem Harmless.append (hs : Harmless s) (ht : Harmless t) : Harmless (s ++ t) := by
  intro r hr
  rw [String.toList_append, Reading.after_append]
  exact ht _ (hs r hr)

theorem Harmless.endsStrings (h : Harmless s) : EndsStrings s :=
  (Reading.steady_iff.mp (h .text rfl)).1

theorem endsStrings_of_notMem (h : '\x1b' ∉ s.toList) : EndsStrings s := by
  rw [EndsStrings, Reading.after_text h]
  rfl

/-- Between a text that leaves no string open and a harmless one, a colon is enough. -/
theorem EndsStrings.append_colon (hs : EndsStrings s) (ht : Harmless t) :
    EndsStrings (s ++ ": " ++ t) := by
  have hcolon := Reading.steady_next (Reading.steady_next_of_mark hs (.inl rfl)) (c := ' ') rfl
  rw [EndsStrings, String.toList_append, String.toList_append, Reading.after_append,
    Reading.after_append]
  exact (Reading.steady_iff.mp (ht _ hcolon)).1

end

end ProtoSchema
