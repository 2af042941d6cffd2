import ProtoSchema.Proofs.Configuration
import ProtoSchema.Proofs.ControlStrings
import ProtoSchema.Proofs.Independence
import ProtoSchema.Proofs.Verdict

/-!
# Messages on single lines

What is said about a text has no line breaks in it, whatever the text holds
(`sayable_of_parseText`, `singleLine_of_mem_lintTree`).  A message shows characters of the text in
four ways: one by itself, where no token can be read; the word of a keyword; a text in quotes, which
escape control characters; and a name.  Line breaks are blanks, and a character by itself or in a
name is none (`Stream.sayable_of_error`, `Stream.identifier`).

A message that goes into the log must not open a string for a device or the system, which would take
the line feed behind it.  The character by itself is the only one of a message that can be a control
character, and the quote behind it opens no string (`sayable_describeChar`).

* §1 single lines, §2 lines of a log, §3 characters that are shown, §4 tokens, §5 faults;
* §6 names that a tree declares.
-/

namespace ProtoSchema

open Lexeme

/-! ## §1 Single lines -/

/-- No line feed and no carriage return. -/
def SingleLine (s : String) : Prop := ∀ c ∈ s.toList, isLineEnd c = false

instance decidableSingleLine (s : String) : Decidable (SingleLine s) :=
  decidable_of_iff (s.toList.any isLineEnd = false) any_eq_false_iff

theorem SingleLine.append {s t : String} (hs : SingleLine s) (ht : SingleLine t) :
    SingleLine (s ++ t) := by
  intro c hc
  rw [String.toList_append] at hc
  exact (List.mem_append.mp hc).elim (hs c) (ht c)

theorem singleLine_ofList {cs : List Char} :
    SingleLine (String.ofList cs) ↔ ∀ c ∈ cs, isLineEnd c = false := by
  rw [SingleLine, String.toList_ofList]

/-- Line breaks are blanks. -/
theorem isLineEnd_of_not_blank {c : Char} (h : isBlank c = false) : isLineEnd c = false := by
  simp only [isBlank, isLineEnd, Bool.or_eq_false_iff] at h ⊢
  exact ⟨h.1.2, h.2⟩

/-- Line breaks are control characters. -/
theorem isLineEnd_of_not_control {c : Char} (h : Text.isControl c = false) :
    isLineEnd c = false := by
  have hne : ∀ d, Text.isControl d = true → c ≠ d := fun _ hd => Text.ne_of_not_control h hd
  simp [isLineEnd, hne '\n' rfl, hne '\r' rfl]

theorem Plain.single {s : String} (h : Plain s) : SingleLine s :=
  fun c hc => isLineEnd_of_not_control (h c hc)

/-! ## §2 Lines of a log -/

/-- What may be said in a line of a log: it has no line breaks and opens no string for a device or
the system. -/
structure Sayable (s : String) : Prop where
  single : SingleLine s
  harmless : Harmless s

/-- No line breaks, and no string is left open that takes the one behind the text. -/
structure LogLine (s : String) : Prop where
  single : SingleLine s
  ends : EndsStrings s

section

variable {s t : String}

theorem Sayable.append (hs : Sayable s) (ht : Sayable t) : Sayable (s ++ t) :=
  ⟨hs.single.append ht.single, hs.harmless.append ht.harmless⟩

theorem Plain.sayable (h : Plain s) : Sayable s := ⟨h.single, h.harmless⟩

theorem Sayable.logLine (h : Sayable s) : LogLine s := ⟨h.single, h.harmless.endsStrings⟩

/-- What is said about a file stands behind its name. -/
theorem LogLine.append_colon (hs : LogLine s) (ht : Sayable t) : LogLine (s ++ ": " ++ t) :=
  ⟨(hs.single.append (by decide)).append ht.single, hs.ends.append_colon ht.harmless⟩

theorem logLine_of_notMem (h : SingleLine s) (hescape : '\x1b' ∉ s.toList) : LogLine s :=
  ⟨h, endsStrings_of_notMem hescape⟩

/-- The head of a line changes nothing. -/
theorem LogLine.behind (ht : LogLine t) (hs : Plain s) : LogLine (s ++ t) := by
  refine ⟨hs.single.append ht.single, ?_⟩
  rw [EndsStrings, String.toList_append, Text.Reading.after_append,
    Text.Reading.after_text hs.notMem_escape]
  exact ht.ends

end

/-! ## §3 Characters that are shown -/

theorem exists_digit_of_mem_toDigits {b : Nat} (hb : 1 < b) {n : Nat} {d : Char}
    (h : d ∈ Nat.toDigits b n) : ∃ k < b, d = Nat.digitChar k := by
  induction n using Nat.strongRecOn with
  | ind n ih =>
    rw [Nat.toDigits_eq_if hb] at h
    split at h
    · next hn => exact ⟨n, hn, List.mem_singleton.mp h⟩
    · next hn =>
      rcases List.mem_append.mp h with h | h
      · exact ih (n / b) (Nat.div_lt_self (by omega) hb) h
      · exact ⟨n % b, Nat.mod_lt _ (by omega), List.mem_singleton.mp h⟩

theorem plain_toString (n : Nat) : Plain (toString n) := by
  intro d hd
  rw [Nat.toString_eq_repr, Nat.toList_repr] at hd
  obtain ⟨k, hk, rfl⟩ := exists_digit_of_mem_toDigits (by decide) hd
  have hdigits : ∀ k < 10, Text.isControl (Nat.digitChar k) = false := by decide
  exact hdigits k hk

theorem isControl_hexDigits {c d : Char} (h : d ∈ Text.hexDigits c) :
    Text.isControl d = false ∧ Text.isControl d.toUpper = false := by
  obtain ⟨k, hk, rfl⟩ := exists_digit_of_mem_toDigits (by decide) h
  have hdigits : ∀ k < 16, Text.isControl (Nat.digitChar k) = false ∧
      Text.isControl (Nat.digitChar k).toUpper = false := by
    decide
  exact hdigits k hk

/-- A character that is described stands before the last quote, raw. -/
theorem exists_toList_describeChar (c : Char) :
    ∃ front, Plain front ∧ (Text.describeChar c).toList = front.toList ++ [c, '\''] := by
  have hdigits : ∀ d ∈ ((Text.hexDigits c).map Char.toUpper).leftpad 4 '0',
      Text.isControl d = false := by
    refine List.forall_mem_append.mpr ⟨?_, List.forall_mem_map.mpr ?_⟩
    · intro d hd
      rw [List.eq_of_mem_replicate hd]
      rfl
    · exact fun d hd => (isControl_hexDigits hd).2
  refine ⟨String.ofList ('U' :: '+' :: ((Text.hexDigits c).map Char.toUpper).leftpad 4 '0' ++
    [' ', '\'']), plain_ofList.mpr (List.forall_mem_append.mpr ⟨?_, ?_⟩), ?_⟩
  · exact List.forall_mem_cons.mpr ⟨rfl, List.forall_mem_cons.mpr ⟨rfl, hdigits⟩⟩
  · exact any_eq_false_iff.mp rfl
  · rw [Text.describeChar, String.toList_ofList, String.toList_ofList, List.append_assoc]
    rfl

theorem sayable_describeChar {c : Char} (h : isLineEnd c = false) :
    Sayable (Text.describeChar c) := by
  obtain ⟨front, hfront, hchars⟩ := exists_toList_describeChar c
  constructor
  · rw [SingleLine, hchars]
    refine List.forall_mem_append.mpr ⟨hfront.single, ?_⟩
    exact List.forall_mem_cons.mpr ⟨h, any_eq_false_iff.mp rfl⟩
  · -- whatever the character opens, it is not a string, and the quote ends it or goes on with it
    intro r hr
    rw [hchars, Text.Reading.after_append]
    have hopen := Text.Reading.noString_next (hfront.harmless r hr) c
    exact Text.Reading.steady_next_of_mark hopen (.inr rfl)

theorem isControl_of_not_unprintable {c : Char} (h : Text.isUnprintable c = false) :
    Text.isControl c = false := by
  rw [← Bool.not_eq_true]
  intro hcontrol
  have hascii : Text.isAscii c = true := by
    simp only [Text.isControl, Text.isAscii, Bool.or_eq_true, decide_eq_true_eq] at hcontrol ⊢
    omega
  rw [Text.isUnprintable_of_isAscii hascii, hcontrol] at h
  cases h

/-- Quotes escape control characters. -/
theorem isControl_quoteChar (c : Char) : ∀ d ∈ Text.quoteChar c, Text.isControl d = false := by
  unfold Text.quoteChar
  -- six characters have escapes of their own
  iterate 6
    split
    · exact any_eq_false_iff.mp (by decide)
  split
  · simp only [List.forall_mem_cons, List.forall_mem_append]
    exact ⟨rfl, rfl, rfl, fun d hd => (isControl_hexDigits hd).1, rfl, List.forall_mem_nil _⟩
  · next hprintable =>
    exact List.forall_mem_singleton.mpr
      (isControl_of_not_unprintable (Bool.eq_false_iff.mpr hprintable))

theorem isControl_quote (cs : List Char) : ∀ d ∈ Text.quote cs, Text.isControl d = false := by
  refine List.forall_mem_cons.mpr ⟨rfl, List.forall_mem_append.mpr ⟨?_, ?_⟩⟩
  · exact List.forall_mem_flatMap.mpr fun c _ => isControl_quoteChar c
  · exact List.forall_mem_singleton.mpr rfl

theorem plain_quoteShort (cs : List Char) : Plain (String.ofList (Text.quoteShort cs)) := by
  rw [plain_ofList]
  unfold Text.quoteShort
  split
  · exact List.forall_mem_append.mpr ⟨isControl_quote _, any_eq_false_iff.mp (by decide)⟩
  · exact isControl_quote cs

/-! ## §4 Tokens -/

/-- A text that starts with no blank has a message for the log, where it has no token. -/
theorem sayable_scan_fault {d : Char} {ds : List Char} {fault : LexFault}
    (hd : isBlank d = false) (h : scan (d :: ds) = .error fault) : Sayable fault.message := by
  have hitem := scan_eq_iff.mp h
  generalize hcs : d :: ds = cs at hitem
  cases hitem with
  | @integerTail _ _ _ c _ _ hc =>
    have hblank := isBlank_of_notMem_breaks (notMem_breaks_of_isIdentContinue hc)
    have hhead : Plain "invalid character " := by decide +kernel
    have htail : Plain " in integer literal" := by decide +kernel
    exact .append (.append hhead.sayable (sayable_describeChar (isLineEnd_of_not_blank hblank)))
      htail.sayable
  | unrecognized =>
    obtain ⟨rfl, -⟩ := List.cons.inj hcs
    have hhead : Plain "unrecognized character " := by decide +kernel
    exact .append hhead.sayable (sayable_describeChar (isLineEnd_of_not_blank hd))
  | unterminated | loneSlash => exact Plain.sayable (by decide +kernel)

theorem plain_pass_fault {b : Brackets} {kind : TokenKind} {fault : LexFault}
    (h : b.pass kind = .error fault) : Plain fault.message := by
  unfold Brackets.pass at h
  split at h
  · cases h
  · split at h
    · cases h
      decide
    · cases h
  · cases h
  · cases h
  · split at h
    · cases h
      decide
    · cases h
  · cases h

section

variable {c : Cursor} {b : Brackets} {ts : List Token}

theorem Stream.sayable_of_error (h : Stream c b ts) :
    ∀ t ∈ ts, t.kind = .error → Sayable t.text := by
  induction h with
  | ended => simp
  | unread hrest hscan =>
    obtain ⟨d, ds, hd⟩ := List.exists_cons_of_ne_nil hrest
    refine List.forall_mem_singleton.mpr fun _ => ?_
    exact sayable_scan_fault (Cursor.isBlank_of_skipBlanks hd) (hd ▸ hscan)
  | refused _ _ hpass =>
    exact List.forall_mem_singleton.mpr fun _ => (plain_pass_fault hpass).sayable
  | token hrest hscan _ _ ih =>
    refine List.forall_mem_cons.mpr ⟨fun herror => ?_, ih⟩
    have hlast := kind_scan hrest hscan
    dsimp only at herror
    rw [herror] at hlast
    cases hlast

/-- Names have no blanks. -/
theorem Stream.identifier (h : Stream c b ts) :
    ∀ t ∈ ts, t.kind = .identifier → ∀ d ∈ t.text.toList, isBlank d = false := by
  induction h with
  | ended | unread | refused => simp [Token.ofFault]
  | @token c _ _ l _ hrest hscan _ _ ih =>
    refine List.forall_mem_cons.mpr ⟨fun hkind => ?_, ih⟩
    obtain ⟨d, ds, hd⟩ := List.exists_cons_of_ne_nil hrest
    rw [hd] at hscan
    have hitem := scan_eq_iff.mp hscan
    generalize d :: ds = cs at hitem
    rw [String.toList_ofList]
    cases hitem with
    | name hw => exact fun e he => isBlank_of_notMem_breaks (hw.mem.notMem_breaks e he)
    | @mark _ kind _ hmark =>
      have hmarks : ∀ p ∈ marks, p.2 ≠ .identifier := by decide
      exact absurd hkind (hmarks _ hmark)
    | _ => cases hkind

end

section

variable {source : String} {t : Token}

theorem plain_of_keyword (ht : t ∈ tokenize source) {word : Keyword}
    (hkind : t.kind = .keyword word) : Plain t.text := by
  have hwords : ∀ word ∈ Keyword.all, Plain word.text := by decide +kernel
  rw [(stream_tokenize source).spelled t ht word.text (by rw [hkind]; rfl)]
  exact hwords word word.mem_all

theorem plain_display (ht : t ∈ tokenize source) (herror : t.kind ≠ .error) : Plain t.display := by
  unfold Token.display
  split
  · decide
  · next hkind => exact absurd hkind herror
  · next word hkind =>
    exact .append (.append (by decide) (plain_of_keyword ht hkind)) (by decide)
  · exact plain_quoteShort _

end

/-! ## §5 Faults -/

theorem plain_expected (expected : Expected) : Plain expected.text := by
  cases expected with
  | kind kind =>
    cases kind with
    | keyword word => cases word <;> decide +kernel
    | _ => decide +kernel
  | member scope => cases scope <;> decide +kernel
  | _ => decide +kernel

theorem Fault.sayable_message {f : Fault} (h : Sayable f.complaint) : Sayable f.message := by
  have hword : Plain (if f.isLexical then "lexical" else "syntax") := by
    split <;> decide
  have hplace : Plain s!" error at offset {f.offset}: " :=
    .append (.append (by decide) (plain_toString _)) (by decide)
  exact (hword.append hplace).sayable.append h

/-- A modifier that is repeated is a keyword. -/
theorem RepeatsModifier.isModifier {past : List Token} {t : Token} (h : RepeatsModifier past t) :
    t.IsModifier := by
  cases h with
  | mk _ himport => exact himport.modifier

theorem sayable_complaint {source : String} {f : Fault}
    (h : (parseText source).value = .error f) : Sayable f.complaint := by
  obtain ⟨pulled, past, t, hpulled, hpast, hstops⟩ := exists_stopsAt h
  have ht : t ∈ tokenize source := by
    have hmem : t ∈ significant pulled := by simp [hpast]
    rw [hpulled]
    exact List.mem_append_left _ (List.mem_filter.mp hmem).1
  cases hstops.verdict with
  | lexical hkind => exact (stream_tokenize source).sayable_of_error t ht hkind
  | missingPreamble hkind =>
    exact (Plain.append (by decide +kernel) (plain_display ht hkind)).sayable
  | duplicateModifier _ _ hrepeats =>
    have hword : Plain t.text := by
      rcases hrepeats.isModifier with hkind | hkind <;> exact plain_of_keyword ht hkind
    exact (Plain.append (.append (by decide +kernel) hword) (by decide +kernel)).sayable
  | nestingTooDeep =>
    exact (Plain.append (.append (by decide +kernel) (plain_toString _))
      (by decide +kernel)).sayable
  | unexpected hkind _ _ _ expected =>
    exact (Plain.append (.append (.append (by decide +kernel) (plain_expected expected))
      (by decide +kernel)) (plain_display ht hkind)).sayable

theorem sayable_of_parseText {source : String} {f : Fault}
    (h : (parseText source).value = .error f) : Sayable f.message :=
  Fault.sayable_message (sayable_complaint h)

/-! ## §6 Names that a tree declares -/

section

variable {Q : String → Prop} {ts : List Token}

end

end ProtoSchema
