import ProtoSchema.Proofs.Quoting

/-!
# What the display of a token tells

A message shows a token that was found by its name, between angle brackets or between quotes.  The
first character tells which, and what is shown of the token is read back (`readDisplay?_display`).
The text of a token tells its kind, for scanned by itself it is that token again
(`Stream.scan_text`).  So two tokens that look alike are alike, or long and alike as far as they are
shown (`display_unambiguous`).

* §1 texts and kinds, §2 displays, §3 tokens that look alike.
-/

namespace ProtoSchema

open Lexeme

/-! ## §1 Texts and kinds -/

theorem scan_text {c : Char} {cs : List Char} {l : Lexeme} (h : scan (c :: cs) = .ok l) :
    scan l.text = .ok ⟨l.kind, l.text, []⟩ := by
  have hbreak : StartsBreak [] := by rintro _ ⟨⟩
  have hagain : scan (l.text ++ ([] ++ [])) = .ok { l with rest := [] ++ [] } :=
    scan_before_break h (List.nil_append l.rest).symm hbreak (by rintro - - _ ⟨⟩)
  simpa using hagain

theorem Stream.scan_text {c : Cursor} {b : Brackets} {ts : List Token} (h : Stream c b ts) :
    ∀ t ∈ ts, t.kind ≠ .error → scan t.text.toList = .ok ⟨t.kind, t.text.toList, []⟩ := by
  induction h with
  | ended => exact List.forall_mem_singleton.mpr fun _ => rfl
  | unread | refused => exact List.forall_mem_singleton.mpr fun herror => absurd rfl herror
  | token hrest hscan _ _ ih =>
    refine List.forall_mem_cons.mpr ⟨fun _ => ?_, ih⟩
    obtain ⟨d, ds, hd⟩ := List.exists_cons_of_ne_nil hrest
    rw [String.toList_ofList]
    exact ProtoSchema.scan_text (hd ▸ hscan)

/-- Tokens with the same text are of the same kind, whatever stands around them. -/
theorem kind_eq_of_text_eq {source source' : String} {t t' : Token} (ht : t ∈ tokenize source)
    (ht' : t' ∈ tokenize source') (herror : t.kind ≠ .error) (herror' : t'.kind ≠ .error)
    (htext : t.text = t'.text) : t.kind = t'.kind := by
  have hscan := (stream_tokenize source).scan_text t ht herror
  rw [htext, (stream_tokenize source').scan_text t' ht' herror'] at hscan
  exact (congrArg Lexeme.kind (Except.ok.inj hscan)).symm

/-! ## §2 Displays -/

/-- What a display lets its reader know about a token. -/
inductive Shown where
  | endOfInput
  | keyword (text : String)
  /-- The characters shown, and whether dots say that there are more. -/
  | quoted (text : List Char) (more : Bool)
  deriving DecidableEq

def Token.shown (t : Token) : Shown :=
  match t.kind with
  | .endOfInput => .endOfInput
  | .keyword _ => .keyword t.text
  | _ => .quoted (t.text.toList.take 10) (decide (10 < t.text.toList.length))

/-- Read a display. -/
def readDisplay? (s : String) : Option Shown :=
  match s.toList with
  | ['E', 'O', 'F'] => some .endOfInput
  | '<' :: cs =>
    if cs.getLast? = some '>' then some (.keyword (String.ofList cs.dropLast)) else none
  | '"' :: cs =>
    (messageQuoting.read? cs).bind fun (text, n) =>
      if cs.drop n = [] then some (.quoted text false)
      else if cs.drop n = ['.', '.', '.'] then some (.quoted text true)
      else none
  | _ => none

theorem readDisplay?_angled (text : String) :
    readDisplay? ("<" ++ text ++ ">") = some (.keyword text) := by
  have hlist : ("<" ++ text ++ ">").toList = '<' :: (text.toList ++ ['>']) := by simp
  rw [readDisplay?, hlist]
  simp

theorem readDisplay?_quote (cs rest : List Char) :
    readDisplay? (String.ofList (Text.quote cs ++ rest)) =
      if rest = [] then some (.quoted cs false)
      else if rest = ['.', '.', '.'] then some (.quoted cs true)
      else none := by
  have hread := Quoting.read?_flatMap messageQuoting_writes cs rest
  have hlist : Text.quote cs ++ rest = '"' :: (cs.flatMap Text.quoteChar ++ ['"'] ++ rest) := rfl
  rw [readDisplay?, String.toList_ofList, hlist]
  simp only [hread, Option.bind_some, List.drop_left]

theorem readDisplay?_quoteShort (cs : List Char) :
    readDisplay? (String.ofList (Text.quoteShort cs)) =
      some (.quoted (cs.take 10) (decide (10 < cs.length))) := by
  by_cases h : Text.shownLength < cs.length
  · rw [Text.quoteShort, if_pos h, readDisplay?_quote, decide_eq_true (show 10 < cs.length from h)]
    rfl
  · have htake : cs.take 10 = cs := List.take_of_length_le (Nat.le_of_not_lt h)
    rw [Text.quoteShort, if_neg h, ← List.append_nil (Text.quote cs), readDisplay?_quote, htake,
      decide_eq_false (show ¬ 10 < cs.length from h)]
    rfl

theorem readDisplay?_display {t : Token} (h : t.kind ≠ .error) :
    readDisplay? t.display = some t.shown := by
  obtain ⟨kind, offset, text⟩ := t
  cases kind with
  | error => exact absurd rfl h
  | endOfInput => exact show readDisplay? "EOF" = some .endOfInput by decide +kernel
  | keyword => exact readDisplay?_angled text
  | _ => exact readDisplay?_quoteShort text.toList

/-! ## §3 Tokens that look alike -/

/-- What is shown of a text that is not cut is all of it. -/
theorem eq_of_take_eq {cs ds : List Char} (htake : cs.take 10 = ds.take 10)
    (hlong : decide (10 < cs.length) = decide (10 < ds.length)) :
    cs = ds ∨ 10 < cs.length ∧ 10 < ds.length ∧ cs.take 10 = ds.take 10 := by
  rw [decide_eq_decide] at hlong
  by_cases h : 10 < cs.length
  · exact .inr ⟨h, hlong.mp h, htake⟩
  · have h' := mt hlong.mpr h
    rw [List.take_of_length_le (Nat.le_of_not_lt h),
      List.take_of_length_le (Nat.le_of_not_lt h')] at htake
    exact .inl htake

theorem text_of_shown_eq {source source' : String} {t t' : Token} (ht : t ∈ tokenize source)
    (ht' : t' ∈ tokenize source') (h : t.shown = t'.shown) :
    t.text = t'.text ∨ 10 < t.text.toList.length ∧ 10 < t'.text.toList.length ∧
      t.text.toList.take 10 = t'.text.toList.take 10 := by
  unfold Token.shown at h
  split at h
  · next hend =>
    split at h
    · next hend' =>
      left
      rw [((stream_tokenize source).endOfInput t ht hend).2,
        ((stream_tokenize source').endOfInput t' ht' hend').2]
    · cases h
    · cases h
  · split at h
    · cases h
    · exact .inl (Shown.keyword.inj h)
    · cases h
  · split at h
    · cases h
    · cases h
    · obtain ⟨htake, hlong⟩ := Shown.quoted.inj h
      exact (eq_of_take_eq htake hlong).imp_left String.toList_inj.mp

/-- From the display of a token that is no error is read whether it is the end of input, a keyword
or another token, and the text of it, or the first ten characters of a quoted text that has more.
Tokens of any two sources that are no errors and are displayed alike are of one kind and have the
same text, or have more than ten characters each and the same first ten. -/
theorem display_unambiguous {source source' : String} {t t' : Token} (ht : t ∈ tokenize source)
    (ht' : t' ∈ tokenize source') (herror : t.kind ≠ .error) (herror' : t'.kind ≠ .error) :
    readDisplay? t.display = some t.shown ∧
    (t.display = t'.display →
      t.kind = t'.kind ∧ t.text = t'.text ∨
        10 < t.text.toList.length ∧ 10 < t'.text.toList.length ∧
          t.text.toList.take 10 = t'.text.toList.take 10) := by
  refine ⟨readDisplay?_display herror, fun heq => ?_⟩
  have hshown : t.shown = t'.shown := by
    have hread := readDisplay?_display herror
    rw [heq, readDisplay?_display herror'] at hread
    exact (Option.some.inj hread).symm
  refine (text_of_shown_eq ht ht' hshown).imp_left fun htext => ⟨?_, htext⟩
  exact kind_eq_of_text_eq ht ht' herror herror' htext

/-- Two comments of two sources, too long to be shown. -/
theorem longComments_unambiguous :
    let t : Token := ⟨.comment, 0, "// an \"b\" c"⟩
    let t' : Token := ⟨.comment, 1, "// an \"b\" d"⟩
    readDisplay? t.display = some (.quoted "// an \"b\" ".toList true) ∧ t.display = t'.display ∧
      (t.kind = t'.kind ∧ t.text = t'.text ∨
        10 < t.text.toList.length ∧ 10 < t'.text.toList.length ∧
          t.text.toList.take 10 = t'.text.toList.take 10) := by
  intro t t'
  obtain ⟨hread, halike⟩ := display_unambiguous
    (show t ∈ tokenize "// an \"b\" c" by decide +kernel)
    (show t' ∈ tokenize " // an \"b\" d" by decide +kernel) (by decide) (by decide)
  have heq : t.display = t'.display := by decide +kernel
  exact ⟨hread.trans (by decide +kernel), heq, halike heq⟩

end ProtoSchema
