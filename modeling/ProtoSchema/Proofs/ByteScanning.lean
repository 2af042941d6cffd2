import ProtoSchema.Proofs.ByteLexer
import ProtoSchema.Proofs.Scanning

/-!
# Scanners at bytes

Each scanner of the lexer that stands at bytes has an outcome, and it is what the scanner of the
library finds in the text ahead (`At.scanBehind`).  Where a lexer stands is said by cutting its
source into what is behind its token, what is read of the token and what is ahead; a scanner reads
some of what is ahead, which moves the second cut to another place between characters.

* §1 what the scanners of the library cut off, said as the loops find it;
* §2 outcomes that agree (`Agrees`), §3 marks, comments and strings;
* §4 integers, §5 names, §6 which scanner is used.
-/

namespace ProtoSchema

open Lexeme

/-! ## §1 What is cut off -/

theorem digits_of_hex {d : Char} {cs : List Char}
    (h : (d = '0' && cs.head?.any (fun x => x = 'x' || x = 'X') &&
      cs.tail.head?.any Text.isHexDigit) = true) :
    ∃ x xs, cs = x :: xs ∧ Lexeme.digits (d :: cs) =
      (d :: x :: xs.takeWhile Text.isHexDigit, xs.dropWhile Text.isHexDigit) := by
  match cs, h with
  | [], h => simp at h
  | [x], h => simp at h
  | x :: e :: cs, h =>
    simp only [List.head?_cons, List.tail_cons, Option.any_some, Bool.and_eq_true,
      decide_eq_true_eq] at h
    obtain ⟨⟨rfl, hx⟩, he⟩ := h
    exact ⟨x, e :: cs, rfl, by rw [Lexeme.digits, if_pos (by rw [hx, he]; rfl)]⟩

theorem digits_of_not_hex {d : Char} {cs : List Char} (hd : d.isDigit = true)
    (h : ¬ (d = '0' && cs.head?.any (fun x => x = 'x' || x = 'X') &&
      cs.tail.head?.any Text.isHexDigit) = true) :
    Lexeme.digits (d :: cs) = (d :: cs.takeWhile Char.isDigit, cs.dropWhile Char.isDigit) := by
  have hdecimal : ((d :: cs).takeWhile Char.isDigit, (d :: cs).dropWhile Char.isDigit) =
      (d :: cs.takeWhile Char.isDigit, cs.dropWhile Char.isDigit) := by
    rw [List.takeWhile_cons_of_pos hd, List.dropWhile_cons_of_pos hd]
  unfold Lexeme.digits
  split
  · next x e cs heq =>
    cases heq
    rw [if_neg (by simpa using h), hdecimal]
  · exact hdecimal

/-- A name goes on behind a dot only if a segment starts there. -/
theorem spanWord_of_not_continue {cs : List Char} (h : ∀ c ∈ cs.head?, isIdentContinue c = false) :
    spanWord cs =
      if cs.head? = some '.' && cs.tail.head?.any isIdentStart then
        ('.' :: (spanWord cs.tail).1, (spanWord cs.tail).2)
      else ([], cs) := by
  cases cs with
  | nil => rfl
  | cons c cs =>
    rw [spanWord, h c rfl, Bool.false_or]
    simp only [List.head?_cons, List.tail_cons, Option.some.injEq]
    split
    · next hdot =>
      obtain ⟨rfl, -⟩ : c = '.' ∧ _ := by simpa using hdot
      rfl
    · rfl

theorem dot_notMem_of_continue {cs : List Char} (h : ∀ c ∈ cs, isIdentContinue c = true) :
    '.' ∉ cs := by
  intro hdot
  have : isIdentContinue '.' = false := by decide
  rw [h _ hdot] at this
  cases this

theorem utf8Size_of_isDigit {c : Char} (h : c.isDigit = true) : c.utf8Size = 1 := by
  simp only [Char.isDigit, Bool.and_eq_true, decide_eq_true_eq, UInt32.le_iff_toNat_le] at h
  rw [Char.utf8Size_eq_one_iff, UInt32.le_iff_toNat_le]
  exact Nat.le_trans h.2 (by decide)

/-- Characters of one byte are told apart by that byte. -/
theorem toUInt8_eq_iff {c d : Char} (hc : c.utf8Size = 1) (hd : d.utf8Size = 1) :
    c.toUInt8 = d.toUInt8 ↔ c = d := by
  rw [Char.utf8Size_eq_one_iff, UInt32.le_iff_toNat_le] at hc hd
  constructor
  · intro h
    have := congrArg UInt8.toNat h
    simp only [Char.toUInt8, UInt32.toNat_toUInt8] at this
    rw [Char.ext_iff, ← UInt32.toNat_inj]
    have : (127 : UInt32).toNat = 127 := rfl
    omega
  · rintro rfl
    rfl

namespace ByteLexer

/-! ## §2 Outcomes that agree -/

section

variable {m : Machine} {l : ByteLexer} {front word rest w ahead : List Char}

/-- A scanner was given the lexer `l`, with `word` read of its token and `ahead` ahead, and what
came of it is what the library has there: the token, with its bracket counted, or the error that
refuses it.  Either way some `w` of what was ahead is read. -/
inductive Agrees (l : ByteLexer) (word ahead : List Char) :
    Except LexFault Lexeme → Option (Token × ByteLexer) → Prop
  | token {w rest : List Char} {kind : TokenKind} {b : Brackets} (hahead : ahead = w ++ rest)
      (hpass : l.brackets.pass kind = .ok b) :
      Agrees l word ahead (.ok ⟨kind, word ++ w, rest⟩)
        (some (⟨kind, l.start, String.ofList (word ++ w)⟩,
          { (l.past w).restart with braceDepth := b.braces, mapDepth := b.angles }))
  | refused {w rest text : List Char} {kind : TokenKind} {fault : LexFault}
      (hahead : ahead = w ++ rest) (hpass : l.brackets.pass kind = .error fault) :
      Agrees l word ahead (.ok ⟨kind, text, rest⟩)
        (some (Token.ofFault l.start fault, (l.past w).finish))
  | unread {w rest : List Char} {fault : LexFault} (hahead : ahead = w ++ rest) :
      Agrees l word ahead (.error fault)
        (some (Token.ofFault l.start fault, (l.past w).finish))

/-- A token that counts for nothing among the brackets. -/
theorem Agrees.emit (kind : TokenKind) (h : l.At front word (w ++ rest))
    (hpass : l.brackets.pass kind = .ok l.brackets) :
    Agrees l word (w ++ rest) (.ok ⟨kind, word ++ w, rest⟩) ((l.past w).emit kind) := by
  rw [h.past.emit kind]
  exact .token rfl hpass

theorem Agrees.emit_counted {kind : TokenKind} (b : Brackets) (h : l.At front word ahead)
    (hpass : l.brackets.pass kind = .ok b) :
    Agrees l word ahead (.ok ⟨kind, word, ahead⟩)
      (ByteLexer.emit kind { l with braceDepth := b.braces, mapDepth := b.angles }) := by
  rw [(h.count b).emit kind]
  have htoken : Agrees l word ([] ++ ahead) _ _ := .token rfl hpass
  rwa [List.append_nil] at htoken

theorem Agrees.fail (l : ByteLexer) (word w rest : List Char) (fault : LexFault) :
    Agrees l word (w ++ rest) (.error fault) ((l.past w).fail fault) :=
  .unread rfl

/-- More of the token may be read first. -/
theorem Agrees.past {v : List Char} {scanned : Except LexFault Lexeme}
    {out : Option (Token × ByteLexer)} (h : Agrees (l.past v) (word ++ v) ahead scanned out) :
    Agrees l word (v ++ ahead) scanned out := by
  cases h with
  | token hahead hpass =>
    rw [past_past, List.append_assoc]
    exact .token (by rw [hahead, List.append_assoc]) hpass
  | refused hahead hpass =>
    rw [past_past]
    exact .refused (by rw [hahead, List.append_assoc]) hpass
  | unread hahead =>
    rw [past_past]
    exact .unread (by rw [hahead, List.append_assoc])

/-! ## §3 Marks, comments and strings -/

theorem At.scanMark {c : Char} (h : l.At front [c] ahead) (hfits : m.Fits l.input)
    (hbraces : l.braceDepth ≤ l.start) (hangles : l.mapDepth ≤ l.start) (kind : TokenKind) :
    Agrees l [c] ahead (.ok ⟨kind, [c], ahead⟩) (l.scanMark m kind) := by
  -- the mark took a byte, so one more bracket still fits
  have hroom : l.start + 1 ≤ l.input.utf8ByteSize := by
    have := c.utf8Size_pos
    rw [h.size_eq, h.pos, h.start, Text.utf8Length_cons]
    omega
  cases kind with
  | leftAngle =>
    rw [ByteLexer.scanMark, hfits.add (by omega)]
    exact .emit_counted ⟨l.braceDepth, l.mapDepth + 1⟩ h rfl
  | rightAngle => exact .emit_counted ⟨l.braceDepth, l.mapDepth - 1⟩ h rfl
  | leftBrace =>
    rw [ByteLexer.scanMark, hfits.add (by omega)]
    exact .emit_counted ⟨l.braceDepth + 1, l.mapDepth⟩ h rfl
  | rightBrace =>
    rw [ByteLexer.scanMark]
    by_cases hzero : l.braceDepth = 0
    · rw [if_pos hzero]
      exact .refused (w := []) rfl (if_pos hzero)
    · rw [if_neg hzero, oneLess_of_ne_zero hzero]
      exact .emit_counted ⟨l.braceDepth - 1, l.mapDepth⟩ h (if_neg hzero)
  | comma =>
    rw [ByteLexer.scanMark]
    by_cases hzero : l.mapDepth = 0
    · rw [if_pos hzero]
      exact .refused (w := []) rfl (if_pos hzero)
    · rw [if_neg hzero]
      exact .emit_counted l.brackets h (if_neg hzero)
  | _ => exact .emit_counted l.brackets h rfl

theorem At.scanComment (h : l.At front ['/'] ahead) (hfits : m.Fits l.input) :
    Agrees l ['/'] ahead (Lexeme.scanComment ahead) (l.scanComment m) := by
  unfold ByteLexer.scanComment
  cases ahead with
  | nil =>
    rw [h.advance_nil]
    exact .fail l ['/'] [] [] .loneSlash
  | cons c cs =>
    rw [h.advance_cons hfits]
    simp only [Option.bind_eq_bind, Option.bind_some, Option.some.injEq]
    by_cases hc : c = '/'
    · subst hc
      have hcs := List.takeWhile_append_dropWhile (p := (!isLineEnd ·)) (l := cs)
      rw [if_pos rfl, (At.past (w := ['/']) h).skipWhile hfits, Option.bind_some, past_past]
      rw [← hcs] at h
      have := Agrees.emit (w := '/' :: cs.takeWhile (!isLineEnd ·)) .comment h rfl
      simpa [Lexeme.scanComment] using this
    · rw [if_neg hc, Lexeme.scanComment]
      · exact .fail l ['/'] [c] cs .loneSlash
      · rintro _ ⟨⟩
        exact hc rfl

theorem At.scanString_nil (h : l.At front word []) :
    l.scanString m = l.fail .unterminatedString := by
  rw [ByteLexer.scanString]
  split <;> rename_i hadvance <;> rw [h.advance_nil] at hadvance <;> cases hadvance
  rfl

theorem At.scanString_cons {c : Char} (h : l.At front word (c :: rest)) (hfits : m.Fits l.input) :
    l.scanString m =
      if c = '\n' then (l.past [c]).fail .unterminatedString
      else if c = '"' then (l.past [c]).emit .stringLit
      else (l.past [c]).scanString m := by
  rw [ByteLexer.scanString]
  split <;> rename_i hadvance <;> rw [h.advance_cons hfits] at hadvance <;> cases hadvance
  rfl

/-- What is inside a string is passed over. -/
theorem At.scanString_past (h : l.At front word (w ++ rest)) (hfits : m.Fits l.input)
    (hw : ∀ c ∈ w, Lexeme.scanString.inside c = true) :
    l.scanString m = (l.past w).scanString m := by
  induction w generalizing l word with
  | nil => rfl
  | cons c w ih =>
    obtain ⟨hc, hw⟩ := List.forall_mem_cons.mp hw
    simp only [Lexeme.scanString.inside, Bool.and_eq_true, decide_eq_true_eq] at hc
    have hmore := ih (At.past (w := [c]) h) hfits hw
    rw [past_past] at hmore
    rw [At.scanString_cons h hfits, if_neg hc.2, if_neg hc.1]
    exact hmore

theorem At.scanString (h : l.At front ['"'] ahead) (hfits : m.Fits l.input) :
    Agrees l ['"'] ahead (Lexeme.scanString ahead) (l.scanString m) := by
  have hinside := List.all_eq_true.mp (List.all_takeWhile (l := ahead) (p := scanString.inside))
  have hend := head?_dropWhile scanString.inside ahead
  have hahead := List.takeWhile_append_dropWhile (p := scanString.inside) (l := ahead)
  unfold Lexeme.scanString
  -- the loop stops behind the inside, at a quote, at the end of the line or of the text
  generalize ahead.takeWhile scanString.inside = w at *
  generalize ahead.dropWhile scanString.inside = rest at *
  subst hahead
  rw [h.scanString_past hfits hinside]
  cases rest with
  | nil =>
    rw [h.past.scanString_nil]
    exact .fail l ['"'] w [] .unterminatedString
  | cons c rest =>
    rw [h.past.scanString_cons hfits]
    have hc := hend c rfl
    rw [past_past]
    by_cases hquote : c = '"'
    · subst hquote
      have hword : l.At front ['"'] ((w ++ ['"']) ++ rest) := by simpa using h
      simpa using Agrees.emit .stringLit hword rfl
    · obtain rfl : c = '\n' := by simpa [scanString.inside, hquote] using hc
      simpa using Agrees.fail l ['"'] (w ++ ['\n']) rest .unterminatedString

/-! ## §4 Integers -/

theorem At.endInteger (sign : List Char) {cs ds : List Char} (h : l.At front word (w ++ rest))
    (hfits : m.Fits l.input) (hdigits : Lexeme.digits cs = (ds, rest))
    (hword : sign ++ ds = word ++ w) :
    Agrees l word (w ++ rest) (Lexeme.scanInteger sign cs) ((l.past w).endInteger m) := by
  have hpast := h.past
  rw [ByteLexer.endInteger, hpast.peek]
  cases rest with
  | nil =>
    simp only [Lexeme.scanInteger, hdigits, hword]
    exact .emit .integerLit h rfl
  | cons c rest =>
    simp only [Lexeme.scanInteger, hdigits, hword, List.head?_cons, Option.bind_eq_bind,
      Option.bind_some]
    split
    · have := Agrees.fail l word (w ++ [c]) rest (.integerTail c)
      rw [List.append_assoc, ← past_past] at this
      rw [hpast.add hfits, Option.bind_some]
      exact this
    · exact .emit .integerLit h rfl

theorem At.scanDigits (sign : List Char) {d : Char} (h : l.At front (sign ++ [d]) ahead)
    (hfits : m.Fits l.input) (hd : d.isDigit = true) :
    Agrees l (sign ++ [d]) ahead (Lexeme.scanInteger sign (d :: ahead))
      (l.scanDigits m (d = '0')) := by
  rw [ByteLexer.scanDigits, h.peek, h.peekSecond]
  simp only [Option.bind_eq_bind, Option.bind_some]
  split
  · next hhex =>
    obtain ⟨x, xs, rfl, hdigits⟩ := digits_of_hex hhex
    have hxs := List.takeWhile_append_dropWhile (p := Text.isHexDigit) (l := xs)
    have hpast := At.past (w := [x]) h
    rw [h.advance_cons hfits, Option.bind_some, hpast.skipWhile hfits, Option.bind_some, past_past]
    rw [← hxs] at h
    have := At.endInteger (w := x :: xs.takeWhile Text.isHexDigit) sign h hfits hdigits (by simp)
    rwa [List.cons_append, hxs] at this
  · next hhex =>
    have hahead := List.takeWhile_append_dropWhile (p := Char.isDigit) (l := ahead)
    rw [h.skipWhile hfits, Option.bind_some]
    rw [← hahead] at h
    have := At.endInteger (w := ahead.takeWhile Char.isDigit) sign h hfits
      (digits_of_not_hex hd hhex) (by simp)
    rwa [hahead] at this

theorem At.first {c : Char} (h : l.At front (c :: word) ahead) (hc : c.utf8Size = 1) :
    Text.byte? l.input l.start = some c.toUInt8 := by
  have hinput : l.input.toList = front ++ c :: (word ++ ahead) := by
    rw [h.input, List.append_assoc, List.cons_append]
  rw [h.start, Text.byte?_of_toList_eq hinput hc]

theorem At.scanInteger_digit {c : Char} (h : l.At front [c] ahead) (hfits : m.Fits l.input)
    (hc : c.isDigit = true) :
    Agrees l [c] ahead (Lexeme.scanInteger [] (c :: ahead)) (l.scanInteger m) := by
  have hsize := utf8Size_of_isDigit hc
  have hminus : ¬ c.toUInt8 = '-'.toUInt8 := by
    rw [toUInt8_eq_iff hsize rfl]
    rintro rfl
    cases hc
  have hzero : decide (c.toUInt8 = '0'.toUInt8) = decide (c = '0') :=
    decide_eq_decide.mpr (toUInt8_eq_iff hsize rfl)
  simp only [ByteLexer.scanInteger, h.first hsize, Option.bind_eq_bind, Option.bind_some,
    if_neg hminus, hzero]
  exact At.scanDigits [] h hfits hc

theorem At.scanInteger_minus {c : Char} (h : l.At front ['-'] (c :: ahead))
    (hfits : m.Fits l.input) (hc : c.isDigit = true) :
    Agrees l ['-'] (c :: ahead) (Lexeme.scanInteger ['-'] (c :: ahead)) (l.scanInteger m) := by
  simp only [ByteLexer.scanInteger, h.first rfl, h.peek, h.advance_cons hfits,
    Option.bind_eq_bind, Option.bind_some, if_true, List.head?_cons, Option.some.injEq]
  exact Agrees.past (v := [c]) (At.scanDigits ['-'] (At.past (w := [c]) h) hfits hc)

/-! ## §5 Names -/

/-- By induction on what is ahead, a segment at a time. -/
theorem At.skipWord (h : l.At front word ahead) (hfits : m.Fits l.input) (qualified : Bool) :
    l.skipWord m qualified =
      some (qualified || decide ('.' ∈ (spanWord ahead).1), l.past (spanWord ahead).1) := by
  induction hn : ahead.length using Nat.strongRecOn generalizing l word ahead qualified with
  | ind n ih =>
    have hcs := List.takeWhile_append_dropWhile (p := isIdentContinue) (l := ahead)
    have hall := List.all_eq_true.mp (List.all_takeWhile (l := ahead) (p := isIdentContinue))
    have hend := head?_dropWhile isIdentContinue ahead
    have hskip := h.skipWhile hfits isIdentContinue
    generalize ahead.takeWhile isIdentContinue = segment at *
    generalize ahead.dropWhile isIdentContinue = rest at *
    subst hcs
    have hpast := h.past
    have hspan := spanWord_append_of_continue hall rest
    rw [spanWord_of_not_continue hend] at hspan
    rw [ByteLexer.skipWord]
    split
    · next hnone =>
      rw [hskip] at hnone
      cases hnone
    · next l₁ hsome =>
      rw [hskip] at hsome
      cases hsome
      rw [hpast.peek, hpast.peekSecond]
      dsimp only
      -- behind the segment, a dot may go on with the name
      by_cases hdot : (rest.head? = some '.' && rest.tail.head?.any isIdentStart) = true
      · rw [if_pos hdot] at hspan ⊢
        simp only [Bool.and_eq_true, decide_eq_true_eq] at hdot
        obtain ⟨tail, rfl⟩ := List.head?_eq_some_iff.mp hdot.1
        have hlt : tail.length < n := by
          rw [← hn, List.length_append, List.length_cons]
          omega
        split
        · next hadvance =>
          rw [hpast.advance_cons hfits] at hadvance
          cases hadvance
          have hmore := ih tail.length hlt (At.past (w := ['.']) hpast) hfits true rfl
          rw [hmore, hspan, past_past, past_past]
          simp
        · next hstop => exact absurd (hpast.advance_cons hfits) (hstop _ _)
      · rw [if_neg hdot] at hspan ⊢
        rw [hspan, List.append_nil]
        simp [dot_notMem_of_continue hall]

theorem At.scanWord {c : Char} (h : l.At front [c] ahead) (hfits : m.Fits l.input)
    (hc : isIdentStart c = true) :
    Agrees l [c] ahead (.ok (Lexeme.scanWord (c :: ahead))) (l.scanWord m) := by
  have hcontinue := isIdentContinue_of_isIdentStart hc
  have hword : spanWord (c :: ahead) = (c :: (spanWord ahead).1, (spanWord ahead).2) :=
    spanWord_append_of_continue (s := [c]) (by simpa using hcontinue) ahead
  have hdot : '.' ∈ c :: (spanWord ahead).1 ↔ '.' ∈ (spanWord ahead).1 := by
    rw [List.mem_cons, or_iff_right]
    rintro rfl
    cases hcontinue
  have hahead := spanWord_append ahead
  rw [ByteLexer.scanWord, h.skipWord hfits, Lexeme.scanWord, hword]
  simp only [Option.bind_eq_bind, Option.bind_some, Bool.false_or, decide_eq_true_eq, wordKind,
    hdot]
  generalize (spanWord ahead).1 = w at *
  generalize (spanWord ahead).2 = rest at *
  subst hahead
  have hpast := h.past
  have htext : Text.between? (l.past w).input (l.past w).start (l.past w).pos =
      some (String.ofList (c :: w)) := by
    rw [hpast.pos, hpast.start]
    exact Text.between?_of_toList_eq hpast.input
  rw [htext, Option.bind_some]
  by_cases hqualified : '.' ∈ w
  · rw [if_pos hqualified, if_pos hqualified]
    exact .emit .qualified h rfl
  · rw [if_neg hqualified, if_neg hqualified]
    cases Keyword.ofText? (String.ofList (c :: w)) with
    | some k => exact .emit (.keyword k) h rfl
    | none =>
      dsimp only
      split
      · exact .emit .booleanLit h rfl
      · exact .emit .identifier h rfl

/-! ## §6 Which scanner is used -/

/-- Behind its first character a token is read as the library reads it. -/
theorem At.scanBehind {c : Char} (h : l.At front [c] ahead) (hfits : m.Fits l.input)
    (hbraces : l.braceDepth ≤ l.start) (hangles : l.mapDepth ≤ l.start) :
    Agrees l [c] ahead (Lexeme.scan (c :: ahead)) (l.scanBehind m c) := by
  unfold ByteLexer.scanBehind
  split
  · next kind hkind =>
    rw [scan_mark (punctuation?_eq_some_iff.mp hkind)]
    exact h.scanMark hfits hbraces hangles kind
  · next hnone =>
    simp only [Lexeme.scan, hnone, h.peek, Option.bind_eq_bind, Option.bind_some]
    by_cases hquote : c = '"'
    · subst hquote
      exact h.scanString hfits
    rw [if_neg hquote, if_neg hquote]
    by_cases hslash : c = '/'
    · subst hslash
      exact h.scanComment hfits
    rw [if_neg hslash, if_neg hslash]
    by_cases hdigit : c.isDigit = true
    · rw [if_pos hdigit, if_pos (by rw [hdigit, Bool.or_true])]
      exact h.scanInteger_digit hfits hdigit
    rw [if_neg hdigit, Bool.eq_false_iff.mpr hdigit, Bool.or_false]
    by_cases hminus : (c = '-' && ahead.head?.any Char.isDigit) = true
    · rw [if_pos hminus, if_pos hminus]
      simp only [Bool.and_eq_true, decide_eq_true_eq] at hminus
      obtain ⟨rfl, hany⟩ := hminus
      obtain ⟨d, hd, hisDigit⟩ := Option.any_eq_true _ _ |>.mp hany
      obtain ⟨ds, rfl⟩ := List.head?_eq_some_iff.mp hd
      exact h.scanInteger_minus hfits hisDigit
    rw [if_neg hminus, if_neg hminus]
    by_cases hstart : isIdentStart c = true
    · rw [if_pos hstart, if_pos hstart]
      exact h.scanWord hfits hstart
    rw [if_neg hstart, if_neg hstart]
    exact .fail l [c] [] ahead (.unrecognized c)

end

end ByteLexer

end ProtoSchema
