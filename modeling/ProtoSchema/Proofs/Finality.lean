import ProtoSchema.Proofs.Blame
import ProtoSchema.Proofs.CorrectPrefix

/-!
# Faults are final

A fault that is found on complete lines stays, whatever lines come after them
(`parseText_error_final`).  A line feed ends every lexeme, so what follows it changes none of the
tokens before it but the end of input (`tokenize_append_newline`); and the parser has not looked
behind the token that it failed at.

* §1 streams of complete lines, §2 tokens of complete lines, §3 faults.
-/

namespace ProtoSchema

open ProtoSchema.Parser ProtoSchema.Grammar Lexeme

/-! ## §1 Streams of complete lines -/

/-- Text behind the one at a place is no matter, as long as some of it is left behind the blanks. -/
theorem Cursor.skipBlanks_append_of_rest {c : Cursor} (hrest : c.skipBlanks.rest ≠ [])
    (cs : List Char) :
    (⟨c.offset, c.rest ++ cs⟩ : Cursor).skipBlanks =
      ⟨c.skipBlanks.offset, c.skipBlanks.rest ++ cs⟩ := by
  obtain ⟨d, ds, hd⟩ := List.exists_cons_of_ne_nil hrest
  have hblank : isBlank d = false := isBlank_of_skipBlanks hd
  conv => lhs; rw [c.rest_eq, List.append_assoc]
  rw [skipBlanks_append _ (isBlank_of_mem_takeWhile _)]
  apply skipBlanks_of_head
  rw [hd]
  rintro _ ⟨⟩
  exact hblank

theorem scan_append_newline {cs : List Char} {l : Lexeme} (hcs : cs ≠ []) (h : scan cs = .ok l)
    (w : List Char) : scan (cs ++ '\n' :: w) = .ok { l with rest := l.rest ++ '\n' :: w } := by
  obtain ⟨d, ds, rfl⟩ := List.exists_cons_of_ne_nil hcs
  have hscan := scan_before_newline h (List.append_nil l.rest).symm w
  rwa [← List.append_assoc, text_append_rest h] at hscan

theorem scan_fault_append_newline {cs : List Char} {fault : LexFault} (hcs : cs ≠ [])
    (h : scan cs = .error fault) (w : List Char) : scan (cs ++ '\n' :: w) = .error fault := by
  obtain ⟨d, ds, rfl⟩ := List.exists_cons_of_ne_nil hcs
  exact scan_fault_before_newline h w

/-- The tokens of a text that ends in an error are those of the text with more lines behind it. -/
theorem Stream.append_of_error {c : Cursor} {b : Brackets} {ts : List Token} (h : Stream c b ts)
    (hts : ∀ t ∈ ts, t.kind ≠ .endOfInput) (w : List Char) :
    Stream ⟨c.offset, c.rest ++ '\n' :: w⟩ b ts := by
  induction h with
  | ended => exact absurd rfl (hts _ List.mem_cons_self)
  | @unread c b fault hrest hscan =>
    have hskip := Cursor.skipBlanks_append_of_rest hrest ('\n' :: w)
    have hstream := Stream.unread (c := ⟨c.offset, c.rest ++ '\n' :: w⟩) (b := b)
      (by rw [hskip]; simp) (by rw [hskip]; exact scan_fault_append_newline hrest hscan w)
    rwa [hskip] at hstream
  | @refused c b l fault hrest hscan hpass =>
    have hskip := Cursor.skipBlanks_append_of_rest hrest ('\n' :: w)
    have hstream := Stream.refused (c := ⟨c.offset, c.rest ++ '\n' :: w⟩) (b := b)
      (l := { l with rest := l.rest ++ '\n' :: w }) (by rw [hskip]; simp)
      (by rw [hskip]; exact scan_append_newline hrest hscan w) hpass
    rwa [hskip] at hstream
  | @token c b b' l ts hrest hscan hpass _ ih =>
    have hskip := Cursor.skipBlanks_append_of_rest hrest ('\n' :: w)
    have hmore := ih (List.forall_mem_cons.mp hts).2
    have hstream := Stream.token (c := ⟨c.offset, c.rest ++ '\n' :: w⟩) (b := b)
      (l := { l with rest := l.rest ++ '\n' :: w }) (by rw [hskip]; simp)
      (by rw [hskip]; exact scan_append_newline hrest hscan w) hpass
      (by rw [hskip]; exact hmore)
    rwa [hskip] at hstream

/-- More lines behind a text that ends without an error go on where it ended, with the brackets that
it left open. -/
theorem Stream.append_of_end {c : Cursor} {b : Brackets} {before : List Token} {last : Token}
    (h : Stream c b (before ++ [last])) (hlast : last.kind = .endOfInput) :
    ∃ b', Passes b before b' ∧ ∀ w us,
      Stream ⟨c.offset + Text.utf8Length c.rest + 1, w⟩ b' us →
        Stream ⟨c.offset, c.rest ++ '\n' :: w⟩ b (before ++ us) := by
  obtain ⟨sp, b', hcut⟩ := h.exists_cut
  have hoffset := (h.endOfInput last (by simp) hlast).1
  -- the end of input is cut off in front of, behind all of the text
  obtain ⟨rest, hrest⟩ := hcut.start
  have hempty : rest = [] := by
    have hlength := congrArg Text.utf8Length hrest
    rw [Text.utf8Length_append] at hlength
    have hend := hcut.offset_eq
    exact Text.eq_nil_of_utf8Length_eq_zero (by omega)
  rw [hempty, List.append_nil] at hrest
  subst hrest
  refine ⟨b', hcut.passes, ?_⟩
  intro w us hus
  rw [← hoffset] at hus
  exact hcut.resume w us hus

/-! ## §2 Tokens of complete lines -/

theorem error_or_endOfInput {kind : TokenKind} (h : kind.isLast = true) :
    kind = .error ∨ kind = .endOfInput := by
  cases kind <;> simp_all [TokenKind.isLast]

section

variable {u : String} {before : List Token} {last : Token}

/-- More lines change nothing behind an error. -/
theorem tokenize_append_newline_of_error (h : tokenize u = before ++ [last])
    (hlast : last.kind = .error) (w : String) :
    tokenize (u ++ "\n" ++ w) = before ++ [last] := by
  have hstream := stream_tokenize u
  rw [h] at hstream
  obtain ⟨before', last', heq, -, hbefore⟩ := hstream.exists_last
  obtain ⟨rfl, -⟩ := List.append_inj' heq rfl
  have hends : ∀ t ∈ before ++ [last], t.kind ≠ .endOfInput := by
    refine List.forall_mem_append.mpr ⟨fun t ht hkind => ?_, by simp [hlast]⟩
    have := hbefore t ht
    rw [hkind] at this
    cases this
  have hmore := stream_iff.mp (hstream.append_of_error hends w.toList)
  have hlines : (u ++ "\n" ++ w).toList = u.toList ++ '\n' :: w.toList := by simp
  rw [tokenize, Lexer.ofString, hlines]
  exact hmore.symm

/-- The tokens of more lines take the place of the end of input. -/
theorem tokenize_append_newline_of_end (h : tokenize u = before ++ [last])
    (hlast : last.kind = .endOfInput) :
    ∃ b, Passes {} before b ∧ ∀ w : String, tokenize (u ++ "\n" ++ w) =
      before ++ (Lexer.at ⟨u.utf8ByteSize + 1, w.toList⟩ b).tokens := by
  have hstream := stream_tokenize u
  rw [h] at hstream
  obtain ⟨b, hpasses, hmore⟩ := hstream.append_of_end hlast
  refine ⟨b, hpasses, ?_⟩
  intro w
  have hbehind := stream_iff.mp (hmore w.toList _ (stream_tokens _ _))
  have hlines : (u ++ "\n" ++ w).toList = u.toList ++ '\n' :: w.toList := by simp
  rw [Nat.zero_add, Text.utf8Length_toList] at hbehind
  rw [tokenize, Lexer.ofString, hlines]
  exact hbehind.symm

end

/-- More lines take the place of the end of input, and change nothing if there is none. -/
theorem tokenize_append_newline (u : String) :
    (∃ before last, tokenize (u ++ "\n") = before ++ [last] ∧ last.kind = .endOfInput ∧
      last.offset = u.utf8ByteSize + 1 ∧
      ∀ w : String, before <+: tokenize (u ++ "\n" ++ w)) ∨
    ∀ w : String, tokenize (u ++ "\n" ++ w) = tokenize (u ++ "\n") := by
  have hnone : u ++ "\n" ++ "" = u ++ "\n" := String.append_empty
  obtain ⟨before, last, htokens, hlast, -⟩ := (stream_tokenize u).exists_last
  rcases error_or_endOfInput hlast with herror | hend
  · right
    intro w
    rw [← hnone, tokenize_append_newline_of_error htokens herror,
      hnone, tokenize_append_newline_of_error htokens herror]
  · left
    obtain ⟨b, -, hmore⟩ := tokenize_append_newline_of_end htokens hend
    refine ⟨before, ⟨.endOfInput, u.utf8ByteSize + 1, ""⟩, ?_, rfl, rfl, ?_⟩
    · rw [← hnone, hmore, tokens_of_ended rfl]
      rfl
    · intro w
      exact ⟨_, (hmore w).symm⟩

/-! ## §3 Faults -/

/-- A fault that is not about the end of input stays, whatever follows on further lines. -/
theorem parseText_error_final {u w : String} {fault : Fault}
    (h : (parseText (u ++ "\n")).value = .error fault)
    (hoffset : fault.offset < u.utf8ByteSize + 1) :
    (parseText (u ++ "\n" ++ w)).value = .error fault := by
  obtain ⟨used, t, rest, hsplit, habout, hrest⟩ := parseText_fault_about h
  rw [parseText_value] at h ⊢
  rcases tokenize_append_newline u with ⟨before, last, htokens, hlast, hend, hmore⟩ | hsame
  · rw [htokens, significant_concat (by rw [hlast]; rfl)] at h hsplit hrest
    -- the token to blame is not the last one, which stands too far behind
    rcases List.eq_nil_or_concat rest with rfl | ⟨rest, last', rfl⟩
    · obtain ⟨-, ht⟩ := List.append_inj' hsplit rfl
      obtain rfl := (List.cons.inj ht).1
      rw [habout.offset_eq, hend] at hoffset
      exact absurd hoffset (Nat.lt_irrefl _)
    · have hends : significant before ++ [last] = (used ++ t :: rest) ++ [last'] := by
        simpa using hsplit
      obtain ⟨hbefore, -⟩ := List.append_inj' hends rfl
      obtain ⟨more, hmore⟩ := hmore w
      have hlocal := (file nestingLimit).run_local (used ++ [t]) (rest.concat last')
      have hused : used ++ [t] ++ rest.concat last' = significant before ++ [last] := by
        simpa using hsplit.symm
      rw [Outcome.LocalAt, hused] at hlocal
      have hrun := hlocal hrest (.inr (by rw [hrest]; simp)) (rest ++ significant more)
      have hsplit' : used ++ t :: rest ++ significant more =
          used ++ [t] ++ (rest ++ significant more) := by simp
      rw [← hmore, significant_append, hbefore, hsplit', hrun]
      exact h
  · rw [hsame w]
    exact h

theorem cut_map_error_final :
    (parseText ("syntax=\"proto3\";message M\x7bmap<a;" ++ "\n")).value =
        .error (.unexpected 31 "','" "\";\"") ∧
      (parseText ("syntax=\"proto3\";message M\x7bmap<a;" ++ "\n" ++ "/*")).value =
        .error (.unexpected 31 "','" "\";\"") := by
  have h : (parseText ("syntax=\"proto3\";message M\x7bmap<a;" ++ "\n")).value =
      .error (.unexpected 31 "','" "\";\"") := by
    rw [show "syntax=\"proto3\";message M\x7bmap<a;" ++ "\n" =
      "syntax=\"proto3\";message M\x7bmap<a;\n" by simp]
    decide +kernel
  exact ⟨h, parseText_error_final h (by decide +kernel)⟩

end ProtoSchema
