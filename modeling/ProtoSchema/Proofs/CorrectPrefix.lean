import ProtoSchema.Proofs.Completion
import ProtoSchema.Proofs.Language

/-!
# Correct prefixes

A fault is reported where it is: what stands before it in the text can be completed to a text that
is read as a file (`parseText_error_prefix_completes`).  The tokens that complete it are known; here
they are written out, each on a line of its own.  A text that is cut off by a line feed in front of
a token has the tokens before that one, since no lexeme needs more than what stands before the next
(`Stream.exists_cut`).

* §1 cutting a text in front of a token, §2 writing out closers, §3 completing a text.
-/

namespace ProtoSchema

open ProtoSchema.Parser ProtoSchema.Grammar Lexeme

/-! ## §1 Cutting a text -/

theorem Cursor.skipBlanks_newline (offset : Nat) (cs : List Char) :
    (⟨offset, '\n' :: cs⟩ : Cursor).skipBlanks = (⟨offset + 1, cs⟩ : Cursor).skipBlanks := by
  have hnewline : ∀ d ∈ ['\n'], isBlank d = true := List.forall_mem_singleton.mpr rfl
  exact skipBlanks_append offset hnewline cs

/-- `sp` is the text at the place `c` up to the token behind `pre`, and `rest` stands there.  Text
that may replace `rest` has its tokens behind `pre` too. -/
structure SplitAt (c : Cursor) (b b' : Brackets) (pre : List Token) (sp rest : List Char) :
    Prop where
  rest_eq : c.rest = sp ++ rest
  passes : Passes b pre b'
  resume : ∀ tail us, Replaces rest tail → Stream ⟨c.offset + Text.utf8Length sp, tail⟩ b' us →
    Stream ⟨c.offset, sp ++ tail⟩ b (pre ++ us)

/-- A text can be split in front of each of its tokens: by induction on the tokens before it. -/
theorem Stream.exists_splitAt {c : Cursor} {b : Brackets} {pre ts : List Token}
    (h : Stream c b (pre ++ ts)) (hts : ts ≠ []) :
    ∃ sp rest b', SplitAt c b b' pre sp rest ∧ (∀ d ∈ rest.head?, isBlank d = false) ∧
      Stream ⟨c.offset + Text.utf8Length sp, rest⟩ b' ts := by
  induction pre generalizing c b with
  | nil =>
    have hhead := head?_dropWhile isBlank c.rest
    refine ⟨c.rest.takeWhile isBlank, c.skipBlanks.rest, b, ⟨c.rest_eq, .nil, ?_⟩, hhead, ?_⟩
    · intro tail us _ hus
      exact hus.of_skipBlanks_eq (Cursor.skipBlanks_append _ (isBlank_of_mem_takeWhile _) _).symm
    · exact h.of_skipBlanks_eq (Cursor.skipBlanks_of_head _ hhead).symm
  | cons u pre ih =>
    rw [List.cons_append] at h
    generalize hmore : pre ++ ts = us at h
    cases h with
    | @token _ _ b₁ l _ hrest hscan hpass hstream =>
      subst hmore
      obtain ⟨sp, rest, b', ⟨hl, hpasses, hresume⟩, hhead, hbehind⟩ := ih hstream
      obtain ⟨d, ds, hd⟩ := List.exists_cons_of_ne_nil hrest
      have hoffset : c.offset + Text.utf8Length (c.rest.takeWhile isBlank ++ (l.text ++ sp)) =
          c.skipBlanks.offset + Text.utf8Length l.text + Text.utf8Length sp := by
        simp only [Text.utf8Length_append, Cursor.skipBlanks, Nat.add_assoc]
      refine ⟨c.rest.takeWhile isBlank ++ (l.text ++ sp), rest, b',
        ⟨?_, .cons hpass hpasses, ?_⟩, hhead, hoffset ▸ hbehind⟩
      · have hl : l.rest = sp ++ rest := hl
        conv => lhs; rw [c.rest_eq, ← text_append_rest hscan, hl]
        simp
      · intro tail us htail hus
        rw [hoffset] at hus
        have hagain := scan_replace (hd ▸ hscan) hl htail
        simpa using Stream.token_before hrest hscan hpass hagain (hresume tail us htail hus)
    | _ =>
      -- nothing stands behind a token that ends a stream
      simp [hts] at hmore

/-- The text `sp` at the place `c`, up to `offset`, has the tokens `pre` and leaves `b'` open, and
behind a line feed other text may follow it. -/
structure Cut (c : Cursor) (b b' : Brackets) (pre : List Token) (offset : Nat) (sp : List Char) :
    Prop where
  start : sp <+: c.rest
  offset_eq : offset = c.offset + Text.utf8Length sp
  passes : Passes b pre b'
  resume : ∀ w us, Stream ⟨offset + 1, w⟩ b' us → Stream ⟨c.offset, sp ++ '\n' :: w⟩ b (pre ++ us)

/-- The first token stands behind the blanks. -/
theorem Stream.offset_head {c : Cursor} {b : Brackets} {t : Token} {ts : List Token}
    (h : Stream c b (t :: ts)) : t.offset = c.skipBlanks.offset := by
  cases h <;> rfl

/-- A text can be cut off by a line feed in front of each of its tokens. -/
theorem Stream.exists_cut {c : Cursor} {b : Brackets} {pre post : List Token} {t : Token}
    (h : Stream c b (pre ++ t :: post)) : ∃ sp b', Cut c b b' pre t.offset sp := by
  obtain ⟨sp, rest, b', ⟨hrest, hpasses, hresume⟩, hhead, hstream⟩ :=
    h.exists_splitAt (List.cons_ne_nil t post)
  have hoffset : t.offset = c.offset + Text.utf8Length sp := by
    rw [hstream.offset_head, Cursor.skipBlanks_of_head _ hhead]
  rw [hoffset]
  refine ⟨sp, b', ⟨rest, hrest.symm⟩, rfl, hpasses, fun w us hus => ?_⟩
  refine hresume _ us (replaces_newline rest w) ?_
  exact hus.of_skipBlanks_eq (Cursor.skipBlanks_newline _ w).symm

/-! ## §2 Writing out closers -/

/-- Closers, each on a line. -/
def writeOut (cs : List Token) : List Char := cs.flatMap fun c => c.text.toList ++ ['\n']

theorem scan_closer : ∀ c ∈ closers, scan c.text.toList = .ok ⟨c.kind, c.text.toList, []⟩ := by
  decide

theorem exists_head_closer {c : Token} (hc : c ∈ closers) :
    ∃ d ds, c.text.toList = d :: ds ∧ isBlank d = false := by
  have hhead : ∀ c ∈ closers, c.text.toList.head?.any (fun d => !isBlank d) = true := by decide
  obtain ⟨d, hd, hblank⟩ := Option.any_eq_true _ _ |>.mp (hhead c hc)
  obtain ⟨ds, hds⟩ := List.head?_eq_some_iff.mp hd
  exact ⟨d, ds, hds, by simpa using hblank⟩

/-- A closer at the front of a line is read as itself. -/
theorem stream_closer {c : Token} (hc : c ∈ closers) {b b' : Brackets}
    (hpass : b.pass c.kind = .ok b') {o : Nat} {w : List Char} {us : List Token}
    (h : Stream ⟨o + Text.utf8Length c.text.toList + 1, w⟩ b' us) :
    Stream ⟨o, c.text.toList ++ '\n' :: w⟩ b (⟨c.kind, o, c.text⟩ :: us) := by
  obtain ⟨d, ds, hd, hblank⟩ := exists_head_closer hc
  have hscan := scan_closer c hc
  have hscan' : scan (c.text.toList ++ '\n' :: w) = .ok ⟨c.kind, c.text.toList, '\n' :: w⟩ := by
    rw [hd] at hscan
    have := @scan_before_newline d ds [] [] _ hscan rfl w
    rwa [← hd] at this
  have hmore : Stream ⟨o + Text.utf8Length c.text.toList, '\n' :: w⟩ b' us :=
    h.of_skipBlanks_eq (Cursor.skipBlanks_newline _ w).symm
  have hstream := Stream.token_here ⟨d, ds, hd, hblank⟩ hscan' hpass hmore
  rwa [String.ofList_toList] at hstream

/-- Closers that pass the brackets are the tokens of what they are written out as. -/
theorem stream_writeOut {cs : List Token} (hcs : ∀ c ∈ cs, c ∈ closers) {b b' : Brackets}
    (h : Passes b cs b') (o : Nat) :
    ∃ us last, Stream ⟨o, writeOut cs⟩ b (us ++ [last]) ∧ last.kind = .endOfInput ∧
      us.map Token.word = cs.map Token.word := by
  induction h generalizing o with
  | nil => exact ⟨[], _, .ended rfl, rfl, rfl⟩
  | @cons b b₁ b' c cs hpass _ ih =>
    obtain ⟨hc, hcs⟩ := List.forall_mem_cons.mp hcs
    obtain ⟨us, last, hstream, hlast, hwords⟩ := ih hcs (o + Text.utf8Length c.text.toList + 1)
    refine ⟨⟨c.kind, o, c.text⟩ :: us, last, ?_, hlast, ?_⟩
    · simpa [writeOut] using stream_closer hc hpass hstream
    · rw [List.map_cons, List.map_cons, hwords]
      rfl

/-! ## §3 Completing a text -/

/-- Comments do not open or close brackets. -/
theorem passes_significant {b b' : Brackets} {ts : List Token} (h : Passes b ts b') :
    Passes b (significant ts) b' := by
  induction h with
  | nil => exact .nil
  | @cons b b₁ b' t ts ht _ ih =>
    by_cases hcomment : t.kind = .comment
    · rw [hcomment] at ht
      cases ht
      simpa [significant, hcomment] using ih
    · have hkeep : significant (t :: ts) = t :: significant ts := by simp [significant, hcomment]
      rw [hkeep]
      exact .cons ht ih

/-- A token that is no comment, and the tokens before it, comments among them. -/
theorem exists_split_of_significant {ts before after : List Token} {t : Token}
    (h : significant ts = before ++ t :: after) :
    ∃ pre post, ts = pre ++ t :: post ∧ significant pre = before := by
  obtain ⟨pre, rest, rfl, hpre, hrest⟩ := List.filter_eq_append_iff.mp h
  obtain ⟨comments, post, rfl, hcomments, -, -⟩ := List.filter_eq_cons_iff.mp hrest
  refine ⟨pre ++ comments, post, by simp, ?_⟩
  have hnone : significant comments = [] := List.filter_eq_nil_iff.mpr hcomments
  rw [significant_append, hnone, List.append_nil]
  exact hpre

/-- A text with nothing in it can be completed. -/
theorem completes_nothing : ∃ f, (parseText "syntax=\"proto3\";").value = .ok f :=
  ⟨⟨.proto3, [], ⟨0, 16⟩⟩, by decide +kernel⟩

/-- Closers that complete the tokens before `t` complete the text before it, written out behind a
line feed. -/
theorem parseText_writeOut {source : String} {pre post cs : List Token} {t : Token} {f : File}
    (htokens : tokenize source = pre ++ t :: post)
    (hallows : Repair.passing.allows (significant pre) cs)
    (hreads : (file nestingLimit).Reads (significant pre ++ (cs ++ [endToken])) f) :
    ∃ sp rest, source.toList = sp ++ rest ∧ t.offset = Text.utf8Length sp ∧
      ∃ f', (parseText (String.ofList (sp ++ '\n' :: writeOut cs))).value = .ok f' := by
  have hstream := stream_tokenize source
  obtain ⟨all, end₀, hall, -, hlast⟩ := hstream.exists_last
  rw [htokens] at hstream hall
  obtain ⟨sp, b', ⟨rest, hrest⟩, hoffset, hpasses, hresume⟩ := hstream.exists_cut
  obtain ⟨b'', hclosing⟩ := hallows.2 {} b' (passes_significant hpasses)
  obtain ⟨us, last, hus, hend, hwords⟩ := stream_writeOut hallows.1 hclosing (t.offset + 1)
  refine ⟨sp, rest, hrest.symm, by simpa using hoffset, ?_⟩
  have htokens' : tokenize (String.ofList (sp ++ '\n' :: writeOut cs)) = (pre ++ us) ++ [last] := by
    have h := stream_iff.mp (hresume _ _ hus)
    rw [tokenize, Lexer.ofString, Lexer.ofList, String.toList_ofList, List.append_assoc]
    exact h.symm
  -- the closers stand elsewhere now, but they are the same words
  have hpre : ∀ u ∈ significant pre, u.Ordinary := by
    have hlength := congrArg List.length hall
    simp only [List.length_append, List.length_cons, List.length_nil] at hlength
    have hstart : pre <+: all := List.prefix_of_prefix_length_le
      (hall ▸ List.prefix_append _ _) (List.prefix_append _ _) (by omega)
    exact ordinary_of_mem_significant fun u hu => hlast u (hstart.subset hu)
  have hderives : Derives nestingLimit (significant pre ++ cs) f.declarations := by
    rw [← List.append_assoc] at hreads
    refine ((reads_file_iff_derives ?_ rfl).mp hreads).1
    exact List.forall_mem_append.mpr ⟨hpre, fun c hc => closer_ordinary (hallows.1 c hc)⟩
  have hsignificant : significant us = us := by
    refine List.filter_eq_self.mpr ?_
    intro u hu
    obtain ⟨c, hc, hword⟩ := exists_word_of_mem hwords hu
    simpa [kind_of_word hword] using (closer_ordinary (hallows.1 c hc)).not_comment
  have hwords' : (significant (pre ++ us)).map Token.word =
      (significant pre ++ cs).map Token.word := by
    rw [significant_append, hsignificant, List.map_append, List.map_append, hwords]
  obtain ⟨nodes, hnodes, -⟩ := hderives.of_words hwords'
  exact ⟨⟨.proto3, nodes, ⟨0, last.stop⟩⟩,
    parseText_eq_ok_iff.mpr ⟨pre ++ us, last, htokens', hend, hnodes, rfl⟩⟩

/-- What stands before a fault is the start of a text that is read as a file. -/
theorem parseText_error_prefix_completes {source : String} {fault : Fault}
    (h : (parseText source).value = .error fault) :
    ∃ front back w : String, source = front ++ back ∧ front.utf8ByteSize = fault.offset ∧
      ∃ f, (parseText (front ++ w)).value = .ok f := by
  have hnothing : fault.offset = 0 → ∃ front back w : String, source = front ++ back ∧
      front.utf8ByteSize = fault.offset ∧ ∃ f, (parseText (front ++ w)).value = .ok f :=
    fun hzero => ⟨"", source, "syntax=\"proto3\";", by simp, by rw [hzero]; rfl,
      by simpa using completes_nothing⟩
  rw [parseText_value] at h
  rcases (guided_file nestingLimit 0).recovers _ not_comment_of_mem_significant fault h with
    hzero | hzero | ⟨before, t, after, cs, f, hsplit, hoffset, hallows, hreads⟩
  · exact hnothing hzero
  · exact hnothing hzero
  · obtain ⟨pre, post, htokens, rfl⟩ := exists_split_of_significant hsplit
    obtain ⟨sp, rest, hsource, hsp, f', hf'⟩ := parseText_writeOut htokens hallows hreads
    refine ⟨String.ofList sp, String.ofList rest, String.ofList ('\n' :: writeOut cs), ?_, ?_, f',
      ?_⟩
    · rw [← String.ofList_append, ← hsource, String.ofList_toList]
    · rw [Text.utf8ByteSize_ofList, hoffset, hsp]
    · rwa [← String.ofList_append]

theorem cut_map_prefix_completes :
    ∃ front back w : String,
      "syntax=\"proto3\";message M\x7bmap<a,\x7d" = front ++ back ∧ front.utf8ByteSize = 32 ∧
        ∃ f, (parseText (front ++ w)).value = .ok f :=
  parseText_error_prefix_completes
    (show (parseText "syntax=\"proto3\";message M\x7bmap<a,\x7d").value =
      .error (.unexpected 32 "identifier" "\"\x7d\"") by decide +kernel)

end ProtoSchema
