import ProtoSchema.Proofs.ByteScanning
import ProtoSchema.Proofs.Tokenization

/-!
# The lexer stays inside its source

However often the lexer that stands at bytes is pulled, it has an outcome: it gives the tokens that
the library has, its two places are inside the source and between characters, and its counts of
brackets are no more than the bytes that it has read (`run_in_bounds`).  Nothing is cut inside a
character or behind the end, no sum is more than a word holds and nothing is taken from zero, and
each pull reads on or is the last.

* §1 tokens end at places that a word can number;
* §2 what holds of a lexer (`Sound`), and what one pull keeps of it;
* §3 one token, §4 pulls and runs of pulls.
-/

namespace ProtoSchema

open Lexeme

/-! ## §1 Ends of tokens -/

/-- A character takes four bytes at most. -/
theorem utf8Length_le (cs : List Char) : Text.utf8Length cs ≤ 4 * cs.length := by
  induction cs with
  | nil => exact Nat.le_refl 0
  | cons c cs ih =>
    have := c.utf8Size_le_four
    rw [Text.utf8Length_cons, List.length_cons]
    omega

theorem length_hexDigits_le (c : Char) : (Text.hexDigits c).length ≤ 6 := by
  have hvalid : c.toNat < 16 ^ 6 := by
    rcases c.valid with h | ⟨-, h⟩
    · exact Nat.lt_trans h (by decide)
    · exact Nat.lt_trans h (by decide)
  exact (Nat.length_toDigits_le_iff (by decide) (by decide)).mpr hvalid

theorem utf8ByteSize_describeChar_le (c : Char) : (Text.describeChar c).utf8ByteSize ≤ 48 := by
  have hdigits := length_hexDigits_le c
  rw [Text.describeChar, Text.utf8ByteSize_ofList]
  refine Nat.le_trans (utf8Length_le _) ?_
  simp only [List.length_cons, List.length_append, List.length_leftpad, List.length_map,
    List.length_nil]
  omega

/-- No message is longer than some hundred bytes, whatever character it shows. -/
theorem utf8ByteSize_message_le (fault : LexFault) : fault.message.utf8ByteSize ≤ 100 := by
  cases fault with
  | unopenedBrace | commaOutsideMap | unterminatedString | loneSlash => decide +kernel
  | integerTail c =>
    have hfront : "invalid character ".utf8ByteSize = 18 := by decide +kernel
    have hback : " in integer literal".utf8ByteSize = 19 := by decide +kernel
    have hchar := utf8ByteSize_describeChar_le c
    show ("invalid character " ++ Text.describeChar c ++ " in integer literal").utf8ByteSize ≤ 100
    rw [String.utf8ByteSize_append, String.utf8ByteSize_append]
    omega
  | unrecognized c =>
    have hfront : "unrecognized character ".utf8ByteSize = 23 := by decide +kernel
    have hchar := utf8ByteSize_describeChar_le c
    show ("unrecognized character " ++ Text.describeChar c).utf8ByteSize ≤ 100
    rw [String.utf8ByteSize_append]
    omega

/-- Tokens end inside the text, but for an error, which ends behind it by its message at most. -/
theorem Stream.stop_le {c : Cursor} {b : Brackets} {ts : List Token} (h : Stream c b ts) :
    ∀ t ∈ ts, t.stop ≤ c.offset + Text.utf8Length c.rest + 100 := by
  induction h with
  | @ended c b hrest =>
    have hend := c.skipBlanks_end
    refine List.forall_mem_singleton.mpr ?_
    show c.skipBlanks.offset + 0 ≤ _
    omega
  | @unread c _ fault _ _ | @refused c _ _ fault _ _ _ =>
    have hend := c.skipBlanks_end
    have hmessage := utf8ByteSize_message_le fault
    refine List.forall_mem_singleton.mpr ?_
    show c.skipBlanks.offset + fault.message.utf8ByteSize ≤ _
    omega
  | @token c b b' l ts hrest hscan _ _ ih =>
    have hend := c.skipBlanks_end
    have hlexeme := scan_end hscan
    refine List.forall_mem_cons.mpr ⟨?_, fun t ht => ?_⟩
    · rw [stop_mk]
      omega
    · have := ih t ht
      dsimp only at this
      omega

theorem stop_le_of_mem_tokenize {source : String} {t : Token} (ht : t ∈ tokenize source) :
    t.stop ≤ source.utf8ByteSize + 100 := by
  have hstop := (stream_tokenize source).stop_le t ht
  rwa [Text.utf8Length_toList, Nat.zero_add] at hstop

/-- A token opens one bracket at most. -/
theorem Brackets.le_of_pass {b b' : Brackets} {kind : TokenKind} (h : b.pass kind = .ok b') :
    b'.braces ≤ b.braces + 1 ∧ b'.angles ≤ b.angles + 1 := by
  unfold Brackets.pass at h
  grind

/-- The lexer of the library behind `n` pulls. -/
def Lexer.behind : Nat → Lexer → Lexer
  | 0, k => k
  | n + 1, k => behind n k.next.lexer

/-- The tokens of a lexer are the next one and those of the lexer behind it. -/
theorem Lexer.take_tokens_succ (k : Lexer) (n : Nat) :
    k.tokens.take (n + 1) = k.next.value.toList ++ k.next.lexer.tokens.take n := by
  cases hnext : k.next? with
  | none => simp [next, hnext, tokens_of_next?_eq_none hnext]
  | some p => simp [next, hnext, tokens_of_next?_eq_some hnext]

namespace ByteLexer

/-! ## §2 What holds of a lexer -/

section

variable {m : Machine} {l : ByteLexer} {front word rest : List Char} {source : String}
  {past : List Token}

/-- What holds of a lexer that has given the tokens `past` of `source`. -/
structure Sound (source : String) (past : List Token) (l : ByteLexer) : Prop where
  input : l.input = source
  start_le : l.start ≤ l.pos
  pos_le : l.pos ≤ source.utf8ByteSize
  /-- The token starts between two characters, and so does what is ahead. -/
  start_valid : (⟨l.start⟩ : String.Pos.Raw).IsValid source
  pos_valid : (⟨l.pos⟩ : String.Pos.Raw).IsValid source
  /-- The open braces are those that were given, less those that closed them. -/
  braces : (past.map Token.kind).count .leftBrace =
    (past.map Token.kind).count .rightBrace + l.braceDepth
  angles : openAngles (past.map Token.kind) = l.mapDepth
  braceDepth_le : l.braceDepth ≤ l.pos
  mapDepth_le : l.mapDepth ≤ l.pos

theorem Sound.after (h : Sound source past l) : l.brackets.After (past.map Token.kind) :=
  ⟨h.braces, h.angles⟩

theorem At.sound (h : l.At front word rest) (hafter : l.brackets.After (past.map Token.kind))
    (hbraces : l.braceDepth ≤ l.pos) (hangles : l.mapDepth ≤ l.pos) : Sound l.input past l where
  input := rfl
  start_le := by
    rw [h.start, h.pos]
    exact Nat.le_add_right _ _
  pos_le := by
    rw [h.size_eq]
    exact Nat.le_add_right _ _
  start_valid := (Text.exists_splits (h.input.trans (List.append_assoc _ _ _)) h.start).1
  pos_valid := (Text.exists_splits h.input h.pos_eq).1
  braces := hafter.braces
  angles := hafter.angles
  braceDepth_le := hbraces
  mapDepth_le := hangles

/-- A lexer that has moved stays sound if the token that it gave is counted. -/
theorem Sound.step {l' : ByteLexer} {t : Token} (h : Sound l.input past l)
    (hat : l'.At front word rest) (hinput : l'.input = l.input)
    (hpass : l.brackets.pass t.kind = .ok l'.brackets) (hle : l.pos ≤ l'.pos)
    (hmoved : l'.brackets = l.brackets ∨ l.pos < l'.pos) : Sound l.input (past ++ [t]) l' := by
  have hafter : l'.brackets.After ((past ++ [t]).map Token.kind) := by
    rw [List.map_append]
    exact h.after.pass hpass
  have hbraces := h.braceDepth_le
  have hangles := h.mapDepth_le
  have hbounds : l'.braceDepth ≤ l'.pos ∧ l'.mapDepth ≤ l'.pos := by
    -- a bracket more is a byte more
    rcases hmoved with hsame | hlt
    · obtain ⟨hb, ha⟩ := Brackets.mk.inj hsame
      omega
    · have hpass := Brackets.le_of_pass hpass
      simp only [brackets] at hpass
      omega
  rw [← hinput]
  exact hat.sound hafter hbounds.1 hbounds.2

/-! ## §3 One token -/

/-- The lexer `l` and the lexer `k` of the library stand at the same token: `k` has before it what
`l` has read of the token and what is ahead, and the same brackets are open. -/
structure Tracks (l : ByteLexer) (k : Lexer) : Prop where
  cursor : ∃ front word rest, l.At front word rest ∧ k.cursor = ⟨l.start, word ++ rest⟩ ∧
    (l.finished = false → word = [])
  brackets : k.brackets = ⟨l.braceDepth, l.mapDepth⟩
  finished : k.finished = l.finished

theorem Tracks.of_finished {k : Lexer} (hat : l.finish.At front word rest)
    (hcursor : k.cursor = ⟨l.start, word ++ rest⟩) (hbrackets : k.brackets = l.brackets)
    (hfinished : k.finished = true) : Tracks l.finish k where
  cursor := ⟨front, word, rest, hat, hcursor, fun hreading => by cases hreading⟩
  brackets := hbrackets
  finished := hfinished

theorem Tracks.at (hat : l.At front [] rest) (hfinished : l.finished = false) :
    Tracks l (Lexer.at ⟨l.pos, rest⟩ l.brackets) where
  cursor := by
    refine ⟨front, [], rest, hat, ?_, fun _ => rfl⟩
    rw [hat.start_eq]
    rfl
  brackets := rfl
  finished := hfinished.symm

/-- A lexer that still reads tracks the lexer of the library at its place. -/
theorem Tracks.exists_at {k : Lexer} (h : Tracks l k) (hreading : l.finished = false) :
    ∃ front rest, l.At front [] rest ∧ k = Lexer.at ⟨l.pos, rest⟩ l.brackets := by
  obtain ⟨⟨front, word, rest, hat, hcursor, hword⟩, hbrackets, hfinished⟩ := h
  obtain rfl := hword hreading
  refine ⟨front, rest, hat, ?_⟩
  obtain ⟨cursor, brackets, finished⟩ := k
  rw [hat.start_eq] at hcursor
  dsimp only at hcursor hbrackets hfinished
  rw [hcursor, hbrackets, hfinished, hreading]
  rfl

/-- Behind the tokens `past`, the lexer `l` and the lexer `k` of the library give the same token
`t`, and `l` is `l'` after that. -/
structure Yields (l : ByteLexer) (past : List Token) (k : Lexer) (t : Token) (l' : ByteLexer) :
    Prop where
  next : ∃ k', k.next? = some (t, k') ∧ Tracks l' k'
  sound : Sound l.input (past ++ [t]) l'
  progress : l.pos < l'.pos ∨ l'.finished = true

/-- The end of input and errors are the last that is given. -/
theorem Yields.of_last {k : Lexer} {t : Token} {l' : ByteLexer}
    (hsound : Sound l.input past l)
    (hat : l'.finish.At front word rest) (hinput : l'.input = l.input)
    (hbrackets : l'.brackets = l.brackets) (hle : l.pos ≤ l'.pos)
    (hkind : t.kind = .endOfInput ∨ t.kind = .error)
    (hnext : k.next? = some (t, ⟨⟨l'.start, word ++ rest⟩, l.brackets, true⟩)) :
    Yields l past k t l'.finish where
  next := ⟨_, hnext, .of_finished hat rfl hbrackets.symm rfl⟩
  sound := by
    refine hsound.step hat hinput ?_ hle (.inl hbrackets)
    rcases hkind with hkind | hkind <;> rw [hkind] <;> exact congrArg _ hbrackets.symm
  progress := .inr rfl

/-- The lexer behind the blanks of `rest`, which is ahead. -/
def behindBlanks (l : ByteLexer) (rest : List Char) : ByteLexer :=
  (l.past (rest.takeWhile isBlank)).restart

theorem pos_le_behindBlanks (l : ByteLexer) (rest : List Char) :
    l.pos ≤ (l.behindBlanks rest).pos := Nat.le_add_right _ _

theorem skipBlanks_mk (l : ByteLexer) (rest : List Char) :
    (⟨l.pos, rest⟩ : Cursor).skipBlanks =
      ⟨(l.behindBlanks rest).pos, rest.dropWhile isBlank⟩ := rfl

theorem At.skipBlanks (h : l.At front [] rest) (hfits : m.Fits l.input) :
    l.skipBlanks m = some (l.behindBlanks rest) := by
  rw [ByteLexer.skipBlanks, h.skipWhile hfits]
  rfl

theorem At.behindBlanks (h : l.At front [] rest) :
    (l.behindBlanks rest).At (front ++ rest.takeWhile isBlank) [] (rest.dropWhile isBlank) := by
  rw [← List.takeWhile_append_dropWhile (p := isBlank) (l := rest)] at h
  exact h.past.restart

/-- Where nothing but blanks is ahead, the end of input is given. -/
theorem At.scan_ended (h : l.At front [] rest) (hfits : m.Fits l.input)
    (hend : rest.dropWhile isBlank = []) :
    l.scan m =
      some (⟨.endOfInput, (l.behindBlanks rest).pos, ""⟩,
        (l.behindBlanks rest).restart.finish) := by
  have hat := h.behindBlanks
  rw [hend] at hat
  simp only [ByteLexer.scan, h.skipBlanks hfits, hat.advance_nil, Option.bind_eq_bind,
    Option.bind_some]
  exact hat.finish.emit .endOfInput

theorem At.scan_agrees (h : l.At front [] rest) (hfits : m.Fits l.input)
    (hbraces : l.braceDepth ≤ l.pos) (hangles : l.mapDepth ≤ l.pos)
    (htext : rest.dropWhile isBlank ≠ []) :
    Agrees (l.behindBlanks rest) [] (rest.dropWhile isBlank)
      (Lexeme.scan (rest.dropWhile isBlank)) (l.scan m) := by
  have hat := h.behindBlanks
  have hle := l.pos_le_behindBlanks rest
  obtain ⟨c, cs, hcs⟩ := List.exists_cons_of_ne_nil htext
  rw [hcs] at hat ⊢
  simp only [ByteLexer.scan, h.skipBlanks hfits, hat.advance_cons hfits, Option.bind_eq_bind,
    Option.bind_some]
  have hbehind := At.scanBehind (At.past (w := [c]) hat) hfits (Nat.le_trans hbraces hle)
    (Nat.le_trans hangles hle)
  exact Agrees.past (v := [c]) hbehind

/-- A token is read as the library reads it, and the lexer stays sound. -/
theorem At.scan (h : l.At front [] rest) (hfinished : l.finished = false)
    (hsound : Sound l.input past l) (hfits : m.Fits l.input) :
    ∃ t l', l.scan m = some (t, l') ∧
      Yields l past (Lexer.at ⟨l.pos, rest⟩ l.brackets) t l' := by
  have hat := h.behindBlanks
  have hle := l.pos_le_behindBlanks rest
  by_cases htext : rest.dropWhile isBlank = []
  · rw [htext] at hat
    have hnext := next?_of_ended (c := ⟨l.pos, rest⟩) (b := l.brackets) htext
    exact ⟨_, _, h.scan_ended hfits htext,
      .of_last hsound hat.restart.finish rfl rfl hle (.inl rfl) hnext⟩
  · have hagrees := h.scan_agrees hfits hsound.braceDepth_le hsound.mapDepth_le htext
    -- the same scan says what the library's lexer gives, so it keeps a name in each case
    generalize hscan : Lexeme.scan (rest.dropWhile isBlank) = scanned at hagrees
    generalize l.scan m = out at hagrees ⊢
    generalize hmore : rest.dropWhile isBlank = text at hagrees hat
    cases hagrees with
    | @unread w behind _ hahead =>
      rw [hahead] at hat
      have hnext := next?_of_unread (c := ⟨l.pos, rest⟩) (b := l.brackets) hscan
      rw [l.skipBlanks_mk, hmore, hahead] at hnext
      exact ⟨_, _, rfl, .of_last hsound hat.past.finish rfl rfl
        (Nat.le_trans hle (Nat.le_add_right _ _)) (.inr rfl) hnext⟩
    | @refused w behind _ _ _ hahead hpass =>
      rw [hahead] at hat
      have hnext := next?_of_refused (c := ⟨l.pos, rest⟩) (b := l.brackets) hscan hpass
      rw [l.skipBlanks_mk, hmore, hahead] at hnext
      exact ⟨_, _, rfl, .of_last hsound hat.past.finish rfl rfl
        (Nat.le_trans hle (Nat.le_add_right _ _)) (.inr rfl) hnext⟩
    | @token w behind kind b hahead hpass =>
      rw [hahead] at hat
      have hnext := next?_of_token (c := ⟨l.pos, rest⟩) (b := l.brackets) htext hscan hpass
      have hpos : 0 < Text.utf8Length w := utf8Length_text_pos htext hscan
      have hlt : l.pos < ((l.behindBlanks rest).past w).pos := by
        show l.pos < (l.behindBlanks rest).pos + Text.utf8Length w
        omega
      have hcounted := hat.past.restart.count b
      exact ⟨_, _, rfl, ⟨_, hnext, .at hcounted hfinished⟩,
        hsound.step hcounted rfl hpass (Nat.le_of_lt hlt) (.inr hlt), .inl hlt⟩

/-! ## §4 Pulls -/

/-- A pull takes the token that the library's lexer has, if it has one. -/
theorem Tracks.next {k : Lexer} (h : Tracks l k) (hsound : Sound l.input past l)
    (hfits : m.Fits l.input) :
    ∃ l', l.next m = some (k.next.value, l') ∧ Tracks l' k.next.lexer ∧
      Sound l.input (past ++ k.next.value.toList) l' ∧
      (l.finished = false →
        k.next.value.isSome = true ∧ (l.pos < l'.pos ∨ l'.finished = true)) := by
  cases hfinished : l.finished with
  | true =>
    have hnext : k.next = ⟨none, [], k⟩ := by
      simp only [Lexer.next, Lexer.next?, h.finished, hfinished, if_true]
    rw [hnext]
    refine ⟨l, if_pos hfinished, h, ?_, fun hreading => by cases hreading⟩
    rwa [Option.toList_none, List.append_nil]
  | false =>
    obtain ⟨front, rest, hat, rfl⟩ := h.exists_at hfinished
    obtain ⟨t, l', hscan, hyields⟩ := hat.scan hfinished hsound hfits
    obtain ⟨k', hnext, htracks⟩ := hyields.next
    simp only [Lexer.next, hnext]
    refine ⟨l', ?_, htracks, hyields.sound, fun _ => ⟨rfl, hyields.progress⟩⟩
    rw [ByteLexer.next, hfinished, hscan]
    rfl

/-- A run of pulls takes the tokens that the library's lexer has, by induction on the pulls. -/
theorem Tracks.run {k : Lexer} (h : Tracks l k) (hsound : Sound l.input past l)
    (hfits : m.Fits l.input) (n : Nat) :
    ∃ l', l.run m n = some (k.tokens.take n, l') ∧ Tracks l' (k.behind n) ∧
      Sound l.input (past ++ k.tokens.take n) l' := by
  induction n generalizing l past k with
  | zero => exact ⟨l, rfl, h, by rwa [List.take_zero, List.append_nil]⟩
  | succ n ih =>
    obtain ⟨l₁, hnext, htracks, hsound₁, -⟩ := h.next hsound hfits
    have hinput := hsound₁.input
    obtain ⟨l', hrun, htracks', hsound'⟩ := ih htracks (hinput ▸ hsound₁) (hinput ▸ hfits)
    rw [k.take_tokens_succ]
    refine ⟨l', ?_, htracks', ?_⟩
    · simp only [ByteLexer.run, hnext, hrun, Option.bind_eq_bind, Option.bind_some]
    · rwa [hinput, List.append_assoc] at hsound'

end

theorem at_ofString (source : String) : (ofString source).At [] [] source.toList :=
  ⟨rfl, rfl, rfl⟩

theorem sound_ofString (source : String) : Sound source [] (ofString source) :=
  (at_ofString source).sound ⟨rfl, rfl⟩ (Nat.le_refl _) (Nat.le_refl _)

/-- Any number of pulls has an outcome, on any machine that the source fits: the tokens of the
library, as many as there are, and a lexer that stands inside the source, where the library's lexer
does.  Where those tokens end can be added up, and one more pull gives nothing, or it reads on or is
the last. -/
theorem run_in_bounds {m : Machine} {source : String} (hfits : m.Fits source) (n : Nat) :
    ∃ l, (ofString source).run m n = some ((tokenize source).take n, l) ∧
      Tracks l ((Lexer.ofString source).behind n) ∧
      Sound source ((tokenize source).take n) l ∧
      (∀ t ∈ (tokenize source).take n, m.add t.offset t.text.utf8ByteSize = some t.stop) ∧
      (l.finished = true → l.next m = some (none, l)) ∧
      (l.finished = false → ∃ t l', l.next m = some (some t, l') ∧
        (l.pos < l'.pos ∨ l'.finished = true)) := by
  obtain ⟨l, hrun, htracks, hsound⟩ :=
    Tracks.run (.at (at_ofString source) rfl) (sound_ofString source) hfits n
  have hinput : l.input = source := hsound.input
  refine ⟨l, hrun, htracks, hsound, ?_, fun hfinished => if_pos hfinished, ?_⟩
  · intro t ht
    have hstop := stop_le_of_mem_tokenize (List.mem_of_mem_take ht)
    have hwords := m.sixteenBits
    rw [Machine.Fits] at hfits
    refine m.add_of_le ?_
    show t.stop ≤ m.maxWord
    omega
  · intro hreading
    obtain ⟨l', hnext, -, -, hprogress⟩ := htracks.next (by rwa [hinput]) (by rwa [hinput])
    obtain ⟨hsome, hmoved⟩ := hprogress hreading
    obtain ⟨t, ht⟩ := Option.isSome_iff_exists.mp hsome
    exact ⟨t, l', ht ▸ hnext, hmoved⟩

/-- A machine with words of sixteen bits. -/
def smallMachine : Machine := ⟨0xFFFF, Nat.le_refl _⟩

/-- Letters of two bytes, both kinds of brackets, and an integer that runs into a name. -/
def accentedMap : String := "// \u00E9\nmap<a.b, c> \x7b\r\n\t\x7d \"\u00FC\" = -0x1F\u00E9"

theorem accentedMap_run_in_bounds :
    smallMachine.Fits accentedMap ∧
      ∃ l, (ofString accentedMap).run smallMachine 20 =
          some ((tokenize accentedMap).take 20, l) ∧
        Tracks l ((Lexer.ofString accentedMap).behind 20) ∧
        Sound accentedMap ((tokenize accentedMap).take 20) l ∧
        (∀ t ∈ (tokenize accentedMap).take 20,
          smallMachine.add t.offset t.text.utf8ByteSize = some t.stop) ∧
        (l.finished = true → l.next smallMachine = some (none, l)) ∧
        (l.finished = false → ∃ t l', l.next smallMachine = some (some t, l') ∧
          (l.pos < l'.pos ∨ l'.finished = true)) :=
  ⟨by decide +kernel, run_in_bounds (by decide +kernel) 20⟩

end ByteLexer

end ProtoSchema
