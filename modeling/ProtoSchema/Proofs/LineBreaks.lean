import ProtoSchema.Proofs.Concatenation

/-!
# Lexing line by line

A line feed ends every lexeme, and no lexeme looks behind it.  So lines can be lexed apart from the
ones before them, given the brackets that these leave open (`Lexer.bracketsAfter`), as long as no
error has ended the tokens already (`tokenize_append_line`).  Without errors in the later lines not
even the brackets are needed: with more of them open the tokens are the same.

* §1 the brackets that a text leaves open, §2 streams further on, §3 lines.
-/

namespace ProtoSchema

open Lexeme

/-! ## §1 Brackets left open -/

/-- The brackets that a lexer counts as open when it has given all its tokens. -/
def Lexer.bracketsAfter (l : Lexer) : Brackets := l.count.lexer.brackets

section

variable {l l' : Lexer} {t : Token}

theorem Lexer.bracketsAfter_of_finished (h : l.finished = true) :
    l.bracketsAfter = l.brackets := by
  have hnext : l.next? = none := by simp [next?, h]
  rw [bracketsAfter, count]
  split
  · rfl
  · simp_all

theorem Lexer.bracketsAfter_of_next? (h : l.next? = some (t, l')) :
    l.bracketsAfter = l'.bracketsAfter := by
  rw [bracketsAfter, count]
  split
  · simp_all
  · next heq =>
    rw [h] at heq
    cases heq
    rfl

end

/-- The tokens before the last one lead to the brackets that are left open. -/
theorem Stream.passes_bracketsAfter {c : Cursor} {b : Brackets} {ts : List Token}
    (h : Stream c b ts) :
    ∃ before last, ts = before ++ [last] ∧ Passes b before (Lexer.at c b).bracketsAfter := by
  induction h with
  | @ended c b hrest =>
    have hnext := Lexer.next?_at c b
    rw [Cursor.read_of_scan_eq_ok (by rw [hrest]; rfl)] at hnext
    refine ⟨[], _, rfl, ?_⟩
    rw [Lexer.bracketsAfter_of_next? hnext, Lexer.bracketsAfter_of_finished rfl]
    exact .nil
  | @unread c b fault _ hscan =>
    have hnext := Lexer.next?_at c b
    rw [Cursor.read_of_scan_eq_error hscan] at hnext
    refine ⟨[], _, rfl, ?_⟩
    rw [Lexer.bracketsAfter_of_next? hnext, Lexer.bracketsAfter_of_finished rfl]
    exact .nil
  | @refused c b l fault _ hscan hpass =>
    have hnext := Lexer.next?_at c b
    rw [Cursor.read_of_scan_eq_ok hscan] at hnext
    simp only [hpass] at hnext
    refine ⟨[], _, rfl, ?_⟩
    rw [Lexer.bracketsAfter_of_next? hnext, Lexer.bracketsAfter_of_finished rfl]
    exact .nil
  | @token c b b' l ts hrest hscan hpass _ ih =>
    have hnext := Lexer.next?_at c b
    rw [Cursor.read_of_scan_eq_ok hscan] at hnext
    simp only [hpass, kind_scan hrest hscan] at hnext
    obtain ⟨before, last, rfl, hpasses⟩ := ih
    refine ⟨_ :: before, last, rfl, ?_⟩
    rw [Lexer.bracketsAfter_of_next? hnext]
    exact .cons hpass hpasses

/-! ## §2 Streams further on -/

/-- A text has the same tokens further on, an error included, if the same brackets are open. -/
theorem Stream.moved {c : Cursor} {b : Brackets} {ts : List Token} (h : Stream c b ts) (k : Nat) :
    Stream ⟨c.offset + k, c.rest⟩ b (ts.map (Move.shift k).token) := by
  induction h with
  | @ended c b hrest =>
    have hskip := c.skipBlanks_shift k
    have hstream := Stream.ended (c := ⟨c.offset + k, c.rest⟩) (b := b) (by rw [hskip]; exact hrest)
    rwa [hskip] at hstream
  | @unread c b fault hrest hscan =>
    have hskip := c.skipBlanks_shift k
    have hstream := Stream.unread (c := ⟨c.offset + k, c.rest⟩) (b := b)
      (by rw [hskip]; exact hrest) (by rw [hskip]; exact hscan)
    rwa [hskip] at hstream
  | @refused c b l fault hrest hscan hpass =>
    have hskip := c.skipBlanks_shift k
    have hstream := Stream.refused (c := ⟨c.offset + k, c.rest⟩) (b := b)
      (by rw [hskip]; exact hrest) (by rw [hskip]; exact hscan) hpass
    rwa [hskip] at hstream
  | @token c b b' l ts hrest hscan hpass _ ih =>
    have hskip := c.skipBlanks_shift k
    have hstream := Stream.token (c := ⟨c.offset + k, c.rest⟩) (b := b) (l := l)
      (by rw [hskip]; exact hrest) (by rw [hskip]; exact hscan) hpass (by
        rw [hskip]
        simpa only [Nat.add_right_comm] using ih)
    rwa [hskip] at hstream

/-! ## §3 Lines -/

/-- The tokens of complete lines end in an error, and more lines change nothing; or they end in the
end of input, and in its place more lines put their own tokens, lexed with the brackets that are
open there and moved to where the lines stand.  If these have no error when no brackets are open,
they are the same with any brackets open. -/
theorem tokenize_append_line (u t : String) :
    (∃ before last, tokenize (u ++ "\n") = before ++ [last] ∧
      (last.kind = .error ∧ tokenize (u ++ "\n" ++ t) = before ++ [last] ∨
        last.kind = .endOfInput ∧
          tokenize (u ++ "\n" ++ t) = before ++
            (Lexer.at ⟨0, t.toList⟩ (Lexer.ofString u).bracketsAfter).tokens.map
              (Move.shift (u.utf8ByteSize + 1)).token)) ∧
    ((∀ x ∈ tokenize t, x.kind ≠ .error) →
      ∀ b, (Lexer.at ⟨0, t.toList⟩ b).tokens = tokenize t) := by
  constructor
  · obtain ⟨before, last, htokens, hlast, -⟩ := (stream_tokenize u).exists_last
    have hnone : u ++ "\n" ++ "" = u ++ "\n" := String.append_empty
    rcases error_or_endOfInput hlast with herror | hend
    · have hsame := tokenize_append_newline_of_error htokens herror
      refine ⟨before, last, ?_, .inl ⟨herror, hsame t⟩⟩
      rw [← hnone, hsame]
    · obtain ⟨b, hpasses, hmore⟩ := tokenize_append_newline_of_end htokens hend
      refine ⟨before, ⟨.endOfInput, u.utf8ByteSize + 1, ""⟩, ?_, .inr ⟨rfl, ?_⟩⟩
      · rw [← hnone, hmore, tokens_of_ended rfl]
        rfl
      · obtain ⟨before', last', heq, hpasses'⟩ := (stream_tokenize u).passes_bracketsAfter
        rw [htokens] at heq
        obtain ⟨rfl, -⟩ := List.append_inj' heq rfl
        obtain rfl : b = (Lexer.ofString u).bracketsAfter := hpasses.unique hpasses'
        have hmoved := (stream_tokens ⟨0, t.toList⟩ (Lexer.ofString u).bracketsAfter).moved
          (u.utf8ByteSize + 1)
        rw [Nat.zero_add] at hmoved
        rw [hmore, stream_iff.mp hmoved]
  · intro ht b
    have hstream := (stream_tokenize t).shift ht (below_of_none b) 0
    have hmap : (tokenize t).map (Move.shift 0).token = tokenize t := List.map_id _
    rw [hmap] at hstream
    exact (stream_iff.mp hstream).symm

/-- The second line is the same by itself, behind any brackets, and behind the first one. -/
theorem mapType_lines :
    (∀ x ∈ tokenize "b>", x.kind ≠ .error) ∧
      (∀ b, (Lexer.at ⟨0, "b>".toList⟩ b).tokens = tokenize "b>") ∧
      (Lexer.ofString "map<a,").bracketsAfter = ⟨0, 1⟩ ∧
      tokenize ("map<a," ++ "\n" ++ "b>") =
        [⟨.keyword .mapKw, 0, "map"⟩, ⟨.leftAngle, 3, "<"⟩, ⟨.identifier, 4, "a"⟩,
          ⟨.comma, 5, ","⟩, ⟨.identifier, 7, "b"⟩, ⟨.rightAngle, 8, ">"⟩,
          ⟨.endOfInput, 9, ""⟩] := by
  have h : ∀ x ∈ tokenize "b>", x.kind ≠ .error := by decide +kernel
  exact ⟨h, (tokenize_append_line "map<a," "b>").2 h, by decide +kernel, by decide +kernel⟩

end ProtoSchema
