import ProtoSchema.Proofs.Stream

/-!
# Tokens of a text

The tokens of a text as the lexical grammar has them: blanks, and items that the brackets before
them allow (`Tokens`).  What brackets allow is said of the tokens that came before and not of a
count, and the count of a lexer is what those tokens add up to (`Brackets.After`).

* §1 brackets, §2 tokens, §3 the lexer gives them and no others (`tokenize_eq_iff_tokens`).
-/

namespace ProtoSchema

open Lexeme

/-! ## §1 Brackets -/

/-- How many angle brackets are open behind tokens of these kinds.  One that closes none is let
pass. -/
def openAngles (past : List TokenKind) : Nat :=
  past.foldl (fun n kind =>
    match kind with
    | .leftAngle => n + 1
    | .rightAngle => n - 1
    | _ => n) 0

/-- As many braces were closed as were opened. -/
def BracesClosed (past : List TokenKind) : Prop :=
  past.count .leftBrace = past.count .rightBrace

/-- The brackets that are open behind tokens of these kinds. -/
structure Brackets.After (b : Brackets) (past : List TokenKind) : Prop where
  braces : past.count .leftBrace = past.count .rightBrace + b.braces
  angles : openAngles past = b.angles

theorem Brackets.After.bracesClosed_iff {b : Brackets} {past : List TokenKind} (h : b.After past) :
    BracesClosed past ↔ b.braces = 0 := by
  have := h.braces
  rw [BracesClosed]
  omega

/-- The brackets before a token do not allow it. -/
inductive Misplaced (past : List TokenKind) : TokenKind → LexFault → Prop
  | brace (hclosed : BracesClosed past) : Misplaced past .rightBrace .unopenedBrace
  | comma (hclosed : openAngles past = 0) : Misplaced past .comma .commaOutsideMap

theorem Brackets.After.pass_eq_error_iff {b : Brackets} {past : List TokenKind}
    (h : b.After past) {kind : TokenKind} {fault : LexFault} :
    b.pass kind = .error fault ↔ Misplaced past kind fault := by
  constructor
  · intro hpass
    unfold pass at hpass
    split at hpass
    case h_2 =>
      split at hpass
      · next hb =>
        cases hpass
        exact .brace (h.bracesClosed_iff.mpr hb)
      · cases hpass
    case h_5 =>
      split at hpass
      · next hb =>
        cases hpass
        exact .comma (h.angles.trans hb)
      · cases hpass
    all_goals cases hpass
  · rintro (hclosed | hclosed)
    · simp [pass, h.bracesClosed_iff.mp hclosed]
    · simp [pass, ← h.angles, hclosed]

theorem openAngles_concat (past : List TokenKind) (kind : TokenKind) :
    openAngles (past ++ [kind]) =
      match kind with
      | .leftAngle => openAngles past + 1
      | .rightAngle => openAngles past - 1
      | _ => openAngles past := by
  rw [openAngles, List.foldl_append]
  rfl

/-- A token that the brackets allow counts as one more. -/
theorem Brackets.After.pass {b b' : Brackets} {past : List TokenKind} (h : b.After past)
    {kind : TokenKind} (hpass : b.pass kind = .ok b') : b'.After (past ++ [kind]) := by
  obtain ⟨hbraces, hangles⟩ := h
  cases kind with
  | leftBrace =>
    cases hpass
    refine ⟨?_, by rw [openAngles_concat, hangles]⟩
    simp only [List.count_append, List.count_singleton_self]
    simp
    omega
  | rightBrace =>
    simp only [Brackets.pass] at hpass
    split at hpass
    · cases hpass
    · cases hpass
      refine ⟨?_, by rw [openAngles_concat, hangles]⟩
      simp only [List.count_append, List.count_singleton_self]
      simp
      omega
  | comma =>
    simp only [Brackets.pass] at hpass
    split at hpass
    · cases hpass
    · cases hpass
      exact ⟨by simpa [List.count_append] using hbraces, by rw [openAngles_concat, hangles]⟩
  | _ =>
    cases hpass
    exact ⟨by simpa [List.count_append] using hbraces, by rw [openAngles_concat, hangles]⟩

/-! ## §2 Tokens -/

/-- The blanks, each of one byte. -/
def blanks : List Char := [' ', '\t', '\n', '\r']

/-- The tokens of a text from its byte `offset` on, when tokens of the kinds `past` stand before
it. -/
inductive Tokens : List TokenKind → Nat → List Char → List Token → Prop
  | blank {past : List TokenKind} {offset : Nat} {c : Char} {cs : List Char} {ts : List Token}
      (hc : c ∈ blanks) (hmore : Tokens past (offset + 1) cs ts) : Tokens past offset (c :: cs) ts
  | ended {past : List TokenKind} {offset : Nat} :
      Tokens past offset [] [⟨.endOfInput, offset, ""⟩]
  /-- No token stands there. -/
  | fault {past : List TokenKind} {offset : Nat} {c : Char} {cs : List Char}
      {fault : LexFault} (hc : c ∉ blanks) (hitem : Item (c :: cs) (.error fault)) :
      Tokens past offset (c :: cs) [Token.ofFault offset fault]
  | misplaced {past : List TokenKind} {offset : Nat} {c : Char} {cs : List Char}
      {l : Lexeme} {fault : LexFault}
      (hc : c ∉ blanks) (hitem : Item (c :: cs) (.ok l)) (hplace : Misplaced past l.kind fault) :
      Tokens past offset (c :: cs) [Token.ofFault offset fault]
  | token {past : List TokenKind} {offset : Nat} {c : Char} {cs : List Char}
      {l : Lexeme} {ts : List Token}
      (hc : c ∉ blanks) (hitem : Item (c :: cs) (.ok l))
      (hplace : ∀ fault, ¬ Misplaced past l.kind fault)
      (hmore : Tokens (past ++ [l.kind]) (offset + Text.utf8Length l.text) l.rest ts) :
      Tokens past offset (c :: cs) (⟨l.kind, offset, String.ofList l.text⟩ :: ts)

/-! ## §3 The lexer's tokens -/

theorem isBlank_iff {c : Char} : isBlank c = true ↔ c ∈ blanks := by
  simp [isBlank, blanks, or_assoc]

theorem Cursor.skipBlanks_blank {offset : Nat} {c : Char} {cs : List Char} (hc : c ∈ blanks) :
    (⟨offset, c :: cs⟩ : Cursor).skipBlanks = (⟨offset + 1, cs⟩ : Cursor).skipBlanks := by
  have hsize : Text.utf8Length [c] = 1 := by
    simp only [blanks, List.mem_cons, List.not_mem_nil, or_false] at hc
    rcases hc with rfl | rfl | rfl | rfl <;> rfl
  have hskip := skipBlanks_append offset (List.forall_mem_singleton.mpr (isBlank_iff.mpr hc)) cs
  rwa [hsize] at hskip

theorem Cursor.skipBlanks_cons (offset : Nat) {c : Char} (hc : c ∉ blanks) (cs : List Char) :
    (⟨offset, c :: cs⟩ : Cursor).skipBlanks = ⟨offset, c :: cs⟩ := by
  apply skipBlanks_of_head
  rintro _ ⟨⟩
  rw [← isBlank_iff] at hc
  simpa using hc

/-- Tokens by the grammar are the stream. -/
theorem Tokens.stream {past : List TokenKind} {offset : Nat} {cs : List Char} {ts : List Token}
    (h : Tokens past offset cs ts) {b : Brackets} (hb : b.After past) :
    Stream ⟨offset, cs⟩ b ts := by
  induction h generalizing b with
  | blank hc _ ih => exact (ih hb).of_skipBlanks_eq (Cursor.skipBlanks_blank hc).symm
  | ended => exact .ended rfl
  | @fault _ offset c cs _ hc hitem =>
    have hskip := Cursor.skipBlanks_cons offset hc cs
    have hstream := Stream.unread (c := ⟨offset, c :: cs⟩) (b := b) (by simp [hskip])
      (by rw [hskip]; exact scan_of_item hitem)
    rwa [hskip] at hstream
  | @misplaced _ offset c cs _ _ hc hitem hplace =>
    have hskip := Cursor.skipBlanks_cons offset hc cs
    have hstream := Stream.refused (c := ⟨offset, c :: cs⟩) (b := b) (by simp [hskip])
      (by rw [hskip]; exact scan_of_item hitem) (hb.pass_eq_error_iff.mpr hplace)
    rwa [hskip] at hstream
  | @token _ offset c cs l ts hc hitem hplace _ ih =>
    have hskip := Cursor.skipBlanks_cons offset hc cs
    cases hpass : b.pass l.kind with
    | error fault => exact absurd (hb.pass_eq_error_iff.mp hpass) (hplace fault)
    | ok b' =>
      -- the brackets behind the token are those of one more token past
      have hstream := Stream.token (c := ⟨offset, c :: cs⟩) (b := b) (by simp [hskip])
        (by rw [hskip]; exact scan_of_item hitem) hpass (by rw [hskip]; exact ih (hb.pass hpass))
      rwa [hskip] at hstream

/-- A text has tokens by the grammar: by induction on its length, one blank or token at a time. -/
theorem exists_tokens (past : List TokenKind) (offset : Nat) (cs : List Char) :
    ∃ ts, Tokens past offset cs ts := by
  induction hn : cs.length using Nat.strongRecOn generalizing past offset cs with
  | ind n ih =>
    cases cs with
    | nil => exact ⟨_, .ended⟩
    | cons c cs =>
      by_cases hc : c ∈ blanks
      · obtain ⟨ts, hts⟩ := ih cs.length (by simp [← hn]) past (offset + 1) cs rfl
        exact ⟨ts, .blank hc hts⟩
      · cases hscan : scan (c :: cs) with
        | error fault => exact ⟨_, .fault hc (scan_eq_iff.mp hscan)⟩
        | ok l =>
          by_cases hplace : ∃ fault, Misplaced past l.kind fault
          · obtain ⟨fault, hfault⟩ := hplace
            exact ⟨_, .misplaced hc (scan_eq_iff.mp hscan) hfault⟩
          · obtain ⟨ts, hts⟩ := ih l.rest.length (hn ▸ length_rest_lt hscan) (past ++ [l.kind])
              (offset + Text.utf8Length l.text) l.rest rfl
            exact ⟨_, .token hc (scan_eq_iff.mp hscan) (not_exists.mp hplace) hts⟩

/-- The lexer gives the tokens that the lexical grammar has, and no others. -/
theorem tokenize_eq_iff_tokens (source : String) (ts : List Token) :
    tokenize source = ts ↔ Tokens [] 0 source.toList ts := by
  have hstream : ∀ us, Tokens [] 0 source.toList us → us = tokenize source :=
    fun us hus => stream_iff.mp (hus.stream (b := {}) ⟨rfl, rfl⟩)
  constructor
  · rintro rfl
    obtain ⟨us, hus⟩ := exists_tokens [] 0 source.toList
    exact hstream us hus ▸ hus
  · intro h
    exact (hstream ts h).symm

end ProtoSchema
