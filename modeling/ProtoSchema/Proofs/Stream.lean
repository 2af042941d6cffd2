import ProtoSchema.Proofs.Scanning

/-!
# Streams of tokens

The tokens that a lexer gives, as a relation to the place where it stands and the brackets that are
open there (`Stream`): a case for each way in which a pull can go.  A place has one stream
(`stream_iff`), and the stream lays its tokens out from left to right (`Stream.pairwise`).

* §1 streams, and their tokens in other surroundings;
* §2 the stream of a place is what its lexer gives;
* §3 how a stream ends, §4 where its tokens stand.
-/

namespace ProtoSchema

open Lexeme

/-! ## §1 Streams -/

/-- The tokens from a place on, when the brackets `b` are open. -/
inductive Stream : Cursor → Brackets → List Token → Prop
  | ended {c : Cursor} {b : Brackets} (hrest : c.skipBlanks.rest = []) :
      Stream c b [⟨.endOfInput, c.skipBlanks.offset, ""⟩]
  /-- No lexeme stands there. -/
  | unread {c : Cursor} {b : Brackets} {fault : LexFault} (hrest : c.skipBlanks.rest ≠ [])
      (hscan : scan c.skipBlanks.rest = .error fault) :
      Stream c b [Token.ofFault c.skipBlanks.offset fault]
  /-- A lexeme stands there that the brackets do not allow. -/
  | refused {c : Cursor} {b : Brackets} {l : Lexeme} {fault : LexFault}
      (hrest : c.skipBlanks.rest ≠ []) (hscan : scan c.skipBlanks.rest = .ok l)
      (hpass : b.pass l.kind = .error fault) :
      Stream c b [Token.ofFault c.skipBlanks.offset fault]
  | token {c : Cursor} {b b' : Brackets} {l : Lexeme} {ts : List Token}
      (hrest : c.skipBlanks.rest ≠ []) (hscan : scan c.skipBlanks.rest = .ok l)
      (hpass : b.pass l.kind = .ok b')
      (hmore : Stream ⟨c.skipBlanks.offset + Text.utf8Length l.text, l.rest⟩ b' ts) :
      Stream c b (⟨l.kind, c.skipBlanks.offset, String.ofList l.text⟩ :: ts)

/-- Blanks in front change nothing but the offsets. -/
theorem Stream.of_skipBlanks_eq {c c' : Cursor} (hc : c.skipBlanks = c'.skipBlanks)
    {b : Brackets} {ts : List Token} (h : Stream c b ts) : Stream c' b ts := by
  cases h with
  | ended hrest =>
    rw [hc] at hrest ⊢
    exact .ended hrest
  | unread hrest hscan =>
    rw [hc] at hrest hscan ⊢
    exact .unread hrest hscan
  | refused hrest hscan hpass =>
    rw [hc] at hrest hscan ⊢
    exact .refused hrest hscan hpass
  | token hrest hscan hpass hmore =>
    rw [hc] at hrest hscan hmore ⊢
    exact .token hrest hscan hpass hmore

theorem Cursor.skipBlanks_append (offset : Nat) {sp : List Char}
    (hsp : ∀ c ∈ sp, isBlank c = true) (cs : List Char) :
    (⟨offset, sp ++ cs⟩ : Cursor).skipBlanks =
      (⟨offset + Text.utf8Length sp, cs⟩ : Cursor).skipBlanks := by
  simp only [skipBlanks, List.takeWhile_append_of_pos hsp, List.dropWhile_append_of_pos hsp,
    Text.utf8Length_append, Nat.add_assoc]

theorem Cursor.skipBlanks_of_head (offset : Nat) {cs : List Char}
    (hcs : ∀ c ∈ cs.head?, isBlank c = false) :
    (⟨offset, cs⟩ : Cursor).skipBlanks = ⟨offset, cs⟩ := by
  cases cs with
  | nil => rfl
  | cons c cs => simp [skipBlanks, hcs c rfl]

/-- Behind blanks comes what does not start with one. -/
theorem Cursor.skipBlanks_text (offset : Nat) {sp cs : List Char}
    (hsp : ∀ c ∈ sp, isBlank c = true) (hcs : ∀ c ∈ cs.head?, isBlank c = false) :
    (⟨offset, sp ++ cs⟩ : Cursor).skipBlanks = ⟨offset + Text.utf8Length sp, cs⟩ := by
  rw [skipBlanks_append offset hsp, skipBlanks_of_head _ hcs]

theorem Cursor.rest_eq (c : Cursor) : c.rest = c.rest.takeWhile isBlank ++ c.skipBlanks.rest :=
  List.takeWhile_append_dropWhile.symm

/-- No blank is left in front. -/
theorem Cursor.isBlank_of_skipBlanks {c : Cursor} {d : Char} {ds : List Char}
    (h : c.skipBlanks.rest = d :: ds) : isBlank d = false := by
  apply head?_dropWhile isBlank c.rest d
  show d ∈ c.skipBlanks.rest.head?
  rw [h]
  rfl

theorem isBlank_of_mem_takeWhile (cs : List Char) : ∀ d ∈ cs.takeWhile isBlank, isBlank d = true :=
  List.all_eq_true.mp List.all_takeWhile

/-- The text of a lexeme is not empty, and starts as the text from which it was scanned does. -/
theorem exists_head_text {c : Cursor} {l : Lexeme} (hrest : c.skipBlanks.rest ≠ [])
    (hscan : scan c.skipBlanks.rest = .ok l) :
    ∃ d ds, l.text = d :: ds ∧ isBlank d = false := by
  obtain ⟨d, ds, hd⟩ := List.exists_cons_of_ne_nil hrest
  have hblank : isBlank d = false := Cursor.isBlank_of_skipBlanks hd
  rw [hd] at hscan
  have happend := text_append_rest hscan
  obtain ⟨e, es, he⟩ := List.exists_cons_of_ne_nil (text_ne_nil hscan)
  rw [he] at happend
  obtain rfl := (List.cons.inj happend).1
  exact ⟨e, es, he, hblank⟩

/-- A token stands behind blanks, and a stream behind it. -/
theorem Stream.token_behind (start : Nat) {sp text rest : List Char} {b b' : Brackets}
    {kind : TokenKind} {ts : List Token} (hsp : ∀ c ∈ sp, isBlank c = true)
    (htext : ∃ d ds, text = d :: ds ∧ isBlank d = false)
    (hscan : scan (text ++ rest) = .ok ⟨kind, text, rest⟩) (hpass : b.pass kind = .ok b')
    (hmore : Stream ⟨start + Text.utf8Length sp + Text.utf8Length text, rest⟩ b' ts) :
    Stream ⟨start, sp ++ (text ++ rest)⟩ b
      (⟨kind, start + Text.utf8Length sp, String.ofList text⟩ :: ts) := by
  obtain ⟨d, ds, rfl, hd⟩ := htext
  have hhead : ∀ c ∈ (d :: ds ++ rest).head?, isBlank c = false := by simpa using hd
  have hskip := Cursor.skipBlanks_text start hsp hhead
  have hstream := Stream.token (c := ⟨start, sp ++ (d :: ds ++ rest)⟩) (b := b)
    (by rw [hskip]; exact List.cons_ne_nil _ _) (by rw [hskip]; exact hscan) hpass
    (by rw [hskip]; exact hmore)
  rwa [hskip] at hstream

theorem Stream.token_here {offset : Nat} {text rest : List Char} {b b' : Brackets}
    {kind : TokenKind} {ts : List Token} (htext : ∃ d ds, text = d :: ds ∧ isBlank d = false)
    (hscan : scan (text ++ rest) = .ok ⟨kind, text, rest⟩) (hpass : b.pass kind = .ok b')
    (hmore : Stream ⟨offset + Text.utf8Length text, rest⟩ b' ts) :
    Stream ⟨offset, text ++ rest⟩ b (⟨kind, offset, String.ofList text⟩ :: ts) := by
  have hnone : ∀ c ∈ ([] : List Char), isBlank c = true := List.forall_mem_nil _
  exact .token_behind offset hnone htext hscan hpass hmore

/-- A lexeme that stays one before other text is a token there. -/
theorem Stream.token_before {c : Cursor} {b b' : Brackets} {l : Lexeme}
    (hrest : c.skipBlanks.rest ≠ []) (hscan : scan c.skipBlanks.rest = .ok l)
    (hpass : b.pass l.kind = .ok b') {rest : List Char} {ts : List Token}
    (hagain : scan (l.text ++ rest) = .ok { l with rest })
    (hmore : Stream ⟨c.skipBlanks.offset + Text.utf8Length l.text, rest⟩ b' ts) :
    Stream ⟨c.offset, c.rest.takeWhile isBlank ++ (l.text ++ rest)⟩ b
      (⟨l.kind, c.skipBlanks.offset, String.ofList l.text⟩ :: ts) :=
  .token_behind c.offset (isBlank_of_mem_takeWhile _) (exists_head_text hrest hscan) hagain hpass
    hmore

/-! ## §2 Streams and lexers -/

/-- The lexer that stands at a place. -/
def Lexer.at (c : Cursor) (b : Brackets) : Lexer := ⟨c, b, false⟩

theorem Lexer.next?_at (c : Cursor) (b : Brackets) :
    (Lexer.at c b).next? =
      match b.pass c.read.1.kind with
      | .ok b' => some (c.read.1, ⟨c.read.2, b', c.read.1.kind.isLast⟩)
      | .error fault =>
        some (Token.ofFault c.read.1.offset fault, ⟨c.skipBlanks, b, true⟩) := rfl

theorem Lexer.tokens_of_finished {l : Lexer} (h : l.finished = true) : l.tokens = [] := by
  apply tokens_of_next?_eq_none
  simp [next?, h]

theorem kind_scan {cs : List Char} {l : Lexeme} (hcs : cs ≠ []) (h : scan cs = .ok l) :
    l.kind.isLast = false := by
  obtain ⟨c, cs, rfl⟩ := List.exists_cons_of_ne_nil hcs
  exact kind_scan_cons h

section

variable {c : Cursor} {b : Brackets}

theorem next?_of_ended (hrest : c.skipBlanks.rest = []) :
    (Lexer.at c b).next? =
      some (⟨.endOfInput, c.skipBlanks.offset, ""⟩, ⟨⟨c.skipBlanks.offset, []⟩, b, true⟩) := by
  have hread := Cursor.read_of_scan_eq_ok (c := c) (by rw [hrest]; rfl)
  rw [Lexer.next?_at, hread]
  rfl

theorem next?_of_unread {fault : LexFault} (hscan : scan c.skipBlanks.rest = .error fault) :
    (Lexer.at c b).next? =
      some (Token.ofFault c.skipBlanks.offset fault, ⟨c.skipBlanks, b, true⟩) := by
  rw [Lexer.next?_at, Cursor.read_of_scan_eq_error hscan]
  rfl

theorem next?_of_refused {l : Lexeme} {fault : LexFault} (hscan : scan c.skipBlanks.rest = .ok l)
    (hpass : b.pass l.kind = .error fault) :
    (Lexer.at c b).next? =
      some (Token.ofFault c.skipBlanks.offset fault, ⟨c.skipBlanks, b, true⟩) := by
  rw [Lexer.next?_at, Cursor.read_of_scan_eq_ok hscan]
  simp only [hpass]

theorem next?_of_token {b' : Brackets} {l : Lexeme} (hrest : c.skipBlanks.rest ≠ [])
    (hscan : scan c.skipBlanks.rest = .ok l) (hpass : b.pass l.kind = .ok b') :
    (Lexer.at c b).next? =
      some (⟨l.kind, c.skipBlanks.offset, String.ofList l.text⟩,
        Lexer.at ⟨c.skipBlanks.offset + Text.utf8Length l.text, l.rest⟩ b') := by
  rw [Lexer.next?_at, Cursor.read_of_scan_eq_ok hscan]
  simp only [hpass, kind_scan hrest hscan]
  rfl

theorem tokens_of_ended (hrest : c.skipBlanks.rest = []) :
    (Lexer.at c b).tokens = [⟨.endOfInput, c.skipBlanks.offset, ""⟩] := by
  rw [Lexer.tokens_of_next?_eq_some (next?_of_ended hrest), Lexer.tokens_of_finished rfl]

theorem tokens_of_unread {fault : LexFault} (hscan : scan c.skipBlanks.rest = .error fault) :
    (Lexer.at c b).tokens = [Token.ofFault c.skipBlanks.offset fault] := by
  rw [Lexer.tokens_of_next?_eq_some (next?_of_unread hscan), Lexer.tokens_of_finished rfl]

theorem tokens_of_refused {l : Lexeme} {fault : LexFault} (hscan : scan c.skipBlanks.rest = .ok l)
    (hpass : b.pass l.kind = .error fault) :
    (Lexer.at c b).tokens = [Token.ofFault c.skipBlanks.offset fault] := by
  rw [Lexer.tokens_of_next?_eq_some (next?_of_refused hscan hpass), Lexer.tokens_of_finished rfl]

theorem tokens_of_token {b' : Brackets} {l : Lexeme} (hrest : c.skipBlanks.rest ≠ [])
    (hscan : scan c.skipBlanks.rest = .ok l) (hpass : b.pass l.kind = .ok b') :
    (Lexer.at c b).tokens = ⟨l.kind, c.skipBlanks.offset, String.ofList l.text⟩ ::
      (Lexer.at ⟨c.skipBlanks.offset + Text.utf8Length l.text, l.rest⟩ b').tokens :=
  Lexer.tokens_of_next?_eq_some (next?_of_token hrest hscan hpass)

end

theorem stream_tokens (c : Cursor) (b : Brackets) : Stream c b (Lexer.at c b).tokens := by
  induction hn : c.rest.length using Nat.strongRecOn generalizing c b with
  | ind n ih =>
    by_cases hrest : c.skipBlanks.rest = []
    · rw [tokens_of_ended hrest]
      exact .ended hrest
    · cases hscan : scan c.skipBlanks.rest with
      | error fault =>
        rw [tokens_of_unread hscan]
        exact .unread hrest hscan
      | ok l =>
        cases hpass : b.pass l.kind with
        | error fault =>
          rw [tokens_of_refused hscan hpass]
          exact .refused hrest hscan hpass
        | ok b' =>
          rw [tokens_of_token hrest hscan hpass]
          -- the lexeme took something from the text
          refine .token hrest hscan hpass (ih _ ?_ _ _ rfl)
          have hlt := Cursor.length_read_lt (c := c)
          rw [Cursor.read_of_scan_eq_ok hscan] at hlt
          exact hn ▸ hlt (kind_scan hrest hscan)

/-- A place has one stream, which its lexer gives. -/
theorem stream_iff {c : Cursor} {b : Brackets} {ts : List Token} :
    Stream c b ts ↔ ts = (Lexer.at c b).tokens := by
  constructor
  · intro h
    induction h with
    | ended hrest => rw [tokens_of_ended hrest]
    | unread _ hscan => rw [tokens_of_unread hscan]
    | refused _ hscan hpass => rw [tokens_of_refused hscan hpass]
    | token hrest hscan hpass _ ih => rw [tokens_of_token hrest hscan hpass, ih]
  · rintro rfl
    exact stream_tokens c b

theorem stream_tokenize (source : String) : Stream ⟨0, source.toList⟩ {} (tokenize source) :=
  stream_tokens _ _

/-! ## §3 Ends -/

/-- A stream is ordinary tokens and comments, and then one token that ends it. -/
theorem Stream.exists_last {c : Cursor} {b : Brackets} {ts : List Token} (h : Stream c b ts) :
    ∃ before last, ts = before ++ [last] ∧ last.kind.isLast = true ∧
      ∀ t ∈ before, t.kind.isLast = false := by
  induction h with
  | ended | unread | refused => exact ⟨[], _, rfl, rfl, by simp⟩
  | token hrest hscan _ _ ih =>
    obtain ⟨before, last, rfl, hlast, hbefore⟩ := ih
    exact ⟨_ :: before, last, rfl, hlast,
      List.forall_mem_cons.mpr ⟨kind_scan hrest hscan, hbefore⟩⟩

/-- No error stands in a stream that gets to the end of input. -/
theorem Stream.ne_error {c : Cursor} {b : Brackets} {before : List Token} {last : Token}
    (h : Stream c b (before ++ [last])) (hlast : last.kind = .endOfInput) :
    ∀ t ∈ before ++ [last], t.kind ≠ .error := by
  obtain ⟨before', last', heq, -, hbefore⟩ := h.exists_last
  obtain ⟨rfl, -⟩ := List.append_inj' heq rfl
  refine List.forall_mem_append.mpr ⟨fun t ht herror => ?_, by simp [hlast]⟩
  have := hbefore t ht
  rw [herror] at this
  cases this

/-! ## §4 Layout -/

theorem Cursor.skipBlanks_end (c : Cursor) :
    c.skipBlanks.offset + Text.utf8Length c.skipBlanks.rest =
      c.offset + Text.utf8Length c.rest := by
  have h := congrArg Text.utf8Length (List.takeWhile_append_dropWhile (p := isBlank) (l := c.rest))
  rw [Text.utf8Length_append] at h
  simp only [skipBlanks]
  omega

theorem Cursor.offset_le_skipBlanks (c : Cursor) : c.offset ≤ c.skipBlanks.offset :=
  Nat.le_add_right _ _

theorem scan_end {cs : List Char} {l : Lexeme} (h : scan cs = .ok l) :
    Text.utf8Length l.text + Text.utf8Length l.rest = Text.utf8Length cs := by
  rw [← Text.utf8Length_append, text_append_rest h]

theorem utf8Length_text_pos {cs : List Char} {l : Lexeme} (hcs : cs ≠ []) (h : scan cs = .ok l) :
    0 < Text.utf8Length l.text := by
  obtain ⟨c, cs, rfl⟩ := List.exists_cons_of_ne_nil hcs
  obtain ⟨d, ds, hd⟩ := List.exists_cons_of_ne_nil (text_ne_nil h)
  rw [hd, Text.utf8Length_cons]
  have := d.utf8Size_pos
  omega

theorem stop_mk {kind : TokenKind} {offset : Nat} (text : List Char) :
    Token.stop ⟨kind, offset, String.ofList text⟩ = offset + Text.utf8Length text := by
  rw [Token.stop, Text.utf8ByteSize_ofList]

section

variable {c : Cursor} {b : Brackets} {ts : List Token}

theorem Stream.offset_le (h : Stream c b ts) : ∀ t ∈ ts, c.offset ≤ t.offset := by
  induction h with
  | @ended c b _ => simpa using c.offset_le_skipBlanks
  | @unread c b _ _ _ | @refused c b _ _ _ _ _ =>
    simpa [Token.ofFault] using c.offset_le_skipBlanks
  | @token c _ _ l _ _ _ _ _ ih =>
    have hskip := c.offset_le_skipBlanks
    refine List.forall_mem_cons.mpr ⟨hskip, ?_⟩
    intro t ht
    have := ih t ht
    dsimp only at this
    omega

/-- Tokens do not overlap. -/
theorem Stream.pairwise (h : Stream c b ts) : ts.Pairwise fun t u => t.stop ≤ u.offset := by
  induction h with
  | ended | unread | refused => exact List.pairwise_singleton _ _
  | token _ _ _ hmore ih =>
    refine List.pairwise_cons.mpr ⟨?_, ih⟩
    intro u hu
    rw [stop_mk]
    exact hmore.offset_le u hu

/-- A token that does not end the stream covers some of the text. -/
theorem Stream.covers (h : Stream c b ts) : ∀ t ∈ ts, t.kind.isLast = false →
    t.offset < t.stop ∧ t.stop ≤ c.offset + Text.utf8Length c.rest := by
  induction h with
  | ended | unread | refused =>
    intro t ht hlast
    obtain rfl := List.mem_singleton.mp ht
    cases hlast
  | @token c _ _ l _ hrest hscan _ _ ih =>
    have hpos := utf8Length_text_pos hrest hscan
    have hend := c.skipBlanks_end
    have hlexeme := scan_end hscan
    intro t ht hlast
    rcases List.mem_cons.mp ht with rfl | ht
    · rw [stop_mk]
      dsimp only
      omega
    · have := ih t ht hlast
      dsimp only at this
      omega

theorem Stream.spelled (h : Stream c b ts) : ∀ t ∈ ts, ∀ s, t.kind.spelling? = some s →
    t.text = s := by
  induction h with
  | ended | unread | refused =>
    intro t ht s hs
    obtain rfl := List.mem_singleton.mp ht
    cases hs
  | @token c _ _ l _ hrest hscan _ _ ih =>
    refine List.forall_mem_cons.mpr ⟨?_, ih⟩
    intro s hs
    obtain ⟨d, ds, hd⟩ := List.exists_cons_of_ne_nil hrest
    exact text_of_spelling (hd ▸ hscan) hs

theorem Stream.rightBrace (h : Stream c b ts) : ∀ t ∈ ts, t.kind = .rightBrace →
    t.stop = t.offset + 1 := by
  intro t ht hkind
  rw [Token.stop, h.spelled t ht "\x7d" (by rw [hkind]; rfl)]
  rfl

/-- The end of input stands at the end, and covers nothing. -/
theorem Stream.endOfInput (h : Stream c b ts) : ∀ t ∈ ts, t.kind = .endOfInput →
    t.offset = c.offset + Text.utf8Length c.rest ∧ t.text = "" := by
  induction h with
  | @ended c _ hrest =>
    have hend := c.skipBlanks_end
    rw [hrest] at hend
    simpa using hend
  | unread | refused => simp [Token.ofFault]
  | @token c _ _ l _ hrest hscan _ _ ih =>
    have hend := c.skipBlanks_end
    have hlexeme := scan_end hscan
    intro t ht hkind
    rcases List.mem_cons.mp ht with rfl | ht
    · have := kind_scan hrest hscan
      dsimp only at hkind
      rw [hkind] at this
      cases this
    · obtain ⟨hoffset, htext⟩ := ih t ht hkind
      dsimp only at hoffset
      exact ⟨by omega, htext⟩

end

end ProtoSchema
