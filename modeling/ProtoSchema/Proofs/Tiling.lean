import ProtoSchema.Proofs.Tokenization
import ProtoSchema.Tree

/-!
# Tokens tile their source

No byte of a source is lost between its tokens: in front of each token stands a gap of blanks, and
gaps and texts, one after the other, are the source again (`tokenize_tiles`).  Where the tokens end
in an error, they are the source up to that error.

* §1 what a span of a source holds;
* §2 tiles, each a gap and the token behind it, and what is asked of them (`Tiling`);
* §3 places in a source, §4 the tiles of a stream, one more for each token.
-/

namespace ProtoSchema

open Lexeme

/-! ## §1 What a span holds -/

/-- `text` stands in `source` from the byte `s.start` up to the byte `s.stop`.  There is text in
front of it and behind it, so both are places between characters. -/
def Span.Holds (s : Span) (source text : String) : Prop :=
  ∃ front back, source = front ++ text ++ back ∧ s.start = front.utf8ByteSize ∧
    s.stop = front.utf8ByteSize + text.utf8ByteSize

section

variable {source x y : String} {s t : Span}

theorem Span.Holds.stop_eq (h : s.Holds source x) : s.stop = s.start + x.utf8ByteSize := by
  obtain ⟨front, back, -, hstart, hstop⟩ := h
  rw [hstart, hstop]

theorem Span.Holds.start_le (h : s.Holds source x) : s.start ≤ s.stop := by
  rw [h.stop_eq]
  exact Nat.le_add_right _ _

theorem holds_self (source : String) : (⟨0, source.utf8ByteSize⟩ : Span).Holds source source :=
  ⟨"", "", by simp, by simp, by simp⟩

/-- Of two starts of a text, the longer one begins with the shorter one. -/
theorem exists_append_of_size_le {p p' q q' : String} (h : p ++ p' = q ++ q')
    (hle : p.utf8ByteSize ≤ q.utf8ByteSize) : ∃ m, q = p ++ m ∧ p' = m ++ q' := by
  simp only [String.ext_iff, String.toList_append] at h ⊢
  rcases List.append_eq_append_iff.mp h with ⟨m, hq, hp'⟩ | ⟨m, hp, hq'⟩
  · exact ⟨String.ofList m, by rw [hq, String.toList_ofList], by rw [hp', String.toList_ofList]⟩
  · -- the other one is longer by nothing
    have hsize := congrArg Text.utf8Length hp
    rw [Text.utf8Length_append, Text.utf8Length_toList, Text.utf8Length_toList] at hsize
    obtain rfl : m = [] := Text.eq_nil_of_utf8Length_eq_zero (by omega)
    exact ⟨"", by simp [hp], by simp [hq']⟩

/-- A text is cut into two at a byte in one way. -/
theorem append_inj_of_size_eq {p p' q q' : String} (h : p ++ p' = q ++ q')
    (hsize : p.utf8ByteSize = q.utf8ByteSize) : p = q ∧ p' = q' := by
  obtain ⟨m, rfl, rfl⟩ := exists_append_of_size_le h (Nat.le_of_eq hsize)
  rw [String.utf8ByteSize_append] at hsize
  obtain rfl := String.utf8ByteSize_eq_zero_iff.mp (show m.utf8ByteSize = 0 by omega)
  simp

/-- A span holds one text. -/
theorem Span.Holds.unique (h : s.Holds source x) (h' : s.Holds source y) : x = y := by
  obtain ⟨front, back, hsource, hstart, hstop⟩ := h
  obtain ⟨front', back', hsource', hstart', hstop'⟩ := h'
  rw [hsource, String.append_assoc, String.append_assoc] at hsource'
  obtain ⟨-, hrest⟩ := append_inj_of_size_eq hsource' (hstart.symm.trans hstart')
  exact (append_inj_of_size_eq hrest (by omega)).1

/-- Where one span stops before another starts, some text stands between them. -/
theorem Span.Holds.exists_between (h : s.Holds source x) (h' : t.Holds source y)
    (hle : s.stop ≤ t.start) : ∃ m, (⟨s.start, t.stop⟩ : Span).Holds source (x ++ m ++ y) := by
  obtain ⟨front, back, hsource, hstart, hstop⟩ := h
  obtain ⟨front', back', hsource', hstart', hstop'⟩ := h'
  have hsplit : (front ++ x) ++ back = front' ++ (y ++ back') := by
    rw [← hsource, hsource', String.append_assoc]
  obtain ⟨m, rfl, rfl⟩ := exists_append_of_size_le hsplit (by
    rw [String.utf8ByteSize_append]
    omega)
  refine ⟨m, front, back', ?_, hstart, ?_⟩
  · rw [hsource]
    simp only [String.append_assoc]
  · simp only [String.utf8ByteSize_append] at hstart' hstop' ⊢
    omega

/-- Where one span stops and another starts, the two make one. -/
theorem Span.Holds.append (h : s.Holds source x) (h' : t.Holds source y)
    (heq : s.stop = t.start) : (⟨s.start, t.stop⟩ : Span).Holds source (x ++ y) := by
  obtain ⟨m, front, back, hsource, hstart, hstop⟩ := h.exists_between h' (Nat.le_of_eq heq)
  have hm : m = "" := by
    have := h.stop_eq
    have := h'.stop_eq
    simp only [String.utf8ByteSize_append] at hstart hstop
    exact String.utf8ByteSize_eq_zero_iff.mp (by omega)
  subst hm
  rw [String.append_empty] at hsource hstop
  exact ⟨front, back, hsource, hstart, hstop⟩

end

/-! ## §2 Tiles -/

/-- A token, and the text between it and the token before it. -/
structure Tile where
  gap : String
  token : Token

/-- The gaps and the texts of tokens, one after the other. -/
def weave : List Tile → String
  | [] => ""
  | tile :: tiles => tile.gap ++ tile.token.text ++ weave tiles

theorem weave_append (as bs : List Tile) : weave (as ++ bs) = weave as ++ weave bs := by
  induction as with
  | nil => simp [weave]
  | cons tile as ih => simp only [List.cons_append, weave, ih, String.append_assoc]

/-- Where the last of the tiles stops, or `start` if there is none. -/
def reach (start : Nat) : List Tile → Nat
  | [] => start
  | tile :: tiles => reach tile.token.stop tiles

/-- Tiles that cover `source` from the byte `start` on. -/
structure Tiling (source : String) (start : Nat) (tiles : List Tile) : Prop where
  ne_nil : tiles ≠ []
  /-- The last token, and only the last, is the end of input or an error. -/
  isLast_iff : ∀ pre tile post, tiles = pre ++ tile :: post →
    (tile.token.kind.isLast = true ↔ post = [])
  /-- Only blanks stand between one token and the next. -/
  blank : ∀ tile ∈ tiles, ∀ c ∈ tile.gap.toList, c ∈ blanks
  /-- A gap reaches from where the token before it stops to where its own token starts. -/
  gap : ∀ pre tile post, tiles = pre ++ tile :: post →
    reach start pre ≤ tile.token.offset ∧
      (⟨reach start pre, tile.token.offset⟩ : Span).Holds source tile.gap
  /-- A token is copied from the source, but for an error, which has a message for its text. -/
  text : ∀ tile ∈ tiles, tile.token.kind ≠ .error →
    tile.token.span.Holds source tile.token.text
  text_eq_empty_iff : ∀ tile ∈ tiles, tile.token.kind ≠ .error →
    (tile.token.text = "" ↔ tile.token.kind = .endOfInput)
  ended : ∀ tile ∈ tiles, tile.token.kind = .endOfInput →
    tile.token.offset = source.utf8ByteSize
  /-- Up to the token that ends them, the tiles are the source. -/
  woven : ∀ before last, tiles = before ++ [last] →
    (⟨start, last.token.offset⟩ : Span).Holds source (weave before ++ last.gap)

/-! ## §3 Places -/

/-- The cursor stands in `source`, with the rest of it ahead. -/
def Cursor.In (c : Cursor) (source : String) : Prop :=
  ∃ read, source.toList = read ++ c.rest ∧ c.offset = Text.utf8Length read

/-- What is ahead can be read: the cursor moves behind it. -/
theorem Cursor.In.advance {c : Cursor} {source : String} (h : c.In source) {w rest : List Char}
    (hrest : c.rest = w ++ rest) :
    (⟨c.offset, c.offset + Text.utf8Length w⟩ : Span).Holds source (String.ofList w) ∧
      (⟨c.offset + Text.utf8Length w, rest⟩ : Cursor).In source := by
  obtain ⟨read, hsource, hoffset⟩ := h
  refine ⟨⟨String.ofList read, String.ofList rest, ?_, ?_, ?_⟩, read ++ w, ?_, ?_⟩
  · simp [String.ext_iff, hsource, hrest]
  · rw [hoffset, Text.utf8ByteSize_ofList]
  · simp only [hoffset, Text.utf8ByteSize_ofList]
  · rw [hsource, hrest, List.append_assoc]
  · rw [hoffset, Text.utf8Length_append]

theorem Cursor.In.skipBlanks {c : Cursor} {source : String} (h : c.In source) :
    (⟨c.offset, c.skipBlanks.offset⟩ : Span).Holds source
        (String.ofList (c.rest.takeWhile isBlank)) ∧ c.skipBlanks.In source :=
  h.advance c.rest_eq

theorem blanks_of_takeWhile (cs : List Char) :
    ∀ d ∈ (String.ofList (cs.takeWhile isBlank)).toList, d ∈ blanks := by
  intro d hd
  rw [String.toList_ofList] at hd
  exact isBlank_iff.mp (isBlank_of_mem_takeWhile cs d hd)

/-! ## §4 The tiles of a stream -/

section

variable {source : String} {start : Nat} {tile : Tile}

/-- The tile of the token that ends a stream. -/
theorem tiling_singleton (hblank : ∀ c ∈ tile.gap.toList, c ∈ blanks)
    (hgap : (⟨start, tile.token.offset⟩ : Span).Holds source tile.gap)
    (hlast : tile.token = ⟨.endOfInput, source.utf8ByteSize, ""⟩ ∨ tile.token.kind = .error) :
    Tiling source start [tile] := by
  have hsplit : ∀ pre u post, [tile] = pre ++ u :: post → pre = [] ∧ u = tile ∧ post = [] := by
    intro pre u post h
    rcases List.cons_eq_append_iff.mp h with ⟨rfl, hu⟩ | ⟨pre, -, h⟩
    · obtain ⟨rfl, rfl⟩ := List.cons.inj hu
      exact ⟨rfl, rfl, rfl⟩
    · simp at h
  have hend : tile.token.kind ≠ .error →
      tile.token = ⟨.endOfInput, source.utf8ByteSize, ""⟩ := fun h => hlast.resolve_right h
  constructor
  case ne_nil => simp
  case isLast_iff =>
    intro pre u post h
    obtain ⟨-, rfl, rfl⟩ := hsplit pre u post h
    rcases hlast with hlast | hlast <;> simp [hlast, TokenKind.isLast]
  case blank => simpa using hblank
  case gap =>
    intro pre u post h
    obtain ⟨rfl, rfl, -⟩ := hsplit pre u post h
    exact ⟨hgap.start_le, hgap⟩
  case text =>
    intro u hu herror
    obtain rfl := List.mem_singleton.mp hu
    rw [hend herror]
    exact ⟨source, "", by simp, rfl, by simp [Token.span, Token.stop]⟩
  case text_eq_empty_iff =>
    intro u hu herror
    obtain rfl := List.mem_singleton.mp hu
    simp [hend herror]
  case ended =>
    intro u hu hkind
    obtain rfl := List.mem_singleton.mp hu
    rw [hend (by simp [hkind])]
  case woven =>
    intro before last h
    obtain ⟨rfl, rfl, -⟩ := hsplit before last [] h
    simpa [weave] using hgap

/-- A tile in front of tiles that go on where it stops. -/
theorem Tiling.cons {tiles : List Tile} (h : Tiling source tile.token.stop tiles)
    (hblank : ∀ c ∈ tile.gap.toList, c ∈ blanks)
    (hgap : (⟨start, tile.token.offset⟩ : Span).Holds source tile.gap)
    (htext : tile.token.span.Holds source tile.token.text)
    (hkind : tile.token.kind.isLast = false) (hne : tile.token.text ≠ "") :
    Tiling source start (tile :: tiles) := by
  constructor
  case ne_nil => simp
  case isLast_iff =>
    intro pre u post hsplit
    rcases List.cons_eq_append_iff.mp hsplit with ⟨rfl, hu⟩ | ⟨pre, rfl, hmore⟩
    · obtain ⟨rfl, rfl⟩ := List.cons.inj hu
      simp [hkind, h.ne_nil]
    · exact h.isLast_iff pre u post hmore
  case blank => exact List.forall_mem_cons.mpr ⟨hblank, h.blank⟩
  case gap =>
    intro pre u post hsplit
    rcases List.cons_eq_append_iff.mp hsplit with ⟨rfl, hu⟩ | ⟨pre, rfl, hmore⟩
    · obtain ⟨rfl, rfl⟩ := List.cons.inj hu
      exact ⟨hgap.start_le, hgap⟩
    · exact h.gap pre u post hmore
  case text => exact List.forall_mem_cons.mpr ⟨fun _ => htext, h.text⟩
  case text_eq_empty_iff =>
    refine List.forall_mem_cons.mpr ⟨fun _ => ?_, h.text_eq_empty_iff⟩
    have hend : tile.token.kind ≠ .endOfInput := by
      intro hend
      rw [hend] at hkind
      cases hkind
    simp [hne, hend]
  case ended =>
    refine List.forall_mem_cons.mpr ⟨fun hend => ?_, h.ended⟩
    rw [hend] at hkind
    cases hkind
  case woven =>
    intro before last hsplit
    rcases List.cons_eq_append_iff.mp hsplit with ⟨rfl, hlast⟩ | ⟨before, rfl, hmore⟩
    · exact absurd (List.cons.inj hlast).2.symm h.ne_nil
    · have hwoven := (hgap.append htext rfl).append (h.woven before last hmore) rfl
      simpa only [weave, String.append_assoc] using hwoven

end

/-- A stream tiles what is ahead of its place: by induction on the stream, one tile for each
token. -/
theorem Stream.exists_tiling {source : String} {c : Cursor} {b : Brackets} {ts : List Token}
    (h : Stream c b ts) (hc : c.In source) :
    ∃ tiles : List Tile, tiles.map Tile.token = ts ∧ Tiling source c.offset tiles := by
  induction h with
  | @ended c b hrest =>
    obtain ⟨hgap, read, hread, hoffset⟩ := hc.skipBlanks
    rw [hrest, List.append_nil] at hread
    rw [← hread, Text.utf8Length_toList] at hoffset
    refine ⟨[⟨_, _⟩], rfl, tiling_singleton (blanks_of_takeWhile _) hgap (.inl ?_)⟩
    rw [hoffset]
  | unread | refused =>
    exact ⟨[⟨_, _⟩], rfl, tiling_singleton (blanks_of_takeWhile _) hc.skipBlanks.1 (.inr rfl)⟩
  | @token c b b' l ts hrest hscan _ _ ih =>
    obtain ⟨hgap, hskip⟩ := hc.skipBlanks
    obtain ⟨htext, hmore⟩ := hskip.advance (text_append_rest hscan).symm
    obtain ⟨tiles, rfl, htiling⟩ := ih hmore
    obtain ⟨d, ds, hd⟩ := List.exists_cons_of_ne_nil hrest
    have hne : String.ofList l.text ≠ "" := by
      intro hempty
      exact text_ne_nil (hd ▸ hscan) (by simpa using ofList_eq_iff.mp hempty)
    refine ⟨⟨_, _⟩ :: tiles, rfl, Tiling.cons ?_ (blanks_of_takeWhile _) hgap ?_
      (kind_scan hrest hscan) hne⟩
    · rwa [stop_mk]
    · rwa [Token.span, stop_mk]

theorem exists_tiling_tokenize (source : String) :
    ∃ tiles : List Tile, tiles.map Tile.token = tokenize source ∧ Tiling source 0 tiles :=
  (stream_tokenize source).exists_tiling ⟨[], rfl, rfl⟩

/-- A token that is no error covers its own text. -/
theorem holds_of_mem_tokenize {source : String} {t : Token} (ht : t ∈ tokenize source)
    (herror : t.kind ≠ .error) : t.span.Holds source t.text := by
  obtain ⟨tiles, htokens, htiling⟩ := exists_tiling_tokenize source
  obtain ⟨tile, htile, rfl⟩ := List.mem_map.mp (htokens ▸ ht)
  exact htiling.text tile htile herror

/-- The tokens of a text, with the blanks in front of them, tile it; and gaps and texts are the text
again, or its start if the tokens end in an error. -/
theorem tokenize_tiles (source : String) :
    ∃ tiles : List Tile, tiles.map Tile.token = tokenize source ∧ Tiling source 0 tiles ∧
      ∀ before last, tiles = before ++ [last] →
        (last.token.kind = .endOfInput → weave tiles = source) ∧
        (last.token.kind = .error →
          (⟨0, last.token.offset⟩ : Span).Holds source (weave before ++ last.gap)) := by
  obtain ⟨tiles, htokens, htiling⟩ := exists_tiling_tokenize source
  refine ⟨tiles, htokens, htiling, ?_⟩
  rintro before last rfl
  have hwoven := htiling.woven before last rfl
  refine ⟨fun hend => ?_, fun _ => hwoven⟩
  -- the end of input adds nothing, and stands at the end
  have hmem : last ∈ before ++ [last] := by simp
  have htext := (htiling.text_eq_empty_iff last hmem (by simp [hend])).mpr hend
  rw [htiling.ended last hmem hend] at hwoven
  rw [← hwoven.unique (holds_self source), weave_append, weave, weave, htext]
  simp only [String.append_empty]

end ProtoSchema
