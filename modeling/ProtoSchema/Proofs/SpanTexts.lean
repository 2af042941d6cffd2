import ProtoSchema.Proofs.Spans
import ProtoSchema.Proofs.Tiling

/-!
# What the spans of a file hold

The span of a part of a file that was read holds that part as it is written: a name its letters, a
message all from its keyword up to its closing brace (`parseText_spans_hold`).

* §1 what a part looks like in its source (`Part.Shows`);
* §2 tokens that follow one another in a source (`Run`), and the text from one to another;
* §3 constructs that hold no others, §4 members and files.
-/

namespace ProtoSchema

/-! ## §1 Looks -/

/-- `text` starts with `first` and ends, behind that, with `last`. -/
def Framed (first last text : String) : Prop := ∃ middle, text = first ++ middle ++ last

/-- What a field starts with: the word `repeated`, the word `map`, or the name of its type. -/
def Field.opening (decl : Field) : String :=
  match decl.repeated, decl.type with
  | some _, _ => "repeated"
  | none, .map _ => "map"
  | none, .named type => type.name

/-- The number of an enum field is the last token of `source` in front of the semicolon that ends
the field. -/
def EnumField.HasValueIn (decl : EnumField) (source : String) : Prop :=
  ∃ pre number semi post, significant (tokenize source) = pre ++ number :: semi :: post ∧
    number.kind = .integerLit ∧ number.text = decl.value ∧ decl.span.start ≤ number.offset ∧
    semi.kind = .semicolon ∧ semi.stop = decl.span.stop

/-- How a part of `source` is written. -/
def Part.Shows (source : String) : Part → String → Prop
  | .file _, text => text = source
  | .ident i, text => text = i.name
  | .literal l, text => text = l.value
  | .mapType _, text => Framed "map" ">" text
  | .block _ _ _, text => Framed "\x7b" "\x7d" text
  | .node (.importDecl _), text => Framed "import" ";" text
  | .node (.package _), text => Framed "package" ";" text
  | .node (.option _), text => Framed "option" ";" text
  | .node (.scope .message _ _ _), text => Framed "message" "\x7d" text
  | .node (.scope .oneOf _ _ _), text => Framed "oneof" "\x7d" text
  | .node (.scope .enum _ _ _), text => Framed "enum" "\x7d" text
  | .node (.field decl), text => Framed decl.opening ";" text
  | .node (.enumField decl), text => Framed decl.name.name ";" text ∧ decl.HasValueIn source
  | .node (.service _ _ _ _ _), text => Framed "service" "\x7d" text
  | .node (.rpc _), text => Framed "rpc" "\x7d" text
  | .node (.empty _), text => text = ";"

/-- The span of the part holds a text that the part is written as. -/
def Part.Shown (source : String) (p : Part) : Prop :=
  ∃ text, p.span.Holds source text ∧ p.Shows source text

/-! ## §2 Runs of tokens -/

/-- Ordinary tokens of `source` that follow one another, but for comments. -/
structure Run (source : String) (ts : List Token) : Prop where
  within : ts <:+: significant (tokenize source)
  ordinary : ∀ t ∈ ts, t.Ordinary

section

variable {source : String} {ts us : List Token} {first last : Token}

theorem Run.of_within (h : Run source ts) (hus : us <:+: ts) : Run source us where
  within := hus.trans h.within
  ordinary t ht := h.ordinary t (hus.subset ht)

theorem Run.mem_tokenize (h : Run source ts) {t : Token} (ht : t ∈ ts) : t ∈ tokenize source :=
  (List.filter_sublist).subset (h.within.subset ht)

theorem Run.holds (h : Run source ts) {t : Token} (ht : t ∈ ts) : t.span.Holds source t.text :=
  holds_of_mem_tokenize (h.mem_tokenize ht) (h.ordinary t ht).not_error

theorem Run.spelled (h : Run source ts) {t : Token} (ht : t ∈ ts) {kind : TokenKind}
    (hkind : t.kind = kind) {s : String} (hs : kind.spelling? = some s) : t.text = s :=
  (stream_tokenize source).spelled t (h.mem_tokenize ht) s (hkind ▸ hs)

theorem Run.pairwise (h : Run source ts) : ts.Pairwise fun t u => t.stop ≤ u.offset :=
  (stream_tokenize source).pairwise.sublist (h.within.sublist.trans List.filter_sublist)

/-- From the first to the last of some tokens stands what they are, and something between. -/
theorem Run.framed (us : List Token) (h : Run source (first :: us ++ [last])) {a b : String}
    (hfirst : first.text = a) (hlast : last.text = b) :
    ∃ text, (first.spanTo last).Holds source text ∧ Framed a b text := by
  have horder : first.stop ≤ last.offset :=
    (List.pairwise_append.mp h.pairwise).2.2 first (by simp) last (by simp)
  obtain ⟨m, hm⟩ := (h.holds (t := first) (by simp)).exists_between
    (h.holds (t := last) (by simp)) horder
  exact ⟨_, hm, m, by rw [hfirst, hlast]⟩

end

/-- All parts below `p` are shown. -/
def Part.Legible (source : String) (p : Part) : Prop := ∀ q ∈ p.subtree, q.Shown source

theorem legible_iff {source : String} {p : Part} :
    p.Legible source ↔ p.Shown source ∧ ∀ c ∈ p.children, c.Legible source :=
  forall_mem_subtree_iff

/-! ## §3 Constructs -/

section

variable {source : String} {ts : List Token}

theorem Run.ident (h : Run source ts) {t : Token} (ht : t ∈ ts) :
    (Part.ident t.ident).Legible source :=
  legible_iff.mpr ⟨⟨t.text, h.holds ht, rfl⟩, by simp [Part.children]⟩

theorem Run.literal (h : Run source ts) {t : Token} (ht : t ∈ ts) (kind : LiteralKind) :
    (Part.literal (t.literal kind)).Legible source :=
  legible_iff.mpr ⟨⟨t.text, h.holds ht, rfl⟩, by simp [Part.children]⟩

theorem Run.mapType {keyword opening key comma value closing : Token}
    (h : Run source [keyword, opening, key, comma, value, closing])
    (hmap : MapHead keyword opening key comma value closing) :
    (Part.mapType ⟨key.ident, value.ident, keyword.spanTo closing⟩).Legible source := by
  refine legible_iff.mpr ⟨?_, ?_⟩
  · exact h.framed [opening, key, comma, value] (h.spelled (by simp) hmap.keyword_kind rfl)
      (h.spelled (by simp) hmap.closing_kind rfl)
  · simp only [Part.children, List.forall_mem_cons]
    exact ⟨h.ident (by simp), h.ident (by simp), by simp⟩

/-- A field, from what is known of its type and of the token that it starts with. -/
theorem Run.field {first name equals number semi : Token} (us : List Token) {type : FieldType}
    {repeated : Option Ident} (h : Run source (first :: us ++ [name, equals, number] ++ [semi]))
    (hend : FieldEnd name equals number semi) (htype : type.part.Legible source)
    (hrepeated : ∀ i ∈ repeated, (Part.ident i).Legible source)
    (hfirst : first.text = Field.opening
      ⟨name.ident, number.literal .integer, type, repeated, first.spanTo semi⟩) :
    (Part.node (.field ⟨name.ident, number.literal .integer, type, repeated,
      first.spanTo semi⟩)).Legible source := by
  refine legible_iff.mpr ⟨?_, ?_⟩
  · exact h.framed (us ++ [name, equals, number]) hfirst (h.spelled (by simp) hend.semi_kind rfl)
  · simp only [Part.children, Node.children, List.forall_mem_append, List.forall_mem_cons,
      List.forall_mem_map]
    refine ⟨⟨h.ident (by simp), h.literal (by simp) _, htype, by simp⟩, ?_⟩
    simpa using hrepeated

theorem Run.hasValueIn {name equals value semi : Token}
    (h : Run source [name, equals, value, semi]) (hend : FieldEnd name equals value semi) :
    EnumField.HasValueIn ⟨name.ident, value.text, name.spanTo semi⟩ source := by
  obtain ⟨pre, post, hsplit⟩ := h.within
  refine ⟨pre ++ [name, equals], value, semi, post, by simp [← hsplit], hend.number_kind, rfl, ?_,
    hend.semi_kind, rfl⟩
  calc name.offset
    _ ≤ name.stop := Nat.le_add_right _ _
    _ ≤ value.offset := (List.pairwise_cons.mp h.pairwise).1 value (by simp)

theorem Leaf.legible {c : Construct} {n : Node} (h : Leaf c ts n) (hts : Run source ts) :
    (Part.node n).Legible source := by
  cases h with
  | @empty semi hsemi =>
    refine legible_iff.mpr ⟨⟨semi.text, hts.holds (by simp), ?_⟩, by simp [Part.children,
      Node.children]⟩
    exact hts.spelled (by simp) hsemi rfl
  | @importDecl keyword path semi modifiers hkeyword _ _ _ hsemi =>
    refine legible_iff.mpr ⟨?_, ?_⟩
    · refine Run.framed (modifiers ++ [path]) ?_ (hts.spelled (by simp) hkeyword rfl)
        (hts.spelled (by simp) hsemi rfl)
      simpa using hts
    · simp only [Part.children, Node.children, List.forall_mem_append, List.forall_mem_map,
        List.forall_mem_singleton]
      exact ⟨fun m hm => hts.ident (by simp [hm]), hts.literal (by simp) _⟩
  | @package keyword semi skipped hkeyword _ hsemi =>
    refine legible_iff.mpr ⟨?_, by simp [Part.children, Node.children]⟩
    exact hts.framed skipped (hts.spelled (by simp) hkeyword rfl) (hts.spelled (by simp) hsemi rfl)
  | @option keyword name equals value semi kind hkeyword _ _ _ hsemi =>
    refine legible_iff.mpr ⟨?_, ?_⟩
    · exact hts.framed [name, equals, value] (hts.spelled (by simp) hkeyword rfl)
        (hts.spelled (by simp) hsemi rfl)
    · simp only [Part.children, Node.children, List.forall_mem_cons]
      exact ⟨hts.ident (by simp), hts.literal (by simp) _, by simp⟩
  | @plainField type name equals number semi _ hend =>
    exact hts.field [] hend (hts.ident (by simp)) (by simp) rfl
  | @repeatedField keyword type name equals number semi hkeyword _ hend =>
    refine hts.field [type] hend (hts.ident (by simp)) ?_ (hts.spelled (by simp) hkeyword rfl)
    rintro i ⟨⟩
    exact hts.ident (by simp)
  | @mapField keyword opening key comma value closing name equals number semi hmap hend =>
    have htype : Run source [keyword, opening, key, comma, value, closing] :=
      hts.of_within ⟨[], [name, equals, number, semi], rfl⟩
    exact hts.field [opening, key, comma, value, closing] hend (htype.mapType hmap) (by simp)
      (hts.spelled (by simp) hmap.keyword_kind rfl)
  | @enumField name equals value semi hend =>
    refine legible_iff.mpr ⟨?_, ?_⟩
    · obtain ⟨text, hholds, hframed⟩ := hts.framed [equals, value] rfl
        (hts.spelled (by simp) hend.semi_kind rfl)
      exact ⟨text, hholds, hframed, hts.hasValueIn hend⟩
    · simp only [Part.children, Node.children, List.forall_mem_singleton]
      exact hts.ident (by simp)
  | @rpc keyword name open₁ input close₁ returns open₂ output close₂ opening closing hkeyword _ _ _
      _ _ _ _ _ _ hclosing =>
    refine legible_iff.mpr ⟨?_, ?_⟩
    · exact hts.framed [name, open₁, input, close₁, returns, open₂, output, close₂, opening]
        (hts.spelled (by simp) hkeyword rfl) (hts.spelled (by simp) hclosing rfl)
    · simp only [Part.children, Node.children, List.forall_mem_cons]
      exact ⟨hts.ident (by simp), hts.ident (by simp), hts.ident (by simp), by simp⟩

end

/-! ## §4 Members and files -/

section

variable {source : String} {ts : List Token}

/-- What stands in braces, with the braces. -/
theorem Run.block {opening closing : Token} {inner : List Token} {nodes : List Node}
    (h : Run source (opening :: inner ++ [closing])) (hopening : opening.kind = .leftBrace)
    (hclosing : closing.kind = .rightBrace)
    (hnodes : ∀ n ∈ nodes, (Part.node n).Legible source) :
    (Part.block opening.offset nodes closing.offset).Legible source := by
  refine legible_iff.mpr ⟨?_, ?_⟩
  · -- a closing brace ends one byte behind its start
    have hstop : closing.stop = closing.offset + 1 :=
      (stream_tokenize source).rightBrace closing (h.mem_tokenize (by simp)) hclosing
    have hspan : (Part.block opening.offset nodes closing.offset).span =
        opening.spanTo closing := by
      rw [Part.span, Token.spanTo, hstop]
    rw [Part.Shown, hspan]
    exact h.framed inner (h.spelled (by simp) hopening rfl) (h.spelled (by simp) hclosing rfl)
  · simpa only [Part.children, List.forall_mem_map] using hnodes

/-- A construct with others in braces, what is between the braces, and what follows. -/
theorem Run.of_braced {keyword name opening closing : Token} {inner rest : List Token}
    (h : Run source (keyword :: name :: opening :: (inner ++ closing :: rest))) :
    Run source (keyword :: (name :: opening :: inner) ++ [closing]) ∧ Run source inner ∧
      Run source rest := by
  refine ⟨h.of_within ⟨[], rest, ?_⟩, h.of_within ⟨[keyword, name, opening], closing :: rest, ?_⟩,
    h.of_within ⟨keyword :: name :: opening :: inner ++ [closing], [], ?_⟩⟩
  all_goals simp

/-- Members are legible where their tokens stand: by induction on how they are derived. -/
theorem Members.legible {place : Place} {room : Nat} {ns : List Node}
    (h : Members place room ts ns) (hts : Run source ts) :
    ∀ n ∈ ns, (Part.node n).Legible source := by
  induction h with
  | nil => simp
  | @leaf _ _ _ ts rest _ _ _ hleaf _ ih =>
    refine List.forall_mem_cons.mpr ⟨hleaf.legible (hts.of_within ?_), ih (hts.of_within ?_)⟩
    · exact (List.prefix_append _ _).isInfix
    · exact (List.suffix_append _ _).isInfix
  | @scope _ _ kind keyword name opening closing inner rest nodes ns _ hbraced _ _ ihinner ih =>
    obtain ⟨hall, hinner, hrest⟩ := hts.of_braced
    refine List.forall_mem_cons.mpr ⟨legible_iff.mpr ⟨?_, ?_⟩, ih hrest⟩
    · have hclosing := hall.spelled (by simp) hbraced.closing_kind rfl
      have hkeyword := fun s => hall.spelled (by simp) hbraced.keyword_kind (s := s)
      cases kind <;> exact hall.framed _ (hkeyword _ rfl) hclosing
    · simp only [Part.children, Node.children, List.forall_mem_cons, List.forall_mem_map]
      exact ⟨hts.ident (by simp), ihinner hinner⟩
  | @service _ _ keyword name opening closing inner rest nodes ns _ hbraced _ _ ihinner ih =>
    obtain ⟨hall, hinner, hrest⟩ := hts.of_braced
    have hblock : Run source (opening :: inner ++ [closing]) :=
      hall.of_within ⟨[keyword, name], [], by simp⟩
    refine List.forall_mem_cons.mpr ⟨legible_iff.mpr ⟨?_, ?_⟩, ih hrest⟩
    · exact hall.framed _ (hall.spelled (by simp) hbraced.keyword_kind rfl)
        (hall.spelled (by simp) hbraced.closing_kind rfl)
    · simp only [Part.children, Node.children, List.forall_mem_cons]
      exact ⟨hts.ident (by simp),
        hblock.block hbraced.opening_kind hbraced.closing_kind (ihinner hinner), by simp⟩

end

/-- The span of a file that was read is all of its source, and the span of each part that a walk
visits holds that part as it is written. -/
theorem parseText_spans_hold {source : String} {f : File} (h : (parseText source).value = .ok f) :
    f.span = ⟨0, source.utf8ByteSize⟩ ∧
      ∀ p ∈ walk (.collect fun _ => true) (.file f) [],
        ∃ text, p.span.Holds source text ∧ p.Shows source text := by
  have hspan := (nested_of_parseText h).2
  refine ⟨hspan, ?_⟩
  rw [walk_collect, List.nil_append]
  obtain ⟨before, last, htokens, hlast, hderives, -⟩ := parseText_eq_ok_iff.mp h
  refine legible_iff.mpr ⟨⟨source, ?_, rfl⟩, ?_⟩
  · rw [Part.span, hspan]
    exact holds_self source
  · have hwithin : significant before <:+: significant (tokenize source) := by
      rw [htokens, significant_append]
      exact (List.prefix_append _ _).isInfix
    have hrun : Run source (significant before) := ⟨hwithin, ordinary_of_tokenize htokens⟩
    simp only [Part.children, List.forall_mem_map]
    generalize significant before = ts at hrun hderives
    cases hderives with
    | @file keyword equals language semi body _ _ hbody =>
      exact hbody.legible (hrun.of_within ⟨[keyword, equals, language, semi], [], by simp⟩)

/-- Names beyond ASCII, a comment between the tokens of a field, and fields that start with a word
or with their type. -/
def accentedSource : String :=
  "syntax=\"proto3\";message Ü\x7bmap<é,b>c=1;repeated é.d e//é\n=2;\x7denum E\x7bé=-1//;\n;\x7d"

def accentedFile : File :=
  ⟨.proto3,
    [.scope .message ⟨"Ü", ⟨24, 26⟩⟩
      [.field ⟨⟨"c", ⟨36, 37⟩⟩, ⟨.integer, "1", ⟨38, 39⟩⟩,
          .map ⟨⟨"é", ⟨31, 33⟩⟩, ⟨"b", ⟨34, 35⟩⟩, ⟨27, 36⟩⟩, none, ⟨27, 40⟩⟩,
        .field ⟨⟨"e", ⟨54, 55⟩⟩, ⟨.integer, "2", ⟨61, 62⟩⟩, .named ⟨"é.d", ⟨49, 53⟩⟩,
          some ⟨"repeated", ⟨40, 48⟩⟩, ⟨40, 63⟩⟩]
      ⟨16, 64⟩,
    .scope .enum ⟨"E", ⟨69, 70⟩⟩ [.enumField ⟨⟨"é", ⟨71, 73⟩⟩, "-1", ⟨71, 81⟩⟩] ⟨64, 82⟩],
    ⟨0, 82⟩⟩

theorem accentedFile_spans_hold :
    (parseText accentedSource).value = .ok accentedFile ∧
      accentedFile.span = ⟨0, accentedSource.utf8ByteSize⟩ ∧
        ∀ p ∈ walk (.collect fun _ => true) (.file accentedFile) [],
          ∃ text, p.span.Holds accentedSource text ∧ p.Shows accentedSource text := by
  have h : (parseText accentedSource).value = .ok accentedFile := by decide +kernel
  exact ⟨h, parseText_spans_hold h⟩

end ProtoSchema
