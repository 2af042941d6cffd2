import ProtoSchema.Proofs.Derivation

/-!
# Trees without places

The grammar looks at the kinds and texts of tokens and not at where they stand.  `unplaced` forgets
the places in a tree, and tokens of the same kinds and texts spell the same tree but for places
(`Derives.of_words`).

* §1 words, §2 forgetting places, §3 the same words elsewhere.
-/

namespace ProtoSchema

/-! ## §1 Words -/

/-- A token wherever it stands. -/
def Token.word (t : Token) : TokenKind × String := (t.kind, t.text)

theorem kind_of_word {t u : Token} (h : t.word = u.word) : t.kind = u.kind :=
  congrArg Prod.fst h

theorem text_of_word {t u : Token} (h : t.word = u.word) : t.text = u.text :=
  congrArg Prod.snd h

theorem exists_word_of_mem {ts ts' : List Token} (h : ts'.map Token.word = ts.map Token.word)
    {t : Token} (ht : t ∈ ts') : ∃ u ∈ ts, t.word = u.word := by
  obtain ⟨u, hu, heq⟩ := List.mem_map.mp (h ▸ List.mem_map_of_mem (f := Token.word) ht)
  exact ⟨u, hu, heq.symm⟩

/-! ## §2 Forgetting places -/

/-- What stands for a span that is forgotten. -/
def Span.nowhere : Span := ⟨0, 0⟩

def Ident.unplaced (i : Ident) : Ident := { i with span := .nowhere }

def Literal.unplaced (l : Literal) : Literal := { l with span := .nowhere }

def FieldType.unplaced : FieldType → FieldType
  | named name => .named name.unplaced
  | map type => .map ⟨type.key.unplaced, type.value.unplaced, .nowhere⟩

mutual

/-- The node without its spans and without the offsets of its braces. -/
def Node.unplaced : Node → Node
  | .importDecl d => .importDecl ⟨d.modifiers.map Ident.unplaced, d.path.unplaced, .nowhere⟩
  | .package _ => .package .nowhere
  | .option d => .option ⟨d.name.unplaced, d.value.unplaced, .nowhere⟩
  | .scope kind name members _ =>
    .scope kind name.unplaced (Node.unplacedAll members) .nowhere
  | .field d =>
    .field ⟨d.name.unplaced, d.number.unplaced, d.type.unplaced, d.repeated.map Ident.unplaced,
      .nowhere⟩
  | .enumField d => .enumField ⟨d.name.unplaced, d.value, .nowhere⟩
  | .service name _ statements _ _ =>
    .service name.unplaced 0 (Node.unplacedAll statements) 0 .nowhere
  | .rpc d => .rpc ⟨d.name.unplaced, d.input.unplaced, d.output.unplaced, .nowhere⟩
  | .empty _ => .empty .nowhere

def Node.unplacedAll : List Node → List Node
  | [] => []
  | n :: ns => n.unplaced :: Node.unplacedAll ns

end

def File.unplaced (f : File) : File := ⟨f.dialect, Node.unplacedAll f.declarations, .nowhere⟩

theorem unplaced_ident {t u : Token} (h : t.word = u.word) :
    t.ident.unplaced = u.ident.unplaced := by
  simp [Token.ident, Ident.unplaced, text_of_word h]

theorem unplaced_literal {t u : Token} (h : t.word = u.word) (kind : LiteralKind) :
    (t.literal kind).unplaced = (u.literal kind).unplaced := by
  simp [Token.literal, Literal.unplaced, text_of_word h]

/-! ## §3 The same words elsewhere -/

theorem Token.IsTypeName.of_word {t u : Token} (hu : u.IsTypeName) (h : t.word = u.word) :
    t.IsTypeName := by
  rwa [Token.IsTypeName, kind_of_word h]

theorem FieldEnd.of_words {name equals number semi name' equals' number' semi' : Token}
    (h : FieldEnd name equals number semi) (hname : name'.word = name.word)
    (hequals : equals'.word = equals.word) (hnumber : number'.word = number.word)
    (hsemi : semi'.word = semi.word) : FieldEnd name' equals' number' semi' where
  name_kind := (kind_of_word hname).trans h.name_kind
  equals_kind := (kind_of_word hequals).trans h.equals_kind
  number_kind := (kind_of_word hnumber).trans h.number_kind
  semi_kind := (kind_of_word hsemi).trans h.semi_kind

theorem Leaf.of_words {c : Construct} {ts ts' : List Token} {n : Node} (h : Leaf c ts n)
    (hwords : ts'.map Token.word = ts.map Token.word) :
    ∃ n', Leaf c ts' n' ∧ n'.unplaced = n.unplaced := by
  cases h with
  | empty hsemi =>
    simp only [List.map_cons, List.map_nil, List.map_eq_cons_iff, List.map_eq_nil_iff] at hwords
    obtain ⟨semi', _, rfl, h1, rfl⟩ := hwords
    exact ⟨_, .empty ((kind_of_word h1).trans hsemi), rfl⟩
  | option hkeyword hname hequals hvalue hsemi =>
    simp only [List.map_cons, List.map_nil, List.map_eq_cons_iff, List.map_eq_nil_iff] at hwords
    obtain ⟨keyword', _, rfl, h1, name', _, rfl, h2, equals', _, rfl, h3, value', _, rfl, h4,
      semi', _, rfl, h5, rfl⟩ := hwords
    refine ⟨_, .option ((kind_of_word h1).trans hkeyword) (hname.of_word h2)
      ((kind_of_word h3).trans hequals) (kind_of_word h4 ▸ hvalue)
      ((kind_of_word h5).trans hsemi), ?_⟩
    simp only [Node.unplaced, unplaced_ident h2, unplaced_literal h4]
  | @importDecl _ _ _ modifiers hkeyword hmods hnodup hpath hsemi =>
    simp only [List.map_cons, List.map_nil, List.map_append, List.map_eq_cons_iff,
      List.map_eq_append_iff, List.map_eq_nil_iff] at hwords
    obtain ⟨keyword', _, rfl, h1, modifiers', _, rfl, hwords', path', _, rfl, h2, semi', _, rfl,
      h3, rfl⟩ := hwords
    have htexts : modifiers'.map (·.text) = modifiers.map (·.text) := by
      have := congrArg (List.map Prod.snd) hwords'
      simpa [Function.comp_def, Token.word] using this
    refine ⟨_, .importDecl ((kind_of_word h1).trans hkeyword) ?_ (htexts ▸ hnodup)
      ((kind_of_word h2).trans hpath) ((kind_of_word h3).trans hsemi), ?_⟩
    · intro m hm
      obtain ⟨m', hm', hword⟩ := exists_word_of_mem hwords' hm
      rw [Token.IsModifier, kind_of_word hword]
      exact hmods m' hm'
    · have hidents : (modifiers'.map Token.ident).map Ident.unplaced =
          (modifiers.map Token.ident).map Ident.unplaced := by
        have := congrArg (List.map fun text => Ident.mk text .nowhere) htexts
        simpa [Function.comp_def, Token.ident, Ident.unplaced] using this
      simp only [Node.unplaced, hidents, unplaced_literal h2]
  | @package _ _ skipped hkeyword hskipped hsemi =>
    simp only [List.map_cons, List.map_nil, List.map_append, List.map_eq_cons_iff,
      List.map_eq_append_iff, List.map_eq_nil_iff] at hwords
    obtain ⟨keyword', _, rfl, h1, skipped', _, rfl, hwords', semi', _, rfl, h2, rfl⟩ := hwords
    refine ⟨_, .package ((kind_of_word h1).trans hkeyword) ?_ ((kind_of_word h2).trans hsemi),
      rfl⟩
    intro t ht
    obtain ⟨t', ht', hword⟩ := exists_word_of_mem hwords' ht
    exact kind_of_word hword ▸ hskipped t' ht'
  | plainField htype hend =>
    simp only [List.map_cons, List.map_nil, List.map_eq_cons_iff, List.map_eq_nil_iff] at hwords
    obtain ⟨type', _, rfl, h1, name', _, rfl, h2, equals', _, rfl, h3, number', _, rfl, h4,
      semi', _, rfl, h5, rfl⟩ := hwords
    refine ⟨_, .plainField (htype.of_word h1) (hend.of_words h2 h3 h4 h5), ?_⟩
    simp only [Node.unplaced, FieldType.unplaced, unplaced_ident h1, unplaced_ident h2,
      unplaced_literal h4]
  | repeatedField hkeyword htype hend =>
    simp only [List.map_cons, List.map_nil, List.map_eq_cons_iff, List.map_eq_nil_iff] at hwords
    obtain ⟨keyword', _, rfl, h0, type', _, rfl, h1, name', _, rfl, h2, equals', _, rfl, h3,
      number', _, rfl, h4, semi', _, rfl, h5, rfl⟩ := hwords
    refine ⟨_, .repeatedField ((kind_of_word h0).trans hkeyword) (htype.of_word h1)
      (hend.of_words h2 h3 h4 h5), ?_⟩
    simp only [Node.unplaced, FieldType.unplaced, Option.map_some, unplaced_ident h0,
      unplaced_ident h1, unplaced_ident h2, unplaced_literal h4]
  | mapField hmap hend =>
    simp only [List.map_cons, List.map_nil, List.map_eq_cons_iff, List.map_eq_nil_iff] at hwords
    obtain ⟨keyword', _, rfl, h0, opening', _, rfl, h1, key', _, rfl, h2, comma', _, rfl, h3,
      value', _, rfl, h4, closing', _, rfl, h5, name', _, rfl, h6, equals', _, rfl, h7,
      number', _, rfl, h8, semi', _, rfl, h9, rfl⟩ := hwords
    refine ⟨_, .mapField ⟨(kind_of_word h0).trans hmap.keyword_kind,
      (kind_of_word h1).trans hmap.opening_kind, hmap.key_type.of_word h2,
      (kind_of_word h3).trans hmap.comma_kind, hmap.value_type.of_word h4,
      (kind_of_word h5).trans hmap.closing_kind⟩ (hend.of_words h6 h7 h8 h9), ?_⟩
    simp only [Node.unplaced, FieldType.unplaced, unplaced_ident h2, unplaced_ident h4,
      unplaced_ident h6, unplaced_literal h8]
  | enumField hend =>
    simp only [List.map_cons, List.map_nil, List.map_eq_cons_iff, List.map_eq_nil_iff] at hwords
    obtain ⟨name', _, rfl, h1, equals', _, rfl, h2, value', _, rfl, h3, semi', _, rfl, h4, rfl⟩ :=
      hwords
    refine ⟨_, .enumField (hend.of_words h1 h2 h3 h4), ?_⟩
    simp only [Node.unplaced, unplaced_ident h1, text_of_word h3]
  | rpc hkeyword hname hopen₁ hinput hclose₁ hreturns hopen₂ houtput hclose₂ hopening hclosing =>
    simp only [List.map_cons, List.map_nil, List.map_eq_cons_iff, List.map_eq_nil_iff] at hwords
    obtain ⟨keyword', _, rfl, h0, name', _, rfl, h1, open₁', _, rfl, h2, input', _, rfl, h3,
      close₁', _, rfl, h4, returns', _, rfl, h5, open₂', _, rfl, h6, output', _, rfl, h7,
      close₂', _, rfl, h8, opening', _, rfl, h9, closing', _, rfl, h10, rfl⟩ := hwords
    refine ⟨_, .rpc ((kind_of_word h0).trans hkeyword) ((kind_of_word h1).trans hname)
      ((kind_of_word h2).trans hopen₁) (hinput.of_word h3)
      ((kind_of_word h4).trans hclose₁) ((kind_of_word h5).trans hreturns)
      ((kind_of_word h6).trans hopen₂) (houtput.of_word h7)
      ((kind_of_word h8).trans hclose₂) ((kind_of_word h9).trans hopening)
      ((kind_of_word h10).trans hclosing), ?_⟩
    simp only [Node.unplaced, unplaced_ident h1, unplaced_ident h3, unplaced_ident h7]

theorem Braced.of_words {word : Keyword} {keyword name opening closing : Token}
    {keyword' name' opening' closing' : Token} (h : Braced word keyword name opening closing)
    (hkeyword : keyword'.word = keyword.word) (hname : name'.word = name.word)
    (hopening : opening'.word = opening.word) (hclosing : closing'.word = closing.word) :
    Braced word keyword' name' opening' closing' where
  keyword_kind := (kind_of_word hkeyword).trans h.keyword_kind
  name_kind := (kind_of_word hname).trans h.name_kind
  opening_kind := (kind_of_word hopening).trans h.opening_kind
  closing_kind := (kind_of_word hclosing).trans h.closing_kind

/-- The same words elsewhere spell the same members, but for places: by induction on how they were
spelled first. -/
theorem Members.of_words {place : Place} {room : Nat} {ts ts' : List Token} {ns : List Node}
    (h : Members place room ts ns) (hwords : ts'.map Token.word = ts.map Token.word) :
    ∃ ns', Members place room ts' ns' ∧ Node.unplacedAll ns' = Node.unplacedAll ns := by
  induction h generalizing ts' with
  | nil =>
    rw [List.map_nil, List.map_eq_nil_iff] at hwords
    exact ⟨[], hwords ▸ .nil, rfl⟩
  | leaf hadmits hleaf _ ih =>
    rw [List.map_append, List.map_eq_append_iff] at hwords
    obtain ⟨us, vs, rfl, hus, hvs⟩ := hwords
    obtain ⟨n', hleaf', hn⟩ := hleaf.of_words hus
    obtain ⟨ns', hrest', hns⟩ := ih hvs
    exact ⟨n' :: ns', .leaf hadmits hleaf' hrest', by simp only [Node.unplacedAll, hn, hns]⟩
  | scope hadmits hbraced _ _ ihinner ih =>
    simp only [List.map_cons, List.map_append, List.map_eq_cons_iff, List.map_eq_append_iff]
      at hwords
    obtain ⟨keyword', _, rfl, h0, name', _, rfl, h1, opening', _, rfl, h2, inner', _, rfl, hinner,
      closing', rest', rfl, h3, hrest⟩ := hwords
    obtain ⟨nodes', hinner', hnodes⟩ := ihinner hinner
    obtain ⟨ns', hrest', hns⟩ := ih hrest
    refine ⟨_, .scope hadmits (hbraced.of_words h0 h1 h2 h3) hinner' hrest', ?_⟩
    simp only [Node.unplacedAll, Node.unplaced, unplaced_ident h1, hnodes, hns]
  | service hadmits hbraced _ _ ihinner ih =>
    simp only [List.map_cons, List.map_append, List.map_eq_cons_iff, List.map_eq_append_iff]
      at hwords
    obtain ⟨keyword', _, rfl, h0, name', _, rfl, h1, opening', _, rfl, h2, inner', _, rfl, hinner,
      closing', rest', rfl, h3, hrest⟩ := hwords
    obtain ⟨nodes', hinner', hnodes⟩ := ihinner hinner
    obtain ⟨ns', hrest', hns⟩ := ih hrest
    refine ⟨_, .service hadmits (hbraced.of_words h0 h1 h2 h3) hinner' hrest', ?_⟩
    simp only [Node.unplacedAll, Node.unplaced, unplaced_ident h1, hnodes, hns]

/-- The same words elsewhere spell the same file, but for places. -/
theorem Derives.of_words {limit : Nat} {ts ts' : List Token} {ns : List Node}
    (h : Derives limit ts ns) (hwords : ts'.map Token.word = ts.map Token.word) :
    ∃ ns', Derives limit ts' ns' ∧ Node.unplacedAll ns' = Node.unplacedAll ns := by
  cases h with
  | file hp hbody =>
    simp only [List.map_cons, List.map_eq_cons_iff] at hwords
    obtain ⟨keyword', _, rfl, h0, equals', _, rfl, h1, language', _, rfl, h2, semi', body', rfl, h3,
      hwords⟩ := hwords
    obtain ⟨ns', hbody', hns⟩ := hbody.of_words hwords
    refine ⟨ns', .file ⟨(kind_of_word h0).trans hp.keyword_kind,
      (kind_of_word h1).trans hp.equals_kind, (kind_of_word h2).trans hp.language_kind,
      (text_of_word h2).trans hp.language_text, (kind_of_word h3).trans hp.semi_kind⟩ hbody', hns⟩

end ProtoSchema
