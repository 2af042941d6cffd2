import ProtoSchema.Proofs.Derivation
import ProtoSchema.Proofs.Reading

/-!
# Constructs that hold no others, read and derived

For each such construct, its parser, given the token that it was recognised by, reads exactly the
tokens that the grammar has behind that token (`reads_optionDecl` and its like).

* §1 single tokens in front of a parser;
* §2 constructs of fixed length;
* §3 the two of any length, an import and a package, by induction on their loops.
-/

namespace ProtoSchema

namespace Grammar

open ProtoSchema.Parser

variable {α β : Type}

/-! ## §1 Single tokens -/

theorem not_reads_refuse_bind {t : Token} {expected : Expected} {f : α → Parser β}
    {used : List Token} {b : β} : ¬ (refuse t expected >>= f).Reads used b := by
  rw [reads_bind]
  rintro ⟨_, _, _, _, h, _⟩
  exact not_reads_fail h

theorem reads_expect_bind {kind : TokenKind} (hc : kind ≠ .comment) (he : kind ≠ .error)
    {f : Token → Parser β} {used : List Token} {b : β} :
    (expect kind >>= f).Reads used b ↔
      ∃ t v, used = t :: v ∧ t.kind = kind ∧ (f t).Reads v b := by
  rw [expect, bind_assoc, reads_next_bind]
  constructor
  · rintro ⟨t, v, rfl, -, -, h⟩
    split at h
    · next hkind => exact ⟨t, v, rfl, hkind, Parser.pure_bind t f ▸ h⟩
    · exact absurd h not_reads_refuse_bind
  · rintro ⟨t, v, rfl, rfl, h⟩
    refine ⟨t, v, rfl, hc, he, ?_⟩
    rwa [if_pos rfl, Parser.pure_bind]

theorem reads_identifier_bind {f : Ident → Parser β} {used : List Token} {b : β} :
    (identifier >>= f).Reads used b ↔
      ∃ t v, used = t :: v ∧ t.kind = .identifier ∧ (f t.ident).Reads v b := by
  simp only [identifier, bind_assoc, Parser.pure_bind]
  exact reads_expect_bind (by decide) (by decide)

theorem reads_typeName_bind {f : Ident → Parser β} {used : List Token} {b : β} :
    (typeName >>= f).Reads used b ↔
      ∃ t v, used = t :: v ∧ t.IsTypeName ∧ (f t.ident).Reads v b := by
  rw [typeName, bind_assoc, reads_next_bind]
  constructor
  · rintro ⟨t, v, rfl, -, -, h⟩
    split at h
    · next hkind => exact ⟨t, v, rfl, hkind, Parser.pure_bind t.ident f ▸ h⟩
    · exact absurd h not_reads_refuse_bind
  · rintro ⟨t, v, rfl, hkind, h⟩
    refine ⟨t, v, rfl, ?_, ?_, ?_⟩
    · rcases hkind with hk | hk <;> simp [hk]
    · rcases hkind with hk | hk <;> simp [hk]
    · rw [Token.IsTypeName] at hkind
      rwa [if_pos hkind, Parser.pure_bind]

theorem reads_optionValue_bind {f : Literal → Parser β} {used : List Token} {b : β} :
    (optionValue >>= f).Reads used b ↔
      ∃ t v kind, used = t :: v ∧ OptionValue t.kind kind ∧ (f (t.literal kind)).Reads v b := by
  rw [optionValue, bind_assoc, reads_next_bind]
  constructor
  · rintro ⟨t, v, rfl, -, -, h⟩
    split at h
    · next hkind => exact ⟨t, v, .string, rfl, hkind ▸ .string, Parser.pure_bind _ f ▸ h⟩
    · next hkind => exact ⟨t, v, .boolean, rfl, hkind ▸ .boolean, Parser.pure_bind _ f ▸ h⟩
    · exact absurd h not_reads_refuse_bind
  · rintro ⟨t, v, kind, rfl, hkind, h⟩
    refine ⟨t, v, rfl, ?_⟩
    cases hk : t.kind <;> rw [hk] at hkind <;> cases hkind <;>
      exact ⟨by simp, by simp, by rwa [Parser.pure_bind]⟩

/-! ## §2 Constructs of fixed length -/

theorem reads_optionDecl {keyword : Token} (hkeyword : keyword.kind = .keyword .optionKw)
    {used : List Token} {n : Node} :
    (optionDecl keyword).Reads used n ↔ Leaf .option (keyword :: used) n := by
  simp only [optionDecl, reads_typeName_bind, reads_optionValue_bind, reads_pure,
    reads_expect_bind, ne_eq, reduceCtorEq, not_false_eq_true]
  constructor
  · rintro ⟨name, _, rfl, hname, equals, _, rfl, hequals, value, _, kind, rfl, hvalue, semi, _,
      rfl, hsemi, rfl, rfl⟩
    exact .option hkeyword hname hequals hvalue hsemi
  · rintro ⟨⟩
    exact ⟨_, _, rfl, ‹_›, _, _, rfl, ‹_›, _, _, _, rfl, ‹_›, _, _, rfl, ‹_›, rfl, rfl⟩

/-- The end of a field is read alike whatever its type. -/
theorem reads_field {first : Token} {type : FieldType} {repeated : Option Ident}
    {used : List Token} {n : Node} :
    (field first type repeated).Reads used n ↔
      ∃ name equals number semi, used = [name, equals, number, semi] ∧
        FieldEnd name equals number semi ∧
        n = .field ⟨name.ident, number.literal .integer, type, repeated, first.spanTo semi⟩ := by
  simp only [field, reads_pure, reads_expect_bind, ne_eq, reduceCtorEq, not_false_eq_true]
  constructor
  · rintro ⟨name, _, rfl, hname, equals, _, rfl, hequals, number, _, rfl, hnumber, semi, _, rfl,
      hsemi, rfl, rfl⟩
    exact ⟨name, equals, number, semi, rfl, ⟨hname, hequals, hnumber, hsemi⟩, rfl⟩
  · rintro ⟨name, equals, number, semi, rfl, hend, rfl⟩
    exact ⟨name, _, rfl, hend.name_kind, equals, _, rfl, hend.equals_kind, number, _, rfl,
      hend.number_kind, semi, _, rfl, hend.semi_kind, rfl, rfl⟩

theorem reads_plainField {type : Token} (htype : type.IsTypeName) {used : List Token} {n : Node} :
    (field type (.named type.ident) none).Reads used n ↔ Leaf .plainField (type :: used) n := by
  rw [reads_field]
  constructor
  · rintro ⟨name, equals, number, semi, rfl, hend, rfl⟩
    exact .plainField htype hend
  · rintro ⟨⟩
    exact ⟨_, _, _, _, rfl, ‹_›, rfl⟩

theorem reads_repeatedField {keyword : Token} (hkeyword : keyword.kind = .keyword .repeatedKw)
    {used : List Token} {n : Node} :
    (repeatedField keyword).Reads used n ↔ Leaf .repeatedField (keyword :: used) n := by
  simp only [repeatedField, reads_typeName_bind, reads_field]
  constructor
  · rintro ⟨type, _, rfl, htype, name, equals, number, semi, rfl, hend, rfl⟩
    exact .repeatedField hkeyword htype hend
  · rintro ⟨⟩
    exact ⟨_, _, rfl, ‹_›, _, _, _, _, rfl, ‹_›, rfl⟩

theorem reads_mapField {keyword : Token} (hkeyword : keyword.kind = .keyword .mapKw)
    {used : List Token} {n : Node} :
    (mapField keyword).Reads used n ↔ Leaf .mapField (keyword :: used) n := by
  simp only [mapField, mapType, bind_assoc, Parser.pure_bind, reads_typeName_bind,
    reads_expect_bind, reads_field, ne_eq, reduceCtorEq, not_false_eq_true]
  constructor
  · rintro ⟨opening, _, rfl, hopening, key, _, rfl, hkey, comma, _, rfl, hcomma, value, _, rfl,
      hvalue, closing, _, rfl, hclosing, name, equals, number, semi, rfl, hend, rfl⟩
    exact .mapField ⟨hkeyword, hopening, hkey, hcomma, hvalue, hclosing⟩ hend
  · rintro ⟨⟩
    next hend hmap =>
    exact ⟨_, _, rfl, hmap.opening_kind, _, _, rfl, hmap.key_type, _, _, rfl, hmap.comma_kind,
      _, _, rfl, hmap.value_type, _, _, rfl, hmap.closing_kind, _, _, _, _, rfl, hend, rfl⟩

theorem reads_enumField {name : Token} (hname : name.kind = .identifier) {used : List Token}
    {n : Node} : (enumField name).Reads used n ↔ Leaf .enumField (name :: used) n := by
  simp only [enumField, reads_pure, reads_expect_bind, ne_eq, reduceCtorEq, not_false_eq_true]
  constructor
  · rintro ⟨equals, _, rfl, hequals, value, _, rfl, hvalue, semi, _, rfl, hsemi, rfl, rfl⟩
    exact .enumField ⟨hname, hequals, hvalue, hsemi⟩
  · rintro ⟨⟩
    next hend =>
    exact ⟨_, _, rfl, hend.equals_kind, _, _, rfl, hend.number_kind, _, _, rfl, hend.semi_kind,
      rfl, rfl⟩

theorem reads_rpc {keyword : Token} (hkeyword : keyword.kind = .keyword .rpcKw)
    {used : List Token} {n : Node} :
    (rpc keyword).Reads used n ↔ Leaf .rpc (keyword :: used) n := by
  simp only [rpc, reads_pure, reads_identifier_bind, reads_typeName_bind, reads_expect_bind, ne_eq,
    reduceCtorEq, not_false_eq_true]
  constructor
  · rintro ⟨name, _, rfl, hname, open₁, _, rfl, hopen₁, input, _, rfl, hinput, close₁, _, rfl,
      hclose₁, returns, _, rfl, hreturns, open₂, _, rfl, hopen₂, output, _, rfl, houtput, close₂,
      _, rfl, hclose₂, opening, _, rfl, hopening, closing, _, rfl, hclosing, rfl, rfl⟩
    exact .rpc hkeyword hname hopen₁ hinput hclose₁ hreturns hopen₂ houtput hclose₂ hopening
      hclosing
  · rintro ⟨⟩
    exact ⟨_, _, rfl, ‹_›, _, _, rfl, ‹_›, _, _, rfl, ‹_›, _, _, rfl, ‹_›, _, _, rfl, ‹_›,
      _, _, rfl, ‹_›, _, _, rfl, ‹_›, _, _, rfl, ‹_›, _, _, rfl, ‹_›, _, _, rfl, ‹_›, rfl, rfl⟩

theorem reads_empty {semi : Token} (hsemi : semi.kind = .semicolon) {used : List Token}
    {n : Node} :
    (pure (.empty semi.span) : Parser Node).Reads used n ↔ Leaf .empty (semi :: used) n := by
  rw [reads_pure]
  constructor
  · rintro ⟨rfl, rfl⟩
    exact .empty hsemi
  · rintro ⟨⟩
    exact ⟨rfl, rfl⟩

/-! ## §3 Imports and packages -/

theorem importTurn_of_isModifier (keyword : Token) (before : List Ident) {t : Token}
    (h : t.IsModifier) :
    importTurn keyword before t =
      if t.text ∈ before.map (·.name) then fail (.duplicateModifier t.offset t.text)
      else pure (.again (before ++ [t.ident])) := by
  have hany : before.any (·.name = t.text) = true ↔ t.text ∈ before.map (·.name) := by simp
  rcases h with h | h <;> simp only [importTurn, h, hany]

/-- A turn of an import takes a modifier that is new, or ends the import with its path. -/
theorem reads_importTurn {keyword t : Token} {before : List Ident} {used : List Token}
    {r : Turn (List Ident) Node} :
    (importTurn keyword before t).Reads used r ↔
      (t.IsModifier ∧ t.text ∉ before.map (·.name) ∧ used = [] ∧
        r = .again (before ++ [t.ident])) ∨
      (t.kind = .stringLit ∧ ∃ semi, used = [semi] ∧ semi.kind = .semicolon ∧
        r = .finish (.importDecl ⟨before, t.literal .string, keyword.spanTo semi⟩)) := by
  by_cases hmodifier : t.IsModifier
  · have hstring : t.kind ≠ .stringLit := by
      rcases hmodifier with h | h <;> simp [h]
    rw [importTurn_of_isModifier keyword before hmodifier]
    by_cases hmem : t.text ∈ before.map (·.name)
    · rw [if_pos hmem]
      simp [hmem, hstring]
    · rw [if_neg hmem, reads_pure]
      simp [hmem, hstring, hmodifier]
  · rw [or_iff_right fun h => hmodifier h.1]
    unfold importTurn
    split
    · next h => exact absurd (.inl h) hmodifier
    · next h => exact absurd (.inr h) hmodifier
    · next h =>
      simp only [reads_expect_bind, reads_pure, ne_eq, reduceCtorEq, not_false_eq_true]
      constructor
      · rintro ⟨semi, _, rfl, hsemi, rfl, rfl⟩
        exact ⟨h, semi, rfl, hsemi, rfl⟩
      · rintro ⟨-, semi, rfl, hsemi, rfl⟩
        exact ⟨semi, _, rfl, hsemi, rfl, rfl⟩
    · next h =>
      constructor
      · intro hreads
        exact absurd hreads not_reads_fail
      · rintro ⟨hstring, _⟩
        exact absurd hstring h

/-- With some modifiers before it, the rest of an import is modifiers that are new, and its
path. -/
theorem reads_importLoop {keyword : Token} {before : List Ident} {used : List Token} {n : Node} :
    (loop (importTurn keyword) before).Reads used n ↔
      ∃ modifiers path semi, used = modifiers ++ [path, semi] ∧
        (∀ m ∈ modifiers, m.IsModifier ∧ m.text ∉ before.map (·.name)) ∧
        (modifiers.map (·.text)).Nodup ∧ path.kind = .stringLit ∧ semi.kind = .semicolon ∧
        n = .importDecl
          ⟨before ++ modifiers.map (·.ident), path.literal .string, keyword.spanTo semi⟩ := by
  constructor
  · intro h
    induction hn : used.length using Nat.strongRecOn generalizing used before with
    | ind k ih =>
      obtain ⟨t, u, v, r, rfl, -, -, hturn, hr⟩ := reads_loop.mp h
      rcases reads_importTurn.mp hturn with ⟨hmod, hnew, rfl, rfl⟩ | ⟨hpath, semi, rfl, hsemi, rfl⟩
      · obtain ⟨ms, path, semi, rfl, hms, hnodup, hpath, hsemi, rfl⟩ :=
          ih v.length (by simp [← hn]) hr rfl
        -- `t` stands among the modifiers before the rest
        have hlater : ∀ m ∈ ms, m.text ∉ before.map (·.name) ∧ m.text ≠ t.text := by
          intro m hm
          have := (hms m hm).2
          simpa [Token.ident] using this
        refine ⟨t :: ms, path, semi, rfl, ?_, ?_, hpath, hsemi, by simp⟩
        · intro m hm
          rcases List.mem_cons.mp hm with rfl | hm
          · exact ⟨hmod, hnew⟩
          · exact ⟨(hms m hm).1, (hlater m hm).1⟩
        · refine List.nodup_cons.mpr ⟨?_, hnodup⟩
          rw [List.mem_map]
          rintro ⟨m, hm, heq⟩
          exact (hlater m hm).2 heq
      · obtain ⟨rfl, rfl⟩ := hr
        exact ⟨[], t, semi, rfl, by simp, by simp, hpath, hsemi, by simp⟩
  · rintro ⟨modifiers, path, semi, rfl, hmods, hnodup, hpath, hsemi, rfl⟩
    induction modifiers generalizing before with
    | nil =>
      exact reads_loop.mpr ⟨path, [semi], [], _, rfl, by simp [hpath], by simp [hpath],
        reads_importTurn.mpr (.inr ⟨hpath, semi, rfl, hsemi, rfl⟩), rfl, by simp⟩
    | cons m ms ih =>
      obtain ⟨hmod, hnew⟩ := hmods m List.mem_cons_self
      obtain ⟨hm, hnodup⟩ := List.nodup_cons.mp hnodup
      have hkind : m.kind ≠ .comment ∧ m.kind ≠ .error := by
        rcases hmod with h | h <;> simp [h]
      have hrest := @ih (before ++ [m.ident]) (fun m' hm' => by
        refine ⟨(hmods m' (List.mem_cons_of_mem m hm')).1, ?_⟩
        have hne : m'.text ≠ m.text := fun heq =>
          hm (List.mem_map.mpr ⟨m', hm', heq⟩)
        have := (hmods m' (List.mem_cons_of_mem m hm')).2
        simpa [Token.ident, hne] using this) hnodup
      refine reads_loop.mpr ⟨m, [], ms ++ [path, semi], .again (before ++ [m.ident]), rfl,
        hkind.1, hkind.2, reads_importTurn.mpr (.inl ⟨hmod, hnew, rfl, rfl⟩), ?_⟩
      simpa using hrest

theorem reads_importDecl {keyword : Token} (hkeyword : keyword.kind = .keyword .importKw)
    {used : List Token} {n : Node} :
    (importDecl keyword).Reads used n ↔ Leaf .importDecl (keyword :: used) n := by
  rw [importDecl, reads_importLoop]
  constructor
  · rintro ⟨modifiers, path, semi, rfl, hmods, hnodup, hpath, hsemi, rfl⟩
    exact .importDecl hkeyword (fun m hm => (hmods m hm).1) hnodup hpath hsemi
  · intro h
    cases h with
    | importDecl _ hmods hnodup hpath hsemi =>
      exact ⟨_, _, _, rfl, fun m hm => ⟨hmods m hm, by simp⟩, hnodup, hpath, hsemi, rfl⟩

theorem reads_packageTurn {keyword t : Token} {used : List Token} {r : Turn Unit Node} :
    (packageTurn keyword () t).Reads used r ↔
      used = [] ∧ ((t.kind = .semicolon ∧ r = .finish (.package (keyword.spanTo t))) ∨
        (t.kind ≠ .semicolon ∧ t.kind ≠ .endOfInput ∧ r = .again ())) := by
  unfold packageTurn
  split
  · next h => simp [h]
  · next h => simp [h, refuse]
  · next hsemi hend =>
    have hsemi : t.kind ≠ .semicolon := hsemi
    have hend : t.kind ≠ .endOfInput := hend
    simp [hsemi, hend]

/-- A package is read over any tokens up to its semicolon, but not over the end of input. -/
theorem reads_packageDecl {keyword : Token} {used : List Token} {n : Node} :
    (packageDecl keyword).Reads used n ↔
      ∃ skipped semi, used = skipped ++ [semi] ∧
        (∀ t ∈ skipped, t.kind ≠ .semicolon ∧ t.Ordinary) ∧
        semi.kind = .semicolon ∧ n = .package (keyword.spanTo semi) := by
  rw [packageDecl]
  constructor
  · intro h
    induction hn : used.length using Nat.strongRecOn generalizing used with
    | ind k ih =>
      obtain ⟨t, u, v, r, rfl, hcomment, herror, hturn, hr⟩ := reads_loop.mp h
      obtain ⟨rfl, ⟨hsemi, rfl⟩ | ⟨hsemi, hend, rfl⟩⟩ := reads_packageTurn.mp hturn
      · obtain ⟨rfl, rfl⟩ := hr
        exact ⟨[], t, rfl, by simp, hsemi, rfl⟩
      · obtain ⟨skipped, semi, rfl, hskipped, hlast, rfl⟩ := ih v.length (by simp [← hn]) hr rfl
        refine ⟨t :: skipped, semi, rfl, ?_, hlast, rfl⟩
        intro t' ht'
        rcases List.mem_cons.mp ht' with rfl | ht'
        · refine ⟨hsemi, hcomment, ?_⟩
          cases hk : t'.kind <;> simp_all [TokenKind.isLast]
        · exact hskipped t' ht'
  · rintro ⟨skipped, semi, rfl, hskipped, hsemi, rfl⟩
    induction skipped with
    | nil =>
      exact reads_loop.mpr ⟨semi, [], [], _, rfl, by simp [hsemi], by simp [hsemi],
        reads_packageTurn.mpr ⟨rfl, .inl ⟨hsemi, rfl⟩⟩, rfl, rfl⟩
    | cons t skipped ih =>
      obtain ⟨ht, hordinary⟩ := hskipped t List.mem_cons_self
      have hrest := ih fun t' ht' => hskipped t' (List.mem_cons_of_mem t ht')
      exact reads_loop.mpr ⟨t, [], skipped ++ [semi], .again (), rfl, hordinary.not_comment,
        hordinary.not_error, reads_packageTurn.mpr ⟨rfl, .inr ⟨ht, hordinary.not_end, rfl⟩⟩,
        hrest⟩

end Grammar

end ProtoSchema
