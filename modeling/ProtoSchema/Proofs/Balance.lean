import ProtoSchema.Lexer
import ProtoSchema.Proofs.Derivation

/-!
# Balanced tokens

The lexer counts brackets without regard to the grammar.  All that the grammar has in it but
packages closes the brackets that it opens and no others, so it is let pass whatever is open, and
leaves as much open behind it (`Members.balanced`).

* §1 tokens that brackets let pass, §2 balanced tokens, §3 balanced constructs.
-/

namespace ProtoSchema

/-! ## §1 Passing -/

/-- With `b` open, tokens are let pass and leave `b'` open. -/
inductive Passes : Brackets → List Token → Brackets → Prop
  | nil {b : Brackets} : Passes b [] b
  | cons {b b' b'' : Brackets} {t : Token} {ts : List Token} (ht : b.pass t.kind = .ok b')
      (hts : Passes b' ts b'') : Passes b (t :: ts) b''

theorem passes_append {b b'' : Brackets} {ts us : List Token} :
    Passes b (ts ++ us) b'' ↔ ∃ b', Passes b ts b' ∧ Passes b' us b'' := by
  constructor
  · intro h
    induction ts generalizing b with
    | nil => exact ⟨b, .nil, h⟩
    | cons t ts ih =>
      cases h with
      | cons ht hts =>
        obtain ⟨b', hb', hus⟩ := ih hts
        exact ⟨b', .cons ht hb', hus⟩
  · rintro ⟨b', hts, hus⟩
    induction hts with
    | nil => exact hus
    | cons ht _ ih => exact .cons ht (ih hus)

theorem Passes.unique {b b' b'' : Brackets} {ts : List Token} (h : Passes b ts b')
    (h' : Passes b ts b'') : b' = b'' := by
  induction h with
  | nil =>
    cases h'
    rfl
  | cons ht _ ih =>
    cases h' with
    | cons ht' hts' =>
      obtain rfl := Except.ok.inj (ht.symm.trans ht')
      exact ih hts'

/-! ## §2 Balance -/

/-- Tokens that are let pass whatever is open, and leave as much open. -/
def Balanced (ts : List Token) : Prop := ∀ b, Passes b ts b

theorem balanced_nil : Balanced [] := fun _ => .nil

theorem Balanced.append {ts us : List Token} (hts : Balanced ts) (hus : Balanced us) :
    Balanced (ts ++ us) :=
  fun b => passes_append.mpr ⟨b, hts b, hus b⟩

/-- The kinds that the count of brackets is about. -/
def TokenKind.isBracket : TokenKind → Bool
  | leftBrace | rightBrace | leftAngle | rightAngle | comma => true
  | _ => false

theorem pass_of_isBracket {kind : TokenKind} (h : kind.isBracket = false) (b : Brackets) :
    b.pass kind = .ok b := by
  cases kind <;> first | rfl | cases h

theorem balanced_cons {t : Token} {ts : List Token} (ht : t.kind.isBracket = false)
    (hts : Balanced ts) : Balanced (t :: ts) :=
  fun b => .cons (pass_of_isBracket ht b) (hts b)

theorem balanced_of_forall {ts : List Token} (h : ∀ t ∈ ts, t.kind.isBracket = false) :
    Balanced ts := by
  induction ts with
  | nil => exact balanced_nil
  | cons t ts ih =>
    obtain ⟨ht, hts⟩ := List.forall_mem_cons.mp h
    exact balanced_cons ht (ih hts)

theorem balanced_braces {opening closing : Token} {inner : List Token}
    (hopening : opening.kind = .leftBrace) (hclosing : closing.kind = .rightBrace)
    (hinner : Balanced inner) : Balanced (opening :: (inner ++ [closing])) := by
  intro b
  have hopen : b.pass opening.kind = .ok { b with braces := b.braces + 1 } := by
    rw [hopening]
    rfl
  have hclose : Brackets.pass { b with braces := b.braces + 1 } closing.kind = .ok b := by
    rw [hclosing]
    rfl
  exact .cons hopen (passes_append.mpr ⟨_, hinner _, .cons hclose .nil⟩)

/-! ## §3 Constructs -/

theorem Token.IsTypeName.isBracket {t : Token} (h : t.IsTypeName) : t.kind.isBracket = false := by
  rcases h with h | h <;> rw [h] <;> rfl

theorem FieldEnd.balanced {name equals number semi : Token} (h : FieldEnd name equals number semi) :
    Balanced [name, equals, number, semi] := by
  apply balanced_of_forall
  simp [h.name_kind, h.equals_kind, h.number_kind, h.semi_kind, TokenKind.isBracket]

theorem MapHead.balanced {keyword opening key comma value closing : Token}
    (h : MapHead keyword opening key comma value closing) :
    Balanced [keyword, opening, key, comma, value, closing] := by
  intro b
  -- the comma is let pass because an angle bracket is open by then
  have hopen : b.pass opening.kind = .ok { b with angles := b.angles + 1 } := by
    rw [h.opening_kind]
    rfl
  have hcomma : Brackets.pass { b with angles := b.angles + 1 } comma.kind =
      .ok { b with angles := b.angles + 1 } := by
    rw [h.comma_kind]
    rfl
  have hclose : Brackets.pass { b with angles := b.angles + 1 } closing.kind = .ok b := by
    rw [h.closing_kind]
    rfl
  have hkeyword : keyword.kind.isBracket = false := by rw [h.keyword_kind]; rfl
  exact .cons (pass_of_isBracket hkeyword b) (.cons hopen
    (.cons (pass_of_isBracket h.key_type.isBracket _) (.cons hcomma
      (.cons (pass_of_isBracket h.value_type.isBracket _) (.cons hclose .nil)))))

theorem OptionValue.isBracket {kind : TokenKind} {literal : LiteralKind}
    (h : OptionValue kind literal) : kind.isBracket = false := by
  cases h <;> rfl

/-- The constructs that hold no others, but for packages, which skip anything. -/
theorem Leaf.balanced {c : Construct} {ts : List Token} {n : Node} (h : Leaf c ts n)
    (hc : c ≠ .package) : Balanced ts := by
  cases h with
  | package => exact absurd rfl hc
  | empty hsemi => exact balanced_cons (by rw [hsemi]; rfl) balanced_nil
  | importDecl hkeyword hmods _ hpath hsemi =>
    apply balanced_of_forall
    simp only [List.forall_mem_cons, List.forall_mem_append]
    refine ⟨by rw [hkeyword]; rfl, ?_, by rw [hpath]; rfl, by rw [hsemi]; rfl, by simp⟩
    intro m hm
    rcases hmods m hm with h | h <;> rw [h] <;> rfl
  | option hkeyword hname hequals hvalue hsemi =>
    apply balanced_of_forall
    simp only [List.forall_mem_cons]
    exact ⟨by rw [hkeyword]; rfl, hname.isBracket, by rw [hequals]; rfl,
      hvalue.isBracket, by rw [hsemi]; rfl, by simp⟩
  | plainField htype hend => exact balanced_cons htype.isBracket hend.balanced
  | repeatedField hkeyword htype hend =>
    exact balanced_cons (by rw [hkeyword]; rfl)
      (balanced_cons htype.isBracket hend.balanced)
  | mapField hmap hend => exact hmap.balanced.append hend.balanced
  | enumField hend => exact hend.balanced
  | @rpc keyword name open₁ input close₁ returns open₂ output close₂ opening closing hkeyword hname
      hopen₁ hinput hclose₁ hreturns hopen₂ houtput hclose₂ hopening hclosing =>
    have hfront : Balanced
        [keyword, name, open₁, input, close₁, returns, open₂, output, close₂] := by
      apply balanced_of_forall
      simp only [List.forall_mem_cons]
      exact ⟨by rw [hkeyword]; rfl, by rw [hname]; rfl, by rw [hopen₁]; rfl,
        hinput.isBracket, by rw [hclose₁]; rfl, by rw [hreturns]; rfl,
        by rw [hopen₂]; rfl, houtput.isBracket, by rw [hclose₂]; rfl, by simp⟩
    exact hfront.append (balanced_braces hopening hclosing balanced_nil)

/-- A keyword and a name before members in braces. -/
theorem Braced.balanced {word : Keyword} {keyword name opening closing : Token}
    {inner : List Token} (h : Braced word keyword name opening closing) (hinner : Balanced inner) :
    Balanced (keyword :: name :: opening :: (inner ++ [closing])) :=
  balanced_cons (by rw [h.keyword_kind]; rfl) (balanced_cons (by rw [h.name_kind]; rfl)
    (balanced_braces h.opening_kind h.closing_kind hinner))

/-- Packages stand at the top of a file only, so what stands between braces is balanced. -/
theorem Members.balanced {place : Place} {room : Nat} {ts : List Token} {ns : List Node}
    (h : Members place room ts ns) (hplace : place ≠ .file) : Balanced ts := by
  have hpackage : Construct.package ∉ place.admits := by
    cases place with
    | file => exact absurd rfl hplace
    | inScope kind => cases kind <;> decide
    | inService => decide
  induction h with
  | nil => exact balanced_nil
  | leaf hadmits hleaf _ ih =>
    refine (hleaf.balanced ?_).append (ih hplace hpackage)
    rintro rfl
    exact hpackage hadmits
  | @scope _ _ kind keyword name opening closing inner rest _ _ _ hbraced _ _ ihinner ih =>
    have hinner := ihinner (by simp) (by cases kind <;> decide)
    simpa using (hbraced.balanced hinner).append (ih hplace hpackage)
  | @service _ _ keyword name opening closing inner rest _ _ _ hbraced _ _ ihinner ih =>
    have hinner := ihinner (by simp) (by decide)
    simpa using (hbraced.balanced hinner).append (ih hplace hpackage)

end ProtoSchema
