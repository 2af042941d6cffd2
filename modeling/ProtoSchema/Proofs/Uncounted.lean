import ProtoSchema.Proofs.Balance
import ProtoSchema.Proofs.Spans

/-!
# Without a count of brackets

The lexer counts braces and angle brackets and refuses what closes nothing; the grammar matches
them as well.  A lexer that does not count gives every token that stands in the source
(`Cursor.tokens`), and reading a file from its tokens makes hardly any difference
(`parseText_agrees_uncounted`): the count refuses no file but those that have a closing brace or
a comma among what a package declaration skips.

Two facts carry this.  Where enough brackets are open the count refuses nothing, so the tokens
without a count are a stream too and stand where the tokens of streams stand
(`Cursor.stream_tokens`); and what the grammar has besides packages passes whatever is open
(`Members.exists_passes`).

* §1 tokens without a count, §2 streams and what passes, §3 declarations pass, §4 files.
-/

namespace ProtoSchema

open Lexeme

/-! ## §1 Tokens -/

/-- The tokens from a place on, whatever brackets are open. -/
def Cursor.tokens (c : Cursor) : List Token :=
  if h : c.read.1.kind.isLast = true then [c.read.1]
  else
    have := length_read_lt (Bool.not_eq_true _ ▸ h)
    c.read.1 :: c.read.2.tokens
termination_by c.rest.length

/-- What is read from a source by a lexer that does not count brackets. -/
def parseUncounted (source : String) : Except Fault File :=
  ((Grammar.file nestingLimit).run (Cursor.tokens ⟨0, source.toList⟩)).result

section

variable {c : Cursor}

theorem Cursor.tokens_of_ended (hrest : c.skipBlanks.rest = []) :
    c.tokens = [⟨.endOfInput, c.skipBlanks.offset, ""⟩] := by
  have hread := c.read_of_scan_eq_ok (l := ⟨.endOfInput, [], []⟩) (by rw [hrest]; rfl)
  rw [tokens, dif_pos (by rw [hread]; rfl), hread]

theorem Cursor.tokens_of_unread {fault : LexFault} (hscan : scan c.skipBlanks.rest = .error fault) :
    c.tokens = [Token.ofFault c.skipBlanks.offset fault] := by
  have hread := c.read_of_scan_eq_error hscan
  rw [tokens, dif_pos (by rw [hread]; rfl), hread]

theorem Cursor.tokens_of_token {l : Lexeme} (hrest : c.skipBlanks.rest ≠ [])
    (hscan : scan c.skipBlanks.rest = .ok l) :
    c.tokens = ⟨l.kind, c.skipBlanks.offset, String.ofList l.text⟩ ::
      Cursor.tokens ⟨c.skipBlanks.offset + Text.utf8Length l.text, l.rest⟩ := by
  have hread := c.read_of_scan_eq_ok hscan
  have hlast := kind_scan hrest hscan
  rw [tokens, dif_neg (by rw [hread]; simp [hlast])]
  simp only [hread]

end

/-! ## §2 Streams -/

/-- A stream without errors has every token: by induction on the stream. -/
theorem Stream.tokens_eq {c : Cursor} {b : Brackets} {ts : List Token} (h : Stream c b ts)
    (hts : ∀ t ∈ ts, t.kind ≠ .error) : c.tokens = ts := by
  induction h with
  | ended hrest => exact Cursor.tokens_of_ended hrest
  | unread | refused => exact absurd rfl (hts _ List.mem_cons_self)
  | token hrest hscan _ _ ih =>
    rw [Cursor.tokens_of_token hrest hscan, ih (List.forall_mem_cons.mp hts).2]

/-- A token closes at most one bracket, and none where enough of them are open is refused. -/
theorem Brackets.exists_pass {b : Brackets} {n : Nat} (hbraces : n < b.braces)
    (hangles : n < b.angles) (kind : TokenKind) :
    ∃ b', b.pass kind = .ok b' ∧ n ≤ b'.braces ∧ n ≤ b'.angles := by
  unfold pass
  split
  · exact ⟨_, rfl, by dsimp only; omega, Nat.le_of_lt hangles⟩
  · rw [if_neg (by omega)]
    exact ⟨_, rfl, by dsimp only; omega, Nat.le_of_lt hangles⟩
  · exact ⟨_, rfl, Nat.le_of_lt hbraces, by dsimp only; omega⟩
  · exact ⟨_, rfl, Nat.le_of_lt hbraces, by dsimp only; omega⟩
  · rw [if_neg (by omega)]
    exact ⟨_, rfl, Nat.le_of_lt hbraces, Nat.le_of_lt hangles⟩
  · exact ⟨_, rfl, Nat.le_of_lt hbraces, Nat.le_of_lt hangles⟩

/-- With as many brackets open as there are characters, the count refuses nothing. -/
theorem Cursor.stream_tokens {c : Cursor} {b : Brackets} (hbraces : c.rest.length ≤ b.braces)
    (hangles : c.rest.length ≤ b.angles) : Stream c b c.tokens := by
  induction hn : c.rest.length using Nat.strongRecOn generalizing c b with
  | ind n ih =>
    by_cases hrest : c.skipBlanks.rest = []
    · rw [tokens_of_ended hrest]
      exact .ended hrest
    · cases hscan : scan c.skipBlanks.rest with
      | error fault =>
        rw [tokens_of_unread hscan]
        exact .unread hrest hscan
      | ok l =>
        have hlt := length_read_lt (c := c)
        rw [read_of_scan_eq_ok hscan] at hlt
        have hlt : l.rest.length < c.rest.length := hlt (kind_scan hrest hscan)
        obtain ⟨b', hpass, hbraces', hangles'⟩ :=
          Brackets.exists_pass (Nat.lt_of_lt_of_le hlt hbraces) (Nat.lt_of_lt_of_le hlt hangles)
            l.kind
        rw [tokens_of_token hrest hscan]
        exact .token hrest hscan hpass (ih l.rest.length (hn ▸ hlt) hbraces' hangles' rfl)

/-- A stream without errors, all of which passes with other brackets open, is the stream there. -/
theorem Stream.of_passes {c : Cursor} {b b₁ b₂ : Brackets} {ts : List Token} (h : Stream c b ts)
    (hts : ∀ t ∈ ts, t.kind ≠ .error) (hpasses : Passes b₁ ts b₂) : Stream c b₁ ts := by
  induction h generalizing b₁ with
  | ended hrest => exact .ended hrest
  | unread | refused => exact absurd rfl (hts _ List.mem_cons_self)
  | token hrest hscan _ _ ih =>
    cases hpasses with
    | cons hpass hmore => exact .token hrest hscan hpass (ih (List.forall_mem_cons.mp hts).2 hmore)

/-- Comments pass. -/
theorem passes_of_significant {b b' : Brackets} {ts : List Token}
    (h : Passes b (significant ts) b') : Passes b ts b' := by
  induction ts generalizing b with
  | nil => exact h
  | cons t ts ih =>
    by_cases hcomment : t.kind = .comment
    · refine .cons (by rw [hcomment]; rfl) (ih ?_)
      simpa [significant, hcomment] using h
    · have hkeep : significant (t :: ts) = t :: significant ts := by simp [significant, hcomment]
      rw [hkeep] at h
      cases h with
      | cons ht hts => exact .cons ht (ih hts)

/-! ## §3 Declarations -/

/-- No closing brace and no comma stands between the keyword and the semicolon of a package. -/
def PlainPackages (ns : List Node) (ts : List Token) : Prop :=
  ∀ span, .package span ∈ ns → ∀ t ∈ ts, span.start < t.offset → t.stop < span.stop →
    t.kind ≠ .rightBrace ∧ t.kind ≠ .comma

theorem PlainPackages.of_subset {ns ms : List Node} {ts us : List Token}
    (h : PlainPackages ns ts) (hns : ms ⊆ ns) (hts : us ⊆ ts) : PlainPackages ms us :=
  fun span hspan t ht => h span (hns hspan) t (hts ht)

theorem exists_passes_of_forall {ts : List Token}
    (h : ∀ t ∈ ts, t.kind ≠ .rightBrace ∧ t.kind ≠ .comma) (b : Brackets) :
    ∃ b', Passes b ts b' := by
  induction ts generalizing b with
  | nil => exact ⟨b, .nil⟩
  | cons t ts ih =>
    obtain ⟨⟨hbrace, hcomma⟩, hts⟩ := List.forall_mem_cons.mp h
    have hpass : ∃ b', b.pass t.kind = .ok b' := by
      unfold Brackets.pass
      split
      case h_2 hkind => exact absurd hkind hbrace
      case h_5 hkind => exact absurd hkind hcomma
      all_goals exact ⟨_, rfl⟩
    obtain ⟨b₁, hb₁⟩ := hpass
    obtain ⟨b', hb'⟩ := ih hts b₁
    exact ⟨b', .cons hb₁ hb'⟩

theorem Leaf.exists_passes {c : Construct} {ts : List Token} {n : Node} (h : Leaf c ts n)
    (hts : LeftToRight ts) (hplain : PlainPackages [n] ts) (b : Brackets) :
    ∃ b', Passes b ts b' := by
  by_cases hc : c = .package
  · subst hc
    cases h with
    | @package keyword semi skipped hkeyword hskipped hsemi =>
      apply exists_passes_of_forall
      obtain ⟨hfront, -, hcross, hmore⟩ := leftToRight_cons.mp hts
      obtain ⟨-, hend, hlast⟩ := leftToRight_append.mp hmore
      have hcovers := hend.covers semi List.mem_cons_self
      simp only [List.forall_mem_cons, List.forall_mem_append]
      refine ⟨by simp [hkeyword], ?_, by simp [hsemi]⟩
      intro t ht
      -- what is skipped stands behind the keyword and in front of the semicolon
      have hbehind := hcross t (List.mem_append_left _ ht)
      have hbefore := hlast t ht semi List.mem_cons_self
      refine hplain _ List.mem_cons_self t (by simp [ht]) ?_ ?_
      · exact Nat.lt_of_lt_of_le hfront hbehind
      · exact Nat.lt_of_le_of_lt hbefore hcovers
  · exact ⟨b, h.balanced hc b⟩

/-- What is open in front of a balanced block is open behind it. -/
theorem Braced.passes {word : Keyword} {keyword name opening closing : Token}
    {inner rest : List Token} (h : Braced word keyword name opening closing)
    (hinner : Balanced inner) {b b' : Brackets} (hrest : Passes b rest b') :
    Passes b (keyword :: name :: opening :: (inner ++ closing :: rest)) b' := by
  have hpasses := passes_append.mpr ⟨b, h.balanced hinner b, hrest⟩
  simpa using hpasses

/-- Declarations pass whatever is open, by induction on how they are derived: they are balanced, but
for packages. -/
theorem Members.exists_passes {room : Nat} {ts : List Token} {ns : List Node}
    (h : Members .file room ts ns) (hts : LeftToRight ts) (hplain : PlainPackages ns ts)
    (b : Brackets) : ∃ b', Passes b ts b' := by
  generalize hplace : Place.file = place at h
  induction h generalizing b with
  | nil => exact ⟨b, .nil⟩
  | @leaf _ _ c ts rest n ns _ hleaf _ ih =>
    obtain ⟨hfirst, hrest, -⟩ := leftToRight_append.mp hts
    obtain ⟨b₁, hb₁⟩ := hleaf.exists_passes hfirst (hplain.of_subset (by simp) (by simp)) b
    obtain ⟨b', hb'⟩ := ih hrest (hplain.of_subset (by simp) (by simp)) b₁ hplace
    exact ⟨b', passes_append.mpr ⟨b₁, hb₁, hb'⟩⟩
  | scope _ hbraced hinner _ _ ih | service _ hbraced hinner _ _ ih =>
    obtain ⟨b', hb'⟩ := ih hts.of_braced.2
      (hplain.of_subset (List.subset_cons_self _ _) fun t ht => by simp [ht]) b hplace
    exact ⟨b', hbraced.passes (hinner.balanced (by simp)) hb'⟩

/-- The preamble has no brackets, so all of a file passes if its declarations do. -/
theorem Derives.exists_passes {limit : Nat} {ts : List Token} {ns : List Node}
    (h : Derives limit ts ns) (hts : LeftToRight ts) (hplain : PlainPackages ns ts) :
    ∃ b', Passes {} ts b' := by
  cases h with
  | @file keyword equals language semi body _ hp hbody =>
    have hfront : Balanced [keyword, equals, language, semi] := by
      apply balanced_of_forall
      simp [hp.keyword_kind, hp.equals_kind, hp.language_kind, hp.semi_kind, TokenKind.isBracket]
    have hbodyts : LeftToRight body :=
      hts.sublist (List.sublist_append_right [keyword, equals, language, semi] body)
    obtain ⟨b', hb'⟩ := hbody.exists_passes hbodyts
      (hplain.of_subset (List.Subset.refl _) fun t ht => by simp [ht]) {}
    exact ⟨b', passes_append.mpr ⟨{}, hfront {}, hb'⟩⟩

/-! ## §4 Files -/

/-- Without a count of brackets, every file is read that is read with one, and as the same tree, and
of the others only those that have a closing brace or a comma among what a package skips. -/
theorem parseText_agrees_uncounted (source : String) (f : File) :
    ((parseText source).value = .ok f → parseUncounted source = .ok f) ∧
    (parseUncounted source = .ok f →
      PlainPackages f.declarations (Cursor.tokens ⟨0, source.toList⟩) →
        (parseText source).value = .ok f) := by
  have hcounted := stream_tokenize source
  have huncounted : Stream ⟨0, source.toList⟩ ⟨source.toList.length, source.toList.length⟩
      (Cursor.tokens ⟨0, source.toList⟩) := Cursor.stream_tokens (Nat.le_refl _) (Nat.le_refl _)
  constructor
  · intro h
    obtain ⟨before, last, htokens, hlast, -, -⟩ := parseText_eq_ok_iff.mp h
    have herrors : ∀ t ∈ tokenize source, t.kind ≠ .error := by
      rw [htokens] at hcounted ⊢
      exact hcounted.ne_error hlast
    rw [parseUncounted, hcounted.tokens_eq herrors]
    exact h
  · intro h hplain
    obtain ⟨before, last, htokens, hlast, hderives, -⟩ := (run_file_eq_ok_iff huncounted).mp h
    rw [htokens] at huncounted hplain
    obtain ⟨b', hpasses⟩ := hderives.exists_passes huncounted.leftToRight.1
      (hplain.of_subset (List.Subset.refl _) fun t ht =>
        List.mem_append_left _ (List.filter_sublist.subset ht))
    -- the end of input passes, as comments do
    have hall : Passes {} (before ++ [last]) b' := by
      refine passes_append.mpr ⟨b', passes_of_significant hpasses, .cons ?_ .nil⟩
      rw [hlast]
      rfl
    have hsame := stream_iff.mp (huncounted.of_passes (huncounted.ne_error hlast) hall)
    rw [parseUncounted, htokens, hsame] at h
    exact h

/-- A package that opens brackets, and a map behind it. -/
def openPackageSource : String := "syntax=\"proto3\";package a\x7b<;message M\x7bmap<a,b> c=1;\x7d"

def openPackageFile : File :=
  ⟨.proto3,
    [.package ⟨16, 28⟩,
      .scope .message ⟨"M", ⟨36, 37⟩⟩
        [.field ⟨⟨"c", ⟨47, 48⟩⟩, ⟨.integer, "1", ⟨49, 50⟩⟩,
          .map ⟨⟨"a", ⟨42, 43⟩⟩, ⟨"b", ⟨44, 45⟩⟩, ⟨38, 46⟩⟩, none, ⟨38, 51⟩⟩]
        ⟨28, 52⟩],
    ⟨0, 52⟩⟩

theorem openPackage_uncounted :
    parseUncounted openPackageSource = .ok openPackageFile ∧
      PlainPackages openPackageFile.declarations (Cursor.tokens ⟨0, openPackageSource.toList⟩) ∧
      (parseText openPackageSource).value = .ok openPackageFile := by
  have hplain : PlainPackages openPackageFile.declarations
      (Cursor.tokens ⟨0, openPackageSource.toList⟩) := by
    have htokens : (Cursor.tokens ⟨0, openPackageSource.toList⟩).all (fun t =>
        16 < t.offset → t.stop < 28 → t.kind ≠ .rightBrace ∧ t.kind ≠ .comma) = true := by
      decide +kernel
    intro span hspan
    obtain rfl : span = ⟨16, 28⟩ := by simpa [openPackageFile] using hspan
    exact fun t ht => of_decide_eq_true (List.all_eq_true.mp htokens t ht)
  have h : parseUncounted openPackageSource = .ok openPackageFile := by decide +kernel
  exact ⟨h, hplain, (parseText_agrees_uncounted openPackageSource openPackageFile).2 h hplain⟩

/-- A comma among what a package skips is refused by the count only. -/
example :
    parseUncounted "syntax=\"proto3\";package a,b;" =
        .ok ⟨.proto3, [.package ⟨16, 28⟩], ⟨0, 28⟩⟩ ∧
      (parseText "syntax=\"proto3\";package a,b;").value =
        .error (.lexical 25 LexFault.commaOutsideMap.message) := by
  decide +kernel

end ProtoSchema
