import ProtoSchema.Proofs.Acceptance
import ProtoSchema.Proofs.Shape
import ProtoSchema.Proofs.Stream
import ProtoSchema.Schema

/-!
# The language of schema files

A text is read as a file if and only if its tokens derive that file: the preamble and members up to
the end of input, comments left out (`parseText_eq_ok_iff`).  Where the tokens stand decides the
spans of the tree and nothing else of it, so up to spans a tree is spelled by words alone
(`Spells`).

* §1 tokens up to the end of input, §2 reading a file is deriving it, §3 the language in words.
-/

namespace ProtoSchema

open ProtoSchema.Parser ProtoSchema.Grammar

/-! ## §1 Tokens up to the end of input -/

theorem significant_append (ts us : List Token) :
    significant (ts ++ us) = significant ts ++ significant us :=
  List.filter_append ..

/-- Leaving comments out keeps the token that ends a stream. -/
theorem significant_concat {before : List Token} {last : Token} (hlast : last.kind.isLast = true) :
    significant (before ++ [last]) = significant before ++ [last] := by
  have hcomment : last.kind ≠ .comment := by
    intro h
    rw [h] at hlast
    cases hlast
  rw [significant_append]
  simp [significant, hcomment]

theorem ordinary_of_mem_significant {ts : List Token} (hts : ∀ t ∈ ts, t.kind.isLast = false) :
    ∀ t ∈ significant ts, t.Ordinary := by
  intro t ht
  obtain ⟨hmem, hcomment⟩ := List.mem_filter.mp ht
  exact ⟨by simpa using hcomment, hts t hmem⟩

/-- In front of the token that ends a text, all but the comments are ordinary. -/
theorem ordinary_of_tokenize {source : String} {before : List Token} {last : Token}
    (htokens : tokenize source = before ++ [last]) : ∀ t ∈ significant before, t.Ordinary := by
  obtain ⟨before', last', heq, -, hbefore⟩ := (stream_tokenize source).exists_last
  rw [htokens] at heq
  obtain ⟨rfl, -⟩ := List.append_inj' heq rfl
  exact ordinary_of_mem_significant hbefore

/-- A stream has only one token that could end it. -/
theorem append_singleton_inj {us rest ts : List Token} {t last : Token}
    (h : us ++ t :: rest = ts ++ [last]) (ht : t.kind.isLast = true)
    (hts : ∀ u ∈ ts, u.kind.isLast = false) : us = ts ∧ t = last ∧ rest = [] := by
  rcases List.eq_nil_or_concat rest with rfl | ⟨init, z, rfl⟩
  · obtain ⟨rfl, hlast⟩ := List.append_inj' h rfl
    exact ⟨rfl, (List.cons.inj hlast).1, rfl⟩
  · have h' : (us ++ t :: init) ++ [z] = ts ++ [last] := by simpa using h
    obtain ⟨rfl, -⟩ := List.append_inj' h' rfl
    rw [hts t (by simp)] at ht
    cases ht

/-- Tokens of a text, in front of which stand only tokens that cover something and end before them;
all but the last one cover something. -/
structure Ascending (ts : List Token) : Prop where
  before : ∀ pre t post, ts = pre ++ t :: post → ∀ u ∈ pre, u.offset < u.stop ∧ u.stop ≤ t.offset
  covers : ∀ t ∈ ts, t.kind.isLast = false → t.offset < t.stop

theorem Ascending.of_append {us vs : List Token} (h : Ascending (us ++ vs)) : Ascending us := by
  refine ⟨?_, fun t ht => h.covers t (List.mem_append_left vs ht)⟩
  rintro pre t post rfl
  exact h.before pre t (post ++ vs) (by simp)

/-- A token that starts behind others may be put behind them. -/
theorem Ascending.concat {ts : List Token} {t : Token} (h : Ascending ts)
    (hts : ∀ u ∈ ts, u.offset < u.stop ∧ u.stop ≤ t.offset)
    (ht : t.kind.isLast = false → t.offset < t.stop) : Ascending (ts ++ [t]) := by
  constructor
  · intro pre v post hsplit
    rcases List.eq_nil_or_concat post with rfl | ⟨init, z, rfl⟩
    · obtain ⟨rfl, hv⟩ := List.append_inj' hsplit rfl
      obtain rfl := (List.cons.inj hv).1
      exact hts
    · have hconcat : ts ++ [t] = (pre ++ v :: init) ++ [z] := by simpa using hsplit
      exact h.before pre v init (List.append_inj' hconcat rfl).1
  · exact List.forall_mem_append.mpr ⟨h.covers, List.forall_mem_singleton.mpr ht⟩

theorem ascending_significant (source : String) : Ascending (significant (tokenize source)) := by
  obtain ⟨before, last, htokens, hlast, hbefore⟩ := (stream_tokenize source).exists_last
  have hcovers : ∀ t ∈ tokenize source, t.kind.isLast = false → t.offset < t.stop :=
    fun t ht h => ((stream_tokenize source).covers t ht h).1
  have hsub : (significant (tokenize source)).Sublist (tokenize source) := List.filter_sublist
  have hpairwise := (stream_tokenize source).pairwise.sublist hsub
  refine ⟨?_, fun t ht => hcovers t (hsub.subset ht)⟩
  intro pre t post hsplit u hu
  -- what stands in front of another token is not the last one
  have hulast : u.kind.isLast = false := by
    rw [htokens, significant_concat hlast] at hsplit
    rcases List.eq_nil_or_concat (t :: post) with h | ⟨init, z, h⟩
    · cases h
    · have hends : significant before ++ [last] = (pre ++ init) ++ [z] := by
        rw [hsplit, h]
        simp
      obtain ⟨hbefore', -⟩ := List.append_inj' hends rfl
      refine hbefore u ((List.filter_sublist (p := (·.kind ≠ .comment))).subset ?_)
      show u ∈ significant before
      rw [hbefore']
      exact List.mem_append_left _ hu
  rw [hsplit] at hpairwise hsub
  refine ⟨hcovers u (hsub.subset (List.mem_append_left _ hu)) hulast, ?_⟩
  exact (List.pairwise_append.mp hpairwise).2.2 u hu t List.mem_cons_self

section

variable {ts pre pre' post post' : List Token} {t t' : Token}

/-- Of two tokens, the one with fewer tokens in front of it starts earlier. -/
theorem Ascending.offset_lt (h : Ascending ts) (hsplit : ts = pre ++ t :: post)
    (hsplit' : ts = pre' ++ t' :: post') (hlt : pre.length < pre'.length) :
    t.offset < t'.offset := by
  have hfront : pre ++ [t] <+: pre' := by
    refine List.prefix_of_prefix_length_le (List.prefix_append _ post) ?_ ?_
    · rw [List.append_assoc, List.singleton_append, ← hsplit, hsplit']
      exact List.prefix_append _ _
    · rw [List.length_append, List.length_singleton]
      exact hlt
  have := h.before pre' t' post' hsplit' t (hfront.subset (by simp))
  omega

/-- Tokens are told apart by where they start. -/
theorem Ascending.split_unique (h : Ascending ts) (hsplit : ts = pre ++ t :: post)
    (hsplit' : ts = pre' ++ t' :: post') (hoffset : t.offset = t'.offset) :
    pre = pre' ∧ t = t' := by
  rcases Nat.lt_trichotomy pre.length pre'.length with hlt | heq | hgt
  · have := h.offset_lt hsplit hsplit' hlt
    omega
  · obtain ⟨hpre, hcons⟩ := List.append_inj (hsplit.symm.trans hsplit') heq
    exact ⟨hpre, (List.cons.inj hcons).1⟩
  · have := h.offset_lt hsplit' hsplit hgt
    omega

end

/-! ## §2 Reading a file is deriving it -/

/-- The parser of files reads what the grammar has, and the end of input. -/
theorem reads_file_iff_derives {limit : Nat} {ts : List Token} {last : Token} {f : File}
    (hts : ∀ t ∈ ts, t.Ordinary) (hlast : last.kind = .endOfInput) :
    (file limit).Reads (ts ++ [last]) f ↔
      Derives limit ts f.declarations ∧ f.span = ⟨0, last.stop⟩ := by
  rw [reads_file]
  constructor
  · rintro ⟨a, b, c, d, body, last', nodes, hused, hp, hlast', hbody, rfl⟩
    have hends : ts ++ [last] = (a :: b :: c :: d :: body) ++ [last'] := by simpa using hused
    obtain ⟨rfl, heq⟩ := List.append_inj' hends rfl
    obtain rfl := (List.cons.inj heq).1
    exact ⟨.file hp (members_of_series hbody), rfl⟩
  · rintro ⟨hderives, hspan⟩
    obtain ⟨dialect, nodes, span⟩ := f
    dsimp only at hderives hspan
    cases hderives with
    | @file a b c d body _ hp hbody =>
      simp only [List.forall_mem_cons] at hts
      exact ⟨a, b, c, d, body, last, nodes, rfl, hp, hlast,
        series_of_members hbody hts.2.2.2.2, by rw [hspan]⟩

/-- Comments do not decide what a text is read as. -/
theorem parseText_value (source : String) :
    (parseText source).value =
      ((file nestingLimit).run (significant (tokenize source))).result := by
  rw [(file nestingLimit).run_significant]
  rfl

theorem not_comment_of_mem_significant {ts : List Token} :
    ∀ t ∈ significant ts, t.kind ≠ .comment := by
  intro t ht
  simpa using (List.mem_filter.mp ht).2

/-- A stream is read as `f` if and only if its tokens, up to the end of input and without comments,
derive `f`. -/
theorem run_file_eq_ok_iff {c : Cursor} {b : Brackets} {ts : List Token} (h : Stream c b ts)
    {f : File} :
    ((file nestingLimit).run ts).result = .ok f ↔
      ∃ before last, ts = before ++ [last] ∧ last.kind = .endOfInput ∧
        Derives nestingLimit (significant before) f.declarations ∧ f.span = ⟨0, last.stop⟩ := by
  obtain ⟨before, last, rfl, hlast, hbefore⟩ := h.exists_last
  have hordinary := ordinary_of_mem_significant hbefore
  have hvalue : ((file nestingLimit).run (before ++ [last])).result =
      ((file nestingLimit).run (significant (before ++ [last]))).result := by
    rw [(file nestingLimit).run_significant]
    rfl
  rw [hvalue, significant_concat hlast]
  constructor
  · intro hok
    have hcomment : ∀ t ∈ significant before ++ [last], t.kind ≠ .comment := by
      rw [← significant_concat hlast]
      exact not_comment_of_mem_significant
    obtain ⟨used, hused, hreads⟩ := exists_reads hcomment hok
    generalize ((file nestingLimit).run (significant before ++ [last])).rest = rest at hused
    -- the end of input that was read is the last token, so nothing is left
    obtain ⟨a, b, c, d, body, last', nodes, rfl, hp, hlast', hbody, rfl⟩ := reads_file.mp hreads
    have hends : (a :: b :: c :: d :: body) ++ last' :: rest = significant before ++ [last] := by
      simpa using hused.symm
    obtain ⟨hbody', rfl, rfl⟩ := append_singleton_inj hends (by rw [hlast']; rfl)
      (fun t ht => (hordinary t ht).not_last)
    refine ⟨before, last', rfl, hlast', ?_, rfl⟩
    rw [← hbody']
    exact .file hp (members_of_series hbody)
  · rintro ⟨before', last', heq, hlast', hderives, hspan⟩
    obtain ⟨rfl, hcons⟩ := List.append_inj' heq rfl
    obtain rfl := (List.cons.inj hcons).1
    exact ((reads_file_iff_derives hordinary hlast').mpr ⟨hderives, hspan⟩).result

/-- A text is read as `f` if and only if its tokens derive `f`. -/
theorem parseText_eq_ok_iff {source : String} {f : File} :
    (parseText source).value = .ok f ↔
      ∃ before last, tokenize source = before ++ [last] ∧ last.kind = .endOfInput ∧
        Derives nestingLimit (significant before) f.declarations ∧ f.span = ⟨0, last.stop⟩ :=
  run_file_eq_ok_iff (stream_tokenize source)

/-- Whether a text is read as a file, and as which one, can be computed. -/
instance decidableEqExcept {ε α : Type} [DecidableEq ε] [DecidableEq α] : DecidableEq (Except ε α)
  | .ok a, .ok b => decidable_of_iff (a = b) ⟨congrArg _, Except.ok.inj⟩
  | .error a, .error b => decidable_of_iff (a = b) ⟨congrArg _, Except.error.inj⟩
  | .ok _, .error _ => isFalse nofun
  | .error _, .ok _ => isFalse nofun

/-! ## §3 The language in words -/

/-- Words that spell the file `tree`, spans left out. -/
def Spells (ws : List (TokenKind × String)) (tree : File) : Prop :=
  ∃ ts nodes, ts.map Token.word = ws ∧ Derives nestingLimit ts nodes ∧
    Node.unplacedAll nodes = Node.unplacedAll tree.declarations

theorem File.unplaced_eq_iff {f g : File} :
    f.unplaced = g.unplaced ↔
      Node.unplacedAll f.declarations = Node.unplacedAll g.declarations := by
  simp [File.unplaced]

/-- The parser accepts a text if and only if the text ends without a lexical error and its words
spell a file, and the tree that it gives is the one that they spell. -/
theorem parseText_unplaced_iff_spells (source : String) (tree : File) :
    (∃ f, (parseText source).value = .ok f ∧ f.unplaced = tree.unplaced) ↔
      ∃ before last, tokenize source = before ++ [last] ∧ last.kind = .endOfInput ∧
        Spells ((significant before).map Token.word) tree := by
  constructor
  · rintro ⟨f, hok, htree⟩
    obtain ⟨before, last, htokens, hlast, hderives, -⟩ := parseText_eq_ok_iff.mp hok
    exact ⟨before, last, htokens, hlast, _, _, rfl, hderives, File.unplaced_eq_iff.mp htree⟩
  · rintro ⟨before, last, htokens, hlast, ts, nodes, hwords, hderives, hnodes⟩
    obtain ⟨nodes', hderives', hnodes'⟩ := hderives.of_words hwords.symm
    refine ⟨⟨.proto3, nodes', ⟨0, last.stop⟩⟩, parseText_eq_ok_iff.mpr ?_, ?_⟩
    · exact ⟨before, last, htokens, hlast, hderives', rfl⟩
    · exact File.unplaced_eq_iff.mpr (hnodes'.trans hnodes)

end ProtoSchema
