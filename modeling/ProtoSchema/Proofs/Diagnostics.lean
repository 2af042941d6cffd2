import ProtoSchema.Proofs.Alternatives
import ProtoSchema.Proofs.CorrectPrefix
import ProtoSchema.Proofs.Verdict

/-!
# Diagnostics that can be followed

A message about an unexpected token lists the kinds of token that were expected.  With a token of
each of them in its place, the text up to there can be completed to one that is read as a file
(`parseText_expected_completes`), unless this is a keyword that is refused there for a reason of
its own (`Excepted`).

* §1 another token in place of the last one, §2 keywords that are excepted, §3 texts.
-/

namespace ProtoSchema

open ProtoSchema.Parser ProtoSchema.Grammar

/-! ## §1 Another token in place of the last one -/

theorem text_of_closer : ∀ c ∈ closers, c.text ≠ "" ∧
    ∀ word ∈ Keyword.all, c.kind = .keyword word → c.text = word.text := by
  decide

/-- Reading that stopped behind a token stops behind the one that is put in its place, if it fails
there. -/
theorem StopsAt.replace {ts past : List Token} {t u last : Token} {f f' : Fault}
    (h : StopsAt ts past t f) (hu : u.Ordinary) (hoffset : u.offset = t.offset)
    (hcovers : u.offset < u.stop) (hlast : last.kind = .endOfInput) (hstop : u.stop = last.offset)
    (hresult : ((file nestingLimit).run (past ++ [u, last])).result = .error f')
    (hrest : ((file nestingLimit).run (past ++ [u, last])).rest = [last]) :
    StopsAt (past ++ [u, last]) past u f' := by
  have hordinary : ∀ v ∈ past ++ [u], v.Ordinary :=
    List.forall_mem_append.mpr ⟨h.ordinary, List.forall_mem_singleton.mpr hu⟩
  have hend : last.kind.isLast = true := by rw [hlast]; rfl
  have hcomment : ∀ v ∈ past ++ [u, last], v.kind ≠ .comment := by
    rw [List.append_cons]
    refine List.forall_mem_append.mpr ⟨fun v hv => (hordinary v hv).not_comment, ?_⟩
    rw [List.forall_mem_singleton, hlast]
    decide
  have hascending : Ascending (past ++ [u, last]) := by
    obtain ⟨rest, hsplit⟩ := h.exists_split
    have hold := h.ascending
    rw [hsplit] at hold
    have hpast := hold.before past t rest rfl
    rw [List.append_cons]
    refine (hold.of_append.concat (hoffset ▸ hpast) fun _ => hcovers).concat ?_ (by simp [hend])
    refine List.forall_mem_append.mpr ⟨fun v hv => ?_, ?_⟩
    · have hv := hpast v hv
      omega
    · exact List.forall_mem_singleton.mpr ⟨hcovers, Nat.le_of_eq hstop⟩
  refine ⟨⟨past ++ [u], last, List.append_cons .., hend, hordinary⟩, hascending, hresult,
    by rw [hrest], ?_⟩
  obtain ⟨used, v, hsplit, habout⟩ :=
    stops_file nestingLimit (past ++ [u, last]) ⟨last, by simp, hend⟩ hcomment f' hresult
  rw [hrest, List.nil_append, List.append_cons, List.append_cons used] at hsplit
  obtain ⟨-, hv⟩ := List.append_inj' (List.append_cancel_right hsplit) rfl
  rwa [(List.cons.inj hv).1]

/-! ## §2 Keywords that are excepted -/

/-- A keyword that is refused behind the tokens `past`, though it might stand there: a modifier
that the import has already, or the keyword of a scope that would be one too many. -/
inductive Excepted (past : List Token) (offset : Nat) : TokenKind → Prop
  | modifier {word : Keyword} (h : RepeatsModifier past ⟨.keyword word, offset, word.text⟩) :
      Excepted past offset (.keyword word)
  | scope {kind : Scope} (h : TooDeep past ⟨.keyword kind.keyword, offset, kind.keyword.text⟩) :
      Excepted past offset (.keyword kind.keyword)

/-- In place of a token that is unexpected, one that is barred is excepted. -/
theorem StopsAt.excepted {ts past : List Token} {t : Token} {offset : Nat} {text found : String}
    (h : StopsAt ts past t (.unexpected offset text found)) {c : Token} (hc : c ∈ closers)
    (hbarred : Barred (file nestingLimit) past c) : Excepted past t.offset c.kind := by
  have hord := closer_ordinary hc
  obtain ⟨htext, hword⟩ := text_of_closer c hc
  let u : Token := ⟨c.kind, t.offset, c.text⟩
  have hcovers : u.offset < u.stop := by
    refine Nat.lt_add_of_pos_right (Nat.pos_of_ne_zero fun hzero => htext ?_)
    exact String.utf8ByteSize_eq_zero_iff.mp hzero
  have heq : ∀ word, c.kind = .keyword word → u = ⟨.keyword word, t.offset, word.text⟩ := by
    intro word hkind
    rw [← hword word word.mem_all hkind, ← hkind]
  obtain ⟨f, hplain, hrun⟩ := hbarred u rfl
  obtain ⟨hresult, hrest⟩ := hrun [⟨.endOfInput, u.stop, ""⟩]
  have hstops := h.replace (u := u) ⟨hord.1, hord.2⟩ rfl hcovers rfl rfl hresult hrest
  cases hstops.verdict with
  | lexical herror => exact absurd herror hord.not_error
  | missingPreamble _ hlt =>
    cases h.verdict with
    | unexpected _ hlength => omega
  | unexpected => exact absurd (.unexpected _ _ _) hplain
  | duplicateModifier _ _ hrepeats =>
    obtain ⟨word, hkind⟩ : ∃ word, c.kind = .keyword word := by
      cases hrepeats with
      | mk _ himport => exact himport.modifier.elim (fun h => ⟨_, h⟩) fun h => ⟨_, h⟩
    rw [hkind]
    exact .modifier (heq word hkind ▸ hrepeats)
  | nestingTooDeep _ _ _ hdeep =>
    obtain ⟨kind, hkind⟩ : ∃ kind : Scope, c.kind = .keyword kind.keyword := by
      cases hdeep with
      | mk _ hreaches => exact hreaches.keyword
    rw [hkind]
    exact .scope (heq kind.keyword hkind ▸ hdeep)

/-! ## §3 Texts -/

/-- A message about an unexpected token names only kinds that would do: what stands before the
token, a token of such a kind on a line of its own and some text behind it are read as a file,
unless the kind is excepted there. -/
theorem parseText_expected_completes {source text found : String} {offset : Nat}
    (h : (parseText source).value = .error (.unexpected offset text found)) {kind : TokenKind}
    (hkind : Names text kind) :
    ∃ front back pulled past t, source = front ++ back ∧ front.utf8ByteSize = offset ∧
      tokenize source = pulled ++ (outcomeOf source).rest ∧ significant pulled = past ++ [t] ∧
      t.offset = offset ∧
      (Excepted past offset kind ∨
        ∃ x w : String, Lexeme.scan x.toList = .ok ⟨kind, x.toList, []⟩ ∧
          ∃ f, (parseText (front ++ "\n" ++ x ++ "\n" ++ w)).value = .ok f) := by
  obtain ⟨pulled, past, t, hpulled, hpast, hstops⟩ := exists_stopsAt h
  have hoffset : offset = t.offset := hstops.about.offset_eq
  obtain ⟨e, rfl⟩ : ∃ e : Expected, text = e.text := by
    cases hstops.about with
    | unexpected _ e => exact ⟨e, rfl⟩
  obtain ⟨before, t', after, hsplit, hoffset', hwelcomes⟩ :=
    offers_file nestingLimit _ not_comment_of_mem_significant offset e found hstops.result
  obtain ⟨rfl, rfl⟩ := hstops.eq_of_offset_eq hsplit hoffset'.symm
  obtain ⟨c, hc, rfl, htakes⟩ := hwelcomes kind ((names_text_iff e kind).mp hkind)
  obtain ⟨pre, post, htokens, rfl⟩ := exists_split_of_significant hsplit
  cases htakes with
  | barred hbarred =>
    have ht : t' ∈ tokenize source := by
      rw [htokens]
      simp
    obtain ⟨front, back, hsource, hfront, -⟩ :=
      (stream_tokenize source).exists_split ⟨[], rfl, rfl⟩ t' ht
    exact ⟨front, back, pulled, _, t', hsource, hfront.trans hoffset.symm, hpulled, hpast,
      hoffset.symm, .inl (hoffset ▸ hstops.excepted hc hbarred)⟩
  | @completes cs f hallows hreads =>
    obtain ⟨sp, rest, hsource, hsp, hcompletes⟩ := parseText_writeOut htokens hallows hreads
    refine ⟨String.ofList sp, String.ofList rest, pulled, _, t', ?_, ?_, hpulled, hpast,
      hoffset.symm, .inr ⟨c.text, String.ofList (writeOut cs), scan_closer c hc, ?_⟩⟩
    · rw [← String.ofList_append, ← hsource, String.ofList_toList]
    · rw [Text.utf8ByteSize_ofList, ← hsp, hoffset]
    · have htext : String.ofList (sp ++ '\n' :: writeOut (c :: cs)) =
          String.ofList sp ++ "\n" ++ c.text ++ "\n" ++ String.ofList (writeOut cs) := by
        simp [String.ext_iff, writeOut]
      rwa [htext] at hcompletes

/-- In a message, a oneof might have stood where the `rpc` does. -/
def misplacedRpc : String := "syntax=\"proto3\";message M\x7brpc"

theorem misplacedRpc_expected :
    (parseText misplacedRpc).value =
      .error (.unexpected 26 (Expected.member .message).text "<rpc>") ∧
    Names (Expected.member .message).text (.keyword .oneofKw) ∧
    ∃ front back pulled past t, misplacedRpc = front ++ back ∧ front.utf8ByteSize = 26 ∧
      tokenize misplacedRpc = pulled ++ (outcomeOf misplacedRpc).rest ∧
      significant pulled = past ++ [t] ∧ t.offset = 26 ∧
      (Excepted past 26 (.keyword .oneofKw) ∨
        ∃ x w : String, Lexeme.scan x.toList = .ok ⟨.keyword .oneofKw, x.toList, []⟩ ∧
          ∃ f, (parseText (front ++ "\n" ++ x ++ "\n" ++ w)).value = .ok f) := by
  have h : (parseText misplacedRpc).value =
      .error (.unexpected 26 (Expected.member .message).text "<rpc>") := by
    decide +kernel
  have hnames : Names (Expected.member .message).text (.keyword .oneofKw) :=
    (names_text_iff (.member .message) (.keyword .oneofKw)).mpr (by decide)
  exact ⟨h, hnames, parseText_expected_completes h hnames⟩

end ProtoSchema
