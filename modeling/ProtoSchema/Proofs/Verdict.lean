import ProtoSchema.Proofs.FaultKinds
import ProtoSchema.Proofs.Tiling

/-!
# Which fault is reported

Where reading a text fails, the last token that was pulled decides the fault, with the tokens
before it (`Verdict`, `parseText_verdict`): an error token is reported as such, one of the first
four as a missing preamble, a modifier that an import has already as a duplicate, the keyword of a
scope for which there is no room as nested too deep, and any other token as unexpected.

Behind the preamble every fault but a plain one comes out of a declaration, which stands behind
declarations that have been read (`exists_faulty_member`), and each kind of them out of one
construct only.  That the fault is about the last token, and which keyword the limit on nesting
refuses, is known from before (`stops_file`, `limited_file`).

* §1 verdicts, §2 the preamble, §3 where reading stops;
* §4 the kind of fault there, §5 texts.
-/

namespace ProtoSchema

open ProtoSchema.Parser ProtoSchema.Grammar

/-! ## §1 Verdicts -/

/-- An import that has `modifiers` so far, and a modifier that repeats one of them. -/
structure RepeatsIn (keyword : Token) (modifiers : List Token) (t : Token) : Prop where
  keyword_kind : keyword.kind = .keyword .importKw
  before : ∀ m ∈ modifiers, m.IsModifier
  modifier : t.IsModifier
  repeated : ∃ m ∈ modifiers, m.text = t.text

/-- Behind the declarations of a file an import is being read, of which `t` repeats a modifier. -/
inductive RepeatsModifier : (past : List Token) → (t : Token) → Prop
  | mk {front modifiers : List Token} {nodes : List Node} {keyword t : Token}
      (hfront : Derives nestingLimit front nodes) (himport : RepeatsIn keyword modifiers t) :
      RepeatsModifier (front ++ keyword :: modifiers) t

/-- `t` is the keyword of a scope that may stand there, and as many scopes are open as may be. -/
inductive TooDeep : (past : List Token) → (t : Token) → Prop
  | mk {front before : List Token} {t : Token} (hfront : preamble.Reads front ())
      (hreaches : Reaches .file nestingLimit (before ++ [t]) before t) : TooDeep (front ++ before) t

/-- The fault that the token `t` makes behind the tokens `past`, where `Repeats` says whether `t`
repeats a modifier.  The cases exclude each other, the earlier the stronger. -/
inductive Verdict (Repeats : List Token → Token → Prop) (past : List Token) (t : Token) :
    Fault → Prop
  | lexical (ht : t.kind = .error) : Verdict Repeats past t (.lexical t.offset t.text)
  | missingPreamble (ht : t.kind ≠ .error) (hpast : past.length < 4) :
      Verdict Repeats past t (.missingPreamble t.offset t.display)
  | duplicateModifier (ht : t.kind ≠ .error) (hpast : 4 ≤ past.length)
      (hrepeats : Repeats past t) : Verdict Repeats past t (.duplicateModifier t.offset t.text)
  | nestingTooDeep (ht : t.kind ≠ .error) (hpast : 4 ≤ past.length)
      (hrepeats : ¬ Repeats past t) (hdeep : TooDeep past t) :
      Verdict Repeats past t (.nestingTooDeep t.offset nestingLimit)
  | unexpected (ht : t.kind ≠ .error) (hpast : 4 ≤ past.length)
      (hrepeats : ¬ Repeats past t) (hdeep : ¬ TooDeep past t) (expected : Expected) :
      Verdict Repeats past t (.unexpected t.offset expected.text t.display)

theorem Verdict.not_repeats {Repeats : List Token → Token → Prop} {past : List Token} {t : Token}
    {offset : Nat} {expected found : String}
    (h : Verdict Repeats past t (.unexpected offset expected found)) : ¬ Repeats past t := by
  generalize hf : Fault.unexpected offset expected found = f at h
  cases h with
  | unexpected _ _ hrepeats => exact hrepeats
  | _ => cases hf

/-! ## §2 The preamble -/

theorem Preamble.ordinary {a b c d : Token} (h : Preamble a b c d) :
    ∀ t ∈ [a, b, c, d], t.Ordinary := by
  simp only [List.forall_mem_cons]
  exact ⟨.of_kind h.keyword_kind (by decide) rfl, .of_kind h.equals_kind (by decide) rfl,
    .of_kind h.language_kind (by decide) rfl, .of_kind h.semi_kind (by decide) rfl, by simp⟩

/-- If `p` fails, it is for one of the first `n` tokens, and unless that is an error, the preamble
is missing. -/
def Opening {α : Type} (n : Nat) (p : Parser α) : Prop :=
  ∀ ts, HasEnd ts → (∀ t ∈ ts, t.kind ≠ .comment) → ∀ f, (p.run ts).result = .error f →
    ∃ past t, ts = past ++ t :: (p.run ts).rest ∧ past.length < n ∧
      (t.kind ≠ .error → f = .missingPreamble t.offset t.display)

theorem opening_preambleToken_bind {α : Type} {n : Nat} {accepts : Token → Bool}
    (haccepts : ∀ t, accepts t = true → t.Ordinary) {g : Unit → Parser α} (hg : Opening n (g ())) :
    Opening (n + 1) (preambleToken accepts >>= g) := by
  intro ts hend hts f hf
  rw [preambleToken, bind_assoc] at hf ⊢
  cases ts with
  | nil => exact absurd hend not_hasEnd_nil
  | cons t rest =>
    obtain ⟨ht, hrest⟩ := List.forall_mem_cons.mp hts
    by_cases herror : t.kind = .error
    · rw [run_bind_of_error (next_run_cons_error herror rest)]
      exact ⟨[], t, rfl, Nat.succ_pos n, fun h => absurd herror h⟩
    · rw [run_bind_of_ok (next_run_cons ht herror rest)] at hf ⊢
      by_cases haccept : accepts t = true
      · simp only [if_pos haccept, Parser.pure_bind] at hf ⊢
        have hend : HasEnd rest :=
          HasEnd.of_append (show HasEnd ([t] ++ rest) from hend)
            (List.forall_mem_singleton.mpr (haccepts t haccept))
        obtain ⟨past, u, hsplit, hlength, hfault⟩ := hg rest hend hrest f hf
        exact ⟨t :: past, u, by rw [List.cons_append, ← hsplit], Nat.succ_lt_succ hlength, hfault⟩
      · simp only [if_neg haccept] at hf ⊢
        cases hf
        exact ⟨[], t, rfl, Nat.succ_pos n, fun _ => rfl⟩

theorem opening_preamble : Opening 4 preamble := by
  have hkind : ∀ kind : TokenKind, kind ≠ .comment → kind.isLast = false →
      ∀ t : Token, decide (t.kind = kind) = true → t.Ordinary :=
    fun kind hcomment hlast t ht => .of_kind (of_decide_eq_true ht) hcomment hlast
  rw [preamble_eq]
  refine opening_preambleToken_bind (hkind _ (by decide) rfl) ?_
  refine opening_preambleToken_bind (hkind _ (by decide) rfl) ?_
  refine opening_preambleToken_bind (fun t ht => ?_) ?_
  · rw [Bool.and_eq_true, decide_eq_true_eq] at ht
    exact .of_kind ht.1 (by decide) rfl
  · refine opening_preambleToken_bind (hkind _ (by decide) rfl) ?_
    intro ts _ _ f hf
    cases hf

/-! ## §3 Where reading stops -/

theorem stops_declarations (limit : Nat) : Stops (declarations (scope limit limit)) :=
  stops_members fun _ _ hp => heeds_declaration hp

/-- Reading the tokens `ts` of a text, without comments, stops behind `t` for the fault `f`. -/
structure StopsAt (ts past : List Token) (t : Token) (f : Fault) : Prop where
  ended : ∃ before last, ts = before ++ [last] ∧ last.kind.isLast = true ∧ ∀ u ∈ before, u.Ordinary
  ascending : Ascending ts
  result : ((file nestingLimit).run ts).result = .error f
  split : ts = past ++ t :: ((file nestingLimit).run ts).rest
  about : f.About t

section

variable {ts past : List Token} {t : Token} {f : Fault}

theorem StopsAt.exists_split (h : StopsAt ts past t f) : ∃ rest, ts = past ++ t :: rest :=
  ⟨_, h.split⟩

theorem StopsAt.hasEnd (h : StopsAt ts past t f) : HasEnd ts := by
  obtain ⟨before, last, rfl, hlast, -⟩ := h.ended
  exact ⟨last, by simp, hlast⟩

theorem StopsAt.not_comment (h : StopsAt ts past t f) : ∀ u ∈ ts, u.kind ≠ .comment := by
  obtain ⟨before, last, rfl, hlast, hbefore⟩ := h.ended
  refine List.forall_mem_append.mpr ⟨fun u hu => (hbefore u hu).not_comment, ?_⟩
  rw [List.forall_mem_singleton]
  intro hcomment
  rw [hcomment] at hlast
  cases hlast

/-- What has been read in front of the last token is ordinary. -/
theorem StopsAt.ordinary (h : StopsAt ts past t f) : ∀ u ∈ past, u.Ordinary := by
  obtain ⟨before, last, hended, -, hbefore⟩ := h.ended
  obtain ⟨rest, hsplit⟩ := h.exists_split
  have hfront : past <+: before := by
    have hpast : past <+: ts := hsplit ▸ List.prefix_append _ _
    have hlength := congrArg List.length (hended.symm.trans hsplit)
    simp only [List.length_append, List.length_cons, List.length_nil] at hlength
    exact List.prefix_of_prefix_length_le hpast (hended ▸ List.prefix_append _ _) (by omega)
  exact fun u hu => hbefore u (hfront.subset hu)

/-- A token is found to be the last one by its offset. -/
theorem StopsAt.eq_of_offset_eq (h : StopsAt ts past t f) {past' rest' : List Token} {t' : Token}
    (hsplit : ts = past' ++ t' :: rest') (hoffset : t'.offset = f.offset) :
    past' = past ∧ t' = t :=
  h.ascending.split_unique hsplit h.split (hoffset.trans h.about.offset_eq)

/-- Reading stops in the preamble, or at a declaration. -/
theorem StopsAt.cases (h : StopsAt ts past t f) :
    (past.length < 4 ∧ (t.kind ≠ .error → f = .missingPreamble t.offset t.display)) ∨
    ∃ front body, ts = front ++ body ∧ preamble.Reads front () ∧ 4 ≤ past.length ∧
      ((declarations (scope nestingLimit nestingLimit)).run body).result = .error f := by
  have hts := h.not_comment
  have hresult := h.result
  have hsplit := h.split
  rw [file_eq, fileWith_eq, run_bind] at hresult hsplit
  cases hfront : (preamble.run ts).result with
  | error f' =>
    left
    rw [Outcome.bind_of_error hfront] at hresult hsplit
    cases hresult
    obtain ⟨past', t', hsplit', hlength, hfault⟩ := opening_preamble ts h.hasEnd hts f hfront
    have heq := hsplit.symm.trans hsplit'
    rw [List.append_cons, List.append_cons past'] at heq
    obtain ⟨rfl, hcons⟩ := List.append_inj' (List.append_cancel_right heq) rfl
    obtain rfl := (List.cons.inj hcons).1
    exact ⟨hlength, hfault⟩
  | ok u =>
    right
    obtain ⟨front, hbody, hreads⟩ := exists_reads hts hfront
    rw [Outcome.bind_of_ok hfront] at hresult hsplit
    dsimp only at hresult hsplit
    generalize (preamble.run ts).rest = body at hbody hresult hsplit
    subst hbody
    rw [run_bind] at hresult hsplit
    obtain ⟨a, b, c, d, rfl, hpreamble⟩ := reads_preamble.mp hreads
    have hend : HasEnd body := h.hasEnd.of_append hpreamble.ordinary
    cases hres : ((declarations (scope nestingLimit nestingLimit)).run body).result with
    | ok r =>
      rw [Outcome.bind_of_ok hres] at hresult
      cases hresult
    | error f' =>
      rw [Outcome.bind_of_error hres] at hresult hsplit
      cases hresult
      obtain ⟨used, t', hsplit', -⟩ :=
        stops_declarations nestingLimit body hend (List.forall_mem_append.mp hts).2 f hres
      refine ⟨[a, b, c, d], body, rfl, hreads, ?_, hres⟩
      have hlength := congrArg List.length hsplit
      have hlength' := congrArg List.length hsplit'
      simp only [List.length_append, List.length_cons, List.length_nil] at hlength hlength'
      omega

/-! ## §4 The kind of fault -/

/-- Behind the preamble it is not missing. -/
theorem StopsAt.missingPreamble_iff (h : StopsAt ts past t f) (ht : t.kind ≠ .error) :
    (∃ offset found, f = .missingPreamble offset found) ↔ past.length < 4 := by
  rcases h.cases with ⟨hlength, hfault⟩ | ⟨front, body, -, -, hlength, hres⟩
  · exact ⟨fun _ => hlength, fun _ => ⟨_, _, hfault ht⟩⟩
  · constructor
    · rintro ⟨offset, found, rfl⟩
      refine absurd hres (Gives.ne_error (by rintro ⟨⟩) ?_)
      exact gives_declarations (fun _ _ => by simp) fun kind t =>
        gives_scope (.inr fun _ => by simp) kind t
    · intro hlt
      omega

/-- A declaration that reports a duplicate is an import. -/
theorem exists_import_of_duplicate {k : Token} {p : Parser Node}
    (hp : (Place.file.member (scope nestingLimit nestingLimit) k).map reported = some p)
    {rest : List Token} {offset : Nat} {text : String}
    (h : (p.run rest).result = .error (.duplicateModifier offset text)) :
    k.kind = .keyword .importKw ∧
      ((importDecl k).run rest).result = .error (.duplicateModifier offset text) := by
  obtain ⟨q, hq, rfl⟩ := Option.map_eq_some_iff.mp hp
  obtain ⟨c, -, hstarts, rfl⟩ := exists_construct_of_member hq
  have hres := run_reported_eq_error_iff.mp h
  by_cases hc : c = .importDecl
  · subst hc
    exact ⟨by simpa [Construct.starts] using hstarts, hres⟩
  · refine absurd hres (Gives.ne_error (by rintro ⟨⟩) ?_)
    exact gives_construct (fun h => absurd h hc)
      (fun kind t => gives_scope (.inr fun _ => by simp) kind t) k

/-- Among declarations, a duplicate is found at the modifiers of an import, behind declarations that
have been read. -/
theorem exists_repeatsIn_of_duplicate {body : List Token} (hbody : ∀ t ∈ body, t.kind ≠ .comment)
    {offset : Nat} {text : String}
    (h : ((declarations (scope nestingLimit nestingLimit)).run body).result =
      .error (.duplicateModifier offset text)) :
    ∃ front nodes keyword modifiers t rest, body = front ++ keyword :: (modifiers ++ t :: rest) ∧
      Members .file nestingLimit front nodes ∧ RepeatsIn keyword modifiers t ∧
      offset = t.offset := by
  obtain ⟨front, nodes, k, p, rest, rfl, hseries, hp, hres⟩ :=
    exists_faulty_member declaration_of_endOfInput hbody (by rintro ⟨⟩) h
  obtain ⟨hkeyword, hres⟩ := exists_import_of_duplicate hp hres
  have hrest : ∀ t ∈ rest, t.kind ≠ .comment := by
    intro t ht
    exact hbody t (by simp [ht])
  obtain ⟨modifiers, t, left, rfl, hmodifiers, ht, htext, hoffset⟩ :=
    exists_modifiers_of_duplicate hrest hres
  refine ⟨front, nodes, k, modifiers, t, left, rfl, ?_, ⟨hkeyword, hmodifiers, ht, ?_⟩, hoffset⟩
  · exact members_of_series (series_map_reported.mp hseries)
  · exact List.mem_map.mp htext

theorem exists_duplicate_of_repeatsIn {front modifiers : List Token} {nodes : List Node}
    {keyword t : Token} (hordinary : ∀ u ∈ front, u.Ordinary)
    (hfront : Members .file nestingLimit front nodes) (himport : RepeatsIn keyword modifiers t)
    (rest : List Token) :
    ∃ offset text, ((declarations (scope nestingLimit nestingLimit)).run
      (front ++ keyword :: (modifiers ++ t :: rest))).result =
        .error (.duplicateModifier offset text) := by
  have htext : t.text ∈ ([] : List Ident).map (·.name) ++ modifiers.map (·.text) :=
    List.mem_map.mpr himport.repeated
  obtain ⟨offset, text, hres⟩ :
      ∃ offset text, ((importDecl keyword).run (modifiers ++ t :: rest)).result =
        .error (.duplicateModifier offset text) :=
    exists_duplicate himport.before himport.modifier htext rest
  have hmember : Place.file.member (scope nestingLimit nestingLimit) keyword =
      some (importDecl keyword) :=
    member_eq_some (c := .importDecl) (by decide)
      (by simp [Construct.starts, himport.keyword_kind]) _
  refine ⟨offset, text, ?_⟩
  refine run_members_of_series declaration_of_endOfInput
    (series_map_reported.mpr (series_of_members hfront hordinary))
    (.of_kind himport.keyword_kind (by decide) rfl) ?_ (run_reported_eq_error_iff.mpr hres)
  rw [hmember]
  rfl

theorem run_file_of_declarations {front body : List Token} (hfront : preamble.Reads front ())
    {f : Fault}
    (h : ((declarations (scope nestingLimit nestingLimit)).run body).result = .error f) :
    ((file nestingLimit).run (front ++ body)).result = .error f := by
  obtain ⟨hok, hrest⟩ := hfront.run_append body
  rw [file_eq, fileWith_eq, run_bind, Outcome.bind_of_ok hok, hrest, run_bind,
    Outcome.bind_of_error h]

theorem StopsAt.duplicateModifier_iff (h : StopsAt ts past t f) (hpast : 4 ≤ past.length) :
    (∃ offset text, f = .duplicateModifier offset text) ↔ RepeatsModifier past t := by
  obtain ⟨rest, hsplit⟩ := h.exists_split
  have hts := h.not_comment
  constructor
  · rintro ⟨offset, text, rfl⟩
    rcases h.cases with ⟨hlength, -⟩ | ⟨front, body, rfl, hfront, -, hres⟩
    · omega
    · obtain ⟨b, nodes, keyword, modifiers, t', left, rfl, hb, himport, rfl⟩ :=
        exists_repeatsIn_of_duplicate (List.forall_mem_append.mp hts).2 hres
      have hposition : front ++ (b ++ keyword :: (modifiers ++ t' :: left)) =
          front ++ b ++ keyword :: modifiers ++ t' :: left := by simp
      obtain ⟨rfl, rfl⟩ := h.eq_of_offset_eq hposition rfl
      obtain ⟨_, _, _, _, rfl, hpreamble⟩ := reads_preamble.mp hfront
      exact .mk (.file hpreamble hb) himport
  · rintro ⟨@⟨a, b, c, d, body, _, hpreamble, hmembers⟩, himport⟩
    have hbody : ∀ u ∈ body, u.Ordinary := fun u hu =>
      h.ordinary u (List.mem_append_left _ (List.mem_append_right [a, b, c, d] hu))
    obtain rfl : ts = [a, b, c, d] ++ (body ++ _ :: (_ ++ t :: rest)) := by simpa using hsplit
    obtain ⟨offset, text, hres⟩ := exists_duplicate_of_repeatsIn hbody hmembers himport rest
    have hfile := run_file_of_declarations (reads_preamble.mpr ⟨a, b, c, d, rfl, hpreamble⟩) hres
    exact ⟨offset, text, Except.error.inj (h.result.symm.trans hfile)⟩

theorem StopsAt.eq_nestingTooDeep (h : StopsAt ts past t f) (hdeep : TooDeep past t) :
    f = .nestingTooDeep t.offset nestingLimit := by
  have hresult := h.result
  cases limited_file nestingLimit h.not_comment with
  | same hnone _ =>
    obtain ⟨hfront, hreaches⟩ := hdeep
    obtain ⟨rest, hsplit⟩ := h.exists_split
    rw [List.append_assoc] at hsplit
    exact absurd ⟨_, _, _, hsplit, hfront, rfl, hreaches.before_any rest⟩ (hnone _ t)
  | refused _ _ hrefused =>
    obtain rfl := Except.error.inj (hresult.symm.trans hrefused)
    rw [h.about.offset_eq.symm]
    rfl

/-- Without room, the last token is the keyword of a scope that would be one too many. -/
theorem StopsAt.tooDeep {offset limit : Nat}
    (h : StopsAt ts past t (.nestingTooDeep offset limit)) : TooDeep past t := by
  have hresult := h.result
  cases limited_file nestingLimit h.not_comment with
  | same _ hsame =>
    rw [hsame] at hresult
    exact absurd hresult (fileWith_openScope_ne_nestingTooDeep ts offset limit)
  | refused hreaches _ hrefused =>
    cases hresult.symm.trans hrefused
    obtain ⟨front, body, b, hsplit, hfront, rfl, hb⟩ := hreaches
    obtain ⟨rest, rfl⟩ := hb.exists_split
    rw [← List.append_assoc] at hsplit
    obtain ⟨rfl, rfl⟩ := h.eq_of_offset_eq hsplit rfl
    exact .mk hfront (hb.before_any [])

theorem StopsAt.verdict (h : StopsAt ts past t f) : Verdict RepeatsModifier past t f := by
  by_cases ht : t.kind = .error
  · cases h.about with
    | lexical => exact .lexical ht
    | unexpected hne | missingPreamble hne | duplicateModifier hne | nestingTooDeep hne =>
      exact absurd ht hne
  · by_cases hpast : past.length < 4
    · obtain ⟨_, _, rfl⟩ := (h.missingPreamble_iff ht).mpr hpast
      cases h.about
      exact .missingPreamble ht hpast
    · have hpast' := Nat.le_of_not_lt hpast
      by_cases hrepeats : RepeatsModifier past t
      · obtain ⟨_, _, rfl⟩ := (h.duplicateModifier_iff hpast').mpr hrepeats
        cases h.about
        exact .duplicateModifier ht hpast' hrepeats
      · by_cases hdeep : TooDeep past t
        · rw [h.eq_nestingTooDeep hdeep]
          exact .nestingTooDeep ht hpast' hrepeats hdeep
        · cases h.about with
          | lexical herror => exact absurd herror ht
          | unexpected _ expected => exact .unexpected ht hpast' hrepeats hdeep expected
          | missingPreamble =>
            exact absurd ((h.missingPreamble_iff ht).mp ⟨_, _, rfl⟩) hpast
          | duplicateModifier =>
            exact absurd ((h.duplicateModifier_iff hpast').mp ⟨_, _, rfl⟩) hrepeats
          | nestingTooDeep => exact absurd h.tooDeep hdeep

end

/-! ## §5 Texts -/

/-- A text stands around each place in it. -/
theorem Cursor.In.exists_split {c : Cursor} {source : String} (h : c.In source) :
    ∃ front back, source = front ++ back ∧ front.utf8ByteSize = c.offset ∧
      (back = "" ↔ c.rest = []) := by
  obtain ⟨read, hsource, hoffset⟩ := h
  refine ⟨String.ofList read, String.ofList c.rest, ?_, ?_, ?_⟩
  · simp [String.ext_iff, hsource]
  · rw [hoffset, Text.utf8ByteSize_ofList]
  · simp [String.ext_iff]

/-- Each token starts between two characters, and only the end of input behind all of them. -/
theorem Stream.exists_split {source : String} {c : Cursor} {b : Brackets} {ts : List Token}
    (h : Stream c b ts) (hc : c.In source) :
    ∀ t ∈ ts, ∃ front back, source = front ++ back ∧ front.utf8ByteSize = t.offset ∧
      (back = "" ↔ t.kind = .endOfInput) := by
  induction h with
  | ended hrest =>
    obtain ⟨front, back, hsource, hoffset, hback⟩ := hc.skipBlanks.2.exists_split
    exact List.forall_mem_singleton.mpr ⟨front, back, hsource, hoffset, by simp [hback, hrest]⟩
  | unread hrest | refused hrest =>
    obtain ⟨front, back, hsource, hoffset, hback⟩ := hc.skipBlanks.2.exists_split
    exact List.forall_mem_singleton.mpr
      ⟨front, back, hsource, hoffset, by simp [hback, hrest, Token.ofFault]⟩
  | @token c _ _ l _ hrest hscan _ _ ih =>
    have hskip := hc.skipBlanks.2
    obtain ⟨front, back, hsource, hoffset, hback⟩ := hskip.exists_split
    have hkind : l.kind ≠ .endOfInput := by
      intro hkind
      have hlast := kind_scan hrest hscan
      rw [hkind] at hlast
      cases hlast
    refine List.forall_mem_cons.mpr ⟨⟨front, back, hsource, hoffset, ?_⟩, ?_⟩
    · simp [hback, hrest, hkind]
    · exact ih (hskip.advance (Lexeme.text_append_rest hscan).symm).2

/-- Where a text cannot be read, the tokens that were pulled end in one that is no comment, and
reading the tokens without comments stops behind it. -/
theorem exists_stopsAt {source : String} {f : Fault} (h : (parseText source).value = .error f) :
    ∃ pulled past t, tokenize source = pulled ++ (outcomeOf source).rest ∧
      significant pulled = past ++ [t] ∧ StopsAt (significant (tokenize source)) past t f := by
  rw [parseText_value] at h
  obtain ⟨past, t, hsplit, habout⟩ := stops_file nestingLimit _ (hasEnd_significant source)
    not_comment_of_mem_significant f h
  obtain ⟨pulled, hpulled⟩ := (file nestingLimit).rest_suffix (tokenize source)
  have hrest : ((file nestingLimit).run (significant (tokenize source))).rest =
      significant (outcomeOf source).rest := by
    rw [(file nestingLimit).run_significant]
    rfl
  refine ⟨pulled, past, t, hpulled.symm, ?_, ?_, ascending_significant source, h, hsplit, habout⟩
  · rw [List.nil_append, hrest, List.append_cons] at hsplit
    rw [← hpulled, significant_append] at hsplit
    exact List.append_cancel_right hsplit
  · obtain ⟨before, last, htokens, hlast, hbefore⟩ := (stream_tokenize source).exists_last
    refine ⟨significant before, last, ?_, hlast, ordinary_of_mem_significant hbefore⟩
    rw [htokens, significant_concat hlast]

/-- The last token that was pulled decides which fault is reported, with the tokens before it, and
the fault is found where this token starts. -/
theorem parseText_verdict {source : String} {f : Fault}
    (h : (parseText source).value = .error f) :
    ∃ pulled past t, tokenize source = pulled ++ (outcomeOf source).rest ∧
      significant pulled = past ++ [t] ∧ Verdict RepeatsModifier past t f ∧ f.offset = t.offset ∧
      (∃ front back, source = front ++ back ∧ front.utf8ByteSize = f.offset) ∧
      f.offset ≤ source.utf8ByteSize ∧
      (f.offset = source.utf8ByteSize ↔ t.kind = .endOfInput) := by
  obtain ⟨pulled, past, t, hpulled, hpast, hstops⟩ := exists_stopsAt h
  have ht : t ∈ tokenize source := by
    have hmem : t ∈ significant pulled := by
      rw [hpast]
      simp
    rw [hpulled]
    exact List.mem_append_left _ (List.mem_filter.mp hmem).1
  obtain ⟨front, back, hsource, hfront, hback⟩ :=
    (stream_tokenize source).exists_split ⟨[], rfl, rfl⟩ t ht
  have hoffset := hstops.about.offset_eq
  have hsize : source.utf8ByteSize = f.offset + back.utf8ByteSize := by
    rw [hsource, String.utf8ByteSize_append, hfront, hoffset]
  refine ⟨pulled, past, t, hpulled, hpast, hstops.verdict, hoffset,
    ⟨front, back, hsource, hfront.trans hoffset.symm⟩, by omega, ?_⟩
  rw [← hback, ← String.utf8ByteSize_eq_zero_iff]
  omega

/-- The second `public` of an import is a duplicate. -/
def doubledModifier : String := "syntax=\"proto3\";import public public \"a\";"

theorem doubledModifier_verdict :
    (parseText doubledModifier).value = .error (.duplicateModifier 30 "public") ∧
      ∃ pulled past t, tokenize doubledModifier = pulled ++ (outcomeOf doubledModifier).rest ∧
        significant pulled = past ++ [t] ∧
        Verdict RepeatsModifier past t (.duplicateModifier 30 "public") ∧ 30 = t.offset ∧
        (∃ front back, doubledModifier = front ++ back ∧ front.utf8ByteSize = 30) ∧
        30 ≤ doubledModifier.utf8ByteSize ∧
        (30 = doubledModifier.utf8ByteSize ↔ t.kind = .endOfInput) := by
  have h : (parseText doubledModifier).value = .error (.duplicateModifier 30 "public") := by
    decide +kernel
  exact ⟨h, parseText_verdict h⟩

/-- An import is being read, and `t` is a modifier that stands in it already.  This says less than
`RepeatsModifier`, for the path of the import may have been read. -/
inductive OccursInImport : (past : List Token) → (t : Token) → Prop
  | mk {front read unread : List Token} {nodes : List Node} {keyword m t : Token} {n : Node}
      (hfront : Derives nestingLimit front nodes)
      (himport : Leaf .importDecl (keyword :: (read ++ unread)) n) (hunread : unread ≠ [])
      (ht : t.IsModifier) (hm : m ∈ read) (hmodifier : m.IsModifier) (htext : m.text = t.text) :
      OccursInImport (front ++ keyword :: read) t

def modifierBehindPath : String := "syntax=\"proto3\";import weak \"a\" weak;"

/-- Behind its path an import has no modifiers any more, so one that stands there is unexpected and
not a duplicate, though the import has it already. -/
theorem modifierBehindPath_unexpected :
    (parseText modifierBehindPath).value = .error (.unexpected 32 "';'" "<weak>") ∧
      ¬ ∃ pulled past t,
        tokenize modifierBehindPath = pulled ++ (outcomeOf modifierBehindPath).rest ∧
        significant pulled = past ++ [t] ∧
        Verdict OccursInImport past t (.unexpected 32 "';'" "<weak>") := by
  refine ⟨by decide +kernel, ?_⟩
  rintro ⟨pulled, past, t, hpulled, hpast, hverdict⟩
  have htokens : tokenize modifierBehindPath =
      [⟨.keyword .syntaxKw, 0, "syntax"⟩, ⟨.equals, 6, "="⟩, ⟨.stringLit, 7, "\"proto3\""⟩,
        ⟨.semicolon, 15, ";"⟩, ⟨.keyword .importKw, 16, "import"⟩, ⟨.keyword .weakKw, 23, "weak"⟩,
        ⟨.stringLit, 28, "\"a\""⟩, ⟨.keyword .weakKw, 32, "weak"⟩] ++
      (outcomeOf modifierBehindPath).rest := by
    decide +kernel
  obtain rfl := List.append_cancel_right (htokens.symm.trans hpulled)
  -- what was pulled are eight tokens, none of them a comment
  have hsplit : past ++ [t] =
      [⟨.keyword .syntaxKw, 0, "syntax"⟩, ⟨.equals, 6, "="⟩, ⟨.stringLit, 7, "\"proto3\""⟩,
        ⟨.semicolon, 15, ";"⟩] ++ ⟨.keyword .importKw, 16, "import"⟩ ::
      [⟨.keyword .weakKw, 23, "weak"⟩, ⟨.stringLit, 28, "\"a\""⟩] ++
      [⟨.keyword .weakKw, 32, "weak"⟩] := hpast.symm
  obtain ⟨rfl, hlast⟩ := List.append_inj' hsplit rfl
  obtain rfl := (List.cons.inj hlast).1
  -- with a semicolon in place of the second modifier, the import would be complete
  obtain ⟨n, himport⟩ : ∃ n, Leaf .importDecl (⟨.keyword .importKw, 16, "import"⟩ ::
      ([⟨.keyword .weakKw, 23, "weak"⟩] ++ [⟨.stringLit, 28, "\"a\""⟩, ⟨.semicolon, 32, ";"⟩])) n :=
    ⟨_, .importDecl rfl (List.forall_mem_singleton.mpr (.inl rfl)) (by simp) rfl rfl⟩
  apply hverdict.not_repeats
  exact .mk (.file ⟨rfl, rfl, rfl, rfl, rfl⟩ .nil)
    (show Leaf _ (_ :: ([_, _] ++ [_])) _ from himport) (by simp) (.inl rfl) List.mem_cons_self
    (.inl rfl) rfl

end ProtoSchema
