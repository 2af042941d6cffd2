import ProtoSchema.Proofs.Language
import ProtoSchema.Proofs.Straight

/-!
# The token to blame

A fault is about one token, the last one that was pulled: it says where that token starts and, but
for an error of the lexer, how it is shown (`Fault.About`).  So whatever a parser did not like, it
pulled nothing behind it (`Blames`).  This holds on streams that end: no parser pulls a token behind
the end of input, because none takes it for a part of a construct (`Heeds.ordinary`).

* §1 what a fault is about, §2 the ways to build a parser, §3 tokens in front of a parser;
* §4 what is read is made of ordinary tokens;
* §5 constructs that hold no others, §6 members, scopes and files (`stops_file`);
* §7 texts (`parseText_fault_about`).
-/

namespace ProtoSchema

open ProtoSchema.Parser ProtoSchema.Grammar

/-! ## §1 What a fault is about -/

/-- The fault is about the token `t`. -/
inductive Fault.About (t : Token) : Fault → Prop
  | lexical (ht : t.kind = .error) : About t (.lexical t.offset t.text)
  | unexpected (ht : t.kind ≠ .error) (expected : Expected) :
      About t (.unexpected t.offset expected.text t.display)
  | missingPreamble (ht : t.kind ≠ .error) : About t (.missingPreamble t.offset t.display)
  | duplicateModifier (ht : t.kind ≠ .error) : About t (.duplicateModifier t.offset t.text)
  | nestingTooDeep (ht : t.kind ≠ .error) (limit : Nat) : About t (.nestingTooDeep t.offset limit)

theorem Fault.About.offset_eq {t : Token} {f : Fault} (h : f.About t) : f.offset = t.offset := by
  cases h <;> rfl

/-- Tokens with an end among them: the end of input, or an error. -/
def HasEnd (ts : List Token) : Prop := ∃ t ∈ ts, t.kind.isLast = true

theorem not_hasEnd_nil : ¬ HasEnd [] := by
  rintro ⟨t, ht, -⟩
  cases ht

/-- An end is not passed by reading tokens that are none. -/
theorem HasEnd.of_append {us ts : List Token} (h : HasEnd (us ++ ts))
    (hus : ∀ u ∈ us, u.Ordinary) : HasEnd ts := by
  obtain ⟨t, ht, hlast⟩ := h
  rcases List.mem_append.mp ht with ht | ht
  · rw [(hus t ht).not_last] at hlast
    cases hlast
  · exact ⟨t, ht, hlast⟩

/-- If `p` fails on `ts`, the fault is about the last token that was pulled.  This may be one of
`past`, which were pulled before. -/
def Blames {α : Type} (past : List Token) (p : Parser α) (ts : List Token) : Prop :=
  (∀ t ∈ ts, t.kind ≠ .comment) → ∀ f, (p.run ts).result = .error f →
    ∃ used t, past ++ ts = used ++ t :: (p.run ts).rest ∧ f.About t

/-- On tokens that have an end, `p` fails at one of them, if it fails. -/
def Stops {α : Type} (p : Parser α) : Prop := ∀ ts, HasEnd ts → Blames [] p ts

/-! ## §2 Building parsers -/

section

variable {α β σ : Type}

theorem blames_pure (past : List Token) (a : α) (ts : List Token) :
    Blames past (pure a : Parser α) ts := by
  intro _ f hf
  cases hf

theorem blames_fail {t : Token} {f : Fault} (h : f.About t) (ts : List Token) :
    Blames [t] (fail f : Parser α) ts := by
  intro _ f' hf'
  cases hf'
  exact ⟨[], t, rfl, h⟩

theorem Blames.behind {past : List Token} {p : Parser α} {ts : List Token}
    (h : Blames past p ts) (us : List Token) : Blames (us ++ past) p ts := by
  intro hts f hf
  obtain ⟨used, t, hsplit, habout⟩ := h hts f hf
  exact ⟨us ++ used, t, by rw [List.append_assoc, hsplit, List.append_assoc], habout⟩

theorem Stops.blames {p : Parser α} (h : Stops p) {ts : List Token} (hts : HasEnd ts)
    (past : List Token) : Blames past p ts := by
  have := (h ts hts).behind past
  rwa [List.append_nil] at this

/-- The first token is pulled, and then it is the last one that was pulled. -/
theorem blames_next_bind {g : Token → Parser β} {ts : List Token} (hend : HasEnd ts)
    (hg : ∀ t rest, ts = t :: rest → t.kind ≠ .error → (t.kind ≠ .endOfInput → HasEnd rest) →
      Blames [t] (g t) rest) : Blames [] (next >>= g) ts := by
  intro hts f hf
  cases ts with
  | nil => exact absurd hend not_hasEnd_nil
  | cons t rest =>
    obtain ⟨ht, hrest⟩ := List.forall_mem_cons.mp hts
    by_cases herror : t.kind = .error
    · rw [run_bind_of_error (next_run_cons_error herror rest)] at hf ⊢
      cases hf
      exact ⟨[], t, rfl, .lexical herror⟩
    · rw [run_bind_of_ok (next_run_cons ht herror rest)] at hf ⊢
      refine hg t rest rfl herror ?_ hrest f hf
      intro hne
      have hsplit : HasEnd ([t] ++ rest) := hend
      refine hsplit.of_append (List.forall_mem_singleton.mpr ⟨ht, ?_⟩)
      cases hk : t.kind <;> simp_all [TokenKind.isLast]

/-- What follows on a parser that succeeded starts by pulling a token, or does not fail. -/
theorem blames_bind {past : List Token} {p : Parser α} {g : α → Parser β} {ts : List Token}
    (hp : Blames past p ts)
    (hg : ∀ u rest a, ts = u ++ rest → p.Reads u a → Blames [] (g a) rest) :
    Blames past (p >>= g) ts := by
  intro hts f hf
  rw [run_bind] at hf ⊢
  cases hres : (p.run ts).result with
  | error f' =>
    rw [Outcome.bind_of_error hres] at hf ⊢
    cases hf
    exact hp hts f hres
  | ok a =>
    rw [Outcome.bind_of_ok hres] at hf ⊢
    obtain ⟨u, hu, ha⟩ := exists_reads hts hres
    generalize (p.run ts).rest = rest at hu hf ⊢
    subst hu
    have hrest : ∀ t ∈ rest, t.kind ≠ .comment := fun t ht => hts t (List.mem_append_right _ ht)
    obtain ⟨used, t, hsplit, habout⟩ := hg u rest a rfl ha hrest f hf
    refine ⟨past ++ u ++ used, t, ?_, habout⟩
    dsimp only
    generalize ((g a).run rest).rest = left at hsplit ⊢
    rw [List.nil_append] at hsplit
    rw [hsplit]
    simp

theorem blames_bind_quiet {past : List Token} {p : Parser α} {g : α → Parser β} {ts : List Token}
    (hp : Blames past p ts) (hg : ∀ a ts f, ((g a).run ts).result ≠ .error f) :
    Blames past (p >>= g) ts := by
  refine blames_bind hp ?_
  intro u rest a _ _ _ f hf
  exact absurd hf (hg a rest f)

/-- A loop stops if its turns do, and if a turn behind which it goes on has read ordinary tokens:
by induction on the tokens, of which every turn takes one. -/
theorem stops_loop {turn : σ → Token → Parser (Turn σ β)}
    (hturn : ∀ s t ts, t.kind ≠ .error → (t.kind ≠ .endOfInput → HasEnd ts) →
      Blames [t] (turn s t) ts)
    (hagain : ∀ s t u s', (turn s t).Reads u (.again s') → t.kind ≠ .endOfInput ∧
      ∀ v ∈ u, v.Ordinary) (s : σ) : Stops (loop turn s) := by
  intro ts hend
  induction hn : ts.length using Nat.strongRecOn generalizing s ts with
  | ind n ih =>
    rw [loop_eq]
    refine blames_next_bind hend ?_
    rintro t rest rfl herror hrest
    refine blames_bind (hturn s t rest herror hrest) ?_
    rintro u rest' (s' | b) rfl hr
    · obtain ⟨hne, hu⟩ := hagain s t u s' hr
      refine ih rest'.length ?_ s' rest' ((hrest hne).of_append hu) rfl
      simp only [← hn, List.length_cons, List.length_append]
      omega
    · exact blames_pure [] b rest'

/-! ## §3 Tokens in front of a parser -/

theorem blames_refuse {t : Token} (ht : t.kind ≠ .error) (expected : Expected) (ts : List Token) :
    Blames [t] (refuse t expected : Parser α) ts :=
  blames_fail (.unexpected ht expected) ts

theorem blames_refuse_bind {t : Token} (ht : t.kind ≠ .error) (expected : Expected)
    (f : α → Parser β) (ts : List Token) : Blames [t] (refuse t expected >>= f) ts := by
  refine blames_bind (blames_refuse ht expected ts) ?_
  intro _ _ _ _ h
  exact absurd h not_reads_fail

theorem stops_pure (a : α) : Stops (pure a : Parser α) := fun ts _ => blames_pure [] a ts

/-- A parser that wants one of some kinds of token, the end of input not among them. -/
theorem stops_next_bind {g : Token → Parser β} (wanted : TokenKind → Prop)
    (hwanted : ¬ wanted .endOfInput)
    (hg : ∀ t ts, wanted t.kind → HasEnd ts → Blames [t] (g t) ts)
    (hrefuse : ∀ t ts, t.kind ≠ .error → ¬ wanted t.kind → Blames [t] (g t) ts) :
    Stops (next >>= g) := by
  intro ts hend
  refine blames_next_bind hend ?_
  rintro t rest - herror hrest
  by_cases ht : wanted t.kind
  · refine hg t rest ht (hrest ?_)
    intro h
    exact hwanted (h ▸ ht)
  · exact hrefuse t rest herror ht

theorem stops_expect_bind {kind : TokenKind} (hkind : kind ≠ .endOfInput)
    {f : Token → Parser β} (hf : ∀ t, Stops (f t)) : Stops (expect kind >>= f) := by
  rw [expect, bind_assoc]
  refine stops_next_bind (· = kind) hkind.symm ?_ ?_
  · intro t ts ht hts
    rw [if_pos ht, Parser.pure_bind]
    exact (hf t).blames hts [t]
  · intro t ts herror ht
    rw [if_neg ht]
    exact blames_refuse_bind herror _ f ts

theorem stops_typeName_bind {f : Ident → Parser β} (hf : ∀ i, Stops (f i)) :
    Stops (typeName >>= f) := by
  rw [typeName, bind_assoc]
  refine stops_next_bind (fun kind => kind = .identifier ∨ kind = .qualified) (by simp) ?_ ?_
  · intro t ts ht hts
    rw [if_pos ht, Parser.pure_bind]
    exact (hf t.ident).blames hts [t]
  · intro t ts herror ht
    rw [if_neg ht]
    exact blames_refuse_bind herror _ f ts

theorem stops_optionValue_bind {f : Literal → Parser β} (hf : ∀ l, Stops (f l)) :
    Stops (optionValue >>= f) := by
  rw [optionValue, bind_assoc]
  refine stops_next_bind (fun kind => kind = .stringLit ∨ kind = .booleanLit) (by simp) ?_ ?_
  · rintro t ts (ht | ht) hts
    · simp only [ht, Parser.pure_bind]
      exact (hf _).blames hts [t]
    · simp only [ht, Parser.pure_bind]
      exact (hf _).blames hts [t]
  · intro t ts herror ht
    split
    · next h => exact absurd (.inl h) ht
    · next h => exact absurd (.inr h) ht
    · exact blames_refuse_bind herror _ f ts

end

/-! ## §4 Ordinary tokens -/

theorem Token.Ordinary.of_kind {t : Token} {kind : TokenKind} (ht : t.kind = kind)
    (hcomment : kind ≠ .comment) (hlast : kind.isLast = false) : t.Ordinary :=
  ⟨ht ▸ hcomment, ht ▸ hlast⟩

theorem Token.IsTypeName.ordinary {t : Token} (h : t.IsTypeName) : t.Ordinary := by
  rcases h with h | h
  · exact .of_kind h (by decide) rfl
  · exact .of_kind h (by decide) rfl

theorem Token.IsModifier.ordinary {t : Token} (h : t.IsModifier) : t.Ordinary := by
  rcases h with h | h
  · exact .of_kind h (by decide) rfl
  · exact .of_kind h (by decide) rfl

theorem FieldEnd.ordinary {name equals number semi : Token} (h : FieldEnd name equals number semi) :
    ∀ t ∈ [name, equals, number, semi], t.Ordinary := by
  simp only [List.forall_mem_cons]
  exact ⟨.of_kind h.name_kind (by decide) rfl, .of_kind h.equals_kind (by decide) rfl,
    .of_kind h.number_kind (by decide) rfl, .of_kind h.semi_kind (by decide) rfl, by simp⟩

theorem OptionValue.ordinary {t : Token} {kind : LiteralKind} (h : OptionValue t.kind kind) :
    t.Ordinary := by
  generalize hk : t.kind = k at h
  cases h with
  | string => exact .of_kind hk (by decide) rfl
  | boolean => exact .of_kind hk (by decide) rfl

/-- The constructs that hold no others, but for packages, which skip anything. -/
theorem Leaf.ordinary {c : Construct} {ts : List Token} {n : Node} (h : Leaf c ts n)
    (hc : c ≠ .package) : ∀ t ∈ ts, t.Ordinary := by
  cases h with
  | package => exact absurd rfl hc
  | empty hsemi => exact List.forall_mem_singleton.mpr (.of_kind hsemi (by decide) rfl)
  | importDecl hkeyword hmods _ hpath hsemi =>
    simp only [List.forall_mem_cons, List.forall_mem_append]
    exact ⟨.of_kind hkeyword (by decide) rfl, fun m hm => (hmods m hm).ordinary,
      .of_kind hpath (by decide) rfl, .of_kind hsemi (by decide) rfl, by simp⟩
  | option hkeyword hname hequals hvalue hsemi =>
    simp only [List.forall_mem_cons]
    exact ⟨.of_kind hkeyword (by decide) rfl, hname.ordinary, .of_kind hequals (by decide) rfl,
      hvalue.ordinary, .of_kind hsemi (by decide) rfl, by simp⟩
  | plainField htype hend => exact List.forall_mem_cons.mpr ⟨htype.ordinary, hend.ordinary⟩
  | repeatedField hkeyword htype hend =>
    exact List.forall_mem_cons.mpr ⟨.of_kind hkeyword (by decide) rfl,
      List.forall_mem_cons.mpr ⟨htype.ordinary, hend.ordinary⟩⟩
  | mapField hmap hend =>
    simp only [List.forall_mem_cons]
    have hend := hend.ordinary
    simp only [List.forall_mem_cons] at hend
    exact ⟨.of_kind hmap.keyword_kind (by decide) rfl, .of_kind hmap.opening_kind (by decide) rfl,
      hmap.key_type.ordinary, .of_kind hmap.comma_kind (by decide) rfl, hmap.value_type.ordinary,
      .of_kind hmap.closing_kind (by decide) rfl, hend⟩
  | enumField hend => exact hend.ordinary
  | rpc hkeyword hname hopen₁ hinput hclose₁ hreturns hopen₂ houtput hclose₂ hopening hclosing =>
    simp only [List.forall_mem_cons]
    exact ⟨.of_kind hkeyword (by decide) rfl, .of_kind hname (by decide) rfl,
      .of_kind hopen₁ (by decide) rfl, hinput.ordinary, .of_kind hclose₁ (by decide) rfl,
      .of_kind hreturns (by decide) rfl, .of_kind hopen₂ (by decide) rfl, houtput.ordinary,
      .of_kind hclose₂ (by decide) rfl, .of_kind hopening (by decide) rfl,
      .of_kind hclosing (by decide) rfl, by simp⟩

theorem starts_ordinary (c : Construct) : ∀ kind ∈ c.starts, kind ≠ .comment ∧
    kind.isLast = false := by
  cases c with
  | scope kind => cases kind <;> decide
  | _ => decide

theorem ordinary_of_starts {c : Construct} {t : Token} (h : t.kind ∈ c.starts) : t.Ordinary :=
  ⟨(starts_ordinary c _ h).1, (starts_ordinary c _ h).2⟩

theorem ordinary_of_reads_leaf {c : Construct} (hc : c.isLeaf = true)
    {nested : Scope → Token → Parser Node} {t : Token} (hstarts : t.kind ∈ c.starts)
    {used : List Token} {n : Node} (h : (c.parser nested t).Reads used n) :
    ∀ u ∈ used, u.Ordinary := by
  by_cases hpackage : c = .package
  · subst hpackage
    obtain ⟨skipped, semi, rfl, hskipped, hsemi, -⟩ := reads_packageDecl.mp h
    refine List.forall_mem_append.mpr ⟨fun u hu => (hskipped u hu).2, ?_⟩
    exact List.forall_mem_singleton.mpr (.of_kind hsemi (by decide) rfl)
  · have := (leaf_of_reads hc hstarts h).ordinary hpackage
    exact (List.forall_mem_cons.mp this).2

/-! ## §5 Constructs that hold no others -/

theorem Straight.stops {α : Type} {p : Parser α} (h : Straight p) : Stops p := by
  induction h with
  | pure a => exact stops_pure a
  | expect hkind _ ih =>
    refine stops_expect_bind ?_ ih
    rintro rfl
    cases isLast_of_mem_awaited _ hkind
  | typeName _ ih => exact stops_typeName_bind ih
  | optionValue _ ih => exact stops_optionValue_bind ih

theorem stops_importDecl (keyword : Token) : Stops (importDecl keyword) := by
  refine stops_loop ?_ ?_ []
  · intro before t ts herror hts
    unfold importTurn
    split
    · split
      · exact blames_fail (.duplicateModifier herror) ts
      · exact blames_pure _ _ ts
    · split
      · exact blames_fail (.duplicateModifier herror) ts
      · exact blames_pure _ _ ts
    · next h =>
      have hend : HasEnd ts := hts (by rw [h]; decide)
      exact Stops.blames (stops_expect_bind (by decide) fun _ => stops_pure _) hend [t]
    · exact blames_refuse herror _ ts
  · intro before t u before' h
    rcases reads_importTurn.mp h with ⟨hmod, -, rfl, -⟩ | ⟨-, _, -, -, h⟩
    · refine ⟨?_, by simp⟩
      rcases hmod with h | h <;> rw [h] <;> decide
    · cases h

theorem stops_packageDecl (keyword : Token) : Stops (packageDecl keyword) := by
  refine stops_loop ?_ ?_ ()
  · intro _ t ts herror _
    unfold packageTurn
    split
    · exact blames_pure _ _ ts
    · exact blames_refuse herror _ ts
    · exact blames_pure _ _ ts
  · intro _ t u _ h
    obtain ⟨rfl, ⟨-, h⟩ | ⟨-, hend, -⟩⟩ := reads_packageTurn.mp h
    · cases h
    · exact ⟨hend, by simp⟩

/-- Behind the token `t`, the parser `p` reads ordinary tokens, and if it fails, it is for one token
that it pulled, or for `t`. -/
structure Heeds (t : Token) (p : Parser Node) : Prop where
  ordinary : ∀ used n, p.Reads used n → ∀ u ∈ used, u.Ordinary
  blames : ∀ ts, HasEnd ts → Blames [t] p ts

theorem heeds_leaf {c : Construct} (hc : c.isLeaf = true) (nested : Scope → Token → Parser Node)
    {t : Token} (hstarts : t.kind ∈ c.starts) : Heeds t (c.parser nested t) := by
  refine ⟨fun used n h => ordinary_of_reads_leaf hc hstarts h, fun ts hts => ?_⟩
  rcases straight_of_leaf hc with rfl | rfl | hstraight
  · exact (stops_importDecl t).blames hts [t]
  · exact (stops_packageDecl t).blames hts [t]
  · exact (hstraight nested t).stops.blames hts [t]

/-! ## §6 Members and files -/

/-- Members stop if each does. -/
theorem stops_members {close : TokenKind} {expected : Expected}
    {member : Token → Option (Parser Node)}
    (hmember : ∀ t p, member t = some p → t.Ordinary ∧ Heeds t p) :
    Stops (members close expected member) := by
  refine stops_loop ?_ ?_ #[]
  · intro nodes t ts herror hts
    unfold memberTurn
    split
    · exact blames_pure _ _ ts
    · split
      · next p hp =>
        obtain ⟨ht, hheeds⟩ := hmember t p hp
        refine blames_bind_quiet (hheeds.blames ts (hts ht.not_end)) ?_
        intro n ts f hf
        cases hf
      · exact blames_refuse herror _ ts
  · intro nodes t u nodes' h
    rcases reads_memberTurn.mp h with ⟨-, -, h⟩ | ⟨-, p, n, hp, hn, -⟩
    · cases h
    · obtain ⟨ht, hheeds⟩ := hmember t p hp
      exact ⟨ht.not_end, hheeds.ordinary u n hn⟩

theorem Series.ordinary {member : Token → Option (Parser Node)} {ts : List Token} {ns : List Node}
    (h : Series member ts ns) (hmember : ∀ t p, member t = some p → t.Ordinary ∧ Heeds t p) :
    ∀ t ∈ ts, t.Ordinary := by
  induction h with
  | nil => simp
  | cons hp _ _ hreads _ ih =>
    obtain ⟨ht, hheeds⟩ := hmember _ _ hp
    exact List.forall_mem_cons.mpr
      ⟨ht, List.forall_mem_append.mpr ⟨hheeds.ordinary _ _ hreads, ih⟩⟩

theorem heeds_braced {expected : Expected} {place : Place} {nested : Scope → Token → Parser Node}
    {build : Ident → Token → List Node → Token → Node}
    (hplace : ∀ c ∈ place.admits, ∀ t, t.kind ∈ c.starts → Heeds t (c.parser nested t))
    (keyword : Token) : Heeds keyword (braced expected (place.member nested) build) := by
  have hmember : ∀ t p, place.member nested t = some p → t.Ordinary ∧ Heeds t p := by
    intro t p hp
    obtain ⟨c, hc, hstarts, rfl⟩ := exists_construct_of_member hp
    exact ⟨ordinary_of_starts hstarts, hplace c hc t hstarts⟩
  constructor
  · intro used n h
    obtain ⟨name, opening, inner, closing, nodes, rfl, hname, hopening, hclosing, hinner, -⟩ :=
      reads_braced.mp h
    simp only [List.forall_mem_cons, List.forall_mem_append]
    exact ⟨.of_kind hname (by decide) rfl, .of_kind hopening (by decide) rfl,
      hinner.ordinary hmember, .of_kind hclosing (by decide) rfl, by simp⟩
  · intro ts hts
    refine Stops.blames ?_ hts [keyword]
    rw [braced, identifier_bind]
    refine stops_expect_bind (by decide) fun name => stops_expect_bind (by decide) fun opening => ?_
    intro ts hts
    refine blames_bind_quiet (stops_members hmember ts hts) ?_
    intro a ts f hf
    cases hf

theorem heeds_service (keyword : Token) : Heeds keyword (service keyword) := by
  rw [service_eq (scope 0 0)]
  refine heeds_braced ?_ keyword
  intro c hc t hstarts
  exact heeds_leaf (isLeaf_of_mem_inService c hc) _ hstarts

theorem heeds_construct {nested : Scope → Token → Parser Node}
    (hnested : ∀ kind t, t.Ordinary → Heeds t (nested kind t)) (c : Construct) (t : Token)
    (hstarts : t.kind ∈ c.starts) : Heeds t (c.parser nested t) := by
  cases hc : c.isLeaf with
  | true => exact heeds_leaf hc nested hstarts
  | false =>
    cases c <;> simp only [Construct.isLeaf, reduceCtorEq] at hc
    case service => exact heeds_service t
    case scope kind => exact hnested kind t (ordinary_of_starts hstarts)

/-- A scope for which there is no room fails at its keyword, and the others at what is in them. -/
theorem heeds_scope (limit room : Nat) (kind : Scope) (keyword : Token)
    (hkeyword : keyword.Ordinary) : Heeds keyword (scope limit room kind keyword) := by
  induction room generalizing kind keyword with
  | zero =>
    refine ⟨fun used n h => absurd h (not_reads_scope_zero limit kind), fun ts _ => ?_⟩
    exact blames_fail (.nestingTooDeep hkeyword.not_error limit) ts
  | succ room ih =>
    rw [scope_succ]
    refine heeds_braced ?_ keyword
    intro c _ t hstarts
    exact heeds_construct ih c t hstarts

theorem Heeds.reported {t : Token} {p : Parser Node} (h : Heeds t p) : Heeds t (reported p) := by
  refine ⟨fun used n hreads => h.ordinary used n (reads_reported.mp hreads), fun ts hts => ?_⟩
  refine blames_bind_quiet (h.blames ts hts) ?_
  intro n ts f hf
  cases hf

theorem stops_preambleToken_bind {β : Type} {accepts : Token → Bool}
    (haccepts : ∀ t, accepts t = true → t.kind ≠ .endOfInput) {f : Unit → Parser β}
    (hf : Stops (f ())) : Stops (preambleToken accepts >>= f) := by
  rw [preambleToken, bind_assoc]
  intro ts hend
  refine blames_next_bind hend ?_
  rintro t rest - herror hrest
  split
  · next ht =>
    rw [Parser.pure_bind]
    exact hf.blames (hrest (haccepts t ht)) [t]
  · refine blames_bind (blames_fail (.missingPreamble herror) rest) ?_
    intro _ _ _ _ h
    exact absurd h not_reads_fail

theorem heeds_declaration {limit : Nat} {t : Token} {p : Parser Node}
    (h : (Place.file.member (scope limit limit) t).map reported = some p) :
    t.Ordinary ∧ Heeds t p := by
  obtain ⟨q, hq, rfl⟩ := Option.map_eq_some_iff.mp h
  obtain ⟨c, -, hstarts, rfl⟩ := exists_construct_of_member hq
  exact ⟨ordinary_of_starts hstarts,
    (heeds_construct (heeds_scope limit limit) c t hstarts).reported⟩

/-- The parser of files fails at the last token that it pulls, if it fails. -/
theorem stops_file (limit : Nat) : Stops (file limit) := by
  rw [file]
  simp only [preamble, bind_assoc]
  refine stops_preambleToken_bind (by simp_all) ?_
  refine stops_preambleToken_bind (by simp_all) ?_
  refine stops_preambleToken_bind (by simp_all) ?_
  refine stops_preambleToken_bind (by simp_all) ?_
  intro ts hts
  have hmember : ∀ t p, (declaration limit t).map reported = some p → t.Ordinary ∧ Heeds t p :=
    fun t p hp => heeds_declaration (declaration_eq limit t ▸ hp)
  refine blames_bind_quiet (stops_members hmember ts hts) ?_
  intro a ts f hf
  cases hf

/-! ## §7 Texts -/

theorem hasEnd_significant (source : String) : HasEnd (significant (tokenize source)) := by
  obtain ⟨before, last, htokens, hlast, -⟩ := (stream_tokenize source).exists_last
  rw [htokens, significant_concat hlast]
  exact ⟨last, by simp, hlast⟩

/-- The fault of a text is about one of its tokens, and the parser left what stands behind it. -/
theorem parseText_fault_about {source : String} {f : Fault}
    (h : (parseText source).value = .error f) :
    ∃ used t rest, significant (tokenize source) = used ++ t :: rest ∧ f.About t ∧
      ((file nestingLimit).run (significant (tokenize source))).rest = rest := by
  rw [parseText_value] at h
  obtain ⟨used, t, hsplit, habout⟩ := stops_file nestingLimit _ (hasEnd_significant source)
    not_comment_of_mem_significant f h
  exact ⟨used, t, _, hsplit, habout, rfl⟩

end ProtoSchema
