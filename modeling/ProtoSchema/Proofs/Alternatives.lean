import ProtoSchema.Proofs.Completion
import ProtoSchema.Proofs.Expectation
import ProtoSchema.Proofs.FaultKinds

/-!
# Tokens that would have done

A parser that refuses a token says which others it waited for.  Each of them would have done: put
in the place of the refused one, it can be followed by tokens that complete what was being read
(`Takes`), except where it is refused for a reason of its own, that an import has the modifier
already or that no more scopes may be opened (`Barred`).

* §1 taking a token, §2 the ways to build a parser, §3 tokens in front of a parser;
* §4 constructs that hold no others, §5 members and scopes, §6 files.
-/

namespace ProtoSchema

open ProtoSchema.Parser ProtoSchema.Grammar

/-! ## §1 Taking a token -/

section

variable {α β σ : Type}

/-- Behind `before`, a token of the word of `c` is refused at once, and not because it is
unexpected. -/
def Barred (p : Parser α) (before : List Token) (c : Token) : Prop :=
  ∀ u : Token, u.word = c.word → ∃ f : Fault, ¬ f.IsPlain ∧ ∀ rest,
    (p.run (before ++ u :: rest)).result = .error f ∧ (p.run (before ++ u :: rest)).rest = rest

variable (R : Repair) (ends : List Token)

/-- Behind `before`, the token `c` and others behind it complete `p`, unless `c` is barred there. -/
inductive Takes (p : Parser α) (before : List Token) (c : Token) : Prop
  | completes {cs : List Token} {a : α} (hallows : R.allows before (c :: cs))
      (hreads : p.Reads (before ++ (c :: cs ++ ends)) a)
  | barred (h : Barred p before c)

/-- Each kind that `e` waits for has a token that `p` takes behind `before`. -/
def Welcomes (p : Parser α) (before : List Token) (e : Expected) : Prop :=
  ∀ kind ∈ e.kinds, ∃ c ∈ closers, c.kind = kind ∧ Takes R ends p before c

/-- If `p` refuses one of the tokens `ts`, it takes the tokens that it waited for in its place. -/
def Offers (p : Parser α) (ts : List Token) : Prop :=
  (∀ t ∈ ts, t.kind ≠ .comment) → ∀ (o : Nat) (e : Expected) (found : String),
    (p.run ts).result = .error (.unexpected o e.text found) →
      ∃ before t after, ts = before ++ t :: after ∧ o = t.offset ∧ Welcomes R ends p before e

/-- Having pulled `t`, the parser does nothing but refuse it. -/
def Refuses (t : Token) (e : Expected) (p : Parser α) : Prop :=
  ∀ ts, (p.run ts).result = .error (.unexpected t.offset e.text t.display)

variable {R ends} {before : List Token} {c t : Token}

theorem Barred.bind {p : Parser α} (h : Barred p before c) (g : α → Parser β) :
    Barred (p >>= g) before c := by
  intro u hu
  obtain ⟨f, hf, hrun⟩ := h u hu
  refine ⟨f, hf, fun rest => ?_⟩
  rw [run_bind, Outcome.bind_of_error (hrun rest).1]
  exact ⟨rfl, (hrun rest).2⟩

theorem Barred.behind {p : Parser α} {g : α → Parser β} {u : List Token} {a : α}
    (hp : p.Reads u a) (h : Barred (g a) before c) : Barred (p >>= g) (u ++ before) c := by
  intro v hv
  obtain ⟨f, hf, hrun⟩ := h v hv
  refine ⟨f, hf, fun rest => ?_⟩
  obtain ⟨hok, hrest⟩ := hp.run_append (before ++ v :: rest)
  rw [List.append_assoc, run_bind, Outcome.bind_of_ok hok, hrest]
  exact hrun rest

/-- What follows on a parser is completed from nothing. -/
theorem Takes.bind {p : Parser α} {g : α → Parser β} (h : Takes R [] p before c)
    (hg : ∀ u a, p.Reads u a → Completable R ends (g a)) : Takes R ends (p >>= g) before c := by
  cases h with
  | barred h => exact .barred (h.bind g)
  | @completes cs a hallows hreads =>
    rw [List.append_nil] at hreads
    obtain ⟨ds, b, hds, hb⟩ := hg _ a hreads
    have hallows' : R.allows before (c :: (cs ++ ds)) := R.append before (c :: cs) ds hallows hds
    refine .completes hallows' (a := b) ?_
    exact reads_bind.mpr ⟨before ++ c :: cs, ds ++ ends, a, by simp, hreads, hb⟩

theorem Takes.bind_quiet {p : Parser α} {g : α → Parser β} (h : Takes R ends p before c)
    (hg : ∀ a, ∃ b, (g a).Reads [] b) : Takes R ends (p >>= g) before c := by
  cases h with
  | barred h => exact .barred (h.bind g)
  | @completes cs a hallows hreads =>
    obtain ⟨b, hb⟩ := hg a
    exact .completes hallows (reads_bind.mpr ⟨_, [], a, (List.append_nil _).symm, hreads, hb⟩)

/-- A token is taken behind what a parser has read if what follows on it takes the token. -/
theorem Takes.behind {p : Parser α} {g : α → Parser β} {u : List Token} {a : α}
    (hp : p.Reads u a) (h : Takes R ends (g a) before c) :
    Takes R ends (p >>= g) (u ++ before) c := by
  cases h with
  | barred h => exact .barred (h.behind hp)
  | @completes cs b hallows hreads =>
    refine .completes (a := b) (R.shift u before (c :: cs) hallows) ?_
    rw [List.append_assoc]
    exact reads_bind.mpr ⟨u, _, a, rfl, hp, hreads⟩

theorem Welcomes.imp {p : Parser α} {q : Parser β} {before' : List Token} {ends' : List Token}
    {R' : Repair} {e : Expected} (h : Welcomes R ends p before e)
    (hpq : ∀ c ∈ closers, Takes R ends p before c → Takes R' ends' q before' c) :
    Welcomes R' ends' q before' e := by
  intro kind hkind
  obtain ⟨c, hc, hckind, htakes⟩ := h kind hkind
  exact ⟨c, hc, hckind, hpq c hc htakes⟩

/-- If one kind is waited for, one token is enough. -/
theorem welcomes_of_kinds {p : Parser α} {e : Expected} (hkinds : e.kinds = [c.kind])
    (hc : c ∈ closers) (h : Takes R ends p before c) : Welcomes R ends p before e := by
  intro kind hkind
  rw [hkinds, List.mem_singleton] at hkind
  exact ⟨c, hc, hkind.symm, h⟩

/-! ## §2 Building parsers -/

theorem refuses_refuse (t : Token) (e : Expected) : Refuses t e (refuse t e : Parser α) :=
  fun _ => rfl

theorem Refuses.bind {e : Expected} {p : Parser α} (h : Refuses t e p) (g : α → Parser β) :
    Refuses t e (p >>= g) := by
  intro ts
  rw [run_bind, Outcome.bind_of_error (h ts)]

theorem offers_of_ne {p : Parser α} {ts : List Token}
    (h : ∀ o text found, (p.run ts).result ≠ .error (.unexpected o text found)) :
    Offers R ends p ts := by
  intro _ o e found hf
  exact absurd hf (h o e.text found)

theorem offers_pure (a : α) (ts : List Token) : Offers R ends (pure a : Parser α) ts := by
  apply offers_of_ne
  intro o text found hf
  cases hf

/-- A token is refused at once, or is part of what was read before the refused one. -/
theorem offers_next_bind {g : Token → Parser β} {ts : List Token}
    (hg : ∀ t rest, ts = t :: rest → Offers R ends (g t) rest ∨
      ∃ e, Refuses t e (g t) ∧ Welcomes R ends (next >>= g) [] e) :
    Offers R ends (next >>= g) ts := by
  intro hts o e found hf
  cases ts with
  | nil =>
    injection hf with hf
    injection hf with _ htext _
    exact absurd htext.symm (text_ne_token e)
  | cons t rest =>
    obtain ⟨ht, hrest⟩ := List.forall_mem_cons.mp hts
    by_cases herror : t.kind = .error
    · rw [run_bind_of_error (next_run_cons_error herror rest)] at hf
      cases hf
    · rw [run_bind_of_ok (next_run_cons ht herror rest)] at hf
      rcases hg t rest rfl with hoffers | ⟨e', hrefuses, hwelcomes⟩
      · obtain ⟨before, u, after, rfl, hoffset, hwelcomes⟩ := hoffers hrest o e found hf
        exact ⟨t :: before, u, after, rfl, hoffset,
          hwelcomes.imp fun c _ => Takes.behind (reads_next.mpr ⟨rfl, ht, herror⟩)⟩
      · have heq := (hrefuses rest).symm.trans hf
        injection heq with heq
        injection heq with hoffset htext _
        refine ⟨[], t, rest, rfl, hoffset.symm, fun kind hkind => ?_⟩
        exact hwelcomes kind (mem_kinds_of_text_eq htext.symm hkind)

theorem offers_bind {p : Parser α} {g : α → Parser β} {ts : List Token}
    (hp : Offers R [] p ts)
    (hc : ∀ f u a, (p.run ts).result = .error f → p.Reads u a → Completable R ends (g a))
    (hg : ∀ u rest a, ts = u ++ rest → p.Reads u a → Offers R ends (g a) rest) :
    Offers R ends (p >>= g) ts := by
  intro hts o e found hf
  rw [run_bind] at hf
  cases hres : (p.run ts).result with
  | error f =>
    rw [Outcome.bind_of_error hres] at hf
    cases hf
    obtain ⟨before, t, after, hsplit, hoffset, hwelcomes⟩ := hp hts o e found hres
    exact ⟨before, t, after, hsplit, hoffset,
      hwelcomes.imp fun c _ h => h.bind fun u a => hc _ u a hres⟩
  | ok a =>
    rw [Outcome.bind_of_ok hres] at hf
    obtain ⟨u, hu, ha⟩ := exists_reads hts hres
    generalize (p.run ts).rest = rest at hu hf
    subst hu
    have hrest : ∀ t ∈ rest, t.kind ≠ .comment := fun t ht => hts t (List.mem_append_right _ ht)
    obtain ⟨before, t, after, rfl, hoffset, hwelcomes⟩ := hg u rest a rfl ha hrest o e found hf
    exact ⟨u ++ before, t, after, by simp, hoffset, hwelcomes.imp fun c _ => Takes.behind ha⟩

theorem offers_bind_quiet {p : Parser α} {g : α → Parser β} {ts : List Token}
    (hp : Offers R ends p ts) (hg : ∀ a, ∃ b, (g a).Reads [] b) : Offers R ends (p >>= g) ts := by
  intro hts o e found hf
  rw [run_bind] at hf
  cases hres : (p.run ts).result with
  | error f =>
    rw [Outcome.bind_of_error hres] at hf
    cases hf
    obtain ⟨before, t, after, hsplit, hoffset, hwelcomes⟩ := hp hts o e found hres
    exact ⟨before, t, after, hsplit, hoffset, hwelcomes.imp fun c _ h => h.bind_quiet hg⟩
  | ok a =>
    obtain ⟨b, hb⟩ := hg a
    have hok := (hb.run_append (p.run ts).rest).1
    rw [Outcome.bind_of_ok hres] at hf
    rw [List.nil_append] at hok
    rw [hok] at hf
    cases hf

/-- A loop offers what its turns offer, and where a turn refuses its token, what the loop takes in
its place: by induction on the tokens, of which every turn takes one. -/
theorem offers_loop {turn : σ → Token → Parser (Turn σ β)}
    (hc : ∀ s, Completable R ends (loop turn s))
    (hturn : ∀ s t, (∀ ts, Offers R [] (turn s t) ts) ∨
      ∃ e, Refuses t e (turn s t) ∧ Welcomes R ends (loop turn s) [] e)
    (hfinish : ∀ s t ts u b, (turn s t).Reads u (.finish b) →
      ends = [] ∨ ∀ f, ((turn s t).run ts).result ≠ .error f) (s : σ) (ts : List Token) :
    Offers R ends (loop turn s) ts := by
  induction hn : ts.length using Nat.strongRecOn generalizing s ts with
  | ind n ih =>
    rw [loop_eq]
    refine offers_next_bind ?_
    rintro t rest rfl
    rcases hturn s t with hoffers | ⟨e, hrefuses, hwelcomes⟩
    · left
      refine offers_bind (hoffers rest) ?_ ?_
      · rintro f u (s' | b) hf hr
        · exact hc s'
        · rcases hfinish s t rest u b hr with rfl | hok
          · exact completable_pure b
          · exact absurd hf (hok f)
      · rintro u rest' (s' | b) rfl -
        · refine ih rest'.length ?_ s' rest' rfl
          simp only [← hn, List.length_cons, List.length_append]
          omega
        · exact offers_pure b rest'
    · right
      rw [loop_eq] at hwelcomes
      exact ⟨e, hrefuses.bind _, hwelcomes⟩

end

/-! ## §3 Tokens in front of a parser -/

section

variable {α β : Type}

/-- Whatever `p` refuses, it takes what it waited for in its place. -/
def Offered (p : Parser α) : Prop := ∀ ts, Offers Repair.plain [] p ts

theorem offered_pure (a : α) : Offered (pure a : Parser α) := offers_pure a

/-- An ordinary token is pulled, and barred behind that. -/
theorem barred_next_bind {g : Token → Parser β} {c : Token} (hc : c.Ordinary) :
    Barred (next >>= g) [] c ↔ ∀ u : Token, u.word = c.word → ∃ f : Fault, ¬ f.IsPlain ∧
      ∀ rest, ((g u).run rest).result = .error f ∧ ((g u).run rest).rest = rest := by
  refine forall₂_congr fun u hu => ?_
  have hkind := (Prod.mk.inj hu).1
  have hnext := next_run_cons (hkind ▸ hc.not_comment) (hkind ▸ hc.not_error)
  simp only [List.nil_append, run_bind_of_ok (hnext _)]

theorem Takes.of_completable {R : Repair} {ends : List Token} {g : Token → Parser β} {c : Token}
    (hc : c ∈ closers) (hallows : R.allows [] [c]) (h : Completable R ends (g c)) :
    Takes R ends (next >>= g) [] c := by
  have hord := closer_ordinary hc
  obtain ⟨cs, b, hcs, hb⟩ := h
  refine .completes (R.append [] [c] cs hallows hcs) (a := b) ?_
  exact reads_next_bind.mpr ⟨c, cs ++ ends, rfl, hord.not_comment, hord.not_error, hb⟩

theorem Takes.of_closes {g : Token → Parser β} {c : Token} (hc : c ∈ closers)
    (h : Closes (g c)) : Takes Repair.plain [] (next >>= g) [] c :=
  .of_completable hc (List.forall_mem_singleton.mpr hc) (h 0).completable

theorem offered_expect_bind {kind : TokenKind} (hkind : kind ∈ closers.map (·.kind))
    {f : Token → Parser β} (hcloses : ∀ t, Closes (f t)) (hf : ∀ t, Offered (f t)) :
    Offered (expect kind >>= f) := by
  intro ts
  rw [expect, bind_assoc]
  refine offers_next_bind fun t rest _ => ?_
  split
  · rw [Parser.pure_bind]
    exact .inl (hf t rest)
  · obtain ⟨c, hc, rfl⟩ := exists_closer hkind
    refine .inr ⟨.kind c.kind, (refuses_refuse t _).bind f,
      welcomes_of_kinds rfl hc (.of_closes hc ?_)⟩
    rw [if_pos rfl, Parser.pure_bind]
    exact hcloses c

theorem offered_typeName_bind {f : Ident → Parser β} (hcloses : ∀ i, Closes (f i))
    (hf : ∀ i, Offered (f i)) : Offered (typeName >>= f) := by
  intro ts
  rw [typeName, bind_assoc]
  refine offers_next_bind fun t rest _ => ?_
  split
  · rw [Parser.pure_bind]
    exact .inl (hf t.ident rest)
  · obtain ⟨c, hc, hkind⟩ := exists_closer (show .identifier ∈ _ by decide)
    refine .inr ⟨.typeName, (refuses_refuse t _).bind f,
      welcomes_of_kinds (by rw [hkind]; rfl) hc (.of_closes hc ?_)⟩
    rw [if_pos (.inl hkind), Parser.pure_bind]
    exact hcloses c.ident

theorem offered_optionValue_bind {f : Literal → Parser β} (hcloses : ∀ l, Closes (f l))
    (hf : ∀ l, Offered (f l)) : Offered (optionValue >>= f) := by
  intro ts
  rw [optionValue, bind_assoc]
  refine offers_next_bind fun t rest _ => ?_
  split
  · rw [Parser.pure_bind]
    exact .inl (hf (t.literal .string) rest)
  · rw [Parser.pure_bind]
    exact .inl (hf (t.literal .boolean) rest)
  · refine .inr ⟨.optionValue, (refuses_refuse t _).bind f, ?_⟩
    intro kind hkind
    have hkinds : kind = .stringLit ∨ kind = .booleanLit := by simpa [Expected.kinds] using hkind
    obtain ⟨c, hc, rfl⟩ := exists_closer (show kind ∈ _ by rcases hkinds with rfl | rfl <;> decide)
    refine ⟨c, hc, rfl, .of_closes hc ?_⟩
    rcases hkinds with h | h <;> simp only [h, Parser.pure_bind]
    · exact hcloses (c.literal .string)
    · exact hcloses (c.literal .boolean)

end

/-! ## §4 Constructs that hold no others -/

/-- By induction on the tokens that it is made of. -/
theorem Straight.offered {α : Type} {p : Parser α} (h : Straight p) : Offered p := by
  induction h with
  | pure a => exact offered_pure a
  | expect hkind hf ih =>
    exact offered_expect_bind (mem_closers_of_awaited _ hkind) (fun t => (hf t).closes) ih
  | typeName hf ih => exact offered_typeName_bind (fun i => (hf i).closes) ih
  | optionValue hf ih => exact offered_optionValue_bind (fun l => (hf l).closes) ih

/-- An import takes each modifier that it does not have yet. -/
theorem takes_modifier (keyword : Token) (before : List Ident) {c : Token} (hc : c ∈ closers)
    (hmodifier : c.IsModifier) :
    Takes Repair.plain [] (loop (importTurn keyword) before) [] c := by
  by_cases hmem : c.text ∈ before.map (·.name)
  · refine .barred fun u hu => ⟨.duplicateModifier u.offset u.text, by rintro ⟨⟩, ?_⟩
    obtain ⟨hkind, htext⟩ := Prod.mk.inj hu
    have hrepeats : u.IsModifier := by rwa [Token.IsModifier, hkind]
    intro rest
    rw [List.nil_append, run_import_of_isModifier hrepeats, htext, if_pos hmem]
    exact ⟨rfl, rfl⟩
  · obtain ⟨path, hpath, hpathKind⟩ := exists_closer (show .stringLit ∈ _ by decide)
    obtain ⟨semi, hsemi, hsemiKind⟩ := exists_closer (show .semicolon ∈ _ by decide)
    have hreads : (loop (importTurn keyword) before).Reads ([] ++ ([c] ++ [path, semi])) _ :=
      reads_importLoop.mpr ⟨[c], path, semi, rfl,
        List.forall_mem_singleton.mpr ⟨hmodifier, hmem⟩, by simp, hpathKind, hsemiKind, rfl⟩
    have hallows : Repair.plain.allows [] [c, path, semi] := by
      simp [Repair.plain, hc, hpath, hsemi]
    exact .completes hallows hreads

theorem welcomes_import (keyword : Token) (before : List Ident) :
    Welcomes Repair.plain [] (loop (importTurn keyword) before) [] .importPath := by
  intro kind hkind
  have hkinds : (kind = .keyword .weakKw ∨ kind = .keyword .publicKw) ∨ kind = .stringLit := by
    simpa [Expected.kinds, or_assoc] using hkind
  rcases hkinds with hword | rfl
  · obtain ⟨c, hc, rfl⟩ :=
      exists_closer (show kind ∈ _ by rcases hword with rfl | rfl <;> decide)
    exact ⟨c, hc, rfl, takes_modifier keyword before hc hword⟩
  · obtain ⟨path, hpath, hpathKind⟩ := exists_closer (show .stringLit ∈ _ by decide)
    obtain ⟨semi, hsemi, hsemiKind⟩ := exists_closer (show .semicolon ∈ _ by decide)
    have hreads : (loop (importTurn keyword) before).Reads ([] ++ [path, semi]) _ :=
      reads_importLoop.mpr ⟨[], path, semi, rfl, by simp, by simp, hpathKind, hsemiKind, rfl⟩
    have hallows : Repair.plain.allows [] [path, semi] := by simp [Repair.plain, hpath, hsemi]
    exact ⟨path, hpath, hpathKind, .completes hallows hreads⟩

theorem offered_importDecl (keyword : Token) : Offered (importDecl keyword) := by
  refine offers_loop (completable_importLoop keyword) ?_ (fun _ _ _ _ _ _ => .inl rfl) []
  intro before t
  unfold importTurn
  split
  · split
    · exact .inl fun _ => offers_of_ne (by rintro _ _ _ ⟨⟩)
    · exact .inl (offers_pure _)
  · split
    · exact .inl fun _ => offers_of_ne (by rintro _ _ _ ⟨⟩)
    · exact .inl (offers_pure _)
  · exact .inl (offered_expect_bind (by decide) (fun _ => closes_pure _) fun _ => offered_pure _)
  · exact .inr ⟨.importPath, refuses_refuse t _, welcomes_import keyword before⟩

theorem offers_packageDecl {R : Repair} {semi : Token} (hsemi : semi ∈ closers)
    (hallows : R.allows [] [semi]) (hkind : semi.kind = .semicolon) (keyword : Token)
    (ts : List Token) : Offers R [] (packageDecl keyword) ts := by
  have hcompletable := (guided_packageDecl hallows hkind keyword 0).completable
  have hreads : (packageDecl keyword).Reads ([] ++ ([semi] ++ [])) _ :=
    reads_packageDecl.mpr ⟨[], semi, rfl, by simp, hkind, rfl⟩
  refine offers_loop (fun _ => hcompletable) ?_ (fun _ _ _ _ _ _ => .inl rfl) () ts
  intro s t
  unfold packageTurn
  split
  · exact .inl (offers_pure _)
  · exact .inr ⟨.kind .semicolon, refuses_refuse t _,
      welcomes_of_kinds (by rw [hkind]; rfl) hsemi (.completes hallows hreads)⟩
  · exact .inl (offers_pure _)

theorem offered_leaf {c : Construct} (hc : c.isLeaf = true)
    (nested : Scope → Token → Parser Node) (t : Token) : Offered (c.parser nested t) := by
  rcases straight_of_leaf hc with rfl | rfl | hstraight
  · exact offered_importDecl t
  · obtain ⟨semi, hsemi, hkind⟩ := exists_closer (show .semicolon ∈ _ by decide)
    exact offers_packageDecl hsemi (List.forall_mem_singleton.mpr hsemi) hkind t
  · exact (hstraight nested t).offered

/-! ## §5 Members -/

/-- What is said to be waited for among the members of a place. -/
def Place.expected : Place → Expected
  | file => .declaration
  | inScope kind => .member kind
  | inService => .statement

/-- With each kind that is said to be waited for, the members end, or one of them starts. -/
theorem exists_construct_of_expected (place : Place) : ∀ kind ∈ place.expected.kinds,
    kind ∈ closers.map (·.kind) ∧
      (kind = .rightBrace ∧ place ≠ .file ∨ ∃ c ∈ place.admits, kind ∈ c.starts) := by
  cases place with
  | file => decide
  | inScope kind => cases kind <;> decide
  | inService => decide

section

variable {R : Repair} {ends : List Token} {expected : Expected}
  {member : Token → Option (Parser Node)}

/-- Members take what one of them takes for its first token. -/
theorem takes_member {close : TokenKind} {nodes : Array Node} {c : Token} (hc : c.Ordinary)
    {p : Token → Parser Node} (hclose : c.kind ≠ close)
    (hmember : ∀ u : Token, u.kind = c.kind → member u = some (p u))
    (hloop : ∀ nodes, Completable R ends (loop (memberTurn close expected member) nodes))
    (h : Takes R [] (next >>= p) [] c) :
    Takes R ends (loop (memberTurn close expected member) nodes) [] c := by
  cases h with
  | @completes cs n hallows hreads =>
    obtain ⟨_, _, hsplit, -, -, hn⟩ := reads_next_bind.mp hreads
    obtain ⟨rfl, rfl⟩ := List.cons.inj hsplit
    obtain ⟨ds, r, hds, hr⟩ := hloop (nodes.push n)
    refine .completes (R.append [] (c :: cs) ds hallows hds) (a := r) ?_
    refine reads_loop.mpr ⟨c, cs, ds ++ ends, .again (nodes.push n), by simp, hc.not_comment,
      hc.not_error, reads_memberTurn.mpr (.inr ⟨hclose, p c, n, hmember c rfl, ?_, rfl⟩), hr⟩
    simpa using hn
  | barred h =>
    refine .barred fun u hu => ?_
    obtain ⟨f, hf, hrun⟩ := (barred_next_bind hc).mp h u hu
    have hkind := (Prod.mk.inj hu).1
    refine ⟨f, hf, fun rest => ?_⟩
    rw [List.nil_append, run_members_of_some (hkind ▸ hc.not_comment) (hkind ▸ hc.not_error)
      (hkind ▸ hclose) (hmember u hkind), run_bind, Outcome.bind_of_error (hrun rest).1]
    exact ⟨rfl, (hrun rest).2⟩

theorem offers_members {close : Token} (hends : ends = [close] ∨ ends = [] ∧ R.allows [] [close])
    (hcomment : close.kind ≠ .comment) (herror : close.kind ≠ .error)
    (hclose : ∀ t, t.kind = close.kind → member t = none)
    (hmember : ∀ t p ts, member t = some p → Offers R [] p ts)
    (hwelcomes : ∀ nodes,
      Welcomes R ends (loop (memberTurn close.kind expected member) nodes) [] expected)
    (ts : List Token) : Offers R ends (members close.kind expected member) ts := by
  refine offers_loop (completable_members hends hcomment herror hclose) ?_
    (fun _ _ _ _ _ hr => .inr (memberTurn_ne_error hr)) #[] ts
  intro nodes t
  unfold memberTurn
  split
  · exact .inl (offers_pure _)
  · split
    · next p hp =>
      exact .inl fun ts =>
        offers_bind_quiet (hmember t p ts hp) fun n => ⟨_, reads_pure.mpr ⟨rfl, rfl⟩⟩
    · exact .inr ⟨expected, refuses_refuse t _, hwelcomes nodes⟩

end

/-- A construct, given its first token, recovers and offers what it waits for, and is taken with
any first token. -/
structure Repairable (p : Token → Parser Node) : Prop where
  recovers : ∀ t ts, Recovers Repair.plain [] t.offset (p t) ts
  offered : ∀ t, Offered (p t)
  takes : ∀ c ∈ closers, Takes Repair.plain [] (next >>= p) [] c

theorem Repairable.of_closes {p : Token → Parser Node} (hcloses : ∀ t, Closes (p t))
    (hoffered : ∀ t, Offered (p t)) : Repairable p :=
  ⟨fun t => (hcloses t t.offset).recovers, hoffered, fun c hc => .of_closes hc (hcloses c)⟩

theorem repairable_leaf {c : Construct} (hc : c.isLeaf = true)
    (nested : Scope → Token → Parser Node) : Repairable (c.parser nested) :=
  .of_closes (closes_leaf hc nested) (offered_leaf hc nested)

section

variable (place : Place) {nested : Scope → Token → Parser Node}

theorem offered_members_bind (hplace : ∀ c ∈ place.admits, Repairable (c.parser nested))
    {g : List Node × Token → Parser Node} (hg : ∀ r, ∃ n, (g r).Reads [] n) :
    Offered (members .rightBrace place.expected (place.member nested) >>= g) := by
  obtain ⟨close, hmem, hkind⟩ := exists_closer (show .rightBrace ∈ _ by decide)
  have hord := closer_ordinary hmem
  have hallows : Repair.plain.allows [] [close] := List.forall_mem_singleton.mpr hmem
  have hclose : ∀ t : Token, t.kind = close.kind → place.member nested t = none :=
    fun t ht => member_eq_none (.inl (ht.trans hkind))
  intro ts
  refine offers_bind_quiet ?_ hg
  rw [← hkind]
  refine offers_members (.inr ⟨rfl, hallows⟩) hord.not_comment hord.not_error hclose ?_ ?_ ts
  · intro t p ts hp
    obtain ⟨c, hc, -, rfl⟩ := exists_construct_of_member hp
    exact (hplace c hc).offered t ts
  · intro nodes kind hexpected
    obtain ⟨hcloser, ⟨rfl, -⟩ | ⟨c, hadmits, hstarts⟩⟩ :=
      exists_construct_of_expected place kind hexpected
    · have hreads : (loop (memberTurn close.kind place.expected (place.member nested)) nodes).Reads
          ([] ++ ([close] ++ [])) _ :=
        reads_members_of_series hclose nodes .nil rfl hord.not_comment hord.not_error
      exact ⟨close, hmem, hkind, .completes hallows hreads⟩
    · obtain ⟨t, ht, rfl⟩ := exists_closer hcloser
      have hmember : ∀ u : Token, u.kind = t.kind →
          place.member nested u = some (c.parser nested u) := by
        intro u hu
        exact member_eq_some hadmits (hu ▸ hstarts) nested
      refine ⟨t, ht, rfl, takes_member (closer_ordinary ht)
        (ne_close_of_member hclose (hmember t rfl)) hmember ?_ ((hplace c hadmits).takes t ht)⟩
      exact completable_members (.inr ⟨rfl, hallows⟩) hord.not_comment hord.not_error hclose

theorem repairable_braced (hplace : ∀ c ∈ place.admits, Repairable (c.parser nested))
    {build : Token → Ident → Token → List Node → Token → Node} :
    Repairable fun t => braced place.expected (place.member nested) (build t) := by
  have hrecovers : ∀ c ∈ place.admits, ∀ t ts,
      Recovers Repair.plain [] t.offset (c.parser nested t) ts :=
    fun c hc => (hplace c hc).recovers
  refine .of_closes (fun t => closes_braced hrecovers) fun t => ?_
  have hquiet : ∀ (name : Ident) (opening : Token) (r : List Node × Token), ∃ n,
      (pure (build t name opening r.1 r.2) : Parser Node).Reads [] n :=
    fun name opening r => ⟨_, reads_pure.mpr ⟨rfl, rfl⟩⟩
  rw [braced, identifier_bind]
  refine offered_expect_bind (by decide) ?_ ?_
  · exact fun name => closes_expect_bind (by decide) fun opening =>
      closes_members_bind hrecovers (hquiet name.ident opening)
  · exact fun name => offered_expect_bind (by decide)
      (fun opening => closes_members_bind hrecovers (hquiet name.ident opening))
      fun opening => offered_members_bind place hplace (hquiet name.ident opening)

end

theorem repairable_service : Repairable service := by
  rw [show service = _ from funext (service_eq (scope 0 0))]
  exact repairable_braced .inService
    fun c hc => repairable_leaf (isLeaf_of_mem_inService c hc) _

theorem repairable_construct {nested : Scope → Token → Parser Node}
    (hnested : ∀ kind, Repairable (nested kind)) (c : Construct) :
    Repairable (c.parser nested) := by
  cases hc : c.isLeaf with
  | true => exact repairable_leaf hc nested
  | false =>
    cases c <;> simp only [Construct.isLeaf, reduceCtorEq] at hc
    case service => exact repairable_service
    case scope kind => exact hnested kind

/-- Without room the keyword of a scope is taken nowhere, and with room it is. -/
theorem repairable_scope (limit room : Nat) (kind : Scope) :
    Repairable (scope limit room kind) := by
  induction room generalizing kind with
  | zero =>
    refine ⟨fun t ts => recovers_fail rfl ts, fun t ts => offers_of_ne (by rintro _ _ _ ⟨⟩), ?_⟩
    intro c hc
    refine .barred ((barred_next_bind (closer_ordinary hc)).mpr fun u _ => ?_)
    exact ⟨.nestingTooDeep u.offset limit, by rintro ⟨⟩, fun rest => ⟨rfl, rfl⟩⟩
  | succ room ih =>
    rw [show scope limit (room + 1) kind = _ from funext (scope_succ limit room kind)]
    exact repairable_braced (.inScope kind) fun c _ => repairable_construct ih c

/-! ## §6 Files -/

/-- Tokens that complete to something balanced pass the brackets that are open. -/
theorem Takes.passing {α : Type} {p : Parser α} {before : List Token} {c : Token}
    (h : Takes Repair.plain [] p before c)
    (hbalanced : ∀ cs a, p.Reads (before ++ c :: cs) a → Balanced (before ++ c :: cs)) :
    Takes Repair.passing [] p before c := by
  cases h with
  | barred h => exact .barred h
  | @completes cs a hcs hreads =>
    refine .completes (passing_allows_of_balanced hcs (hbalanced cs a ?_)) hreads
    simpa using hreads

theorem Takes.reported {R : Repair} {q : Token → Parser Node} {c : Token}
    (h : Takes R [] (next >>= q) [] c) :
    Takes R [] (next >>= fun t => Grammar.reported (q t)) [] c := by
  unfold Grammar.reported
  rw [← Parser.bind_assoc]
  exact h.bind_quiet fun n => ⟨n, reads_record_bind _ n⟩

section

variable {limit : Nat} {c : Construct} {t : Token}

theorem takes_declaration (ht : t ∈ closers) (hstarts : t.kind ∈ c.starts) :
    Takes Repair.passing [] (next >>= c.parser (scope limit limit)) [] t := by
  have hbracket := isBracket_of_starts hstarts
  by_cases hc : c = .package
  · subst hc
    obtain ⟨semi, hsemi, hkind⟩ := exists_closer (show .semicolon ∈ _ by decide)
    have hallows := passing_allows_singleton hsemi (by rw [hkind]; rfl)
    exact .of_completable ht (passing_allows_singleton ht hbracket)
      (guided_packageDecl hallows hkind t 0).completable
  · refine ((repairable_construct (repairable_scope limit limit) c).takes t ht).passing ?_
    intro cs n hreads
    obtain ⟨_, _, hsplit, -, -, hn⟩ := reads_next_bind.mp hreads
    obtain ⟨rfl, rfl⟩ := List.cons.inj hsplit
    exact balanced_cons hbracket (balanced_of_reads hc hstarts hn)

theorem offers_declaration (hstarts : t.kind ∈ c.starts) (ts : List Token) :
    Offers Repair.passing [] (c.parser (scope limit limit) t) ts := by
  by_cases hc : c = .package
  · subst hc
    obtain ⟨semi, hsemi, hkind⟩ := exists_closer (show .semicolon ∈ _ by decide)
    have hallows := passing_allows_singleton hsemi (by rw [hkind]; rfl)
    exact offers_packageDecl hsemi hallows hkind t ts
  · intro hts o e found hf
    obtain ⟨before, u, after, hsplit, hoffset, hwelcomes⟩ :=
      (repairable_construct (repairable_scope limit limit) c).offered t ts hts o e found hf
    refine ⟨before, u, after, hsplit, hoffset, hwelcomes.imp fun d _ h => h.passing ?_⟩
    exact fun cs n => balanced_of_reads hc hstarts

end

/-- Nothing is waited for in the preamble: what is missing there is the preamble. -/
theorem offers_preambleToken_bind {β : Type} {R : Repair} {ends : List Token}
    {accepts : Token → Bool} {f : Unit → Parser β} (hf : ∀ ts, Offers R ends (f ()) ts)
    (ts : List Token) : Offers R ends (preambleToken accepts >>= f) ts := by
  rw [preambleToken, Parser.bind_assoc]
  refine offers_next_bind fun t rest _ => .inl ?_
  split
  · rw [Parser.pure_bind]
    exact hf rest
  · exact offers_of_ne (by rintro _ _ _ ⟨⟩)

theorem offers_file (limit : Nat) (ts : List Token) :
    Offers Repair.passing [endToken] (file limit) ts := by
  have hclose : ∀ t : Token, t.kind = endToken.kind →
      (declaration limit t).map reported = none := by
    intro t ht
    rw [declaration_eq, member_eq_none (.inr ht)]
    rfl
  have hmembers : ∀ ts, Offers Repair.passing [endToken]
      (members endToken.kind .declaration fun t => (declaration limit t).map reported) ts := by
    refine offers_members (.inl rfl) (by decide) (by decide) hclose ?_ ?_
    · intro t p ts hp
      rw [declaration_eq] at hp
      obtain ⟨q, hq, rfl⟩ := Option.map_eq_some_iff.mp hp
      obtain ⟨c, -, hstarts, rfl⟩ := exists_construct_of_member hq
      exact offers_bind_quiet (offers_declaration hstarts ts) fun n => ⟨n, reads_record_bind _ n⟩
    · intro nodes kind hexpected
      obtain ⟨hcloser, ⟨-, hfile⟩ | ⟨c, hadmits, hstarts⟩⟩ :=
        exists_construct_of_expected .file kind hexpected
      · exact absurd rfl hfile
      · obtain ⟨t, ht, rfl⟩ := exists_closer hcloser
        have hmember : ∀ u : Token, u.kind = t.kind → (declaration limit u).map reported =
            some (reported (c.parser (scope limit limit) u)) := by
          intro u hu
          rw [declaration_eq, member_eq_some hadmits (hu ▸ hstarts)]
          rfl
        refine ⟨t, ht, rfl, takes_member (closer_ordinary ht)
          (ne_close_of_member hclose (hmember t rfl)) hmember ?_
          (takes_declaration ht hstarts).reported⟩
        exact completable_members (.inl rfl) (by decide) (by decide) hclose
  rw [file]
  simp only [preamble, Parser.bind_assoc]
  refine offers_preambleToken_bind (fun ts => ?_) ts
  refine offers_preambleToken_bind (fun ts => ?_) ts
  refine offers_preambleToken_bind (fun ts => ?_) ts
  refine offers_preambleToken_bind (fun ts => ?_) ts
  exact offers_bind_quiet (hmembers ts) fun _ => ⟨_, reads_record_bind _ _⟩

end ProtoSchema
