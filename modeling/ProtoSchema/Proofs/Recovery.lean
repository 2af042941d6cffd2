import ProtoSchema.Proofs.Reading

/-!
# Where a parser fails

A parser fails at the first token that it cannot go on with: what it read before that token could
have been completed (`Recovers`).  Each way of building a parser keeps this, provided that the
parts that were not reached can be completed from nothing (`Completable`).

Which tokens may be put behind which, to complete what was read, is left open (`Repair`), and so are
the tokens that the completion has to end with.

* §1 completing and recovering, §2 parsers that can be completed, §3 parsers that recover.
-/

namespace ProtoSchema

namespace Parser

variable {α β σ : Type}

/-! ## §1 Completing and recovering -/

/-- Which tokens may be put behind others. -/
structure Repair where
  allows : List Token → List Token → Prop
  nil : allows [] []
  shift : ∀ us ts cs, allows ts cs → allows (us ++ ts) cs
  append : ∀ ts cs ds, allows ts cs → allows [] ds → allows ts (cs ++ ds)

section

variable (R : Repair) (ends : List Token)

/-- Some tokens complete `p` from nothing. -/
def Completable (p : Parser α) : Prop := ∃ cs a, R.allows [] cs ∧ p.Reads (cs ++ ends) a

/-- If `p` fails on `ts`, it does so at a token before which it could have been completed; or at the
token before `ts`, which starts at `o`; or at offset zero, where nothing was read. -/
def Recovers (o : Nat) (p : Parser α) (ts : List Token) : Prop :=
  (∀ t ∈ ts, t.kind ≠ .comment) → ∀ f, (p.run ts).result = .error f →
    f.offset = 0 ∨ f.offset = o ∨
      ∃ before t after cs a, ts = before ++ t :: after ∧ f.offset = t.offset ∧
        R.allows before cs ∧ p.Reads (before ++ (cs ++ ends)) a

/-- `p` can be completed, and recovers wherever it is used behind a token at `o`. -/
structure Guided (o : Nat) (p : Parser α) : Prop where
  completable : Completable R ends p
  recovers : ∀ ts, Recovers R ends o p ts

end

variable {R : Repair} {ends : List Token} {o : Nat}

/-! ## §2 Completing -/

theorem completable_pure (a : α) : Completable R [] (pure a : Parser α) :=
  ⟨[], a, R.nil, reads_pure.mpr ⟨rfl, rfl⟩⟩

theorem completable_next_bind {g : Token → Parser β} {c : Token} (hallows : R.allows [] [c])
    (hcomment : c.kind ≠ .comment) (herror : c.kind ≠ .error)
    (hg : Completable R ends (g c)) : Completable R ends (next >>= g) := by
  obtain ⟨cs, b, hcs, hb⟩ := hg
  refine ⟨c :: cs, b, R.append [] [c] cs hallows hcs, ?_⟩
  exact reads_next_bind.mpr ⟨c, cs ++ ends, rfl, hcomment, herror, hb⟩

theorem completable_bind_quiet {p : Parser α} {g : α → Parser β} (hp : Completable R ends p)
    (hg : ∀ a, ∃ b, (g a).Reads [] b) : Completable R ends (p >>= g) := by
  obtain ⟨cs, a, hcs, ha⟩ := hp
  obtain ⟨b, hb⟩ := hg a
  exact ⟨cs, b, hcs, reads_bind.mpr ⟨cs ++ ends, [], a, (List.append_nil _).symm, ha, hb⟩⟩

/-! ## §3 Recovering -/

theorem recovers_of_ok {p : Parser α} {ts : List Token}
    (h : ∀ f, (p.run ts).result ≠ .error f) : Recovers R ends o p ts := by
  intro _ f hf
  exact absurd hf (h f)

theorem recovers_pure (a : α) (ts : List Token) : Recovers R ends o (pure a : Parser α) ts := by
  apply recovers_of_ok
  intro f hf
  cases hf

/-- Giving up at the token that was just read. -/
theorem recovers_fail {f : Fault} (hf : f.offset = o) (ts : List Token) :
    Recovers R ends o (fail f : Parser α) ts := by
  intro _ f' hf'
  cases hf'
  exact .inr (.inl hf)

/-- A parser that starts with a token may fail at that token, before which nothing was read. -/
theorem recovers_next_bind {g : Token → Parser β} {ts : List Token}
    (hc : Completable R ends (next >>= g))
    (hg : ∀ t rest, ts = t :: rest → Recovers R ends t.offset (g t) rest) :
    Recovers R ends o (next >>= g) ts := by
  intro hts f hf
  cases ts with
  | nil =>
    cases hf
    exact .inl rfl
  | cons t rest =>
    obtain ⟨ht, hrest⟩ := List.forall_mem_cons.mp hts
    -- at `t` itself, the completion from nothing will do
    have hfirst : ∀ f : Fault, f.offset = t.offset →
        ∃ before u after cs b, t :: rest = before ++ u :: after ∧ f.offset = u.offset ∧
          R.allows before cs ∧ (next >>= g).Reads (before ++ (cs ++ ends)) b := by
      intro f hoffset
      obtain ⟨cs, b, hcs, hb⟩ := hc
      exact ⟨[], t, rest, cs, b, rfl, hoffset, hcs, hb⟩
    by_cases herror : t.kind = .error
    · rw [run_bind_of_error (next_run_cons_error herror rest)] at hf
      cases hf
      exact .inr (.inr (hfirst _ rfl))
    · rw [run_bind_of_ok (next_run_cons ht herror rest)] at hf
      rcases hg t rest rfl hrest f hf with hzero | hoffset | hlater
      · exact .inl hzero
      · exact .inr (.inr (hfirst f hoffset))
      · obtain ⟨before, u, after, cs, b, rfl, hoffset, hallows, hb⟩ := hlater
        refine .inr (.inr ⟨t :: before, u, after, cs, b, rfl, hoffset, ?_, ?_⟩)
        · exact R.shift [t] before cs hallows
        · exact reads_next_bind.mpr ⟨t, before ++ (cs ++ ends), rfl, ht, herror, hb⟩

/-- A sequence fails in its first part or in its second.  In the first case the second is completed
from nothing. -/
theorem recovers_bind {p : Parser α} {g : α → Parser β} {ts : List Token}
    (hp : Recovers R [] o p ts)
    (hc : ∀ f u a, (p.run ts).result = .error f → p.Reads u a → Completable R ends (g a))
    (hg : ∀ u rest a, ts = u ++ rest → p.Reads u a → Recovers R ends o (g a) rest) :
    Recovers R ends o (p >>= g) ts := by
  intro hts f hf
  rw [run_bind] at hf
  cases hres : (p.run ts).result with
  | error f' =>
    rw [Outcome.bind_of_error hres] at hf
    cases hf
    rcases hp hts f hres with hzero | hoffset | hlater
    · exact .inl hzero
    · exact .inr (.inl hoffset)
    · obtain ⟨before, t, after, cs, a, rfl, hoffset, hallows, ha⟩ := hlater
      rw [List.append_nil] at ha
      -- `cs` completes the first part, `ds` the second
      obtain ⟨ds, b, hds, hb⟩ := hc _ (before ++ cs) a hres ha
      refine .inr (.inr ⟨before, t, after, cs ++ ds, b, rfl, hoffset, ?_, ?_⟩)
      · exact R.append before cs ds hallows hds
      · exact reads_bind.mpr ⟨before ++ cs, ds ++ ends, a, by simp, ha, hb⟩
  | ok a =>
    rw [Outcome.bind_of_ok hres] at hf
    obtain ⟨u, hu, ha⟩ := exists_reads hts hres
    generalize (p.run ts).rest = rest at hu hf
    subst hu
    have hrest : ∀ t ∈ rest, t.kind ≠ .comment := fun t ht => hts t (List.mem_append_right _ ht)
    rcases hg u rest a rfl ha hrest f hf with hzero | hoffset | hlater
    · exact .inl hzero
    · exact .inr (.inl hoffset)
    · obtain ⟨before, t, after, cs, b, rfl, hoffset, hallows, hb⟩ := hlater
      refine .inr (.inr ⟨u ++ before, t, after, cs, b, by simp, hoffset, ?_, ?_⟩)
      · exact R.shift u before cs hallows
      · exact reads_bind.mpr ⟨u, before ++ (cs ++ ends), a, by simp, ha, hb⟩

/-- What reads nothing and never fails may follow any parser. -/
theorem recovers_bind_quiet {p : Parser α} {g : α → Parser β} {ts : List Token}
    (hp : Recovers R ends o p ts) (hg : ∀ a, ∃ b, (g a).Reads [] b) :
    Recovers R ends o (p >>= g) ts := by
  intro hts f hf
  rw [run_bind] at hf
  cases hres : (p.run ts).result with
  | error f' =>
    rw [Outcome.bind_of_error hres] at hf
    cases hf
    rcases hp hts f hres with hzero | hoffset | hlater
    · exact .inl hzero
    · exact .inr (.inl hoffset)
    · obtain ⟨before, t, after, cs, a, rfl, hoffset, hallows, ha⟩ := hlater
      obtain ⟨b, hb⟩ := hg a
      refine .inr (.inr ⟨before, t, after, cs, b, rfl, hoffset, hallows, ?_⟩)
      exact reads_bind.mpr ⟨before ++ (cs ++ ends), [], a, by simp, ha, hb⟩
  | ok a =>
    obtain ⟨b, hb⟩ := hg a
    rw [Outcome.bind_of_ok hres] at hf
    have hok := (hb.run_append (p.run ts).rest).1
    rw [List.nil_append] at hok
    rw [hok] at hf
    cases hf

theorem guided_bind_quiet {p : Parser α} {g : α → Parser β} (hp : Guided R ends o p)
    (hg : ∀ a, ∃ b, (g a).Reads [] b) : Guided R ends o (p >>= g) :=
  ⟨completable_bind_quiet hp.completable hg, fun ts => recovers_bind_quiet (hp.recovers ts) hg⟩

/-- A loop recovers if it can be completed from every state and its turns recover: by induction on
the tokens, of which every turn takes one.  A turn that can finish the loop must not fail, unless
nothing more is needed to end. -/
theorem recovers_loop {turn : σ → Token → Parser (Turn σ β)}
    (hc : ∀ s, Completable R ends (loop turn s))
    (hturn : ∀ s t ts, Recovers R [] t.offset (turn s t) ts)
    (hfinish : ∀ s t ts u b, (turn s t).Reads u (.finish b) →
      ends = [] ∨ ∀ f, ((turn s t).run ts).result ≠ .error f) (s : σ) (ts : List Token) :
    Recovers R ends o (loop turn s) ts := by
  induction hn : ts.length using Nat.strongRecOn generalizing o s ts with
  | ind n ih =>
    have hloop := hc s
    rw [loop_eq] at hloop ⊢
    refine recovers_next_bind hloop ?_
    rintro t rest rfl
    refine recovers_bind (hturn s t rest) ?_ ?_
    · rintro f u (s' | b) hf hr
      · exact hc s'
      · rcases hfinish s t rest u b hr with rfl | hok
        · exact completable_pure b
        · exact absurd hf (hok f)
    · rintro u rest' (s' | b) rfl -
      · refine ih rest'.length ?_ s' rest' rfl
        simp only [← hn, List.length_cons, List.length_append]
        omega
      · exact recovers_pure b rest'

end Parser

end ProtoSchema
