import ProtoSchema.Grammar

/-!
# What a parser reads

`p.Reads used a`: the parser `p` takes exactly the tokens `used`, none of them a comment, and gives
`a`.  By the laws of parsers it does so whatever follows `used` (`Reads.run_append`), so reading is
a relation between tokens and values, and each way of building a parser is an equation for it.

* §1 the relation, and how it stands to runs;
* §2 sequencing, single tokens, repetition.
-/

namespace ProtoSchema

namespace Parser

variable {α β σ : Type}

/-! ## §1 Reading and running -/

/-- `p` reads exactly `used` and gives `a`. -/
structure Reads (p : Parser α) (used : List Token) (a : α) : Prop where
  significant : ∀ t ∈ used, t.kind ≠ .comment
  result : (p.run used).result = .ok a
  rest : (p.run used).rest = []

/-- What is read is read the same way before any other tokens. -/
theorem Reads.run_append {p : Parser α} {used : List Token} {a : α} (h : p.Reads used a)
    (rest : List Token) :
    (p.run (used ++ rest)).result = .ok a ∧ (p.run (used ++ rest)).rest = rest := by
  have hlocal := p.run_local used []
  rw [Outcome.LocalAt, List.append_nil] at hlocal
  rw [hlocal h.rest (.inl ⟨a, h.result⟩) rest]
  exact ⟨h.result, rfl⟩

/-- A run that succeeds has read the tokens that it did not leave. -/
theorem exists_reads {p : Parser α} {ts : List Token} {a : α}
    (hts : ∀ t ∈ ts, t.kind ≠ .comment) (h : (p.run ts).result = .ok a) :
    ∃ used, ts = used ++ (p.run ts).rest ∧ p.Reads used a := by
  obtain ⟨used, hused⟩ := p.rest_suffix ts
  -- the same run, with nothing behind what it reads
  have hlocal := p.run_local used (p.run ts).rest
  rw [Outcome.LocalAt, hused] at hlocal
  have hrun := hlocal rfl (.inl ⟨a, h⟩) []
  rw [List.append_nil] at hrun
  refine ⟨used, hused.symm, ?_, ?_, ?_⟩
  · intro t ht
    exact hts t (hused ▸ List.mem_append_left _ ht)
  · rw [hrun]
    exact h
  · rw [hrun]
    rfl

/-- The tokens decide the value. -/
theorem Reads.unique {p : Parser α} {used : List Token} {a b : α} (ha : p.Reads used a)
    (hb : p.Reads used b) : a = b :=
  Except.ok.inj (ha.result.symm.trans hb.result)

/-- A parser reads only one beginning of a stream. -/
theorem Reads.append_inj {p : Parser α} {u v rest rest' : List Token} {a b : α}
    (ha : p.Reads u a) (hb : p.Reads v b) (h : u ++ rest = v ++ rest') :
    u = v ∧ rest = rest' := by
  have hrest := (ha.run_append rest).2
  rw [h, (hb.run_append rest').2] at hrest
  subst hrest
  exact ⟨List.append_cancel_right h, rfl⟩

/-! ## §2 The combinators -/

theorem bind_pure (p : Parser α) : (p >>= pure) = p := by
  refine Parser.ext fun ts => ?_
  rw [run_bind]
  cases h : p.run ts with
  | mk result rest log =>
    cases result with
    | error f => rfl
    | ok a => simp [Outcome.bind]

@[simp] theorem reads_pure {a b : α} {used : List Token} :
    (pure a : Parser α).Reads used b ↔ used = [] ∧ b = a := by
  constructor
  · rintro ⟨_, hresult, hrest⟩
    exact ⟨hrest, (Except.ok.inj hresult).symm⟩
  · rintro ⟨rfl, rfl⟩
    exact ⟨by simp, rfl, rfl⟩

@[simp] theorem not_reads_fail {f : Fault} {a : α} {used : List Token} :
    ¬ (fail f : Parser α).Reads used a := by
  rintro ⟨_, hresult, _⟩
  cases hresult

@[simp] theorem reads_record {r : Record} {u : Unit} {used : List Token} :
    (record r).Reads used u ↔ used = [] := by
  constructor
  · rintro ⟨_, _, hrest⟩
    exact hrest
  · rintro rfl
    exact ⟨by simp, rfl, rfl⟩

/-- A sequence reads what its parts read, one after the other. -/
theorem reads_bind {p : Parser α} {f : α → Parser β} {used : List Token} {b : β} :
    (p >>= f).Reads used b ↔
      ∃ u v a, used = u ++ v ∧ p.Reads u a ∧ (f a).Reads v b := by
  constructor
  · rintro ⟨hsig, hresult, hrest⟩
    rw [run_bind] at hresult hrest
    cases hp : (p.run used).result with
    | error e =>
      rw [Outcome.bind_of_error hp] at hresult
      cases hresult
    | ok a =>
      rw [Outcome.bind_of_ok hp] at hresult hrest
      obtain ⟨u, hu, hreads⟩ := exists_reads hsig hp
      refine ⟨u, (p.run used).rest, a, hu, hreads, ?_, hresult, hrest⟩
      intro t ht
      exact hsig t (hu ▸ List.mem_append_right _ ht)
  · rintro ⟨u, v, a, rfl, hp, hf⟩
    obtain ⟨hresult, hrest⟩ := hp.run_append v
    refine ⟨?_, ?_, ?_⟩
    · intro t ht
      rcases List.mem_append.mp ht with h | h
      · exact hp.significant t h
      · exact hf.significant t h
    · rw [run_bind, Outcome.bind_of_ok hresult, hrest]
      exact hf.result
    · rw [run_bind, Outcome.bind_of_ok hresult, hrest]
      exact hf.rest

/-- A token that is pulled. -/
theorem next_run_cons {t : Token} (hcomment : t.kind ≠ .comment) (herror : t.kind ≠ .error)
    (rest : List Token) : next.run (t :: rest) = ⟨.ok t, rest, []⟩ := by
  simp [next, pull?_cons, hcomment, herror, Token.record?]

/-- An error is pulled, and is the fault. -/
theorem next_run_cons_error {t : Token} (herror : t.kind = .error) (rest : List Token) :
    next.run (t :: rest) = ⟨.error (.lexical t.offset t.text), rest, t.record?.toList⟩ := by
  simp [next, pull?_cons, herror]

/-- One token is read: any but a comment, which is passed over, and an error, which is a fault. -/
theorem reads_next {used : List Token} {t : Token} :
    next.Reads used t ↔ used = [t] ∧ t.kind ≠ .comment ∧ t.kind ≠ .error := by
  constructor
  · rintro ⟨hsig, hresult, hrest⟩
    cases used with
    | nil => cases hresult
    | cons u used =>
      have hu : u.kind ≠ .comment := hsig u List.mem_cons_self
      by_cases herr : u.kind = .error
      · rw [next_run_cons_error herr] at hresult
        cases hresult
      · rw [next_run_cons hu herr] at hresult hrest
        obtain rfl := Except.ok.inj hresult
        obtain rfl : used = [] := hrest
        exact ⟨rfl, hu, herr⟩
  · rintro ⟨rfl, hsig, herr⟩
    have hrun := next_run_cons hsig herr []
    exact ⟨List.forall_mem_singleton.mpr hsig, by rw [hrun], by rw [hrun]⟩

theorem reads_next_bind {f : Token → Parser β} {used : List Token} {b : β} :
    (next >>= f).Reads used b ↔
      ∃ t v, used = t :: v ∧ t.kind ≠ .comment ∧ t.kind ≠ .error ∧ (f t).Reads v b := by
  rw [reads_bind]
  constructor
  · rintro ⟨u, v, t, rfl, hnext, hf⟩
    obtain ⟨rfl, hsig, herr⟩ := reads_next.mp hnext
    exact ⟨t, v, rfl, hsig, herr, hf⟩
  · rintro ⟨t, v, rfl, hsig, herr, hf⟩
    exact ⟨[t], v, t, rfl, reads_next.mpr ⟨rfl, hsig, herr⟩, hf⟩

/-- A loop reads a token and a turn, and then what the loop reads from the state that the turn
gives, or nothing if the turn finishes it. -/
theorem reads_loop {turn : σ → Token → Parser (Turn σ β)} {s : σ} {used : List Token} {b : β} :
    (loop turn s).Reads used b ↔
      ∃ t u v r, used = t :: (u ++ v) ∧ t.kind ≠ .comment ∧ t.kind ≠ .error ∧
        (turn s t).Reads u r ∧
        match r with
        | .again s' => (loop turn s').Reads v b
        | .finish b' => v = [] ∧ b = b' := by
  rw [loop_eq, reads_next_bind]
  constructor
  · rintro ⟨t, w, rfl, hsig, herr, hw⟩
    obtain ⟨u, v, r, rfl, hturn, hv⟩ := reads_bind.mp hw
    refine ⟨t, u, v, r, rfl, hsig, herr, hturn, ?_⟩
    cases r with
    | again s' => exact hv
    | finish b' => exact reads_pure.mp hv
  · rintro ⟨t, u, v, r, rfl, hsig, herr, hturn, hv⟩
    refine ⟨t, u ++ v, rfl, hsig, herr, reads_bind.mpr ⟨u, v, r, rfl, hturn, ?_⟩⟩
    cases r with
    | again s' => exact hv
    | finish b' => exact reads_pure.mpr hv

end Parser

end ProtoSchema
