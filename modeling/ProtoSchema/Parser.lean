import ProtoSchema.Fault

/-! # Parsers of token streams

A parser reads tokens from the front of a stream and comes to an outcome: a value or a fault, the
tokens that it left, and the records that it wrote.  It keeps what it left whether it succeeds or
fails, so an outcome also says which tokens were pulled.  Three laws are part of being a parser:

* it leaves an end of the stream that it was given, and so reads tokens in order and none twice
  (`rest_suffix`);
* it does not see comments (`run_significant`);
* it does not look at what it leaves (`run_local`).

§1 outcomes, parsers, sequencing; §2 pulling one token; §3 `loop`, the one way to repeat: every turn
starts by pulling a token, hence the end of the stream ends it (`loop_eq` is its unfolding).
-/

namespace ProtoSchema

/-! ## §1 Outcomes and sequencing -/

structure Outcome (α : Type) where
  result : Except Fault α
  rest : List Token
  log : List Record

/-- A stream without its comments. -/
def significant (ts : List Token) : List Token := ts.filter (·.kind ≠ .comment)

namespace Outcome

variable {α β : Type}

/-- Go on from an outcome: a fault stays, a value is handed to `next` with what was left. -/
def bind (out : Outcome α) (next : α → List Token → Outcome β) : Outcome β :=
  match out.result with
  | .error f => ⟨.error f, out.rest, out.log⟩
  | .ok a =>
    let out' := next a out.rest
    { out' with log := out.log ++ out'.log }

/-- The outcome with other tokens left. -/
def mapRest (g : List Token → List Token) (out : Outcome α) : Outcome α :=
  { out with rest := g out.rest }

/-- The outcome was not forced by the stream running out: it is a value, or tokens are left. -/
def Settled (out : Outcome α) : Prop := (∃ a, out.result = .ok a) ∨ out.rest ≠ []

theorem bind_of_ok {out : Outcome α} {next : α → List Token → Outcome β} {a : α}
    (h : out.result = .ok a) :
    out.bind next = { next a out.rest with log := out.log ++ (next a out.rest).log } := by
  simp only [bind, h]

theorem bind_of_error {out : Outcome α} {next : α → List Token → Outcome β} {f : Fault}
    (h : out.result = .error f) : out.bind next = ⟨.error f, out.rest, out.log⟩ := by
  simp only [bind, h]

theorem rest_bind_suffix {out : Outcome α} {next : α → List Token → Outcome β}
    (h : ∀ a, (next a out.rest).rest <:+ out.rest) : (out.bind next).rest <:+ out.rest := by
  unfold bind
  split
  · exact List.suffix_rfl
  · exact h _

theorem mapRest_bind {out : Outcome α} {next : α → List Token → Outcome β}
    {g : List Token → List Token}
    (h : ∀ a, out.result = .ok a → next a (g out.rest) = (next a out.rest).mapRest g) :
    (out.mapRest g).bind next = (out.bind next).mapRest g := by
  cases hres : out.result with
  | error f =>
    have hmap : (out.mapRest g).result = .error f := hres
    rw [bind_of_error hres, bind_of_error hmap]
    rfl
  | ok a =>
    have hmap : (out.mapRest g).result = .ok a := hres
    rw [bind_of_ok hres, bind_of_ok hmap]
    show Outcome.mk (next a (g out.rest)).result (next a (g out.rest)).rest
      (out.log ++ (next a (g out.rest)).log) = _
    rw [h a hres]
    rfl

/-- What `run` makes of `used`, leaving `rest`, it makes of `used` before any other tokens. -/
def LocalAt (run : List Token → Outcome α) (used rest : List Token) : Prop :=
  (run (used ++ rest)).rest = rest → (run (used ++ rest)).Settled →
    ∀ rest', run (used ++ rest') = (run (used ++ rest)).mapRest fun _ => rest'

/-- Sequencing is local where its two parts are.  The second is asked for only at what the first
leaves of `used`. -/
theorem localAt_bind {run : List Token → Outcome α} {next : α → List Token → Outcome β}
    {used rest : List Token} (hrun : ∀ ts, (run ts).rest <:+ ts)
    (hnext : ∀ a ts, (next a ts).rest <:+ ts)
    (hfirst : ∀ u v, used = u ++ v → LocalAt run u (v ++ rest))
    (hsecond : ∀ u v a, used = u ++ v → (run (used ++ rest)).result = .ok a →
      (run (used ++ rest)).rest = v ++ rest → LocalAt (next a) v rest) :
    LocalAt (fun ts => (run ts).bind next) used rest := by
  intro hrest hsettled rest'
  dsimp only at hrest hsettled ⊢
  cases hres : (run (used ++ rest)).result with
  | error f =>
    rw [bind_of_error hres] at hrest hsettled ⊢
    have hset : (run (used ++ rest)).Settled := by
      rcases hsettled with ⟨_, h⟩ | h
      · cases h
      · exact .inr h
    have h := hfirst used [] (by simp)
    simp only [List.nil_append] at h
    have h' := h hrest hset rest'
    rw [h', bind_of_error (by exact hres)]
    rfl
  | ok a =>
    rw [bind_of_ok hres] at hrest hsettled ⊢
    obtain ⟨u, hu⟩ := hrun (used ++ rest)
    obtain ⟨v, hv⟩ := hnext a (run (used ++ rest)).rest
    rw [show (next a (run (used ++ rest)).rest).rest = rest from hrest] at hv
    have hused : used = u ++ v := by
      rw [← hv, ← List.append_assoc] at hu
      exact (List.append_cancel_right hu).symm
    have h₁ := hfirst u v hused
    rw [LocalAt, ← List.append_assoc, ← hused] at h₁
    have h₁' := h₁ hv.symm (.inl ⟨a, hres⟩) (v ++ rest')
    rw [← List.append_assoc, ← hused] at h₁'
    have h₂ := hsecond u v a hused hres hv.symm
    rw [LocalAt, hv] at h₂
    have h₂' := h₂ hrest hsettled rest'
    rw [h₁', bind_of_ok (by exact hres)]
    show Outcome.mk (next a (v ++ rest')).result (next a (v ++ rest')).rest
      ((run (used ++ rest)).log ++ (next a (v ++ rest')).log) = _
    rw [h₂']
    rfl

end Outcome

structure Parser (α : Type) where
  run : List Token → Outcome α
  rest_suffix : ∀ ts, (run ts).rest <:+ ts
  run_significant : ∀ ts, run (significant ts) = (run ts).mapRest significant
  run_local : ∀ used rest, Outcome.LocalAt run used rest

namespace Parser

variable {α β σ : Type}

theorem ext {p q : Parser α} (h : ∀ ts, p.run ts = q.run ts) : p = q := by
  obtain ⟨p, _, _, _⟩ := p
  obtain ⟨q, _, _, _⟩ := q
  obtain rfl : p = q := funext h
  rfl

theorem localAt_const (result : Except Fault α) (log : List Record) (used rest : List Token) :
    Outcome.LocalAt (fun ts => ⟨result, ts, log⟩) used rest := by
  intro hrest _ rest'
  obtain rfl : used = [] := List.append_left_eq_self.mp hrest
  rfl

/-- Read nothing, and give `a`. -/
protected def pure (a : α) : Parser α where
  run ts := ⟨.ok a, ts, []⟩
  rest_suffix _ := List.suffix_rfl
  run_significant _ := rfl
  run_local := localAt_const _ _

/-- Read nothing, and give up. -/
def fail (f : Fault) : Parser α where
  run ts := ⟨.error f, ts, []⟩
  rest_suffix _ := List.suffix_rfl
  run_significant _ := rfl
  run_local := localAt_const _ _

/-- Read nothing, and write a record. -/
def record (r : Record) : Parser Unit where
  run ts := ⟨.ok (), ts, [r]⟩
  rest_suffix _ := List.suffix_rfl
  run_significant _ := rfl
  run_local := localAt_const _ _

/-- Read on with `f` where `p` stopped. -/
protected def bind (p : Parser α) (f : α → Parser β) : Parser β where
  run ts := (p.run ts).bind fun a rest => (f a).run rest
  rest_suffix ts :=
    (Outcome.rest_bind_suffix fun a => (f a).rest_suffix _).trans (p.rest_suffix ts)
  run_significant ts := by
    rw [p.run_significant]
    exact Outcome.mapRest_bind fun a _ => (f a).run_significant _
  run_local _ _ := Outcome.localAt_bind p.rest_suffix (fun a => (f a).rest_suffix)
    (fun _ _ _ => p.run_local _ _) (fun _ _ a _ _ _ => (f a).run_local _ _)

instance : Monad Parser where
  pure := Parser.pure
  bind := Parser.bind

@[simp] theorem run_pure (a : α) (ts : List Token) :
    (pure a : Parser α).run ts = ⟨.ok a, ts, []⟩ := rfl

@[simp] theorem run_fail (f : Fault) (ts : List Token) :
    (fail f : Parser α).run ts = ⟨.error f, ts, []⟩ := rfl

@[simp] theorem run_record (r : Record) (ts : List Token) :
    (record r).run ts = ⟨.ok (), ts, [r]⟩ := rfl

theorem run_bind (p : Parser α) (f : α → Parser β) (ts : List Token) :
    (p >>= f).run ts = (p.run ts).bind fun a rest => (f a).run rest := rfl

theorem run_bind_of_ok {p : Parser α} {f : α → Parser β} {ts rest : List Token} {a : α}
    {log : List Record} (h : p.run ts = ⟨.ok a, rest, log⟩) :
    (p >>= f).run ts = { (f a).run rest with log := log ++ ((f a).run rest).log } := by
  rw [run_bind, h]
  rfl

theorem run_bind_of_error {p : Parser α} {f : α → Parser β} {ts rest : List Token} {e : Fault}
    {log : List Record} (h : p.run ts = ⟨.error e, rest, log⟩) :
    (p >>= f).run ts = ⟨.error e, rest, log⟩ := by
  rw [run_bind, h]
  rfl

theorem pure_bind (a : α) (f : α → Parser β) : (pure a >>= f) = f a :=
  ext fun ts => by rw [run_bind_of_ok (run_pure a ts)]; rfl

theorem bind_assoc {γ : Type} (p : Parser α) (f : α → Parser β) (g : β → Parser γ) :
    (p >>= f >>= g) = (p >>= fun a => f a >>= g) := by
  refine ext fun ts => ?_
  cases hp : p.run ts with
  | mk result rest log =>
    cases result with
    | error e => rw [run_bind_of_error (run_bind_of_error hp), run_bind_of_error hp]
    | ok a =>
      rw [run_bind, run_bind_of_ok hp, run_bind_of_ok hp]
      cases hf : ((f a).run rest).result <;> simp [Outcome.bind, run_bind, hf]

/-! ## §2 One token -/

/-- The first token that is no comment, and the tokens behind it. -/
def pull? (ts : List Token) : Option (Token × List Token) :=
  match ts.dropWhile (·.kind = .comment) with
  | [] => none
  | t :: rest => some (t, rest)

theorem pull?_cons (t : Token) (ts : List Token) :
    pull? (t :: ts) = if t.kind = .comment then pull? ts else some (t, ts) := by
  unfold pull?
  by_cases h : t.kind = .comment <;> simp [h]

theorem pull?_significant (ts : List Token) :
    pull? (significant ts) = (pull? ts).map fun p => (p.1, significant p.2) := by
  induction ts with
  | nil => rfl
  | cons t ts ih => by_cases h : t.kind = .comment <;> simp_all [significant, pull?_cons]

theorem suffix_of_pull? {ts rest : List Token} {t : Token} (h : pull? ts = some (t, rest)) :
    t :: rest <:+ ts := by
  unfold pull? at h
  split at h
  · cases h
  · next heq =>
    cases h
    exact heq ▸ List.dropWhile_suffix _

/-- A pull does not look behind the token that it takes. -/
theorem pull?_append {used rest : List Token} {t : Token}
    (h : pull? (used ++ rest) = some (t, rest)) (rest' : List Token) :
    pull? (used ++ rest') = some (t, rest') := by
  induction used with
  | nil =>
    have := (suffix_of_pull? h).length_le
    simp only [List.nil_append, List.length_cons] at this
    omega
  | cons u used ih =>
    rw [List.cons_append, pull?_cons] at h ⊢
    split at h
    · next hu => rw [if_pos hu]; exact ih h
    · next hu =>
      obtain ⟨rfl, hrest⟩ := Prod.mk.inj (Option.some.inj h)
      obtain rfl : used = [] := List.append_left_eq_self.mp hrest
      rw [if_neg hu]
      rfl

/-- The next token that is no comment.  An error token is a fault, and the log says so.  A stream
has an end token; one that has run out is reported like the end of an empty input. -/
def next : Parser Token where
  run ts :=
    match pull? ts with
    | none => ⟨.error (.unexpected 0 "token" (default : Token).display), [], []⟩
    | some (t, rest) =>
      ⟨if t.kind = .error then .error (.lexical t.offset t.text) else .ok t, rest,
        t.record?.toList⟩
  rest_suffix ts := by
    split
    · exact List.nil_suffix
    · next h => exact (List.suffix_cons _ _).trans (suffix_of_pull? h)
  run_significant ts := by
    rw [pull?_significant]
    cases pull? ts <;> rfl
  run_local used rest := by
    intro hrest hsettled rest'
    cases hpull : pull? (used ++ rest) with
    | none => simp_all [Outcome.Settled]
    | some p =>
      obtain ⟨t, rest₁⟩ := p
      simp only [hpull] at hrest ⊢
      subst hrest
      rw [pull?_append hpull]
      rfl

/-- A token that was pulled is gone. -/
theorem length_rest_next_lt {ts : List Token} {t : Token} (h : (next.run ts).result = .ok t) :
    (next.run ts).rest.length < ts.length := by
  simp only [next] at h ⊢
  split at h
  · cases h
  · next heq =>
    simp only
    exact (suffix_of_pull? heq).length_le

/-! ## §3 Repetition -/

/-- How a turn of a loop ends: with a state to go on from, or with the value of the loop. -/
inductive Turn (σ β : Type) where
  | again (state : σ)
  | finish (value : β)

/-- The run of `loop`. -/
def runLoop (turn : σ → Token → Parser (Turn σ β)) (s : σ) (ts : List Token) : Outcome β :=
  match hnext : next.run ts with
  | ⟨.error f, rest, log⟩ => ⟨.error f, rest, log⟩
  | ⟨.ok t, rest, log⟩ =>
    match hturn : (turn s t).run rest with
    | ⟨.error f, rest', log'⟩ => ⟨.error f, rest', log ++ log'⟩
    | ⟨.ok (.finish b), rest', log'⟩ => ⟨.ok b, rest', log ++ log'⟩
    | ⟨.ok (.again s'), rest', log'⟩ =>
      have hlt : rest'.length < ts.length := by
        have h₁ : (next.run ts).rest.length < ts.length :=
          length_rest_next_lt (t := t) (by rw [hnext])
        have h₂ := ((turn s t).rest_suffix rest).length_le
        rw [hnext] at h₁
        rw [hturn] at h₂
        exact Nat.lt_of_le_of_lt h₂ h₁
      let out := runLoop turn s' rest'
      { out with log := log ++ log' ++ out.log }
termination_by ts.length

theorem rest_runLoop_suffix (turn : σ → Token → Parser (Turn σ β)) (s : σ) (ts : List Token) :
    (runLoop turn s ts).rest <:+ ts := by
  fun_induction runLoop turn s ts with
  | case1 s ts f rest log hnext =>
    have h := next.rest_suffix ts
    rwa [hnext] at h
  | case2 s ts t rest log hnext f rest' log' hturn =>
    have h₁ := next.rest_suffix ts
    have h₂ := (turn s t).rest_suffix rest
    rw [hnext] at h₁
    rw [hturn] at h₂
    exact h₂.trans h₁
  | case3 s ts t rest log hnext b rest' log' hturn =>
    have h₁ := next.rest_suffix ts
    have h₂ := (turn s t).rest_suffix rest
    rw [hnext] at h₁
    rw [hturn] at h₂
    exact h₂.trans h₁
  | case4 s ts t rest log hnext s' rest' log' hturn hlt out ih =>
    have h₁ := next.rest_suffix ts
    have h₂ := (turn s t).rest_suffix rest
    rw [hnext] at h₁
    rw [hturn] at h₂
    exact ih.trans (h₂.trans h₁)

/-- How a loop goes on behind a turn. -/
def continueLoop (turn : σ → Token → Parser (Turn σ β)) : Turn σ β → List Token → Outcome β
  | .again s, ts => runLoop turn s ts
  | .finish b, ts => ⟨.ok b, ts, []⟩

theorem rest_continueLoop_suffix (turn : σ → Token → Parser (Turn σ β)) (r : Turn σ β)
    (ts : List Token) : (continueLoop turn r ts).rest <:+ ts := by
  cases r with
  | again s => exact rest_runLoop_suffix turn s ts
  | finish b => exact List.suffix_rfl

/-- A run of a loop is its first turn and, if that does not finish it, a run of the loop. -/
theorem runLoop_eq (turn : σ → Token → Parser (Turn σ β)) (s : σ) (ts : List Token) :
    runLoop turn s ts = (next.run ts).bind fun t rest =>
      ((turn s t).run rest).bind (continueLoop turn) := by
  rw [runLoop]
  split
  · next hnext => rw [hnext]; rfl
  · next t rest log hnext =>
    conv => rhs; rw [hnext, Outcome.bind_of_ok rfl]
    split
    · next hturn => simp [hturn, Outcome.bind]
    · next hturn => simp [hturn, Outcome.bind, continueLoop]
    · next hturn => simp [hturn, Outcome.bind, continueLoop]

/-- What a turn leaves is shorter than the stream before the token that it was given. -/
theorem length_rest_turn_lt (turn : σ → Token → Parser (Turn σ β)) {s : σ} {ts : List Token}
    {t : Token} (h : (next.run ts).result = .ok t) :
    ((turn s t).run (next.run ts).rest).rest.length < ts.length :=
  Nat.lt_of_le_of_lt ((turn s t).rest_suffix _).length_le (length_rest_next_lt h)

theorem runLoop_significant (turn : σ → Token → Parser (Turn σ β)) (s : σ) (ts : List Token) :
    runLoop turn s (significant ts) = (runLoop turn s ts).mapRest significant := by
  induction hn : ts.length using Nat.strongRecOn generalizing s ts with
  | ind n ih =>
    rw [runLoop_eq, runLoop_eq turn s ts, next.run_significant]
    apply Outcome.mapRest_bind
    intro t ht
    rw [(turn s t).run_significant]
    apply Outcome.mapRest_bind
    rintro (s' | b) -
    · exact ih _ (hn ▸ length_rest_turn_lt turn ht) s' _ rfl
    · rfl

theorem runLoop_local (turn : σ → Token → Parser (Turn σ β)) (s : σ) (used rest : List Token) :
    Outcome.LocalAt (runLoop turn s) used rest := by
  induction hn : used.length using Nat.strongRecOn generalizing s used with
  | ind n ih =>
    -- what goes on behind a turn is local, since it has less of `used` before it
    have hgo : ∀ w : List Token, w.length < used.length → ∀ r : Turn σ β,
        Outcome.LocalAt (continueLoop turn r) w rest := by
      rintro w hw (s' | b)
      · exact ih _ (hn ▸ hw) s' w rfl
      · exact localAt_const _ _ _ _
    rw [show runLoop turn s = _ from funext (runLoop_eq turn s)]
    refine Outcome.localAt_bind next.rest_suffix ?_ (fun _ _ _ => next.run_local _ _) ?_
    · intro t ts
      exact (Outcome.rest_bind_suffix fun r => rest_continueLoop_suffix turn r _).trans
        ((turn s t).rest_suffix ts)
    · intro u v t hused ht hrest
      refine Outcome.localAt_bind (turn s t).rest_suffix (rest_continueLoop_suffix turn)
        (fun _ _ _ => (turn s t).run_local _ _) ?_
      intro u' w r hv _ _
      have hlt := length_rest_next_lt ht
      rw [hrest, hv] at hlt
      simp only [List.length_append] at hlt
      exact hgo w (by omega) r

/-- Pull a token, take a turn, and again from the state that the turn gives, until one finishes. -/
def loop (turn : σ → Token → Parser (Turn σ β)) (s : σ) : Parser β where
  run := runLoop turn s
  rest_suffix := rest_runLoop_suffix turn s
  run_significant := runLoop_significant turn s
  run_local := runLoop_local turn s

/-- A loop is its first turn and, if that does not finish it, the loop. -/
theorem loop_eq (turn : σ → Token → Parser (Turn σ β)) (s : σ) :
    loop turn s = (do
      let t ← next
      match ← turn s t with
      | .again s' => loop turn s'
      | .finish b => pure b) := by
  refine ext fun ts => ?_
  show runLoop turn s ts = _
  rw [runLoop_eq, run_bind]
  congr 1
  funext t rest
  rw [run_bind]
  congr 1
  funext r rest'
  cases r <;> rfl

end Parser

end ProtoSchema
