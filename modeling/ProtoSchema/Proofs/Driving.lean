import ProtoSchema.Proofs.Layout

/-!
# Parsers that drive a lexer

A parser reads a list of tokens.  The program that runs it has a lexer instead, asks it for one
token at a time, and takes a lexer that has nothing left to be at the end of the input, however
often it asks (`Lexer.ask`).  So a parser that asks on behind the end might never stop.

`Runs` says what such a run does: which tokens it pulls, and how many turns its loops take.  Against
it stands the run on the list of tokens.  What a run pulls, that list decides (`Runs.run_eq`,
`Runs.unique`); and the parser of files asks for nothing behind the token that ends a text
(`parseText_thrifty`).

* §1 asking a lexer, §2 runs, §3 a run and the tokens that it is given;
* §4 the turns of loops, none of which pulls nothing;
* §5 what can be run, as long as there are tokens, §6 the constructs, §7 texts.
-/

namespace ProtoSchema

open ProtoSchema.Parser ProtoSchema.Grammar

/-! ## §1 Asking -/

/-- What a lexer was asked for until there was a token that is no comment: what it gave each time,
if it had anything left, that token, and the lexer behind it. -/
structure Asked where
  pulls : List (Option Token)
  token : Token
  lexer : Lexer

namespace Lexer

/-- Ask for a token that is no comment.  A lexer that has none left is taken to be at the end of
the input, which is `size` bytes long. -/
def ask (size : Nat) (l : Lexer) : Asked :=
  match h : l.next? with
  | none => ⟨[none], ⟨.endOfInput, size, ""⟩, l⟩
  | some (t, l') =>
    have := size_lt_of_next? h
    if t.kind = .comment then
      let more := ask size l'
      { more with pulls := some t :: more.pulls }
    else ⟨[some t], t, l'⟩
termination_by l.size

end Lexer

/-! ## §2 Runs -/

/-- What a run did: what it got from the lexer, pull by pull; how often it wanted a token that is
no comment; and how many turns each of its loops took. -/
structure Trace where
  pulls : List (Option Token) := []
  asks : Nat := 0
  loops : List Nat := []

/-- An error is a fault, and any other token is what was asked for. -/
def Token.received (t : Token) : Except Fault Token :=
  if t.kind = .error then .error (.lexical t.offset t.text) else .ok t

/-- Run with a lexer, on an input of `size` bytes, a parser does what the trace says and comes to
the result, and the lexer is left where it is then.  The turns of a loop stand in front of those of
the loops within it; to skip comments is a loop as well. -/
inductive Runs (size : Nat) :
    {α : Type} → Parser α → Lexer → Trace → Except Fault α → Lexer → Prop
  | pure {α : Type} (a : α) (l : Lexer) : Runs size (Pure.pure a) l {} (.ok a) l
  | fail {α : Type} (f : Fault) (l : Lexer) :
      Runs size (Parser.fail f : Parser α) l {} (.error f) l
  | record (r : Record) (l : Lexer) : Runs size (Parser.record r) l {} (.ok ()) l
  | next (l : Lexer) :
      Runs size Parser.next l ⟨(l.ask size).pulls, 1, [(l.ask size).pulls.length]⟩
        (l.ask size).token.received (l.ask size).lexer
  | bind_error {α β : Type} {p : Parser α} {g : α → Parser β} {l l' : Lexer} {tr : Trace}
      {f : Fault} (hp : Runs size p l tr (.error f) l') :
      Runs size (p >>= g) l tr (.error f) l'
  | bind_ok {α β : Type} {p : Parser α} {g : α → Parser β} {l l' l'' : Lexer} {tr tr' : Trace}
      {a : α} {r : Except Fault β} (hp : Runs size p l tr (.ok a) l')
      (hg : Runs size (g a) l' tr' r l'') :
      Runs size (p >>= g) l
        ⟨tr.pulls ++ tr'.pulls, tr.asks + tr'.asks, tr.loops ++ tr'.loops⟩ r l''
  | loop_error {σ β : Type} {turn : σ → Token → Parser (Turn σ β)} {s : σ} {l l' : Lexer}
      {tr : Trace} {f : Fault} (hturn : Runs size (Parser.next >>= turn s) l tr (.error f) l') :
      Runs size (loop turn s) l ⟨tr.pulls, tr.asks, 1 :: tr.loops⟩ (.error f) l'
  | loop_finish {σ β : Type} {turn : σ → Token → Parser (Turn σ β)} {s : σ} {l l' : Lexer}
      {tr : Trace} {b : β} (hturn : Runs size (Parser.next >>= turn s) l tr (.ok (.finish b)) l') :
      Runs size (loop turn s) l ⟨tr.pulls, tr.asks, 1 :: tr.loops⟩ (.ok b) l'
  | loop_again {σ β : Type} {turn : σ → Token → Parser (Turn σ β)} {s s' : σ} {l l' l'' : Lexer}
      {tr : Trace} {pulls : List (Option Token)} {asks n : Nat} {loops : List Nat}
      {r : Except Fault β}
      (hturn : Runs size (Parser.next >>= turn s) l tr (.ok (.again s')) l')
      (hmore : Runs size (loop turn s') l' ⟨pulls, asks, n :: loops⟩ r l'') :
      Runs size (loop turn s) l
        ⟨tr.pulls ++ pulls, tr.asks + asks, (n + 1) :: (tr.loops ++ loops)⟩ r l''

/-! ## §3 What a run is given -/

/-- The tokens that a parser is given: those that the lexer gave, and the end of the input where it
had none. -/
def given (size : Nat) (pulls : List (Option Token)) : List Token :=
  pulls.map (·.getD ⟨.endOfInput, size, ""⟩)

theorem given_append (size : Nat) (xs ys : List (Option Token)) :
    given size (xs ++ ys) = given size xs ++ given size ys :=
  List.map_append

theorem given_map_some (size : Nat) (ts : List Token) : given size (ts.map some) = ts := by
  simp [given, Function.comp_def]

/-- Pulls take tokens off the front of those that a lexer has, and behind them there is nothing. -/
def Lexer.Gives (l : Lexer) (pulls : List (Option Token)) (l' : Lexer) : Prop :=
  ∃ n, l.tokens.map some ++ List.replicate n none = pulls ++ l'.tokens.map some

theorem Lexer.gives_nil (l : Lexer) : l.Gives [] l := ⟨0, by simp⟩

theorem Lexer.Gives.append {l l' l'' : Lexer} {xs ys : List (Option Token)} (h : l.Gives xs l')
    (h' : l'.Gives ys l'') : l.Gives (xs ++ ys) l'' := by
  obtain ⟨n, hn⟩ := h
  obtain ⟨m, hm⟩ := h'
  refine ⟨n + m, ?_⟩
  rw [← List.replicate_append_replicate, ← List.append_assoc, hn, List.append_assoc, hm,
    List.append_assoc]

theorem Lexer.gives_ask (size : Nat) (l : Lexer) :
    l.Gives (l.ask size).pulls (l.ask size).lexer := by
  fun_induction Lexer.ask size l with
  | case1 l hnext => exact ⟨1, by simp [tokens_of_next?_eq_none hnext]⟩
  | case2 l t l' hnext _ _ more ih =>
    obtain ⟨n, hn⟩ := ih
    exact ⟨n, by simp [tokens_of_next?_eq_some hnext, hn, more]⟩
  | case3 l t l' hnext => exact ⟨0, by simp [tokens_of_next?_eq_some hnext]⟩

theorem next_run_cons_comment {t : Token} (h : t.kind = .comment) (ts : List Token) :
    next.run (t :: ts) = next.run ts := by
  simp [next, pull?_cons, h]

theorem next_run_cons_of_ne {t : Token} (h : t.kind ≠ .comment) (ts : List Token) :
    next.run (t :: ts) = ⟨t.received, ts, t.record?.toList⟩ := by
  simp [next, pull?_cons, h, Token.received]

/-- Asking a lexer is pulling from the tokens that it gives. -/
theorem next_run_given_ask (size : Nat) (l : Lexer) :
    ∃ log, ∀ ts, next.run (given size (l.ask size).pulls ++ ts) =
      ⟨(l.ask size).token.received, ts, log⟩ := by
  fun_induction Lexer.ask size l with
  | case1 l hnext => exact ⟨_, next_run_cons_of_ne (by simp)⟩
  | case2 l t l' hnext _ hcomment more ih =>
    obtain ⟨log, hlog⟩ := ih
    refine ⟨log, fun ts => ?_⟩
    rw [← hlog ts]
    exact next_run_cons_comment hcomment _
  | case3 l t l' hnext _ hcomment => exact ⟨_, next_run_cons_of_ne hcomment⟩

/-- What a loop does behind a turn. -/
def afterTurn {σ β : Type} (turn : σ → Token → Parser (Turn σ β)) : Turn σ β → Parser β
  | .again s => loop turn s
  | .finish b => pure b

theorem loop_eq_bind {σ β : Type} (turn : σ → Token → Parser (Turn σ β)) (s : σ) :
    loop turn s = (next >>= turn s) >>= afterTurn turn := by
  rw [loop_eq, bind_assoc]
  congr 1
  funext t
  congr 1
  funext r
  cases r <;> rfl

section

variable {size : Nat} {α : Type} {p : Parser α} {l l' l'' : Lexer} {tr tr' : Trace}
  {r r' : Except Fault α}

theorem Runs.gives (h : Runs size p l tr r l') : l.Gives tr.pulls l' := by
  induction h with
  | pure _ l | fail _ l | record _ l => exact l.gives_nil
  | next l => exact l.gives_ask size
  | bind_error _ ih | loop_error _ ih | loop_finish _ ih => exact ih
  | bind_ok _ _ ihp ihg => exact ihp.append ihg
  | loop_again _ _ ihturn ihmore => exact ihturn.append ihmore

/-- A run is the run on the tokens that it is given, whatever stands behind them: by induction on
the run, each step of which is one of the ways to build a parser. -/
theorem Runs.run_eq (h : Runs size p l tr r l') :
    ∃ log, ∀ ts, p.run (given size tr.pulls ++ ts) = ⟨r, ts, log⟩ := by
  induction h with
  | pure | fail => exact ⟨[], fun _ => rfl⟩
  | record r => exact ⟨[r], fun _ => rfl⟩
  | next l => exact next_run_given_ask size l
  | bind_error _ ih =>
    obtain ⟨log, hrun⟩ := ih
    exact ⟨log, fun ts => run_bind_of_error (hrun ts)⟩
  | @bind_ok _ _ p g _ _ _ tr tr' a r _ _ ihp ihg =>
    obtain ⟨log, hp⟩ := ihp
    obtain ⟨log', hg⟩ := ihg
    refine ⟨log ++ log', fun ts => ?_⟩
    rw [given_append, List.append_assoc, run_bind_of_ok (hp _), hg]
  | loop_error _ ih =>
    obtain ⟨log, hrun⟩ := ih
    refine ⟨log, fun ts => ?_⟩
    rw [loop_eq_bind]
    exact run_bind_of_error (hrun ts)
  | loop_finish _ ih =>
    obtain ⟨log, hrun⟩ := ih
    refine ⟨log ++ [], fun ts => ?_⟩
    rw [loop_eq_bind, run_bind_of_ok (hrun ts), afterTurn, run_pure]
  | loop_again _ _ ihturn ihmore =>
    obtain ⟨log, hturn⟩ := ihturn
    obtain ⟨log', hmore⟩ := ihmore
    refine ⟨log ++ log', fun ts => ?_⟩
    rw [loop_eq_bind, given_append, List.append_assoc, run_bind_of_ok (hturn _), afterTurn, hmore]

/-- There is one run: what is pulled and what it comes to are decided by the parser and by the
tokens of the lexer. -/
theorem Runs.unique (h : Runs size p l tr r l') (h' : Runs size p l tr' r' l'') :
    tr.pulls = tr'.pulls ∧ r = r' := by
  obtain ⟨n, hn⟩ := h.gives
  obtain ⟨m, hm⟩ := h'.gives
  obtain ⟨log, hrun⟩ := h.run_eq
  obtain ⟨log', hrun'⟩ := h'.run_eq
  -- both runs are given the start of one and the same row of answers
  have hrow : tr.pulls ++ (l'.tokens.map some ++ List.replicate m none) =
      tr'.pulls ++ (l''.tokens.map some ++ List.replicate n none) := by
    rw [← List.append_assoc, ← hn, ← List.append_assoc, ← hm, List.append_assoc,
      List.append_assoc, List.replicate_append_replicate, List.replicate_append_replicate,
      Nat.add_comm]
  have hgiven := congrArg (given size) hrow
  rw [given_append, given_append size tr'.pulls] at hgiven
  have hout := hrun (given size (l'.tokens.map some ++ List.replicate m none))
  rw [hgiven, hrun'] at hout
  obtain ⟨hresult, hrest, -⟩ := Outcome.mk.inj hout
  have hlength := congrArg List.length hrest
  rw [given, List.length_map, given, List.length_map] at hlength
  exact ⟨(List.append_inj_left' hrow hlength.symm), hresult.symm⟩

/-! ## §4 Turns -/

/-- Every turn of a loop pulls a token, before anything else. -/
theorem Runs.pulls_ne_nil {g : Token → Parser α} (h : Runs size (Parser.next >>= g) l tr r l') :
    tr.pulls ≠ [] := by
  intro hnil
  obtain ⟨log, hrun⟩ := h.run_eq
  rw [hnil] at hrun
  have hsuffix : ((Parser.next >>= g).run [default]).rest <:+ (Parser.next.run [default]).rest :=
    Outcome.rest_bind_suffix fun t => (g t).rest_suffix _
  have hrest : ((Parser.next >>= g).run [default]).rest = [default] :=
    congrArg Outcome.rest (hrun [default])
  rw [hrest, next_run_cons_of_ne (by decide)] at hsuffix
  exact absurd (List.suffix_nil.mp hsuffix) (List.cons_ne_nil _ _)

theorem Lexer.pulls_ask_ne_nil (size : Nat) (l : Lexer) : (l.ask size).pulls ≠ [] := by
  fun_induction Lexer.ask size l with
  | case1 | case2 | case3 => exact List.cons_ne_nil _ _

/-- A run pulls at least once for each token that it wants. -/
theorem Runs.asks_le (h : Runs size p l tr r l') : tr.asks ≤ tr.pulls.length := by
  induction h with
  | pure | fail | record => exact Nat.le_refl 0
  | next l => exact List.length_pos_iff.mpr (l.pulls_ask_ne_nil size)
  | bind_error _ ih | loop_error _ ih | loop_finish _ ih => exact ih
  | bind_ok _ _ ih ih' | loop_again _ _ ih ih' =>
    dsimp only at ih ih' ⊢
    rw [List.length_append]
    exact Nat.add_le_add ih ih'

/-- A loop takes no more turns than there are pulls. -/
theorem Runs.turns_le (h : Runs size p l tr r l') : ∀ n ∈ tr.loops, n ≤ tr.pulls.length := by
  induction h with
  | pure | fail | record => exact List.forall_mem_nil _
  | next l => exact List.forall_mem_singleton.mpr (Nat.le_refl _)
  | bind_error _ ih => exact ih
  | bind_ok _ _ ihp ihg =>
    refine List.forall_mem_append.mpr ⟨fun n hn => ?_, fun n hn => ?_⟩
    · have := ihp n hn
      simp only [List.length_append]
      omega
    · have := ihg n hn
      simp only [List.length_append]
      omega
  | loop_error hturn ih | loop_finish hturn ih =>
    exact List.forall_mem_cons.mpr ⟨List.length_pos_iff.mpr hturn.pulls_ne_nil, ih⟩
  | loop_again hturn _ ihturn ihmore =>
    have hpos := List.length_pos_iff.mpr hturn.pulls_ne_nil
    obtain ⟨hn, hmore⟩ := List.forall_mem_cons.mp ihmore
    dsimp only at hn hmore
    simp only [List.length_append]
    refine List.forall_mem_cons.mpr
      ⟨by omega, List.forall_mem_append.mpr ⟨fun n hn => ?_, fun n hn => ?_⟩⟩
    · have := ihturn n hn
      omega
    · have := hmore n hn
      omega

end

/-! ## §5 Runs that stay within the tokens -/

/-- Unless the tokens of the lexer run out under it, `p` has a run, which pulls nothing but
tokens. -/
def Drives {α : Type} (p : Parser α) : Prop :=
  ∀ size l r, (p.run l.tokens).result = r → r ≠ .error noToken →
    ∃ tr l', Runs size p l tr r l' ∧ l.tokens.map some = tr.pulls ++ l'.tokens.map some

section

variable {α β σ : Type} {size : Nat} {l l' : Lexer}

/-- What the list of tokens leaves, the lexer has left. -/
theorem Runs.rest_eq {p : Parser α} {tr : Trace} {r : Except Fault α} (h : Runs size p l tr r l')
    (hpulls : l.tokens.map some = tr.pulls ++ l'.tokens.map some) :
    (p.run l.tokens).rest = l'.tokens := by
  obtain ⟨log, hrun⟩ := h.run_eq
  have hgiven := congrArg (given size) hpulls
  rw [given_append, given_map_some, given_map_some] at hgiven
  rw [hgiven, hrun]

theorem drives_pure (a : α) : Drives (pure a : Parser α) := by
  rintro size l _ rfl -
  exact ⟨{}, l, .pure a l, rfl⟩

theorem drives_fail (f : Fault) : Drives (fail f : Parser α) := by
  rintro size l _ rfl -
  exact ⟨{}, l, .fail f l, rfl⟩

theorem drives_record (r : Record) : Drives (record r) := by
  rintro size l _ rfl -
  exact ⟨{}, l, .record r l, rfl⟩

/-- A lexer that has a token other than comments gives its tokens up to there. -/
theorem map_some_tokens_eq_ask (size : Nat) (l : Lexer)
    (h : (next.run l.tokens).result ≠ .error noToken) :
    l.tokens.map some = (l.ask size).pulls ++ (l.ask size).lexer.tokens.map some ∧
      (next.run l.tokens).result = (l.ask size).token.received := by
  fun_induction Lexer.ask size l with
  | case1 l hnext =>
    rw [Lexer.tokens_of_next?_eq_none hnext] at h
    exact absurd rfl h
  | case2 l t l' hnext _ hcomment more ih =>
    rw [Lexer.tokens_of_next?_eq_some hnext, next_run_cons_comment hcomment] at h ⊢
    obtain ⟨hpulls, hresult⟩ := ih h
    exact ⟨congrArg (some t :: ·) hpulls, hresult⟩
  | case3 l t l' hnext _ hcomment =>
    rw [Lexer.tokens_of_next?_eq_some hnext, next_run_cons_of_ne hcomment]
    exact ⟨rfl, rfl⟩

theorem drives_next : Drives next := by
  rintro size l _ rfl h
  obtain ⟨hpulls, hresult⟩ := map_some_tokens_eq_ask size l h
  rw [hresult]
  exact ⟨_, _, .next l, hpulls⟩

theorem Drives.bind {p : Parser α} {g : α → Parser β} (hp : Drives p) (hg : ∀ a, Drives (g a)) :
    Drives (p >>= g) := by
  intro size l r hr hne
  rw [run_bind] at hr
  cases hres : (p.run l.tokens).result with
  | error f =>
    rw [Outcome.bind_of_error hres] at hr
    subst hr
    obtain ⟨tr, l', hruns, hpulls⟩ := hp size l (.error f) hres (by simpa using hne)
    exact ⟨tr, l', .bind_error hruns, hpulls⟩
  | ok a =>
    rw [Outcome.bind_of_ok hres] at hr
    obtain ⟨tr, l', hruns, hpulls⟩ := hp size l (.ok a) hres (by simp)
    rw [hruns.rest_eq hpulls] at hr
    obtain ⟨tr', l'', hruns', hpulls'⟩ := hg a size l' r hr hne
    refine ⟨_, l'', .bind_ok hruns hruns', ?_⟩
    rw [List.append_assoc, ← hpulls', hpulls]

/-- A loop has a run if its turns do: by induction on the tokens of the lexer, of which every turn
takes one. -/
theorem exists_runs_loop {turn : σ → Token → Parser (Turn σ β)}
    (hturn : ∀ s t, Drives (turn s t)) (s : σ) {r : Except Fault β}
    (hr : ((loop turn s).run l.tokens).result = r) (hne : r ≠ .error noToken) :
    ∃ pulls asks n loops l', Runs size (loop turn s) l ⟨pulls, asks, n :: loops⟩ r l' ∧
      l.tokens.map some = pulls ++ l'.tokens.map some := by
  induction hn : l.tokens.length using Nat.strongRecOn generalizing s l with
  | ind k ih =>
    have hbody : Drives (next >>= turn s) := drives_next.bind (hturn s)
    rw [loop_eq_bind, run_bind] at hr
    cases hres : ((next >>= turn s).run l.tokens).result with
    | error f =>
      rw [Outcome.bind_of_error hres] at hr
      subst hr
      obtain ⟨tr, l', hruns, hpulls⟩ := hbody size l (.error f) hres (by simpa using hne)
      exact ⟨_, _, _, _, l', .loop_error hruns, hpulls⟩
    | ok out =>
      rw [Outcome.bind_of_ok hres] at hr
      obtain ⟨tr, l', hruns, hpulls⟩ := hbody size l (.ok out) hres (by simp)
      rw [hruns.rest_eq hpulls] at hr
      cases out with
      | finish b =>
        subst hr
        exact ⟨_, _, _, _, l', .loop_finish hruns, hpulls⟩
      | again s' =>
        have hlt : l'.tokens.length < k := by
          have hlength := congrArg List.length hpulls
          have hpos := List.length_pos_iff.mpr hruns.pulls_ne_nil
          simp only [List.length_append, List.length_map] at hlength
          omega
        obtain ⟨pulls, asks, n, loops, l'', hmore, hpulls'⟩ := ih _ hlt s' hr rfl
        refine ⟨_, _, _, _, l'', .loop_again hruns hmore, ?_⟩
        rw [List.append_assoc, ← hpulls', hpulls]

theorem drives_loop {turn : σ → Token → Parser (Turn σ β)} (hturn : ∀ s t, Drives (turn s t))
    (s : σ) : Drives (loop turn s) := by
  intro size l r hr hne
  obtain ⟨pulls, asks, n, loops, l', hruns, hpulls⟩ := exists_runs_loop hturn s hr hne
  exact ⟨_, l', hruns, hpulls⟩

end

/-! ## §6 Constructs -/

section

variable {α : Type}

theorem drives_refuse (t : Token) (expected : Expected) :
    Drives (refuse t expected : Parser α) :=
  drives_fail _

theorem drives_expect (kind : TokenKind) : Drives (expect kind) := by
  refine drives_next.bind fun t => ?_
  split
  · exact drives_pure t
  · exact drives_refuse t _

theorem drives_typeName : Drives typeName := by
  refine drives_next.bind fun t => ?_
  split
  · exact drives_pure _
  · exact drives_refuse t _

theorem drives_optionValue : Drives optionValue := by
  refine drives_next.bind fun t => ?_
  split
  · exact drives_pure _
  · exact drives_pure _
  · exact drives_refuse t _

theorem Straight.drives {p : Parser α} (h : Straight p) : Drives p := by
  induction h with
  | pure a => exact drives_pure a
  | expect _ _ ih => exact (drives_expect _).bind ih
  | typeName _ ih => exact drives_typeName.bind ih
  | optionValue _ ih => exact drives_optionValue.bind ih

theorem drives_importDecl (keyword : Token) : Drives (importDecl keyword) := by
  refine drives_loop (fun before t => ?_) []
  unfold importTurn
  split
  · split
    · exact drives_fail _
    · exact drives_pure _
  · split
    · exact drives_fail _
    · exact drives_pure _
  · exact (drives_expect _).bind fun _ => drives_pure _
  · exact drives_refuse t _

theorem drives_packageDecl (keyword : Token) : Drives (packageDecl keyword) := by
  refine drives_loop (fun _ t => ?_) ()
  unfold packageTurn
  split
  · exact drives_pure _
  · exact drives_refuse t _
  · exact drives_pure _

theorem drives_leaf {c : Construct} (hc : c.isLeaf = true) (nested : Scope → Token → Parser Node)
    (t : Token) : Drives (c.parser nested t) := by
  rcases straight_of_leaf hc with rfl | rfl | hstraight
  · exact drives_importDecl t
  · exact drives_packageDecl t
  · exact (hstraight nested t).drives

theorem drives_members {close : TokenKind} {expected : Expected}
    {member : Token → Option (Parser Node)} (hmember : ∀ t p, member t = some p → Drives p) :
    Drives (members close expected member) := by
  refine drives_loop (fun nodes t => ?_) #[]
  unfold memberTurn
  split
  · exact drives_pure _
  · split
    · next p hp => exact (hmember t p hp).bind fun _ => drives_pure _
    · exact drives_refuse t _

theorem drives_braced {expected : Expected} {member : Token → Option (Parser Node)}
    (hmember : ∀ t p, member t = some p → Drives p)
    (build : Ident → Token → List Node → Token → Node) :
    Drives (braced expected member build) := by
  rw [braced, identifier_bind]
  exact (drives_expect _).bind fun _ => (drives_expect _).bind fun _ =>
    (drives_members hmember).bind fun _ => drives_pure _

theorem drives_service (keyword : Token) : Drives (service keyword) := by
  rw [service_eq (scope 0 0)]
  refine drives_braced (fun t p hp => ?_) _
  obtain ⟨c, hc, -, rfl⟩ := exists_construct_of_member hp
  exact drives_leaf (isLeaf_of_mem_inService c hc) _ t

theorem drives_construct {nested : Scope → Token → Parser Node}
    (hnested : ∀ kind t, Drives (nested kind t)) (c : Construct) (t : Token) :
    Drives (c.parser nested t) := by
  cases hc : c.isLeaf with
  | true => exact drives_leaf hc nested t
  | false =>
    cases c <;> simp only [Construct.isLeaf, reduceCtorEq] at hc
    case service => exact drives_service t
    case scope kind => exact hnested kind t

/-- By induction on the room: scopes hold scopes that have one room less. -/
theorem drives_scope (limit room : Nat) (kind : Scope) (keyword : Token) :
    Drives (scope limit room kind keyword) := by
  induction room generalizing kind keyword with
  | zero => exact drives_fail _
  | succ room ih =>
    rw [scope_succ]
    refine drives_braced (fun t p hp => ?_) _
    obtain ⟨c, -, -, rfl⟩ := exists_construct_of_member hp
    exact drives_construct ih c t

theorem drives_preambleToken (accepts : Token → Bool) : Drives (preambleToken accepts) := by
  refine drives_next.bind fun t => ?_
  split
  · exact drives_pure _
  · exact drives_fail _

theorem drives_preamble : Drives preamble := by
  rw [preamble_eq]
  exact (drives_preambleToken _).bind fun _ => (drives_preambleToken _).bind fun _ =>
    (drives_preambleToken _).bind fun _ => (drives_preambleToken _).bind drives_pure

theorem drives_file (limit : Nat) : Drives (file limit) := by
  refine drives_preamble.bind fun _ => (drives_members ?_).bind fun _ =>
    (drives_record _).bind fun _ => drives_pure _
  intro t p hp
  rw [declaration_eq] at hp
  obtain ⟨q, hq, rfl⟩ := Option.map_eq_some_iff.mp hp
  obtain ⟨c, -, -, rfl⟩ := exists_construct_of_member hq
  exact (drives_construct (drives_scope limit limit) c t).bind fun _ =>
    (drives_record _).bind fun _ => drives_pure _

end

/-! ## §7 Texts -/

/-- A run on the text `source` that comes to `r` keeps to the tokens of the text. -/
structure Thrifty (source : String) (tr : Trace) (r : Except Fault File) : Prop where
  /-- The tokens are pulled one after the other, and none twice. -/
  inOrder : tr.pulls <+: (tokenize source).map some
  /-- The end of the input and an error are the last that is pulled. -/
  final : ∀ before t behind, tr.pulls = before ++ some t :: behind → t.kind.isLast = true →
    behind = []
  /-- The lexer is not asked when it has nothing left. -/
  none_notMem : none ∉ tr.pulls
  /-- All are pulled if there is nothing wrong, or only the last one is. -/
  pulls_all_iff : tr.pulls = (tokenize source).map some ↔
    (∃ tree, r = .ok tree) ∨
      ∃ f last, r = .error f ∧ (tokenize source).getLast? = some last ∧ f.About last
  asks_le : tr.asks ≤ (tokenize source).length
  turns_le : ∀ n ∈ tr.loops, n ≤ (tokenize source).length

section

variable {source : String} {before : List Token} {last : Token}

theorem ne_noToken_of_parseText (source : String) : (parseText source).value ≠ .error noToken := by
  intro h
  obtain ⟨_, _, _, _, habout, _⟩ := parseText_fault_about h
  exact habout.ne_noToken rfl

/-- What the parser leaves of a text, it leaves but for comments of what is not one. -/
theorem rest_run_significant (source : String) :
    ((file nestingLimit).run (significant (tokenize source))).rest =
      significant (outcomeOf source).rest := by
  rw [(file nestingLimit).run_significant]
  rfl

/-- Where something is left, the token that ends the text is. -/
theorem rest_eq_nil_iff (htokens : tokenize source = before ++ [last])
    (hlast : last.kind.isLast = true) :
    (outcomeOf source).rest = [] ↔ significant (outcomeOf source).rest = [] := by
  constructor
  · intro h
    rw [h]
    rfl
  · intro h
    obtain ⟨used, hsuffix⟩ := (file nestingLimit).rest_suffix (tokenize source)
    have hused : used ++ (outcomeOf source).rest = before ++ [last] := hsuffix.trans htokens
    rcases List.eq_nil_or_concat (outcomeOf source).rest with hnil | ⟨rest, z, hrest⟩
    · exact hnil
    · rw [hrest, List.concat_eq_append, ← List.append_assoc] at hused
      obtain ⟨-, hz⟩ := List.append_inj' hused rfl
      obtain rfl := (List.cons.inj hz).1
      rw [hrest, List.concat_eq_append, significant_concat hlast] at h
      simp at h

theorem significant_rest_of_ok {tree : File} (h : (parseText source).value = .ok tree) :
    significant (outcomeOf source).rest = [] := by
  obtain ⟨before, last, htokens, hlast, hderives, hspan⟩ := parseText_eq_ok_iff.mp h
  have hreads := (reads_file_iff_derives (ordinary_of_tokenize htokens) hlast).mpr
    ⟨hderives, hspan⟩
  rw [← rest_run_significant, htokens, significant_concat (by rw [hlast]; rfl)]
  exact hreads.rest

/-- A text is used up if nothing is wrong with it, or its last token. -/
theorem significant_rest_eq_nil_iff (htokens : tokenize source = before ++ [last])
    (hlast : last.kind.isLast = true) :
    significant (outcomeOf source).rest = [] ↔
      (∃ tree, (parseText source).value = .ok tree) ∨
        ∃ f, (parseText source).value = .error f ∧ f.About last := by
  cases hvalue : (parseText source).value with
  | ok tree => simp [significant_rest_of_ok hvalue]
  | error f =>
    obtain ⟨used, t, rest, hsplit, habout, hrest⟩ := parseText_fault_about hvalue
    rw [rest_run_significant] at hrest
    have hend : significant (tokenize source) = significant before ++ last :: [] := by
      rw [htokens, significant_concat hlast]
    subst hrest
    constructor
    · intro hnil
      rw [hnil, hend] at hsplit
      obtain ⟨-, ht⟩ := List.append_inj' hsplit rfl
      obtain rfl := (List.cons.inj ht).1
      exact .inr ⟨f, rfl, habout⟩
    · rintro (⟨_, ⟨⟩⟩ | ⟨_, ⟨⟩, habout'⟩)
      -- the fault is about one token only, since it says where that starts
      have hoffset := habout.offset_eq.symm.trans habout'.offset_eq
      obtain ⟨rfl, rfl⟩ := (ascending_significant source).split_unique hsplit hend hoffset
      exact (List.cons.inj (List.append_cancel_left (hsplit.symm.trans hend))).2

end

/-- The parser of files has one run on a text, which comes to what the text is read as, and keeps
to the tokens of the text. -/
theorem parseText_thrifty (source : String) :
    (∃ tr l, Runs source.utf8ByteSize (file nestingLimit) (Lexer.ofString source) tr
      (parseText source).value l) ∧
    ∀ tr r l, Runs source.utf8ByteSize (file nestingLimit) (Lexer.ofString source) tr r l →
      r = (parseText source).value ∧ Thrifty source tr r := by
  obtain ⟨tr, l, hruns, hpulls⟩ := drives_file nestingLimit source.utf8ByteSize
    (Lexer.ofString source) (parseText source).value rfl (ne_noToken_of_parseText source)
  refine ⟨⟨tr, l, hruns⟩, fun tr' r l' hruns' => ?_⟩
  obtain ⟨hsame, rfl⟩ := hruns.unique hruns'
  have hrest : (outcomeOf source).rest = l.tokens := hruns.rest_eq hpulls
  change (tokenize source).map some = _ at hpulls
  rw [hsame] at hpulls
  obtain ⟨before, last, htokens, hlast, hbefore⟩ := (stream_tokenize source).exists_last
  have hlength : tr'.pulls.length ≤ (tokenize source).length := by
    have := congrArg List.length hpulls
    simp only [List.length_append, List.length_map] at this
    omega
  refine ⟨rfl, ?_⟩
  constructor
  case inOrder => exact ⟨_, hpulls.symm⟩
  case final =>
    intro front t behind hsplit ht
    have hgiven := congrArg (given 0) hpulls
    rw [given_map_some, hsplit, htokens, given_append, given_append, List.append_assoc] at hgiven
    obtain ⟨-, -, hbehind⟩ := append_singleton_inj hgiven.symm ht hbefore
    exact List.map_eq_nil_iff.mp (List.append_eq_nil_iff.mp hbehind).1
  case none_notMem =>
    intro hnone
    have hmem : none ∈ (tokenize source).map some := hpulls ▸ List.mem_append_left _ hnone
    simp at hmem
  case pulls_all_iff =>
    have hall : tr'.pulls = (tokenize source).map some ↔ (outcomeOf source).rest = [] := by
      rw [hpulls, hrest, List.self_eq_append_right, List.map_eq_nil_iff]
    rw [hall, rest_eq_nil_iff htokens hlast, significant_rest_eq_nil_iff htokens hlast]
    simp [htokens]
  case asks_le => exact Nat.le_trans hruns'.asks_le hlength
  case turns_le => exact fun n hn => Nat.le_trans (hruns'.turns_le n hn) hlength

/-- A package declaration skips any token, but not the end of the input. -/
def unendedPackage : String := "syntax=\"proto3\";package a.b import"

theorem unendedPackage_thrifty :
    ∃ tr l, Runs 34 (file nestingLimit) (Lexer.ofString unendedPackage) tr
        (.error (.unexpected 34 "';'" "EOF")) l ∧
      tr.pulls = (tokenize unendedPackage).map some ∧ ∀ n ∈ tr.loops, n ≤ 8 := by
  have hvalue : (parseText unendedPackage).value = .error (.unexpected 34 "';'" "EOF") := by
    decide +kernel
  have hlength : (tokenize unendedPackage).length = 8 := by decide +kernel
  obtain ⟨⟨tr, l, hruns⟩, hall⟩ := parseText_thrifty unendedPackage
  obtain ⟨-, hthrifty⟩ := hall tr _ l hruns
  rw [hvalue] at hruns hthrifty
  refine ⟨tr, l, hruns, hthrifty.pulls_all_iff.mpr (.inr ⟨_, ⟨.endOfInput, 34, ""⟩, rfl, ?_, ?_⟩),
    hlength ▸ hthrifty.turns_le⟩
  · decide +kernel
  · exact .unexpected (by decide) (.kind .semicolon)

end ProtoSchema
