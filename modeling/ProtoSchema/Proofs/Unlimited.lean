import ProtoSchema.Proofs.Blame

/-!
# The limit on nesting

Reading without a limit is reading with more room than there are tokens: no scope takes up less
than one, so the room is never used up (`run_scope_eq`), and what is read is the scope of the
grammar with itself inside (`openScope_eq`).

The limit changes one thing about it.  Where reading without a limit comes to the keyword of a scope
with as many scopes open as the limit allows (`Reaches`), reading with the limit stops for that
keyword; and it does nothing else otherwise (`parseText_eq_unlimited_or`).

* §1 parsers that agree on short streams, §2 scopes without a limit;
* §3 the keywords that are reached, §4 the limit against no limit;
* §5 texts.
-/

namespace ProtoSchema

open ProtoSchema.Parser ProtoSchema.Grammar

/-! ## §1 Short streams -/

section

variable {α β σ : Type} {n : Nat}

theorem Outcome.bind_congr {out : Outcome α} {go go' : α → List Token → Outcome β}
    (h : ∀ a, out.result = .ok a → go a out.rest = go' a out.rest) :
    out.bind go = out.bind go' := by
  cases hres : out.result with
  | error f => rw [bind_of_error hres, bind_of_error hres]
  | ok a => rw [bind_of_ok hres, bind_of_ok hres, h a hres]

/-- On streams of less than `n` tokens, the two parsers do the same. -/
def AgreeBelow (n : Nat) (p q : Parser α) : Prop := ∀ ts, ts.length < n → p.run ts = q.run ts

theorem AgreeBelow.refl (n : Nat) (p : Parser α) : AgreeBelow n p p := fun _ _ => rfl

theorem AgreeBelow.bind {p q : Parser α} (h : AgreeBelow n p q) {f g : α → Parser β}
    (hf : ∀ a, AgreeBelow n (f a) (g a)) : AgreeBelow n (p >>= f) (q >>= g) := by
  intro ts hts
  rw [run_bind, run_bind, h ts hts]
  apply Outcome.bind_congr
  intro a _
  exact hf a _ (Nat.lt_of_le_of_lt (q.rest_suffix ts).length_le hts)

/-- A loop takes a token before its turns, which so have shorter streams. -/
theorem agreeBelow_loop {turn turn' : σ → Token → Parser (Turn σ β)}
    (h : ∀ s t, AgreeBelow n (turn s t) (turn' s t)) (s : σ) :
    AgreeBelow (n + 1) (loop turn s) (loop turn' s) := by
  intro ts hts
  show runLoop turn s ts = runLoop turn' s ts
  induction hn : ts.length using Nat.strongRecOn generalizing s ts with
  | ind k ih =>
    rw [runLoop_eq, runLoop_eq]
    apply Outcome.bind_congr
    intro t ht
    have hlt := length_rest_next_lt ht
    have hlt' := length_rest_turn_lt turn' (s := s) ht
    rw [h s t _ (by omega)]
    apply Outcome.bind_congr
    rintro (s' | b) -
    · exact ih _ (by omega) s' _ (by omega) rfl
    · rfl

theorem agreeBelow_members {close : TokenKind} {expected : Expected}
    {member member' : Token → Option (Parser Node)}
    (h : ∀ t, Option.Rel (AgreeBelow n) (member t) (member' t)) :
    AgreeBelow (n + 1) (members close expected member) (members close expected member') := by
  refine agreeBelow_loop ?_ #[]
  intro nodes t
  unfold memberTurn
  split
  · exact .refl n _
  · generalize member t = p, member' t = q, h t = hpq
    cases hpq with
    | none => exact .refl n _
    | some hpq => exact hpq.bind fun _ => .refl n _

end

/-! ## §2 Scopes without a limit -/

theorem agreeBelow_member {n : Nat} {nested nested' : Scope → Token → Parser Node}
    (h : ∀ kind t, AgreeBelow n (nested kind t) (nested' kind t)) (place : Place) (t : Token) :
    Option.Rel (AgreeBelow n) (place.member nested t) (place.member nested' t) := by
  rw [Place.member, Place.member]
  cases place.admits.find? fun c => t.kind ∈ c.starts with
  | none => exact .none
  | some c =>
    refine .some ?_
    cases c with
    | scope kind => exact h kind t
    | _ => exact .refl n _

theorem agreeBelow_braced {n : Nat} {expected : Expected} {place : Place}
    {nested nested' : Scope → Token → Parser Node}
    (h : ∀ kind t, AgreeBelow n (nested kind t) (nested' kind t))
    (build : Ident → Token → List Node → Token → Node) :
    AgreeBelow (n + 1) (braced expected (place.member nested) build)
      (braced expected (place.member nested') build) := by
  refine (AgreeBelow.refl _ _).bind fun name => (AgreeBelow.refl _ _).bind fun _ => ?_
  exact (agreeBelow_members (agreeBelow_member h _)).bind fun _ => .refl _ _

/-- Room for more scopes than there are tokens is never used up. -/
theorem agreeBelow_scope {n limit limit' room room' : Nat} (h : n ≤ room) (h' : n ≤ room')
    (kind : Scope) (keyword : Token) :
    AgreeBelow n (scope limit room kind keyword) (scope limit' room' kind keyword) := by
  induction n generalizing room room' kind keyword with
  | zero =>
    intro ts hts
    cases hts
  | succ n ih =>
    obtain ⟨room, rfl⟩ := Nat.exists_eq_add_of_le' h
    obtain ⟨room', rfl⟩ := Nat.exists_eq_add_of_le' h'
    rw [← Nat.add_assoc, ← Nat.add_assoc, scope_succ, scope_succ]
    exact agreeBelow_braced (ih (by omega) (by omega)) _

theorem run_scope_eq {limit limit' room room' : Nat} {ts : List Token} (h : ts.length < room)
    (h' : ts.length < room') (kind : Scope) (keyword : Token) :
    (scope limit room kind keyword).run ts = (scope limit' room' kind keyword).run ts :=
  agreeBelow_scope (n := ts.length + 1) h h' kind keyword ts (Nat.lt_succ_self _)

/-- A scope with room for as many scopes in it as there are tokens. -/
def openScope (kind : Scope) (keyword : Token) : Parser Node where
  run ts := (scope 0 (ts.length + 1) kind keyword).run ts
  rest_suffix ts := (scope 0 (ts.length + 1) kind keyword).rest_suffix ts
  run_significant ts := by
    have hle : (significant ts).length ≤ ts.length := List.length_filter_le _ _
    have hroom : (scope 0 ((significant ts).length + 1) kind keyword).run (significant ts) =
        (scope 0 (ts.length + 1) kind keyword).run (significant ts) :=
      run_scope_eq (Nat.lt_succ_self _) (Nat.lt_succ_of_le hle) kind keyword
    rw [hroom, run_significant]
  run_local used rest := by
    intro hrest hsettled rest'
    -- room that is enough for both streams
    let room := (used ++ rest).length + (used ++ rest').length + 1
    have hroom : (scope 0 ((used ++ rest).length + 1) kind keyword).run (used ++ rest) =
        (scope 0 room kind keyword).run (used ++ rest) :=
      run_scope_eq (by omega) (by omega) kind keyword
    have hroom' : (scope 0 ((used ++ rest').length + 1) kind keyword).run (used ++ rest') =
        (scope 0 room kind keyword).run (used ++ rest') :=
      run_scope_eq (by omega) (by omega) kind keyword
    dsimp only at hrest hsettled ⊢
    rw [hroom] at hrest hsettled ⊢
    rw [hroom']
    exact (scope 0 room kind keyword).run_local used rest hrest hsettled rest'

/-- Reading a scope without a limit is reading what the grammar says, with the scopes in it read
without a limit. -/
theorem openScope_eq (kind : Scope) (keyword : Token) :
    openScope kind keyword =
      braced (.member kind) ((Place.inScope kind).member openScope) (scopeNode kind keyword) := by
  refine Parser.ext fun ts => ?_
  show (scope 0 (ts.length + 1) kind keyword).run ts = _
  rw [scope_succ]
  refine agreeBelow_braced (n := ts.length) ?_ _ ts (Nat.lt_succ_self _)
  intro kind' t us hus
  show _ = (scope 0 (us.length + 1) kind' t).run us
  exact run_scope_eq hus (Nat.lt_succ_self _) kind' t

theorem reads_openScope {kind : Scope} {keyword : Token} {used : List Token} {n : Node} :
    (openScope kind keyword).Reads used n ↔
      ∃ name opening inner closing nodes, used = name :: opening :: (inner ++ [closing]) ∧
        name.kind = .identifier ∧ opening.kind = .leftBrace ∧ closing.kind = .rightBrace ∧
        Series ((Place.inScope kind).member openScope) inner nodes ∧
        n = .scope kind name.ident nodes (keyword.spanTo closing) := by
  rw [openScope_eq]
  exact reads_braced

/-! ## §3 Keywords that are reached -/

/-- Reading the members of a place without a limit, from the first of some tokens on, comes to the
keyword `t` of a scope that may stand there, behind the tokens `before`.  On the way `depth` scopes
have been opened that are not closed yet. -/
inductive Reaches : Place → (depth : Nat) → List Token → (before : List Token) → Token → Prop
  | here {place : Place} {kind : Scope} {t : Token} {rest : List Token}
      (hadmits : .scope kind ∈ place.admits) (hkeyword : t.kind = .keyword kind.keyword) :
      Reaches place 0 (t :: rest) [] t
  /-- What has been read as a member is closed again. -/
  | past {place : Place} {depth : Nat} {k t : Token} {used rest before : List Token}
      {p : Parser Node} {n : Node} (hmember : place.member openScope k = some p)
      (hreads : p.Reads used n) (hrest : Reaches place depth rest before t) :
      Reaches place depth (k :: (used ++ rest)) (k :: (used ++ before)) t
  /-- A scope is open behind its brace. -/
  | inside {place : Place} {kind : Scope} {depth : Nat} {k name opening t : Token}
      {rest before : List Token} (hadmits : .scope kind ∈ place.admits)
      (hkeyword : k.kind = .keyword kind.keyword) (hname : name.kind = .identifier)
      (hopening : opening.kind = .leftBrace)
      (hrest : Reaches (.inScope kind) depth rest before t) :
      Reaches place (depth + 1) (k :: name :: opening :: rest) (k :: name :: opening :: before) t

/-- In the message, one scope is open. -/
example : ∃ before, Reaches .file 1 (tokenize "message A\x7benum") before
    ⟨.keyword .enumKw, 10, "enum"⟩ := by
  rw [show tokenize "message A\x7benum" = [⟨.keyword .messageKw, 0, "message"⟩,
    ⟨.identifier, 8, "A"⟩, ⟨.leftBrace, 9, "\x7b"⟩, ⟨.keyword .enumKw, 10, "enum"⟩,
    ⟨.endOfInput, 14, ""⟩] by decide +kernel]
  exact ⟨_, .inside (show .scope .message ∈ Place.file.admits by decide) rfl rfl rfl
    (.here (show .scope .enum ∈ (Place.inScope .message).admits by decide) rfl)⟩

/-- The part of `Reaches` that is about the first member, which the token `k` starts. -/
inductive ReachesIn (place : Place) (k : Token) :
    (depth : Nat) → List Token → (before : List Token) → Token → Prop
  | here {kind : Scope} {rest : List Token} (hadmits : .scope kind ∈ place.admits)
      (hkeyword : k.kind = .keyword kind.keyword) : ReachesIn place k 0 rest [] k
  | inside {kind : Scope} {depth : Nat} {name opening t : Token} {rest before : List Token}
      (hadmits : .scope kind ∈ place.admits) (hkeyword : k.kind = .keyword kind.keyword)
      (hname : name.kind = .identifier) (hopening : opening.kind = .leftBrace)
      (hrest : Reaches (.inScope kind) depth rest before t) :
      ReachesIn place k (depth + 1) (name :: opening :: rest) (k :: name :: opening :: before) t

theorem reaches_cons {place : Place} {depth : Nat} {k t : Token} {rest before : List Token} :
    Reaches place depth (k :: rest) before t ↔
      ReachesIn place k depth rest before t ∨
      ∃ p used rest' n before', place.member openScope k = some p ∧ p.Reads used n ∧
        rest = used ++ rest' ∧ before = k :: (used ++ before') ∧
        Reaches place depth rest' before' t := by
  constructor
  · intro h
    cases h with
    | here hadmits hkeyword => exact .inl (.here hadmits hkeyword)
    | past hmember hreads hrest => exact .inr ⟨_, _, _, _, _, hmember, hreads, rfl, rfl, hrest⟩
    | inside hadmits hkeyword hname hopening hrest =>
      exact .inl (.inside hadmits hkeyword hname hopening hrest)
  · rintro (h | ⟨p, used, rest', n, before', hmember, hreads, rfl, rfl, hrest⟩)
    · cases h with
      | here hadmits hkeyword => exact .here hadmits hkeyword
      | inside hadmits hkeyword hname hopening hrest =>
        exact .inside hadmits hkeyword hname hopening hrest
    · exact .past hmember hreads hrest

theorem Scope.keyword_inj {kind kind' : Scope}
    (h : TokenKind.keyword kind.keyword = .keyword kind'.keyword) : kind = kind' := by
  cases kind <;> cases kind' <;> first | rfl | cases h

theorem member_scope {place : Place} {kind : Scope} {k : Token}
    (hadmits : .scope kind ∈ place.admits) (hkeyword : k.kind = .keyword kind.keyword)
    (nested : Scope → Token → Parser Node) : place.member nested k = some (nested kind k) :=
  member_eq_some hadmits (by simp [Construct.starts, hkeyword]) nested

/-- A token that starts no member is the first of no tokens from which a keyword is reached. -/
theorem not_reaches_of_member_eq_none {place : Place} {depth : Nat} {k t : Token}
    {rest before : List Token} (h : place.member openScope k = none) :
    ¬ Reaches place depth (k :: rest) before t := by
  intro hreaches
  cases hreaches with
  | here hadmits hkeyword | inside hadmits hkeyword _ _ _ =>
    rw [member_scope hadmits hkeyword] at h
    cases h
  | past hmember _ _ =>
    rw [hmember] at h
    cases h

theorem Reaches.keyword {place : Place} {depth : Nat} {ts before : List Token} {t : Token}
    (h : Reaches place depth ts before t) : ∃ kind : Scope, t.kind = .keyword kind.keyword := by
  induction h with
  | here _ hkeyword => exact ⟨_, hkeyword⟩
  | past _ _ _ ih => exact ih
  | inside _ _ _ _ _ ih => exact ih

theorem Reaches.exists_split {place : Place} {depth : Nat} {ts before : List Token} {t : Token}
    (h : Reaches place depth ts before t) : ∃ rest, ts = before ++ t :: rest := by
  induction h with
  | here => exact ⟨_, rfl⟩
  | past _ _ _ ih =>
    obtain ⟨rest, rfl⟩ := ih
    exact ⟨rest, by simp⟩
  | inside _ _ _ _ _ ih =>
    obtain ⟨rest, rfl⟩ := ih
    exact ⟨rest, rfl⟩

/-- Nothing behind the keyword decides whether it is reached. -/
theorem Reaches.before_any {place : Place} {depth : Nat} {ts before : List Token} {t : Token}
    (h : Reaches place depth ts before t) (rest : List Token) :
    Reaches place depth (before ++ t :: rest) before t := by
  induction h with
  | here hadmits hkeyword => exact .here hadmits hkeyword
  | past hmember hreads _ ih =>
    rw [List.cons_append, List.append_assoc]
    exact .past hmember hreads ih
  | inside hadmits hkeyword hname hopening _ ih =>
    exact .inside hadmits hkeyword hname hopening ih

/-- What is reached from the start of a series is reached before its end. -/
theorem Reaches.length_lt {place : Place} {depth : Nat} {ts before : List Token} {t : Token}
    (h : Reaches place depth ts before t) {body rest : List Token} {closing : Token}
    {ns : List Node} (hts : ts = body ++ closing :: rest)
    (hbody : Series (place.member openScope) body ns)
    (hclosing : place.member openScope closing = none) : before.length < body.length := by
  induction h generalizing body rest closing ns with
  | here hadmits hkeyword =>
    cases hbody with
    | nil =>
      obtain ⟨rfl, -⟩ := List.cons.inj hts
      rw [member_scope hadmits hkeyword] at hclosing
      cases hclosing
    | cons => simp
  | @past place depth k t used rest₁ before p n hmember hreads _ ih =>
    cases hbody with
    | nil =>
      obtain ⟨rfl, -⟩ := List.cons.inj hts
      rw [hmember] at hclosing
      cases hclosing
    | @cons _ u body' p' n' ns' hmember' _ _ hreads' hbody' =>
      rw [List.cons_append] at hts
      obtain ⟨rfl, htail⟩ := List.cons.inj hts
      obtain rfl := Option.some.inj (hmember.symm.trans hmember')
      rw [List.append_assoc] at htail
      obtain ⟨rfl, hrest⟩ := hreads.append_inj hreads' htail
      have := ih hrest hbody' hclosing
      simp only [List.length_cons, List.length_append]
      omega
  | @inside place kind depth k name opening t rest₁ before hadmits hkeyword _ _ _ ih =>
    cases hbody with
    | nil =>
      obtain ⟨rfl, -⟩ := List.cons.inj hts
      rw [member_scope hadmits hkeyword] at hclosing
      cases hclosing
    | @cons _ u body' p' n' ns' hmember' _ _ hreads' hbody' =>
      rw [List.cons_append] at hts
      obtain ⟨rfl, htail⟩ := List.cons.inj hts
      rw [member_scope hadmits hkeyword] at hmember'
      obtain rfl := Option.some.inj hmember'
      obtain ⟨name', opening', inner, closing', nodes, rfl, -, -, hclosing', hinner, -⟩ :=
        reads_openScope.mp hreads'
      simp only [List.cons_append, List.append_assoc, List.nil_append, List.cons.injEq] at htail
      have := ih htail.2.2 hinner (member_eq_none (.inl hclosing'))
      simp only [List.length_cons, List.length_append]
      omega

/-- What is reached in a member is reached before its end. -/
theorem ReachesIn.length_le {place : Place} {k : Token} {depth : Nat} {rest before : List Token}
    {t : Token} (h : ReachesIn place k depth rest before t) {p : Parser Node}
    {used rest' : List Token} {n : Node} (hmember : place.member openScope k = some p)
    (hreads : p.Reads used n) (hrest : rest = used ++ rest') : before.length ≤ used.length := by
  cases h with
  | here => exact Nat.zero_le _
  | inside hadmits hkeyword _ _ hinside =>
    rw [member_scope hadmits hkeyword] at hmember
    obtain rfl := Option.some.inj hmember
    obtain ⟨name', opening', inner, closing, nodes, rfl, -, -, hclosing, hinner, -⟩ :=
      reads_openScope.mp hreads
    simp only [List.cons_append, List.append_assoc, List.cons.injEq] at hrest
    have := hinside.length_lt hrest.2.2 hinner (member_eq_none (.inl hclosing))
    simp only [List.length_cons, List.length_append]
    omega

/-! ## §4 The limit against no limit -/

section

variable {α β : Type} {limit : Nat} {reaches reaches' : List Token → Token → Prop}

/-- How a run with the limit goes, when `free` is the run without it: like that one, if no keyword
is reached, and else it fails for the first one. -/
inductive Limited (limit : Nat) (reaches : List Token → Token → Prop) (out free : Outcome α) : Prop
  | same (hnone : ∀ before t, ¬ reaches before t) (h : out = free)
  | refused {before : List Token} {t : Token} (hreaches : reaches before t)
      (hfirst : ∀ before' t', reaches before' t' → before.length ≤ before'.length)
      (h : out.result = .error (.nestingTooDeep t.offset limit))

theorem Outcome.result_bind_of_error {out : Outcome α} {f : Fault} (h : out.result = .error f)
    (go : α → List Token → Outcome β) : (out.bind go).result = .error f := by
  rw [bind_of_error h]

theorem Limited.bind {out free : Outcome α} (h : Limited limit reaches out free)
    (go : α → List Token → Outcome β) : Limited limit reaches (out.bind go) (free.bind go) := by
  cases h with
  | same hnone h => exact .same hnone (by rw [h])
  | refused hreaches hfirst h => exact .refused hreaches hfirst (Outcome.result_bind_of_error h go)

/-- What is the same in front of two runs can be left out. -/
theorem Limited.behind {out : Outcome α} {a : α} (hout : out.result = .ok a)
    {go go' : α → List Token → Outcome β}
    (h : Limited limit reaches (go a out.rest) (go' a out.rest)) :
    Limited limit reaches (out.bind go) (out.bind go') := by
  rw [Outcome.bind_of_ok hout, Outcome.bind_of_ok hout]
  cases h with
  | same hnone h => exact .same hnone (by rw [h])
  | refused hreaches hfirst h => exact .refused hreaches hfirst h

/-- Some tokens in front of all that is reached change nothing. -/
theorem Limited.of_append {out free : Outcome α} (h : Limited limit reaches out free)
    (front : List Token)
    (hfront : ∀ before t, reaches' before t ↔ ∃ b, before = front ++ b ∧ reaches b t) :
    Limited limit reaches' out free := by
  cases h with
  | same hnone h =>
    refine .same ?_ h
    intro before t hreaches
    obtain ⟨b, -, hb⟩ := (hfront before t).mp hreaches
    exact hnone b t hb
  | @refused before t hreaches hfirst h =>
    refine .refused ((hfront _ t).mpr ⟨before, rfl, hreaches⟩) ?_ h
    intro before' t' hreaches'
    obtain ⟨b, rfl, hb⟩ := (hfront before' t').mp hreaches'
    have := hfirst b t' hb
    simp only [List.length_append]
    omega

end

/-- The front of a scope: its name and its brace. -/
def bracedHead : Parser (Ident × Token) := do
  let name ← identifier
  let opening ← expect .leftBrace
  return (name, opening)

theorem reads_bracedHead {used : List Token} {head : Ident × Token} :
    bracedHead.Reads used head ↔ ∃ name opening, used = [name, opening] ∧
      name.kind = .identifier ∧ opening.kind = .leftBrace ∧ head = (name.ident, opening) := by
  simp only [bracedHead, reads_identifier_bind, reads_expect_bind, reads_pure, ne_eq, reduceCtorEq,
    not_false_eq_true]
  constructor
  · rintro ⟨name, _, rfl, hname, opening, _, rfl, hopening, rfl, rfl⟩
    exact ⟨name, opening, rfl, hname, hopening, rfl⟩
  · rintro ⟨name, opening, rfl, hname, hopening, rfl⟩
    exact ⟨name, _, rfl, hname, opening, _, rfl, hopening, rfl, rfl⟩

theorem braced_eq (expected : Expected) (member : Token → Option (Parser Node))
    (build : Ident → Token → List Node → Token → Node) :
    braced expected member build = bracedHead >>= fun head =>
      members .rightBrace expected member >>= fun r => pure (build head.1 head.2 r.1 r.2) := by
  simp only [bracedHead, bind_assoc, Parser.pure_bind]
  rfl

/-- A scope is limited if its members are, with one room less. -/
theorem limited_scope {limit room : Nat} {place : Place} {kind : Scope} {k : Token}
    {rest : List Token} (hrest : ∀ t ∈ rest, t.kind ≠ .comment)
    (hadmits : .scope kind ∈ place.admits) (hkeyword : k.kind = .keyword kind.keyword)
    (hmembers : ∀ inner, inner.length < rest.length → (∀ t ∈ inner, t.kind ≠ .comment) →
      Limited limit (Reaches (.inScope kind) room inner)
        ((members .rightBrace (.member kind)
          ((Place.inScope kind).member (scope limit room))).run inner)
        ((members .rightBrace (.member kind) ((Place.inScope kind).member openScope)).run inner)) :
    Limited limit (ReachesIn place k (room + 1) rest)
      ((scope limit (room + 1) kind k).run rest) ((openScope kind k).run rest) := by
  rw [scope_succ, openScope_eq, braced_eq, braced_eq, run_bind, run_bind]
  cases hhead : (bracedHead.run rest).result with
  | error f =>
    refine .same ?_ (by rw [Outcome.bind_of_error hhead, Outcome.bind_of_error hhead])
    intro before t h
    -- the keyword would be reached behind the front of the scope, which cannot be read
    cases h with
    | @inside _ _ name opening _ inner _ _ _ hname hopening _ =>
      have hreads := reads_bracedHead.mpr ⟨name, opening, rfl, hname, hopening, rfl⟩
      have hok := (hreads.run_append inner).1
      rw [List.cons_append, List.cons_append, List.nil_append, hhead] at hok
      cases hok
  | ok i =>
    obtain ⟨used, hsplit, hreads⟩ := exists_reads hrest hhead
    obtain ⟨name, opening, rfl, hname, hopening, -⟩ := reads_bracedHead.mp hreads
    refine Limited.behind hhead (Limited.bind ?_ _)
    generalize (bracedHead.run rest).rest = inner at hsplit
    subst hsplit
    have hshorter : inner.length < ([name, opening] ++ inner).length := by
      simp only [List.length_append, List.length_cons]
      omega
    refine (hmembers inner hshorter ?_).of_append [k, name, opening] ?_
    · intro t ht
      exact hrest t (by simp [ht])
    · intro before t
      constructor
      · intro h
        cases h with
        | @inside kind' _ _ _ _ _ before _ hkeyword' _ _ hinside =>
          obtain rfl := Scope.keyword_inj (hkeyword'.symm.trans hkeyword)
          exact ⟨before, rfl, hinside⟩
      · rintro ⟨b, rfl, hb⟩
        exact .inside hadmits hkeyword hname hopening hb

/-- In a construct that is no scope, no keyword is reached. -/
theorem not_reachesIn {place : Place} {c : Construct} (hadmits : c ∈ place.admits)
    (hc : ∀ kind, c ≠ .scope kind) {k : Token} (hstarts : k.kind ∈ c.starts) {depth : Nat}
    {rest before : List Token} {t : Token} : ¬ ReachesIn place k depth rest before t := by
  have hfind := find?_admits place c hadmits k.kind hstarts
  intro h
  cases h with
  | @here kind _ hadmits' hkeyword | @inside kind _ _ _ _ _ _ hadmits' hkeyword _ _ _ =>
    have hfind' := find?_admits place _ hadmits' k.kind (by simp [Construct.starts, hkeyword])
    exact hc kind (Option.some.inj (hfind.symm.trans hfind'))

section

variable {limit room : Nat} {place : Place} {k : Token} {rest : List Token}

theorem limited_construct {c : Construct} (hrest : ∀ t ∈ rest, t.kind ≠ .comment)
    (hadmits : c ∈ place.admits) (hstarts : k.kind ∈ c.starts)
    (hmembers : ∀ kind room' inner, inner.length < rest.length →
      (∀ t ∈ inner, t.kind ≠ .comment) →
      Limited limit (Reaches (.inScope kind) room' inner)
        ((members .rightBrace (.member kind)
          ((Place.inScope kind).member (scope limit room'))).run inner)
        ((members .rightBrace (.member kind) ((Place.inScope kind).member openScope)).run inner)) :
    Limited limit (ReachesIn place k room rest) ((c.parser (scope limit room) k).run rest)
      ((c.parser openScope k).run rest) := by
  cases c with
  | scope kind =>
    have hkeyword : k.kind = .keyword kind.keyword := by simpa [Construct.starts] using hstarts
    cases room with
    | zero => exact .refused (.here hadmits hkeyword) (fun _ _ _ => Nat.zero_le _) rfl
    | succ room => exact limited_scope hrest hadmits hkeyword (hmembers kind room)
  | _ => exact .same (fun _ _ => not_reachesIn hadmits (by simp) hstarts) rfl

/-- If the first member is limited, and what follows it is, then both together are. -/
theorem limited_member {p q : Parser Node} (hmember : place.member openScope k = some q)
    (hrest : ∀ t ∈ rest, t.kind ≠ .comment)
    (hfirst : Limited limit (ReachesIn place k room rest) (p.run rest) (q.run rest))
    {β : Type} {go go' : Node → List Token → Outcome β}
    (hgo : ∀ n used left, rest = used ++ left → q.Reads used n →
      Limited limit (Reaches place room left) (go n left) (go' n left)) :
    Limited limit (Reaches place room (k :: rest)) ((p.run rest).bind go)
      ((q.run rest).bind go') := by
  cases hfirst with
  | refused hreaches hleast h =>
    refine .refused (reaches_cons.mpr (.inl hreaches)) ?_ (Outcome.result_bind_of_error h go)
    intro before' t' h'
    rcases reaches_cons.mp h' with h' | ⟨q', used, left, n, b, hq', hreads, hsplit, rfl, -⟩
    · exact hleast before' t' h'
    · have := hreaches.length_le hq' hreads hsplit
      simp only [List.length_cons, List.length_append]
      omega
  | same hnone h =>
    rw [h]
    cases hq : (q.run rest).result with
    | error f =>
      refine .same ?_ (by rw [Outcome.bind_of_error hq, Outcome.bind_of_error hq])
      intro before t hreaches
      rcases reaches_cons.mp hreaches with
        hreaches | ⟨q', used, left, n, b, hq', hreads, rfl, rfl, -⟩
      · exact hnone before t hreaches
      · obtain rfl := Option.some.inj (hmember.symm.trans hq')
        have hok := (hreads.run_append left).1
        rw [hq] at hok
        cases hok
    | ok n =>
      obtain ⟨used, hsplit, hreads⟩ := exists_reads hrest hq
      refine Limited.behind hq ((hgo n used _ hsplit hreads).of_append (k :: used) ?_)
      intro before t
      rw [reaches_cons, or_iff_right (hnone before t)]
      constructor
      · rintro ⟨q', used', left, n', b, hq', hreads', hsplit', rfl, hb⟩
        obtain rfl := Option.some.inj (hmember.symm.trans hq')
        obtain ⟨rfl, rfl⟩ := hreads'.append_inj hreads (hsplit'.symm.trans hsplit)
        exact ⟨b, rfl, hb⟩
      · rintro ⟨b, rfl, hb⟩
        exact ⟨q, used, _, n, b, hmember, hreads, hsplit, rfl, hb⟩

end

theorem ordinary_of_member {place : Place} {nested : Scope → Token → Parser Node} {k : Token}
    {p : Parser Node} (h : place.member nested k = some p) : k.Ordinary := by
  obtain ⟨c, -, hstarts, -⟩ := exists_construct_of_member h
  exact ordinary_of_starts hstarts

/-- Whether a token starts a member does not depend on how scopes are read. -/
theorem member_eq_none_iff {place : Place} (nested nested' : Scope → Token → Parser Node)
    {k : Token} : place.member nested k = none ↔ place.member nested' k = none := by
  rw [Place.member, Place.member, Option.map_eq_none_iff, Option.map_eq_none_iff]

section

variable {close : TokenKind} {expected : Expected} {member member' : Token → Option (Parser Node)}
  {nodes : Array Node} {k : Token} {rest : List Token}

/-- A loop that comes to a member reads it, and is the loop again. -/
theorem run_members_of_some (hcomment : k.kind ≠ .comment) (herror : k.kind ≠ .error)
    (hclose : k.kind ≠ close) {p : Parser Node} (hmember : member k = some p) :
    (loop (memberTurn close expected member) nodes).run (k :: rest) =
      (p >>= fun n => loop (memberTurn close expected member) (nodes.push n)).run rest := by
  have hturn : memberTurn close expected member nodes k = p >>= fun n =>
      pure (.again (nodes.push n)) := by
    simp only [memberTurn, if_neg hclose, hmember]
  show runLoop _ nodes (k :: rest) = _
  rw [runLoop_eq, next_run_cons hcomment herror rest, Outcome.bind_of_ok rfl]
  simp only [hturn, run_bind, List.nil_append]
  cases hp : (p.run rest).result with
  | error f =>
    simp only [Outcome.bind_of_error hp]
    rfl
  | ok n =>
    simp only [Outcome.bind_of_ok hp, run_pure, List.append_nil]
    rfl

/-- Loops over members that start alike stop alike at a token that starts none. -/
theorem run_members_of_none (hcomment : k.kind ≠ .comment) (hmember : member k = none)
    (hmember' : member' k = none) :
    (loop (memberTurn close expected member) nodes).run (k :: rest) =
      (loop (memberTurn close expected member') nodes).run (k :: rest) := by
  show runLoop _ nodes (k :: rest) = runLoop _ nodes (k :: rest)
  rw [runLoop_eq, runLoop_eq]
  apply Outcome.bind_congr
  intro t ht
  obtain rfl : t = k := by
    simp only [next, pull?_cons, if_neg hcomment] at ht
    split at ht
    · cases ht
    · exact (Except.ok.inj ht).symm
  simp only [memberTurn, hmember, hmember']
  split
  · rfl
  · rfl

end

/-- The members of a place are limited: by induction on the tokens.  Behind each member, `finish`
does something that reads nothing. -/
theorem limited_members {limit : Nat} {close : TokenKind} (expected : Expected) (place : Place)
    (room : Nat) {finish : Node → Parser Node} (hfinish : ∀ n, (finish n).Reads [] n)
    (hclose : ∀ t, t.kind = close → place.member openScope t = none) (nodes : Array Node)
    {ts : List Token} (hts : ∀ t ∈ ts, t.kind ≠ .comment) :
    Limited limit (Reaches place room ts)
      ((loop (memberTurn close expected fun t =>
        (place.member (scope limit room) t).map (· >>= finish)) nodes).run ts)
      ((loop (memberTurn close expected fun t =>
        (place.member openScope t).map (· >>= finish)) nodes).run ts) := by
  induction hn : ts.length using Nat.strongRecOn
    generalizing close expected place room finish nodes ts with
  | ind n ih =>
    cases ts with
    | nil =>
      rw [loop_eq, loop_eq]
      exact .same (fun _ _ h => nomatch h) rfl
    | cons k rest =>
      obtain ⟨hk, hrest⟩ := List.forall_mem_cons.mp hts
      cases hmember : place.member openScope k with
      | none =>
        have hmember' := (member_eq_none_iff (scope limit room) openScope).mpr hmember
        exact .same (fun _ _ => not_reaches_of_member_eq_none hmember)
          (run_members_of_none hk (by rw [hmember']; rfl) (by rw [hmember]; rfl))
      | some q =>
        have hordinary := ordinary_of_member hmember
        have hopen := ne_close_of_member hclose hmember
        obtain ⟨c, hadmits, hstarts, rfl⟩ := exists_construct_of_member hmember
        have hmember' := member_eq_some hadmits hstarts (scope limit room)
        rw [run_members_of_some hk hordinary.not_error hopen (by rw [hmember']; rfl),
          run_members_of_some hk hordinary.not_error hopen (by rw [hmember]; rfl),
          bind_assoc, bind_assoc, run_bind, run_bind]
        have hshorter : ∀ left : List Token, left.length ≤ rest.length → left.length < n := by
          intro left hle
          rw [← hn, List.length_cons]
          omega
        refine limited_member hmember hrest (limited_construct hrest hadmits hstarts ?_) ?_
        · intro kind room' inner hlt hinner
          have hclosing : ∀ t : Token, t.kind = .rightBrace →
              (Place.inScope kind).member openScope t = none := fun t ht => member_eq_none (.inl ht)
          have hpure : ∀ n : Node, (pure n : Parser Node).Reads [] n :=
            fun n => reads_pure.mpr ⟨rfl, rfl⟩
          have hinside := ih inner.length (hshorter inner (Nat.le_of_lt hlt)) (.member kind)
            (.inScope kind) room' hpure hclosing #[] hinner rfl
          simp only [Parser.bind_pure, Option.map_id'] at hinside
          exact hinside
        · intro n' used left hsplit _
          obtain ⟨hok, hleft⟩ := (hfinish n').run_append left
          rw [List.nil_append] at hok hleft
          rw [run_bind, run_bind]
          apply Limited.behind hok
          rw [hleft]
          refine ih left.length (hshorter left (by simp [hsplit])) expected place room hfinish
            hclose _ ?_ rfl
          intro t ht
          exact hrest t (hsplit ▸ List.mem_append_right _ ht)

/-! ## §5 Texts -/

/-- What is done with a declaration that has been read. -/
def report (node : Node) : Parser Node := do
  record ⟨.trace, .grammar, "parsed declaration at " ++ reported.describeSpan node.span⟩
  return node

theorem reads_report (n : Node) : (report n).Reads [] n :=
  reads_bind.mpr ⟨[], [], (), rfl, reads_record.mpr rfl, reads_pure.mpr ⟨rfl, rfl⟩⟩

/-- A whole file, where `nested` reads the scopes in it. -/
def fileWith (nested : Scope → Token → Parser Node) : Parser File := do
  preamble
  let (nodes, last) ← members .endOfInput .declaration fun t =>
    (Place.file.member nested t).map reported
  record ⟨.debug, .grammar, s!"parsed {nodes.length} top-level declarations"⟩
  return ⟨.proto3, nodes, ⟨0, last.stop⟩⟩

theorem file_eq (limit : Nat) : file limit = fileWith (scope limit limit) := by
  rw [file, fileWith, show declaration limit = _ from funext (declaration_eq limit)]

/-- The tree of `source`, or the first fault in it, where scopes may nest to any depth. -/
def unlimited (source : String) : Logged (Except Fault File) :=
  let outcome := (fileWith openScope).run (tokenize source)
  ⟨outcome.result,
    ⟨.debug, .grammar, s!"parsing {source.utf8ByteSize} bytes"⟩ :: outcome.log⟩

/-- Reading `source` without a limit comes to the token `t`, the keyword of a scope that may stand
there, while `depth` scopes are open. -/
def Opens (source : String) (depth : Nat) (t : Token) : Prop :=
  ∃ front body before, significant (tokenize source) = front ++ body ∧ preamble.Reads front () ∧
    Reaches .file depth body before t

theorem limited_file (limit : Nat) {ts : List Token} (hts : ∀ t ∈ ts, t.kind ≠ .comment) :
    Limited limit (fun before t => ∃ front body b, ts = front ++ body ∧ preamble.Reads front () ∧
        before = front ++ b ∧ Reaches .file limit body b t)
      ((file limit).run ts) ((fileWith openScope).run ts) := by
  rw [file_eq, fileWith, fileWith, run_bind, run_bind]
  cases hfront : (preamble.run ts).result with
  | error f =>
    refine .same ?_ (by rw [Outcome.bind_of_error hfront, Outcome.bind_of_error hfront])
    rintro before t ⟨front, body, b, rfl, hreads, -⟩
    have hok := (hreads.run_append body).1
    rw [hfront] at hok
    cases hok
  | ok u =>
    obtain ⟨front, hsplit, hreads⟩ := exists_reads hts hfront
    have hbody : ∀ t ∈ (preamble.run ts).rest, t.kind ≠ .comment :=
      fun t ht => hts t (hsplit ▸ List.mem_append_right _ ht)
    have hclose : ∀ t : Token, t.kind = .endOfInput → Place.file.member openScope t = none :=
      fun t ht => member_eq_none (.inr ht)
    refine Limited.behind hfront (((limited_members .declaration .file limit reads_report hclose #[]
      hbody).bind _).of_append front ?_)
    intro before t
    constructor
    · rintro ⟨front', body, b, hsplit', hreads', rfl, hb⟩
      obtain ⟨rfl, rfl⟩ := hreads'.append_inj hreads (hsplit'.symm.trans hsplit)
      exact ⟨b, rfl, hb⟩
    · rintro ⟨b, rfl, hb⟩
      exact ⟨front, _, b, hsplit, hreads, rfl, hb⟩

/-- Tokens of a text that are reached earlier stand earlier in it. -/
theorem offset_le_of_reached {source : String} {before before' rest rest' : List Token}
    {t t' : Token} (h : significant (tokenize source) = before ++ t :: rest)
    (h' : significant (tokenize source) = before' ++ t' :: rest')
    (hle : before.length ≤ before'.length) : t.offset ≤ t'.offset := by
  rcases Nat.lt_or_eq_of_le hle with hlt | heq
  · exact Nat.le_of_lt ((ascending_significant source).offset_lt h h' hlt)
  · obtain ⟨-, hcons⟩ := List.append_inj (h.symm.trans h') heq
    obtain rfl := (List.cons.inj hcons).1
    exact Nat.le_refl _

/-- The limit on nesting does one thing only.  If reading a text without it never comes to the
keyword of a scope while 100 scopes are open, then reading with it is the same; else reading stops
with a fault for the first such keyword. -/
theorem parseText_eq_unlimited_or (source : String) :
    (∀ t, ¬ Opens source 100 t) ∧ parseText source = unlimited source ∨
    ∃ t, Opens source 100 t ∧ (∀ t', Opens source 100 t' → t.offset ≤ t'.offset) ∧
      (parseText source).value = .error (.nestingTooDeep t.offset 100) := by
  have hts : ∀ t ∈ significant (tokenize source), t.kind ≠ .comment :=
    not_comment_of_mem_significant
  cases limited_file 100 hts with
  | same hnone h =>
    left
    constructor
    · rintro t ⟨front, body, before, hsplit, hfront, hreaches⟩
      exact hnone (front ++ before) t ⟨front, body, before, hsplit, hfront, rfl, hreaches⟩
    · rw [run_significant, run_significant] at h
      have hresult := congrArg Outcome.result h
      have hlog := congrArg Outcome.log h
      dsimp only [Outcome.mapRest] at hresult hlog
      rw [parseText, unlimited, outcomeOf, nestingLimit, hresult, hlog]
  | @refused before t hreaches hfirst h =>
    right
    obtain ⟨front, body, b, hsplit, hfront, rfl, hb⟩ := hreaches
    refine ⟨t, ⟨front, body, b, hsplit, hfront, hb⟩, ?_, ?_⟩
    · rintro t' ⟨front', body', b', hsplit', hfront', hb'⟩
      have hle := hfirst (front' ++ b') t' ⟨front', body', b', hsplit', hfront', rfl, hb'⟩
      obtain ⟨rest, rfl⟩ := hb.exists_split
      obtain ⟨rest', rfl⟩ := hb'.exists_split
      rw [← List.append_assoc] at hsplit hsplit'
      exact offset_le_of_reached hsplit hsplit' hle
    · rw [parseText_value]
      exact h

end ProtoSchema
