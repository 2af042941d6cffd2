import ProtoSchema.Proofs.Recovery
import ProtoSchema.Proofs.Straight

/-!
# Constructs that were cut off

Every construct of the grammar recovers: the token at which it fails is the first that it cannot go
on with, and a few fixed tokens would have completed what stands before (`closers`).  Scopes are
done by induction on the room for them; where there is none, the keyword itself is to blame.

* §1 the tokens that complete, §2 tokens in front of a parser;
* §3 constructs that hold no others, §4 scopes and services, and all constructs of a place.
-/

namespace ProtoSchema

open ProtoSchema.Parser ProtoSchema.Grammar

/-! ## §1 Closers -/

/-- The tokens with which constructs are completed, one of each kind that a construct may wait
for. -/
def closers : List Token :=
  [⟨.identifier, 0, "a"⟩, ⟨.equals, 0, "="⟩, ⟨.integerLit, 0, "1"⟩, ⟨.stringLit, 0, "\"proto3\""⟩,
    ⟨.booleanLit, 0, "true"⟩, ⟨.semicolon, 0, ";"⟩, ⟨.comma, 0, ","⟩, ⟨.leftAngle, 0, "<"⟩,
    ⟨.rightAngle, 0, ">"⟩, ⟨.leftParen, 0, "("⟩, ⟨.rightParen, 0, ")"⟩, ⟨.leftBrace, 0, "\x7b"⟩,
    ⟨.rightBrace, 0, "\x7d"⟩] ++ Keyword.all.map fun word => ⟨.keyword word, 0, word.text⟩

/-- Closers may be put behind any tokens. -/
def Repair.plain : Repair where
  allows _ cs := ∀ c ∈ cs, c ∈ closers
  nil := by simp
  shift _ _ _ h := h
  append _ _ _ h h' := List.forall_mem_append.mpr ⟨h, h'⟩

theorem closers_ordinary : ∀ c ∈ closers, c.kind ≠ .comment ∧ c.kind.isLast = false := by
  decide

theorem closer_ordinary {c : Token} (hc : c ∈ closers) : c.Ordinary :=
  ⟨(closers_ordinary c hc).1, (closers_ordinary c hc).2⟩

theorem exists_closer {kind : TokenKind} (h : kind ∈ closers.map (·.kind)) :
    ∃ c ∈ closers, c.kind = kind := by
  obtain ⟨c, hc, hkind⟩ := List.mem_map.mp h
  exact ⟨c, hc, hkind⟩

/-- `p` is guided by closers, wherever it stands. -/
abbrev Closes {α : Type} (p : Parser α) : Prop := ∀ o, Guided Repair.plain [] o p

/-! ## §2 Tokens in front of a parser -/

section

variable {α β : Type} {o : Nat}

theorem recovers_refuse_bind {R : Repair} {ends : List Token} {t : Token} {expected : Expected}
    {f : α → Parser β} (ts : List Token) :
    Recovers R ends t.offset (refuse t expected >>= f) ts := by
  intro _ e he
  rw [run_bind, Outcome.bind_of_error (show (_ : Except Fault α) = _ from rfl)] at he
  cases he
  exact .inr (.inl rfl)

theorem closes_pure (a : α) : Closes (pure a : Parser α) :=
  fun _ => ⟨completable_pure a, recovers_pure a⟩

/-- A closer that the parser goes on with completes it, whatever else it may refuse. -/
theorem closes_next_bind {g : Token → Parser β} {c : Token} (hc : c ∈ closers)
    (hgc : Completable Repair.plain [] (g c))
    (hg : ∀ t ts, Recovers Repair.plain [] t.offset (g t) ts) : Closes (next >>= g) := by
  intro o
  have hord := closer_ordinary hc
  have hcompletable : Completable Repair.plain [] (next >>= g) :=
    completable_next_bind (by simpa [Repair.plain] using hc) hord.not_comment hord.not_error hgc
  exact ⟨hcompletable, fun ts => recovers_next_bind hcompletable fun t rest _ => hg t rest⟩

theorem closes_expect_bind {kind : TokenKind} (hkind : kind ∈ closers.map (·.kind))
    {f : Token → Parser β} (hf : ∀ t, Closes (f t)) : Closes (expect kind >>= f) := by
  obtain ⟨c, hc, rfl⟩ := exists_closer hkind
  rw [expect, bind_assoc]
  refine closes_next_bind hc ?_ ?_
  · rw [if_pos rfl, Parser.pure_bind]
    exact (hf c 0).completable
  · intro t ts
    split
    · rw [Parser.pure_bind]
      exact (hf t t.offset).recovers ts
    · exact recovers_refuse_bind ts

theorem closes_typeName_bind {f : Ident → Parser β} (hf : ∀ i, Closes (f i)) :
    Closes (typeName >>= f) := by
  obtain ⟨c, hc, hkind⟩ := exists_closer (show .identifier ∈ _ by decide)
  rw [typeName, bind_assoc]
  refine closes_next_bind hc ?_ ?_
  · rw [if_pos (.inl hkind), Parser.pure_bind]
    exact (hf c.ident 0).completable
  · intro t ts
    split
    · rw [Parser.pure_bind]
      exact (hf t.ident t.offset).recovers ts
    · exact recovers_refuse_bind ts

theorem closes_optionValue_bind {f : Literal → Parser β} (hf : ∀ l, Closes (f l)) :
    Closes (optionValue >>= f) := by
  obtain ⟨c, hc, hkind⟩ := exists_closer (show .stringLit ∈ _ by decide)
  rw [optionValue, bind_assoc]
  refine closes_next_bind hc ?_ ?_
  · simp only [hkind, Parser.pure_bind]
    exact (hf (c.literal .string) 0).completable
  · intro t ts
    split
    · rw [Parser.pure_bind]
      exact (hf (t.literal .string) t.offset).recovers ts
    · rw [Parser.pure_bind]
      exact (hf (t.literal .boolean) t.offset).recovers ts
    · exact recovers_refuse_bind ts

end

/-! ## §3 Constructs that hold no others -/

theorem mem_closers_of_awaited : ∀ kind ∈ awaited, kind ∈ closers.map (·.kind) := by
  decide

/-- A parser that goes straight on can be ended from wherever it is. -/
theorem Straight.closes {α : Type} {p : Parser α} (h : Straight p) : Closes p := by
  induction h with
  | pure a => exact closes_pure a
  | expect hkind _ ih => exact closes_expect_bind (mem_closers_of_awaited _ hkind) ih
  | typeName _ ih => exact closes_typeName_bind ih
  | optionValue _ ih => exact closes_optionValue_bind ih

/-- An import can go on with its path, whatever modifiers it has. -/
theorem completable_importLoop (keyword : Token) (before : List Ident) :
    Completable Repair.plain [] (loop (importTurn keyword) before) := by
  obtain ⟨path, hpath, hpathKind⟩ := exists_closer (show .stringLit ∈ _ by decide)
  obtain ⟨semi, hsemi, hsemiKind⟩ := exists_closer (show .semicolon ∈ _ by decide)
  have hreads : (loop (importTurn keyword) before).Reads [path, semi] _ :=
    reads_importLoop.mpr ⟨[], path, semi, rfl, by simp, by simp, hpathKind, hsemiKind, rfl⟩
  exact ⟨[path, semi], _, by simp [Repair.plain, hpath, hsemi], hreads⟩

/-- An import that repeats a modifier could have gone on with its path. -/
theorem closes_importDecl (keyword : Token) : Closes (importDecl keyword) := by
  have hcompletable := completable_importLoop keyword
  intro o
  refine ⟨hcompletable [], recovers_loop hcompletable ?_ (fun _ _ _ _ _ _ => .inl rfl) []⟩
  intro before t ts
  unfold importTurn
  split
  · split
    · exact recovers_fail rfl ts
    · exact recovers_pure _ ts
  · split
    · exact recovers_fail rfl ts
    · exact recovers_pure _ ts
  · exact (closes_expect_bind (by decide) (fun _ => closes_pure _) t.offset).recovers ts
  · exact recovers_fail rfl ts

/-- A package can always be ended, and only the end of input keeps it from going on. -/
theorem guided_packageDecl {R : Repair} {semi : Token} (hallows : R.allows [] [semi])
    (hsemi : semi.kind = .semicolon) (keyword : Token) (o : Nat) :
    Guided R [] o (packageDecl keyword) := by
  have hcompletable : ∀ s, Completable R [] (loop (packageTurn keyword) s) := by
    intro s
    exact ⟨[semi], _, hallows, reads_packageDecl.mpr ⟨[], semi, rfl, by simp, hsemi, rfl⟩⟩
  refine ⟨hcompletable (), recovers_loop hcompletable ?_ (fun _ _ _ _ _ _ => .inl rfl) ()⟩
  intro s t ts
  unfold packageTurn
  split
  · exact recovers_pure _ ts
  · exact recovers_fail rfl ts
  · exact recovers_pure _ ts

theorem closes_leaf {c : Construct} (hc : c.isLeaf = true) (nested : Scope → Token → Parser Node)
    (t : Token) : Closes (c.parser nested t) := by
  rcases straight_of_leaf hc with rfl | rfl | hstraight
  · exact closes_importDecl t
  · obtain ⟨semi, hsemi, hkind⟩ := exists_closer (show .semicolon ∈ _ by decide)
    have hallows : Repair.plain.allows [] [semi] := by simpa [Repair.plain] using hsemi
    exact guided_packageDecl hallows hkind t
  · exact (hstraight nested t).closes

/-! ## §4 Members -/

section

variable {R : Repair} {ends : List Token} {expected : Expected}
  {member : Token → Option (Parser Node)} {close : Token}

/-- Members can be ended wherever they are.  The token that closes them is allowed, or is what they
have to end with. -/
theorem completable_members (hends : ends = [close] ∨ ends = [] ∧ R.allows [] [close])
    (hcomment : close.kind ≠ .comment) (herror : close.kind ≠ .error)
    (hclose : ∀ t, t.kind = close.kind → member t = none) (nodes : Array Node) :
    Completable R ends (loop (memberTurn close.kind expected member) nodes) := by
  have hreads : (loop (memberTurn close.kind expected member) nodes).Reads [close] _ :=
    reads_members_of_series hclose nodes .nil rfl hcomment herror
  rcases hends with rfl | ⟨rfl, hallows⟩
  · exact ⟨[], _, R.nil, hreads⟩
  · exact ⟨[close], _, hallows, hreads⟩

/-- The turn that finishes the members does not fail. -/
theorem memberTurn_ne_error {kind : TokenKind} {nodes : Array Node} {t : Token} {ts u : List Token}
    {r : List Node × Token} (h : (memberTurn kind expected member nodes t).Reads u (.finish r))
    (f : Fault) : ((memberTurn kind expected member nodes t).run ts).result ≠ .error f := by
  rcases reads_memberTurn.mp h with ⟨hkind, -, -⟩ | ⟨-, _, _, -, -, hagain⟩
  · intro hf
    rw [memberTurn, if_pos hkind] at hf
    cases hf
  · cases hagain

/-- Members recover if each does. -/
theorem guided_members (hends : ends = [close] ∨ ends = [] ∧ R.allows [] [close])
    (hcomment : close.kind ≠ .comment) (herror : close.kind ≠ .error)
    (hclose : ∀ t, t.kind = close.kind → member t = none)
    (hmember : ∀ t p ts, member t = some p → Recovers R [] t.offset p ts) (o : Nat) :
    Guided R ends o (members close.kind expected member) := by
  have hcompletable : ∀ nodes, Completable R ends
      (loop (memberTurn close.kind expected member) nodes) :=
    completable_members hends hcomment herror hclose
  refine ⟨hcompletable #[], recovers_loop hcompletable ?_ ?_ #[]⟩
  · intro nodes t ts
    unfold memberTurn
    split
    · exact recovers_pure _ ts
    · split
      · next p hp =>
        exact recovers_bind_quiet (hmember t p ts hp) fun n => ⟨_, reads_pure.mpr ⟨rfl, rfl⟩⟩
      · exact recovers_fail rfl ts
  · exact fun _ _ _ _ _ hr => .inr (memberTurn_ne_error hr)

end

theorem closes_members_bind {expected : Expected} {place : Place}
    {nested : Scope → Token → Parser Node} {g : List Node × Token → Parser Node}
    (hplace : ∀ c ∈ place.admits, ∀ t ts,
      Recovers Repair.plain [] t.offset (c.parser nested t) ts)
    (hg : ∀ r, ∃ n, (g r).Reads [] n) :
    Closes (members .rightBrace expected (place.member nested) >>= g) := by
  obtain ⟨close, hmem, hkind⟩ := exists_closer (show .rightBrace ∈ _ by decide)
  intro o
  have hmembers : Guided Repair.plain [] o (members close.kind expected (place.member nested)) := by
    refine guided_members (.inr ⟨rfl, by simpa [Repair.plain] using hmem⟩)
      (closer_ordinary hmem).not_comment (closer_ordinary hmem).not_error ?_ ?_ o
    · intro t ht
      exact member_eq_none (.inl (ht.trans hkind))
    · intro t p ts hp
      obtain ⟨c, hc, -, rfl⟩ := exists_construct_of_member hp
      exact hplace c hc t ts
  rw [hkind] at hmembers
  exact guided_bind_quiet hmembers hg

theorem closes_braced {expected : Expected} {place : Place}
    {nested : Scope → Token → Parser Node} {build : Ident → Token → List Node → Token → Node}
    (hplace : ∀ c ∈ place.admits, ∀ t ts,
      Recovers Repair.plain [] t.offset (c.parser nested t) ts) :
    Closes (braced expected (place.member nested) build) := by
  rw [braced, identifier_bind]
  refine closes_expect_bind (by decide) fun name => closes_expect_bind (by decide) fun opening => ?_
  exact closes_members_bind hplace fun r => ⟨_, reads_pure.mpr ⟨rfl, rfl⟩⟩

theorem closes_service (keyword : Token) : Closes (service keyword) := by
  rw [service_eq (scope 0 0)]
  refine closes_braced ?_
  intro c hc t ts
  exact (closes_leaf (isLeaf_of_mem_inService c hc) _ t t.offset).recovers ts

/-- Every construct recovers, where scopes do. -/
theorem recovers_construct {nested : Scope → Token → Parser Node}
    (hnested : ∀ kind t ts, Recovers Repair.plain [] t.offset (nested kind t) ts) (c : Construct)
    (t : Token) (ts : List Token) : Recovers Repair.plain [] t.offset (c.parser nested t) ts := by
  cases hc : c.isLeaf with
  | true => exact (closes_leaf hc nested t t.offset).recovers ts
  | false =>
    cases c <;> simp only [Construct.isLeaf, reduceCtorEq] at hc
    case service => exact (closes_service t t.offset).recovers ts
    case scope kind => exact hnested kind t ts

/-- Scopes recover with any room: without room, at their keyword. -/
theorem recovers_scope (limit room : Nat) (kind : Scope) (keyword : Token) (ts : List Token) :
    Recovers Repair.plain [] keyword.offset (scope limit room kind keyword) ts := by
  induction room generalizing kind keyword ts with
  | zero => exact recovers_fail rfl ts
  | succ room ih =>
    rw [scope_succ]
    refine (closes_braced ?_ keyword.offset).recovers ts
    intro c _ t ts
    exact recovers_construct ih c t ts

end ProtoSchema
