import ProtoSchema.Proofs.Unlimited

/-!
# The kinds of fault that a parser gives

Any parser may come to an error token, or to a token that it did not wait for (`Fault.IsPlain`).
The other faults are particular: only the preamble is reported missing, only an import has a
modifier twice, and only a scope without room is nested too deep.  `Gives P n p` says that no faults
come out of `p` but plain ones and those in `P`, and there is a law of it for each way to build a
parser.

The bound `n` is on the tokens that there are to read.  It is for reading without a limit on
nesting, where a scope has as much room as tokens follow, and so never runs out of it
(`gives_openScope`).

* §1 the ways to build a parser, §2 constructs, §3 scopes and files;
* §4 where a fault of members comes from, §5 where an import has a modifier twice.
-/

namespace ProtoSchema

open ProtoSchema.Parser ProtoSchema.Grammar

/-! ## §1 Building parsers -/

/-- The faults that any token can lead to. -/
inductive Fault.IsPlain : Fault → Prop
  | lexical (offset : Nat) (message : String) : IsPlain (.lexical offset message)
  | unexpected (offset : Nat) (expected found : String) :
      IsPlain (.unexpected offset expected found)

/-- On less than `n` tokens, the faults of `p` are plain or in `P`. -/
def Gives {α : Type} (P : Fault → Prop) (n : Nat) (p : Parser α) : Prop :=
  ∀ ts, ts.length < n → ∀ f, (p.run ts).result = .error f → f.IsPlain ∨ P f

section

variable {α β σ : Type} {P : Fault → Prop} {n : Nat}

/-- A fault that is not plain comes out of a parser only if it is in what the parser gives. -/
theorem Gives.ne_error {p : Parser α} {ts : List Token} {f : Fault} (hf : ¬ f.IsPlain)
    (h : Gives (· ≠ f) (ts.length + 1) p) : (p.run ts).result ≠ .error f := by
  intro hres
  rcases h ts (Nat.lt_succ_self _) f hres with hplain | hne
  · exact hf hplain
  · exact hne rfl

theorem gives_zero (p : Parser α) : Gives P 0 p := fun _ hts => absurd hts (Nat.not_lt_zero _)

theorem gives_pure (a : α) : Gives P n (pure a : Parser α) := by
  intro ts _ f hf
  cases hf

theorem gives_fail {f : Fault} (h : f.IsPlain ∨ P f) : Gives P n (fail f : Parser α) := by
  intro ts _ f' hf
  cases hf
  exact h

theorem gives_refuse (t : Token) (expected : Expected) :
    Gives P n (refuse t expected : Parser α) :=
  gives_fail (.inl (.unexpected _ _ _))

theorem gives_record (r : Record) : Gives P n (record r) := by
  intro ts _ f hf
  cases hf

theorem gives_next : Gives P n next := by
  intro ts _ f hf
  left
  simp only [next] at hf
  split at hf
  · cases hf
    exact .unexpected _ _ _
  · dsimp only at hf
    split at hf
    · cases hf
      exact .lexical _ _
    · cases hf

theorem Gives.bind {p : Parser α} {g : α → Parser β} (hp : Gives P n p)
    (hg : ∀ a, Gives P n (g a)) : Gives P n (p >>= g) := by
  intro ts hts f hf
  rw [run_bind] at hf
  cases hres : (p.run ts).result with
  | error f' =>
    rw [Outcome.bind_of_error hres] at hf
    cases hf
    exact hp ts hts f hres
  | ok a =>
    rw [Outcome.bind_of_ok hres] at hf
    exact hg a _ (Nat.lt_of_le_of_lt (p.rest_suffix ts).length_le hts) f hf

/-- A loop takes a token before its turns: by induction on the tokens. -/
theorem gives_loop {turn : σ → Token → Parser (Turn σ β)} (hturn : ∀ s t, Gives P n (turn s t))
    (s : σ) : Gives P (n + 1) (loop turn s) := by
  intro ts hts f hf
  induction hk : ts.length using Nat.strongRecOn generalizing s ts with
  | ind k ih =>
    change (runLoop turn s ts).result = .error f at hf
    rw [runLoop_eq] at hf
    cases hnext : (next.run ts).result with
    | error f' =>
      rw [Outcome.bind_of_error hnext] at hf
      cases hf
      exact gives_next ts hts f hnext
    | ok t =>
      have hlt := length_rest_next_lt hnext
      have hlt' := length_rest_turn_lt turn (s := s) hnext
      rw [Outcome.bind_of_ok hnext] at hf
      cases hres : ((turn s t).run (next.run ts).rest).result with
      | error f' =>
        rw [Outcome.bind_of_error hres] at hf
        cases hf
        exact hturn s t _ (by omega) f hres
      | ok r =>
        rw [Outcome.bind_of_ok hres] at hf
        cases r with
        | again s' => exact ih _ (by omega) s' _ (by omega) hf rfl
        | finish b => cases hf

/-! ## §2 Constructs -/

theorem gives_expect (kind : TokenKind) : Gives P n (expect kind) := by
  unfold expect
  refine gives_next.bind fun t => ?_
  split
  · exact gives_pure t
  · exact gives_refuse t _

theorem gives_typeName : Gives P n typeName := by
  unfold typeName
  refine gives_next.bind fun t => ?_
  split
  · exact gives_pure t.ident
  · exact gives_refuse t _

theorem gives_optionValue : Gives P n optionValue := by
  unfold optionValue
  refine gives_next.bind fun t => ?_
  split
  · exact gives_pure _
  · exact gives_pure _
  · exact gives_refuse t _

theorem Straight.gives {p : Parser α} (h : Straight p) : Gives P n p := by
  induction h with
  | pure a => exact gives_pure a
  | expect _ _ ih => exact (gives_expect _).bind ih
  | typeName _ ih => exact gives_typeName.bind ih
  | optionValue _ ih => exact gives_optionValue.bind ih

/-- Only a modifier is ever found to be a duplicate. -/
theorem gives_importTurn (keyword : Token) (before : List Ident) {t : Token}
    (hduplicate : t.IsModifier → ∀ offset text, P (.duplicateModifier offset text)) :
    Gives P n (importTurn keyword before t) := by
  unfold importTurn
  split
  · next h =>
    split
    · exact gives_fail (.inr (hduplicate (.inl h) _ _))
    · exact gives_pure _
  · next h =>
    split
    · exact gives_fail (.inr (hduplicate (.inr h) _ _))
    · exact gives_pure _
  · exact (gives_expect _).bind fun _ => gives_pure _
  · exact gives_refuse t _

theorem gives_importDecl (hduplicate : ∀ offset text, P (.duplicateModifier offset text))
    (keyword : Token) : Gives P n (importDecl keyword) := by
  have hturn : ∀ before t, Gives P n (importTurn keyword before t) :=
    fun before t => gives_importTurn keyword before fun _ => hduplicate
  exact fun ts hts => gives_loop hturn [] ts (Nat.lt_succ_of_lt hts)

theorem gives_packageDecl (keyword : Token) : Gives P n (packageDecl keyword) := by
  have hturn : ∀ u t, Gives P n (packageTurn keyword u t) := by
    intro u t
    unfold packageTurn
    split
    · exact gives_pure _
    · exact gives_refuse t _
    · exact gives_pure _
  exact fun ts hts => gives_loop hturn () ts (Nat.lt_succ_of_lt hts)

/-- Members have less to read than the loop over them. -/
theorem gives_members {close : TokenKind} {expected : Expected}
    {member : Token → Option (Parser Node)} (hmember : ∀ t p, member t = some p → Gives P n p) :
    Gives P (n + 1) (members close expected member) := by
  refine gives_loop ?_ #[]
  intro nodes t
  unfold memberTurn
  split
  · exact gives_pure _
  · split
    · next p hp => exact (hmember t p hp).bind fun _ => gives_pure _
    · exact gives_refuse t _

theorem gives_braced {expected : Expected} {member : Token → Option (Parser Node)}
    {build : Ident → Token → List Node → Token → Node}
    (hmember : ∀ t p, member t = some p → Gives P n p) :
    Gives P (n + 1) (braced expected member build) := by
  rw [braced, identifier_bind]
  exact (gives_expect _).bind fun _ => (gives_expect _).bind fun _ =>
    (gives_members hmember).bind fun _ => gives_pure _

theorem gives_leaf {c : Construct} (hc : c.isLeaf = true)
    (himport : c = .importDecl → ∀ offset text, P (.duplicateModifier offset text))
    (nested : Scope → Token → Parser Node) (t : Token) : Gives P n (c.parser nested t) := by
  rcases straight_of_leaf hc with rfl | rfl | hstraight
  · exact gives_importDecl (himport rfl) t
  · exact gives_packageDecl t
  · exact (hstraight nested t).gives

/-- Imports stand at the top of a file only. -/
theorem ne_importDecl {place : Place} (hplace : place ≠ .file) {c : Construct}
    (hc : c ∈ place.admits) : c ≠ .importDecl := by
  rintro rfl
  revert hc
  cases place with
  | file => exact absurd rfl hplace
  | inScope kind => cases kind <;> decide
  | inService => decide

theorem gives_service (keyword : Token) : Gives P n (service keyword) := by
  cases n with
  | zero => exact gives_zero _
  | succ n =>
    rw [service_eq (scope 0 0)]
    refine gives_braced ?_
    intro t p hp
    obtain ⟨c, hc, -, rfl⟩ := exists_construct_of_member hp
    have himport := ne_importDecl (by simp) hc
    exact gives_leaf (isLeaf_of_mem_inService c hc) (fun h => absurd h himport) _ t

theorem gives_construct {c : Construct}
    (himport : c = .importDecl → ∀ offset text, P (.duplicateModifier offset text))
    {nested : Scope → Token → Parser Node} (hnested : ∀ kind t, Gives P n (nested kind t))
    (t : Token) : Gives P n (c.parser nested t) := by
  cases hc : c.isLeaf with
  | true => exact gives_leaf hc himport nested t
  | false =>
    cases c <;> simp only [Construct.isLeaf, reduceCtorEq] at hc
    case service => exact gives_service t
    case scope kind => exact hnested kind t

/-! ## §3 Scopes and files -/

/-- A scope that may run out of room says so, and one that has room for as many scopes as there are
tokens gives plain faults only. -/
theorem gives_scope {limit room : Nat}
    (hroom : n ≤ room ∨ ∀ offset, P (.nestingTooDeep offset limit)) (kind : Scope)
    (keyword : Token) : Gives P n (scope limit room kind keyword) := by
  induction room generalizing n kind keyword with
  | zero =>
    rcases hroom with hroom | hdeep
    · obtain rfl := Nat.le_zero.mp hroom
      exact gives_zero _
    · exact gives_fail (.inr (hdeep _))
  | succ room ih =>
    cases n with
    | zero => exact gives_zero _
    | succ n =>
      rw [scope_succ]
      refine gives_braced ?_
      intro t p hp
      obtain ⟨c, hc, -, rfl⟩ := exists_construct_of_member hp
      refine gives_construct (fun h => absurd h (ne_importDecl (by simp) hc)) ?_ t
      exact fun kind' t' => ih (hroom.imp_left Nat.le_of_succ_le_succ) kind' t'

theorem gives_openScope (kind : Scope) (keyword : Token) :
    Gives P n (openScope kind keyword) := by
  intro ts _ f hf
  have hscope : Gives P (ts.length + 1) (scope 0 (ts.length + 1) kind keyword) :=
    gives_scope (.inl (Nat.le_refl _)) kind keyword
  exact hscope ts (Nat.lt_succ_self _) f hf

/-- The declarations of a file, up to the end of input. -/
def declarations (nested : Scope → Token → Parser Node) : Parser (List Node × Token) :=
  members .endOfInput .declaration fun t => (Place.file.member nested t).map reported

theorem fileWith_eq (nested : Scope → Token → Parser Node) :
    fileWith nested = preamble >>= fun _ => declarations nested >>= fun r => do
      record ⟨.debug, .grammar, s!"parsed {r.1.length} top-level declarations"⟩
      return ⟨.proto3, r.1, ⟨0, r.2.stop⟩⟩ := rfl

theorem gives_reported {p : Parser Node} (h : Gives P n p) : Gives P n (reported p) :=
  h.bind fun _ => (gives_record _).bind fun _ => gives_pure _

/-- Reporting does not fail. -/
theorem run_reported_eq_error_iff {p : Parser Node} {ts : List Token} {f : Fault} :
    ((reported p).run ts).result = .error f ↔ (p.run ts).result = .error f := by
  rw [reported, run_bind]
  cases hres : (p.run ts).result with
  | error f' => rw [Outcome.bind_of_error hres]
  | ok n =>
    rw [Outcome.bind_of_ok hres]
    simp [run_bind, Outcome.bind]

theorem gives_declarations {nested : Scope → Token → Parser Node}
    (hduplicate : ∀ offset text, P (.duplicateModifier offset text))
    (hnested : ∀ kind t, Gives P n (nested kind t)) : Gives P (n + 1) (declarations nested) := by
  refine gives_members ?_
  intro t p hp
  obtain ⟨q, hq, rfl⟩ := Option.map_eq_some_iff.mp hp
  obtain ⟨c, -, -, rfl⟩ := exists_construct_of_member hq
  exact gives_reported (gives_construct (fun _ => hduplicate) hnested t)

theorem gives_preamble (hmissing : ∀ offset found, P (.missingPreamble offset found)) :
    Gives P n preamble := by
  have htoken : ∀ accepts, Gives P n (preambleToken accepts) := by
    intro accepts
    unfold preambleToken
    refine gives_next.bind fun t => ?_
    split
    · exact gives_pure ()
    · exact gives_fail (.inr (hmissing _ _))
  exact (htoken _).bind fun _ => (htoken _).bind fun _ => (htoken _).bind fun _ => htoken _

/-- Without a limit nothing is nested too deep. -/
theorem fileWith_openScope_ne_nestingTooDeep (ts : List Token) (offset limit : Nat) :
    ((fileWith openScope).run ts).result ≠ .error (.nestingTooDeep offset limit) := by
  apply Gives.ne_error (by rintro ⟨⟩)
  rw [fileWith_eq]
  refine (gives_preamble fun _ _ => by simp).bind fun _ => ?_
  refine (gives_declarations (fun _ _ => by simp) fun kind t => gives_openScope kind t).bind ?_
  exact fun _ => (gives_record _).bind fun _ => gives_pure _

end

/-! ## §4 Faults of members -/

section

variable {σ β : Type} {turn : σ → Token → Parser (Turn σ β)} {s : σ} {k : Token}
  {rest : List Token}

/-- A token that is no error is pulled, and then a turn is taken. -/
theorem run_loop_cons (hcomment : k.kind ≠ .comment) (herror : k.kind ≠ .error) :
    (loop turn s).run (k :: rest) = ((turn s k).run rest).bind (continueLoop turn) := by
  show runLoop turn s (k :: rest) = _
  rw [runLoop_eq, next_run_cons hcomment herror rest, Outcome.bind_of_ok rfl]
  simp

/-- A loop whose fault is not plain has a token to start with, and this is no error. -/
theorem exists_cons_of_loop {ts : List Token} {f : Fault} (hf : ¬ f.IsPlain)
    (h : ((loop turn s).run ts).result = .error f) :
    ∃ k rest, ts = k :: rest ∧ k.kind ≠ .error := by
  change (runLoop turn s ts).result = .error f at h
  rw [runLoop_eq] at h
  cases ts with
  | nil =>
    cases h
    exact absurd (.unexpected _ _ _) hf
  | cons k rest =>
    refine ⟨k, rest, rfl, fun herror => ?_⟩
    have hnext := congrArg Outcome.result (next_run_cons_error herror rest)
    rw [Outcome.bind_of_error hnext] at h
    cases h
    exact hf (.lexical _ _)

end

section

variable {close : TokenKind} {expected : Expected} {member : Token → Option (Parser Node)}
  {nodes : Array Node} {f : Fault}

/-- Members whose fault is not plain start with a member. -/
theorem exists_member_of_loop {ts : List Token} (hts : ∀ t ∈ ts, t.kind ≠ .comment)
    (hf : ¬ f.IsPlain)
    (h : ((loop (memberTurn close expected member) nodes).run ts).result = .error f) :
    ∃ k rest p, ts = k :: rest ∧ k.kind ≠ .comment ∧ k.kind ≠ .error ∧ member k = some p := by
  obtain ⟨k, rest, rfl, herror⟩ := exists_cons_of_loop hf h
  obtain ⟨hk, -⟩ := List.forall_mem_cons.mp hts
  cases hp : member k with
  | some p => exact ⟨k, rest, p, rfl, hk, herror, hp⟩
  | none =>
    rw [run_loop_cons hk herror] at h
    unfold memberTurn at h
    split at h
    · cases h
    · rw [hp] at h
      cases h
      exact absurd (.unexpected _ _ _) hf

/-- A fault that is not plain comes out of a member, behind members that have been read: by
induction on the tokens. -/
theorem exists_faulty_member (hclose : ∀ t, t.kind = close → member t = none) {ts : List Token}
    (hts : ∀ t ∈ ts, t.kind ≠ .comment) (hf : ¬ f.IsPlain)
    (h : ((loop (memberTurn close expected member) nodes).run ts).result = .error f) :
    ∃ body ns k p rest, ts = body ++ k :: rest ∧ Series member body ns ∧ member k = some p ∧
      (p.run rest).result = .error f := by
  induction hn : ts.length using Nat.strongRecOn generalizing nodes ts with
  | ind n ih =>
    obtain ⟨k, rest, p, rfl, hk, herror, hp⟩ := exists_member_of_loop hts hf h
    have hrest := (List.forall_mem_cons.mp hts).2
    rw [run_members_of_some hk herror (ne_close_of_member hclose hp) hp, run_bind] at h
    cases hres : (p.run rest).result with
    | error f' =>
      rw [Outcome.bind_of_error hres] at h
      cases h
      exact ⟨[], [], k, p, rest, rfl, .nil, hp, hres⟩
    | ok node =>
      rw [Outcome.bind_of_ok hres] at h
      obtain ⟨used, hsplit, hreads⟩ := exists_reads hrest hres
      generalize (p.run rest).rest = left at hsplit h
      subst hsplit
      have hshorter : left.length < n := by
        rw [← hn, List.length_cons, List.length_append]
        omega
      obtain ⟨body, ns, k', p', rest', rfl, hseries, hp', hres'⟩ :=
        ih left.length hshorter (List.forall_mem_append.mp hrest).2 h rfl
      exact ⟨k :: (used ++ body), node :: ns, k', p', rest', by simp,
        .cons hp hk herror hreads hseries, hp', hres'⟩

/-- Behind members that have been read, the fault of a member is the fault of them all. -/
theorem run_members_of_series (hclose : ∀ t, t.kind = close → member t = none)
    {body rest : List Token} {ns : List Node} (hbody : Series member body ns) {k : Token}
    (hk : k.Ordinary) {p : Parser Node} (hp : member k = some p)
    (h : (p.run rest).result = .error f) :
    ((loop (memberTurn close expected member) nodes).run (body ++ k :: rest)).result =
      .error f := by
  induction hbody generalizing nodes with
  | nil =>
    rw [List.nil_append, run_members_of_some hk.not_comment hk.not_error
      (ne_close_of_member hclose hp) hp, run_bind, Outcome.bind_of_error h]
  | @cons t used body q n ns hq hcomment herror hreads _ ih =>
    obtain ⟨hok, hrest⟩ := hreads.run_append (body ++ k :: rest)
    rw [List.cons_append, List.append_assoc, run_members_of_some hcomment herror
      (ne_close_of_member hclose hq) hq, run_bind, Outcome.bind_of_ok hok, hrest]
    exact ih

end

/-! ## §5 Duplicates -/

section

variable {keyword : Token} {before : List Ident}

theorem run_import_of_isModifier {m : Token} (hm : m.IsModifier) (rest : List Token) :
    (loop (importTurn keyword) before).run (m :: rest) =
      if m.text ∈ before.map (·.name) then
        ⟨.error (.duplicateModifier m.offset m.text), rest, []⟩
      else (loop (importTurn keyword) (before ++ [m.ident])).run rest := by
  rw [run_loop_cons hm.ordinary.not_comment hm.ordinary.not_error,
    importTurn_of_isModifier keyword before hm]
  split
  · rfl
  · rfl

/-- A duplicate is found among the modifiers of an import, of which `before` are those that have
been read: by induction on the tokens. -/
theorem exists_modifiers_of_duplicate {ts : List Token} (hts : ∀ t ∈ ts, t.kind ≠ .comment)
    {offset : Nat} {text : String}
    (h : ((loop (importTurn keyword) before).run ts).result =
      .error (.duplicateModifier offset text)) :
    ∃ modifiers t rest, ts = modifiers ++ t :: rest ∧ (∀ m ∈ modifiers, m.IsModifier) ∧
      t.IsModifier ∧ t.text ∈ before.map (·.name) ++ modifiers.map (·.text) ∧
      offset = t.offset := by
  have hplain : ¬ (Fault.duplicateModifier offset text).IsPlain := by rintro ⟨⟩
  induction ts generalizing before with
  | nil =>
    obtain ⟨_, _, hnil, -⟩ := exists_cons_of_loop hplain h
    cases hnil
  | cons k rest ih =>
    obtain ⟨_, _, hcons, herror⟩ := exists_cons_of_loop hplain h
    obtain ⟨rfl, rfl⟩ := List.cons.inj hcons
    obtain ⟨hk, hrest⟩ := List.forall_mem_cons.mp hts
    by_cases hmodifier : k.IsModifier
    · rw [run_import_of_isModifier hmodifier] at h
      split at h
      · next hmem =>
        cases h
        exact ⟨[], k, rest, rfl, by simp, hmodifier, List.mem_append_left _ hmem, rfl⟩
      · obtain ⟨ms, t, left, rfl, hms, ht, htext, hoffset⟩ := ih hrest h
        refine ⟨k :: ms, t, left, rfl, List.forall_mem_cons.mpr ⟨hmodifier, hms⟩, ht, ?_, hoffset⟩
        simpa [Token.ident] using htext
    · rw [run_loop_cons hk herror] at h
      cases hres : ((importTurn keyword before k).run rest).result with
      | error f =>
        rw [Outcome.bind_of_error hres] at h
        cases h
        refine absurd hres (Gives.ne_error hplain ?_)
        exact gives_importTurn keyword before fun hm => absurd hm hmodifier
      | ok r =>
        -- without a modifier the import has ended
        obtain ⟨used, -, hreads⟩ := exists_reads hrest hres
        rw [Outcome.bind_of_ok hres] at h
        rcases reads_importTurn.mp hreads with ⟨hm, -⟩ | ⟨-, _, -, -, rfl⟩
        · exact absurd hm hmodifier
        · cases h

/-- By induction on the modifiers, of which one may be a duplicate already. -/
theorem exists_duplicate {modifiers : List Token} {t : Token}
    (hmodifiers : ∀ m ∈ modifiers, m.IsModifier) (ht : t.IsModifier)
    (htext : t.text ∈ before.map (·.name) ++ modifiers.map (·.text)) (rest : List Token) :
    ∃ offset text, ((loop (importTurn keyword) before).run (modifiers ++ t :: rest)).result =
      .error (.duplicateModifier offset text) := by
  induction modifiers generalizing before with
  | nil =>
    rw [List.map_nil, List.append_nil] at htext
    refine ⟨t.offset, t.text, ?_⟩
    rw [List.nil_append, run_import_of_isModifier ht, if_pos htext]
  | cons m ms ih =>
    obtain ⟨hm, hms⟩ := List.forall_mem_cons.mp hmodifiers
    rw [List.cons_append, run_import_of_isModifier hm]
    split
    · exact ⟨m.offset, m.text, rfl⟩
    · apply ih hms
      simpa [Token.ident] using htext

end

end ProtoSchema
