import ProtoSchema.Schema
import ProtoSchema.Proofs.FaultKinds

/-!
# The log of a file

Reading says little: a parser of a construct writes nothing but the lexical fault that it comes to,
if it comes to one (`Silent`).  So the log of a file is known from what is read: a record for each
declaration that could be read, and then one for the end or for the fault (`log_parseText`).

What can be read is told by the tokens alone.  Members are read from the front as long as one can be
read (`Front`), and whatever members stand at the front are the first of these (`Front.prefix`).

* §1 what is written about faults, §2 silent parsers, §3 constructs;
* §4 members at the front, §5 the log of declarations, §6 the log of a file.
-/

namespace ProtoSchema

open ProtoSchema.Parser ProtoSchema.Grammar

/-! ## §1 Faults -/

/-- The record of a lexical fault. -/
def lexicalRecord (offset : Nat) (message : String) : Record :=
  ⟨.debug, .lexer, s!"lexical error at offset {offset}: {message}"⟩

/-- What is written about a fault.  Only a lexical one is, when its token is pulled. -/
def Fault.records : Fault → List Record
  | .lexical offset message => [lexicalRecord offset message]
  | _ => []

/-- What is written about the fault, if there is one. -/
def faultRecords {α : Type} : Except Fault α → List Record
  | .ok _ => []
  | .error f => f.records

/-- A parser that writes nothing but about the fault that it comes to. -/
def Silent {α : Type} (p : Parser α) : Prop := ∀ ts, (p.run ts).log = faultRecords (p.run ts).result

/-! ## §2 Building parsers -/

section

variable {α β σ : Type}

theorem Silent.log_of_ok {p : Parser α} (h : Silent p) {ts : List Token} {a : α}
    (ha : (p.run ts).result = .ok a) : (p.run ts).log = [] := by
  rw [h ts, ha]
  rfl

theorem silent_pure (a : α) : Silent (pure a : Parser α) := fun _ => rfl

theorem silent_fail {f : Fault} (h : f.records = []) : Silent (fail f : Parser α) := fun _ => h.symm

theorem silent_refuse (t : Token) (expected : Expected) : Silent (refuse t expected : Parser α) :=
  silent_fail rfl

theorem silent_next : Silent next := by
  intro ts
  simp only [next]
  split
  · rfl
  · next t rest _ =>
    by_cases herror : t.kind = .error
    · simp [herror, Token.record?, faultRecords, Fault.records, lexicalRecord]
    · simp [herror, Token.record?, faultRecords]

theorem Silent.bind {p : Parser α} {g : α → Parser β} (hp : Silent p) (hg : ∀ a, Silent (g a)) :
    Silent (p >>= g) := by
  intro ts
  rw [run_bind]
  cases hres : (p.run ts).result with
  | error f =>
    rw [Outcome.bind_of_error hres, hp ts, hres]
    rfl
  | ok a =>
    rw [Outcome.bind_of_ok hres]
    show (p.run ts).log ++ ((g a).run (p.run ts).rest).log = _
    rw [hp.log_of_ok hres, List.nil_append]
    exact hg a _

/-- The turns of a loop before the last one have succeeded, and so written nothing: by induction on
the tokens. -/
theorem silent_loop {turn : σ → Token → Parser (Turn σ β)} (hturn : ∀ s t, Silent (turn s t))
    (s : σ) : Silent (loop turn s) := by
  intro ts
  induction hn : ts.length using Nat.strongRecOn generalizing s ts with
  | ind n ih =>
    show (runLoop turn s ts).log = faultRecords (runLoop turn s ts).result
    rw [runLoop_eq]
    cases hnext : (next.run ts).result with
    | error f =>
      rw [Outcome.bind_of_error hnext, silent_next ts, hnext]
      rfl
    | ok t =>
      have hlt := length_rest_turn_lt turn (s := s) hnext
      rw [Outcome.bind_of_ok hnext, silent_next.log_of_ok hnext, List.nil_append]
      generalize (next.run ts).rest = rest at hlt ⊢
      cases hres : ((turn s t).run rest).result with
      | error f =>
        rw [Outcome.bind_of_error hres, hturn s t rest, hres]
        rfl
      | ok r =>
        rw [Outcome.bind_of_ok hres, (hturn s t).log_of_ok hres, List.nil_append]
        cases r with
        | again s' => exact ih _ (hn ▸ hlt) s' _ rfl
        | finish b => rfl

/-! ## §3 Constructs -/

theorem silent_expect (kind : TokenKind) : Silent (expect kind) := by
  unfold expect
  refine silent_next.bind fun t => ?_
  split
  · exact silent_pure t
  · exact silent_refuse t _

theorem silent_typeName : Silent typeName := by
  unfold typeName
  refine silent_next.bind fun t => ?_
  split
  · exact silent_pure t.ident
  · exact silent_refuse t _

theorem silent_optionValue : Silent optionValue := by
  unfold optionValue
  refine silent_next.bind fun t => ?_
  split
  · exact silent_pure _
  · exact silent_pure _
  · exact silent_refuse t _

theorem Straight.silent {p : Parser α} (h : Straight p) : Silent p := by
  induction h with
  | pure a => exact silent_pure a
  | expect _ _ ih => exact (silent_expect _).bind ih
  | typeName _ ih => exact silent_typeName.bind ih
  | optionValue _ ih => exact silent_optionValue.bind ih

theorem silent_importDecl (keyword : Token) : Silent (importDecl keyword) := by
  refine silent_loop ?_ []
  intro before t
  unfold importTurn
  split
  · split
    · exact silent_fail rfl
    · exact silent_pure _
  · split
    · exact silent_fail rfl
    · exact silent_pure _
  · exact (silent_expect _).bind fun _ => silent_pure _
  · exact silent_refuse t _

theorem silent_packageDecl (keyword : Token) : Silent (packageDecl keyword) := by
  refine silent_loop ?_ ()
  intro u t
  unfold packageTurn
  split
  · exact silent_pure _
  · exact silent_refuse t _
  · exact silent_pure _

theorem silent_members {close : TokenKind} {expected : Expected}
    {member : Token → Option (Parser Node)} (hmember : ∀ t p, member t = some p → Silent p) :
    Silent (members close expected member) := by
  refine silent_loop ?_ #[]
  intro nodes t
  unfold memberTurn
  split
  · exact silent_pure _
  · split
    · next p hp => exact (hmember t p hp).bind fun _ => silent_pure _
    · exact silent_refuse t _

theorem silent_braced {expected : Expected} {member : Token → Option (Parser Node)}
    {build : Ident → Token → List Node → Token → Node}
    (hmember : ∀ t p, member t = some p → Silent p) : Silent (braced expected member build) := by
  rw [braced, identifier_bind]
  exact (silent_expect _).bind fun _ => (silent_expect _).bind fun _ =>
    (silent_members hmember).bind fun _ => silent_pure _

theorem silent_leaf {c : Construct} (hc : c.isLeaf = true) (nested : Scope → Token → Parser Node)
    (t : Token) : Silent (c.parser nested t) := by
  rcases straight_of_leaf hc with rfl | rfl | hstraight
  · exact silent_importDecl t
  · exact silent_packageDecl t
  · exact (hstraight nested t).silent

theorem silent_construct (c : Construct) {nested : Scope → Token → Parser Node}
    (hnested : ∀ kind t, Silent (nested kind t)) (t : Token) : Silent (c.parser nested t) := by
  cases hc : c.isLeaf with
  | true => exact silent_leaf hc nested t
  | false =>
    cases c <;> simp only [Construct.isLeaf, reduceCtorEq] at hc
    case scope kind => exact hnested kind t
    case service =>
      rw [Construct.parser, service_eq (scope 0 0)]
      refine silent_braced ?_
      intro t' p hp
      obtain ⟨c', hc', -, rfl⟩ := exists_construct_of_member hp
      exact silent_leaf (isLeaf_of_mem_inService c' hc') _ t'

theorem silent_scope (limit room : Nat) (kind : Scope) (keyword : Token) :
    Silent (scope limit room kind keyword) := by
  induction room generalizing kind keyword with
  | zero => exact silent_fail rfl
  | succ room ih =>
    rw [scope_succ]
    refine silent_braced ?_
    intro t p hp
    obtain ⟨c, -, -, rfl⟩ := exists_construct_of_member hp
    exact silent_construct c ih t

theorem silent_preamble : Silent preamble := by
  have htoken : ∀ accepts, Silent (preambleToken accepts) := by
    intro accepts
    unfold preambleToken
    refine silent_next.bind fun t => ?_
    split
    · exact silent_pure ()
    · exact silent_fail rfl
  exact (htoken _).bind fun _ => (htoken _).bind fun _ => (htoken _).bind fun _ => htoken _

end

/-! ## §4 Members at the front -/

/-- `ns` are read from the tokens `body`, and no further member from `rest` behind them. -/
structure Front (member : Token → Option (Parser Node)) (body rest : List Token)
    (ns : List Node) : Prop where
  series : Series member body ns
  stuck : ∀ k used left p n, rest = k :: (used ++ left) → k.kind ≠ .error → member k = some p →
    ¬ p.Reads used n

section

variable {member : Token → Option (Parser Node)} {rest : List Token}

theorem front_nil (h : ∀ k left p, rest = k :: left → k.kind ≠ .error → member k = some p →
    ∀ n, (p.run left).result ≠ .ok n) : Front member [] rest [] where
  series := .nil
  stuck := by
    rintro k used left p n hsplit herror hp hreads
    exact h k _ p hsplit herror hp n (hreads.run_append left).1

end

/-! ## §5 Declarations -/

/-- The record of a declaration that has been read. -/
def declarationRecord (n : Node) : Record :=
  ⟨.trace, .grammar, "parsed declaration at " ++ reported.describeSpan n.span⟩

theorem run_reported (p : Parser Node) (ts : List Token) :
    (reported p).run ts =
      (p.run ts).bind fun n rest => ⟨.ok n, rest, [declarationRecord n]⟩ := rfl

section

variable {close : TokenKind} {expected : Expected} {member : Token → Option (Parser Node)}
  {ts : List Token}

/-- Where no member starts, members end or a fault stands. -/
theorem log_members_of_none (hts : ∀ t ∈ ts, t.kind ≠ .comment)
    (hnone : ∀ k rest, ts = k :: rest → k.kind ≠ .error → member k = none) (nodes : Array Node)
    {out : Outcome (List Node × Token)}
    (hout : (loop (memberTurn close expected member) nodes).run ts = out) :
    out.log = faultRecords out.result ∧ ∀ r, out.result = .ok r → r.1 = nodes.toList := by
  change runLoop _ nodes ts = out at hout
  rw [runLoop_eq] at hout
  cases hnext : (next.run ts).result with
  | error f =>
    rw [Outcome.bind_of_error hnext, silent_next ts, hnext] at hout
    subst hout
    exact ⟨rfl, by rintro _ ⟨⟩⟩
  | ok t =>
    rw [Outcome.bind_of_ok hnext, silent_next.log_of_ok hnext] at hout
    obtain ⟨used, hsplit, hreads⟩ := exists_reads hts hnext
    obtain ⟨rfl, -, herror⟩ := reads_next.mp hreads
    unfold memberTurn at hout
    rw [hnone t _ hsplit herror] at hout
    by_cases hclose : t.kind = close
    · rw [if_pos hclose] at hout
      subst hout
      refine ⟨rfl, ?_⟩
      rintro _ ⟨⟩
      rfl
    · rw [if_neg hclose] at hout
      subst hout
      exact ⟨rfl, by rintro _ ⟨⟩⟩

/-- Members that are reported when they are read are those at the front, and what is written is a
record for each and what is written about a fault: by induction on the tokens. -/
theorem exists_front (hclose : ∀ t, t.kind = close → member t = none)
    (hmember : ∀ t p, member t = some p → Silent p) (hts : ∀ t ∈ ts, t.kind ≠ .comment)
    (nodes : Array Node) {out : Outcome (List Node × Token)}
    (hout : (loop (memberTurn close expected fun t => (member t).map reported) nodes).run ts =
      out) :
    ∃ body rest ns, ts = body ++ rest ∧ Front member body rest ns ∧
      out.log = ns.map declarationRecord ++ faultRecords out.result ∧
      ∀ r, out.result = .ok r → r.1 = nodes.toList ++ ns := by
  induction hn : ts.length using Nat.strongRecOn generalizing nodes ts out with
  | ind n ih =>
    by_cases hstart : ∃ k rest p, ts = k :: rest ∧ k.kind ≠ .error ∧ member k = some p
    · obtain ⟨k, rest, p, rfl, herror, hp⟩ := hstart
      obtain ⟨hk, hrest⟩ := List.forall_mem_cons.mp hts
      rw [run_members_of_some hk herror (ne_close_of_member hclose hp) (by rw [hp]; rfl),
        run_bind, run_reported] at hout
      cases hres : (p.run rest).result with
      | error f =>
        rw [Outcome.bind_of_error hres, Outcome.bind_of_error rfl, hmember k p hp rest, hres]
          at hout
        subst hout
        refine ⟨[], k :: rest, [], rfl, front_nil ?_, rfl, by rintro _ ⟨⟩⟩
        rintro k' left p' ⟨⟩ - hp' n hok
        obtain rfl := Option.some.inj (hp.symm.trans hp')
        rw [hres] at hok
        cases hok
      | ok node =>
        rw [Outcome.bind_of_ok hres, Outcome.bind_of_ok rfl, (hmember k p hp).log_of_ok hres]
          at hout
        obtain ⟨used, hsplit, hreads⟩ := exists_reads hrest hres
        generalize (p.run rest).rest = left at hsplit hout
        subst hsplit
        have hshorter : left.length < n := by
          rw [← hn, List.length_cons, List.length_append]
          omega
        obtain ⟨body, rest', ns, rfl, hfront, hlog, hnodes⟩ :=
          ih left.length hshorter (List.forall_mem_append.mp hrest).2 (nodes.push node) rfl rfl
        refine ⟨k :: (used ++ body), rest', node :: ns, by simp,
          ⟨.cons hp hk herror hreads hfront.series, hfront.stuck⟩, ?_, ?_⟩
        · subst hout
          simp only [hlog, List.map_cons, List.nil_append, List.cons_append]
        · subst hout
          intro r hr
          simpa using hnodes r hr
    · have hnone : ∀ k rest, ts = k :: rest → k.kind ≠ .error → member k = none := by
        rintro k rest rfl herror
        cases hp : member k with
        | none => rfl
        | some p => exact absurd ⟨k, rest, p, rfl, herror, hp⟩ hstart
      obtain ⟨hlog, hnodes⟩ := log_members_of_none hts
        (fun k rest hsplit herror => by rw [hnone k rest hsplit herror]; rfl) nodes hout
      refine ⟨[], ts, [], rfl, front_nil ?_, hlog, by simpa using hnodes⟩
      intro k left p hsplit herror hp
      exact absurd ⟨k, left, p, hsplit, herror, hp⟩ hstart

end

/-! ## §6 Files -/

/-- What a log starts with. -/
def startRecord (source : String) : Record :=
  ⟨.debug, .grammar, s!"parsing {source.utf8ByteSize} bytes"⟩

/-- What a log ends with: how many declarations there are, or what is written about the fault. -/
def endRecords : Except Fault File → List Record
  | .ok f => [⟨.debug, .grammar, s!"parsed {f.declarations.length} top-level declarations"⟩]
  | .error f => f.records

/-- The declarations of a file that are completed, as far as they can be read. -/
inductive Completed (limit : Nat) : List Token → List Node → Prop
  | nothing {ts : List Token} (h : ∀ front rest, ts = front ++ rest → ¬ preamble.Reads front ()) :
      Completed limit ts []
  | declarations {front body rest : List Token} {ns : List Node}
      (hpreamble : preamble.Reads front ())
      (hfront : Front (Place.file.member (scope limit limit)) body rest ns) :
      Completed limit (front ++ (body ++ rest)) ns

section

variable {limit : Nat} {ts : List Token} {ns : List Node}

theorem silent_declaration (t : Token) (p : Parser Node)
    (h : Place.file.member (scope limit limit) t = some p) : Silent p := by
  obtain ⟨c, -, -, rfl⟩ := exists_construct_of_member h
  exact silent_construct c (silent_scope limit limit) t

/-- A record for each declaration that is completed, and one for the end or the fault. -/
theorem log_file (hts : ∀ t ∈ ts, t.kind ≠ .comment) {out : Outcome File}
    (hout : (file limit).run ts = out) :
    ∃ ns, Completed limit ts ns ∧ out.log = ns.map declarationRecord ++ endRecords out.result ∧
      ∀ f, out.result = .ok f → f.declarations = ns := by
  rw [file_eq, fileWith_eq, run_bind] at hout
  cases hpreamble : (preamble.run ts).result with
  | error f =>
    rw [Outcome.bind_of_error hpreamble, silent_preamble ts, hpreamble] at hout
    subst hout
    refine ⟨[], .nothing ?_, rfl, by rintro _ ⟨⟩⟩
    rintro front rest rfl hreads
    rw [(hreads.run_append rest).1] at hpreamble
    cases hpreamble
  | ok u =>
    rw [Outcome.bind_of_ok hpreamble, silent_preamble.log_of_ok hpreamble, run_bind] at hout
    obtain ⟨front, hsplit, hreads⟩ := exists_reads hts hpreamble
    generalize (preamble.run ts).rest = left at hsplit hout
    subst hsplit
    generalize hdeclarations : (declarations (scope limit limit)).run left = out' at hout
    obtain ⟨body, rest, ns, rfl, hfront, hlog, hnodes⟩ := exists_front
      (fun t ht => member_eq_none (.inr ht)) silent_declaration (List.forall_mem_append.mp hts).2
      #[] hdeclarations
    refine ⟨ns, .declarations hreads hfront, ?_⟩
    cases hres : out'.result with
    | error f =>
      rw [Outcome.bind_of_error hres, hlog, hres] at hout
      subst hout
      exact ⟨rfl, by rintro _ ⟨⟩⟩
    | ok r =>
      rw [Outcome.bind_of_ok hres, hlog, hres] at hout
      have hr : r.1 = ns := by simpa using hnodes r hres
      subst hout
      refine ⟨?_, ?_⟩
      · simp only [faultRecords, List.append_nil, List.nil_append]
        rfl
      · rintro _ ⟨⟩
        exact hr

end

/-- The log of a text is a record of its size, a record for each declaration that is completed, and
what is written about the end or the fault. -/
theorem log_parseText (source : String) :
    ∃ ns, Completed nestingLimit (significant (tokenize source)) ns ∧
      (parseText source).log = startRecord source ::
        (ns.map declarationRecord ++ endRecords (parseText source).value) ∧
      ∀ f, (parseText source).value = .ok f → f.declarations = ns := by
  have hts : ∀ t ∈ significant (tokenize source), t.kind ≠ .comment :=
    not_comment_of_mem_significant
  obtain ⟨ns, hcompleted, hlog, hnodes⟩ :=
    log_file hts (rfl : (file nestingLimit).run (significant (tokenize source)) = _)
  rw [(file nestingLimit).run_significant] at hlog hnodes
  exact ⟨ns, hcompleted, congrArg _ hlog, hnodes⟩

end ProtoSchema
