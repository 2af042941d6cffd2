import ProtoSchema.Proofs.Constructs

/-!
# Members and files, read and derived

The places of the grammar are read by one loop that picks a construct by the kind of its first
token (`Place.member`); no place admits two constructs that start alike.  From this, by induction
on the room for scopes, what is read side by side is derived (`members_of_series`), and by
induction on derivations the other way (`series_of_members`).

* §1 picking a construct, §2 members, §3 reading is deriving, §4 files.
-/

namespace ProtoSchema

open ProtoSchema.Parser ProtoSchema.Grammar

/-! ## §1 Picking a construct -/

/-- The kinds of token that a construct can start with. -/
def Construct.starts : Construct → List TokenKind
  | importDecl => [.keyword .importKw]
  | package => [.keyword .packageKw]
  | option => [.keyword .optionKw]
  | service => [.keyword .serviceKw]
  | scope kind => [.keyword kind.keyword]
  | plainField => [.identifier, .qualified]
  | repeatedField => [.keyword .repeatedKw]
  | mapField => [.keyword .mapKw]
  | enumField => [.identifier]
  | rpc => [.keyword .rpcKw]
  | empty => [.semicolon]

/-- How a construct is read on from its first token, where `nested` reads a scope. -/
def Construct.parser (nested : Scope → Token → Parser Node) : Construct → Token → Parser Node
  | importDecl => Grammar.importDecl
  | package => packageDecl
  | option => optionDecl
  | service => Grammar.service
  | scope kind => nested kind
  | plainField => fun t => field t (.named t.ident) none
  | repeatedField => Grammar.repeatedField
  | mapField => Grammar.mapField
  | enumField => Grammar.enumField
  | rpc => Grammar.rpc
  | empty => fun t => pure (.empty t.span)

/-- How a member of a place is read on from its first token, if one may start with it. -/
def Place.member (place : Place) (nested : Scope → Token → Parser Node) (t : Token) :
    Option (Parser Node) :=
  (place.admits.find? fun c => t.kind ∈ c.starts).map fun c => c.parser nested t

theorem exists_construct_of_member {place : Place} {nested : Scope → Token → Parser Node}
    {t : Token} {p : Parser Node} (h : place.member nested t = some p) :
    ∃ c ∈ place.admits, t.kind ∈ c.starts ∧ p = c.parser nested t := by
  obtain ⟨c, hfind, rfl⟩ := Option.map_eq_some_iff.mp h
  refine ⟨c, List.mem_of_find?_eq_some hfind, ?_, rfl⟩
  simpa using List.find?_some hfind

/-- No place admits two constructs that start alike. -/
theorem find?_admits (place : Place) : ∀ c ∈ place.admits, ∀ kind ∈ c.starts,
    place.admits.find? (fun c => kind ∈ c.starts) = some c := by
  cases place with
  | file => decide
  | inScope kind => cases kind <;> decide
  | inService => decide

theorem member_eq_some {place : Place} {c : Construct} {t : Token} (hadmits : c ∈ place.admits)
    (hstarts : t.kind ∈ c.starts) (nested : Scope → Token → Parser Node) :
    place.member nested t = some (c.parser nested t) := by
  rw [Place.member, find?_admits place c hadmits t.kind hstarts]
  rfl

theorem scopeMember_eq (nested : Scope → Token → Parser Node) (kind : Scope) (t : Token) :
    scopeMember nested kind t = (Place.inScope kind).member nested t := by
  obtain ⟨tkind, offset, text⟩ := t
  cases kind <;> cases tkind with
    | keyword word => cases word <;> rfl
    | _ => rfl

theorem statement_eq (nested : Scope → Token → Parser Node) (t : Token) :
    statement t = Place.inService.member nested t := by
  obtain ⟨tkind, offset, text⟩ := t
  cases tkind with
  | keyword word => cases word <;> rfl
  | _ => rfl

theorem declaration_eq (limit : Nat) (t : Token) :
    declaration limit t = Place.file.member (scope limit limit) t := by
  obtain ⟨tkind, offset, text⟩ := t
  cases tkind with
  | keyword word => cases word <;> rfl
  | _ => rfl

/-! ## §2 Members -/

/-- Tokens that fall into pieces, each read by `member` from its first token. -/
inductive Series (member : Token → Option (Parser Node)) : List Token → List Node → Prop
  | nil : Series member [] []
  | cons {t : Token} {u rest : List Token} {p : Parser Node} {n : Node} {ns : List Node}
      (hmember : member t = some p) (hcomment : t.kind ≠ .comment) (herror : t.kind ≠ .error)
      (hreads : p.Reads u n) (hrest : Series member rest ns) :
      Series member (t :: (u ++ rest)) (n :: ns)

section

variable {close : TokenKind} {expected : Expected} {member : Token → Option (Parser Node)}

theorem reads_memberTurn {nodes : Array Node} {t : Token} {used : List Token}
    {r : Turn (Array Node) (List Node × Token)} :
    (memberTurn close expected member nodes t).Reads used r ↔
      (t.kind = close ∧ used = [] ∧ r = .finish (nodes.toList, t)) ∨
      (t.kind ≠ close ∧ ∃ p n, member t = some p ∧ p.Reads used n ∧
        r = .again (nodes.push n)) := by
  unfold memberTurn
  by_cases hclose : t.kind = close
  · rw [if_pos hclose, reads_pure]
    simp [hclose]
  · rw [if_neg hclose]
    split
    · next p hp =>
      rw [reads_bind]
      constructor
      · rintro ⟨u, v, n, rfl, hn, hr⟩
        obtain ⟨rfl, rfl⟩ := reads_pure.mp hr
        exact .inr ⟨hclose, p, n, hp, by simpa using hn, rfl⟩
      · rintro (⟨h, -⟩ | ⟨-, p', n, hp', hn, rfl⟩)
        · exact absurd h hclose
        · obtain rfl := Option.some.inj (hp.symm.trans hp')
          exact ⟨used, [], n, by simp, hn, reads_pure.mpr ⟨rfl, rfl⟩⟩
    · next hp =>
      constructor
      · intro h
        exact absurd h not_reads_fail
      · rintro (⟨h, -⟩ | ⟨-, p', n, hp', -⟩)
        · exact absurd h hclose
        · rw [hp] at hp'
          cases hp'

/-- Members are read up to the first token that closes them. -/
theorem series_of_reads_members {nodes : Array Node} {used : List Token} {ns : List Node}
    {last : Token} (h : (loop (memberTurn close expected member) nodes).Reads used (ns, last)) :
    ∃ body ms, used = body ++ [last] ∧ last.kind = close ∧ ns = nodes.toList ++ ms ∧
      Series member body ms := by
  induction hn : used.length using Nat.strongRecOn generalizing used nodes with
  | ind k ih =>
    obtain ⟨t, u, v, r, rfl, hcomment, herror, hturn, hr⟩ := reads_loop.mp h
    rcases reads_memberTurn.mp hturn with ⟨hclose, rfl, rfl⟩ | ⟨-, p, n, hp, hreads, rfl⟩
    · obtain ⟨rfl, heq⟩ := hr
      obtain ⟨rfl, rfl⟩ := Prod.mk.inj heq
      exact ⟨[], [], rfl, hclose, by simp, .nil⟩
    · have hlt : v.length < k := by
        simp only [← hn, List.length_cons, List.length_append]
        omega
      obtain ⟨body, ms, rfl, hlast, rfl, hbody⟩ := ih v.length hlt hr rfl
      refine ⟨t :: (u ++ body), n :: ms, by simp, hlast, by simp, ?_⟩
      exact .cons hp hcomment herror hreads hbody

/-- No member starts with the token that closes the members. -/
theorem ne_close_of_member (hclose : ∀ t, t.kind = close → member t = none) {t : Token}
    {p : Parser Node} (hmember : member t = some p) : t.kind ≠ close := by
  intro heq
  rw [hclose t heq] at hmember
  cases hmember

theorem reads_members_of_series (hclose : ∀ t, t.kind = close → member t = none)
    (nodes : Array Node) {body : List Token} {ms : List Node} (h : Series member body ms)
    {last : Token} (hlast : last.kind = close) (hcomment : close ≠ .comment)
    (herror : close ≠ .error) :
    (loop (memberTurn close expected member) nodes).Reads (body ++ [last])
      (nodes.toList ++ ms, last) := by
  induction h generalizing nodes with
  | nil =>
    refine reads_loop.mpr ⟨last, [], [], _, rfl, by simp [hlast, hcomment],
      by simp [hlast, herror], reads_memberTurn.mpr (.inl ⟨hlast, rfl, rfl⟩), rfl, by simp⟩
  | @cons t u rest p n ns hmember hcomment' herror' hreads _ ih =>
    have hne := ne_close_of_member hclose hmember
    have hrest := @ih (nodes.push n)
    refine reads_loop.mpr ⟨t, u, rest ++ [last], .again (nodes.push n), by simp, hcomment',
      herror', reads_memberTurn.mpr (.inr ⟨hne, p, n, hmember, hreads, rfl⟩), ?_⟩
    simpa using hrest

theorem reads_members (hclose : ∀ t, t.kind = close → member t = none)
    (hcomment : close ≠ .comment) (herror : close ≠ .error) {used : List Token} {ns : List Node}
    {last : Token} :
    (members close expected member).Reads used (ns, last) ↔
      ∃ body, used = body ++ [last] ∧ last.kind = close ∧ Series member body ns := by
  constructor
  · intro h
    obtain ⟨body, ms, rfl, hlast, rfl, hbody⟩ := series_of_reads_members h
    exact ⟨body, rfl, hlast, by simpa using hbody⟩
  · rintro ⟨body, rfl, hlast, hbody⟩
    simpa [members] using reads_members_of_series hclose #[] hbody hlast hcomment herror

end

/-- A closing brace starts no member, and neither does the end of input. -/
theorem member_eq_none {place : Place} {nested : Scope → Token → Parser Node} {t : Token}
    (h : t.kind = .rightBrace ∨ t.kind = .endOfInput) : place.member nested t = none := by
  cases hmember : place.member nested t with
  | none => rfl
  | some p =>
    obtain ⟨c, -, hstarts, -⟩ := exists_construct_of_member hmember
    rcases h with h | h <;> rw [h] at hstarts <;>
      cases c <;> simp [Construct.starts] at hstarts

/-- What scopes and services share: a name, and members between braces. -/
def braced (expected : Expected) (member : Token → Option (Parser Node))
    (build : Ident → Token → List Node → Token → Node) : Parser Node := do
  let name ← identifier
  let opening ← expect .leftBrace
  let (nodes, closing) ← members .rightBrace expected member
  return build name opening nodes closing

/-- A scope of its name, its braces and its members. -/
def scopeNode (kind : Scope) (keyword : Token) (name : Ident) (_ : Token) (nodes : List Node)
    (closing : Token) : Node :=
  .scope kind name nodes (keyword.spanTo closing)

def serviceNode (keyword : Token) (name : Ident) (opening : Token) (nodes : List Node)
    (closing : Token) : Node :=
  .service name opening.offset nodes closing.offset (keyword.spanTo closing)

theorem scope_succ (limit room : Nat) (kind : Scope) (keyword : Token) :
    scope limit (room + 1) kind keyword =
      braced (.member kind) ((Place.inScope kind).member (scope limit room))
        (scopeNode kind keyword) := by
  rw [scope, show scopeMember (scope limit room) kind = _ from funext (scopeMember_eq _ kind)]
  rfl

/-- A service admits no scopes, so it does not matter how they would be read. -/
theorem service_eq (nested : Scope → Token → Parser Node) (keyword : Token) :
    service keyword =
      braced .statement (Place.inService.member nested) (serviceNode keyword) := by
  rw [service, show statement = _ from funext (statement_eq nested)]
  rfl

theorem reads_braced {expected : Expected} {place : Place}
    {nested : Scope → Token → Parser Node} {build : Ident → Token → List Node → Token → Node}
    {used : List Token} {n : Node} :
    (braced expected (place.member nested) build).Reads used n ↔
      ∃ name opening inner closing nodes, used = name :: opening :: (inner ++ [closing]) ∧
        name.kind = .identifier ∧ opening.kind = .leftBrace ∧ closing.kind = .rightBrace ∧
        Series (place.member nested) inner nodes ∧
        n = build name.ident opening nodes closing := by
  have hclose : ∀ t : Token, t.kind = .rightBrace → place.member nested t = none :=
    fun t ht => member_eq_none (.inl ht)
  simp only [braced, reads_identifier_bind, reads_expect_bind, ne_eq, reduceCtorEq,
    not_false_eq_true]
  constructor
  · rintro ⟨name, _, rfl, hname, opening, _, rfl, hopening, h⟩
    obtain ⟨u, v, ⟨nodes, closing⟩, rfl, hmembers, hpure⟩ := reads_bind.mp h
    obtain ⟨inner, rfl, hclosing, hinner⟩ :=
      (reads_members hclose (by simp) (by simp)).mp hmembers
    obtain ⟨rfl, rfl⟩ := reads_pure.mp hpure
    exact ⟨name, opening, inner, closing, nodes, by simp, hname, hopening, hclosing, hinner, rfl⟩
  · rintro ⟨name, opening, inner, closing, nodes, rfl, hname, hopening, hclosing, hinner, rfl⟩
    refine ⟨name, _, rfl, hname, opening, _, rfl, hopening, reads_bind.mpr ?_⟩
    refine ⟨inner ++ [closing], [], (nodes, closing), by simp, ?_, reads_pure.mpr ⟨rfl, rfl⟩⟩
    exact (reads_members hclose (by simp) (by simp)).mpr ⟨inner, rfl, hclosing, hinner⟩

theorem reads_scope {limit room : Nat} {kind : Scope} (keyword : Token) {used : List Token}
    {n : Node} :
    (scope limit (room + 1) kind keyword).Reads used n ↔
      ∃ name opening inner closing nodes, used = name :: opening :: (inner ++ [closing]) ∧
        name.kind = .identifier ∧ opening.kind = .leftBrace ∧ closing.kind = .rightBrace ∧
        Series ((Place.inScope kind).member (scope limit room)) inner nodes ∧
        n = .scope kind name.ident nodes (keyword.spanTo closing) := by
  rw [scope_succ]
  exact reads_braced

theorem not_reads_scope_zero (limit : Nat) (kind : Scope) {keyword : Token} {used : List Token}
    {n : Node} : ¬ (scope limit 0 kind keyword).Reads used n :=
  not_reads_fail

theorem reads_service (nested : Scope → Token → Parser Node) (keyword : Token)
    {used : List Token} {n : Node} :
    (Grammar.service keyword).Reads used n ↔
      ∃ name opening inner closing nodes, used = name :: opening :: (inner ++ [closing]) ∧
        name.kind = .identifier ∧ opening.kind = .leftBrace ∧ closing.kind = .rightBrace ∧
        Series (Place.inService.member nested) inner nodes ∧
        n = .service name.ident opening.offset nodes closing.offset (keyword.spanTo closing) := by
  rw [service_eq nested]
  exact reads_braced

/-! ## §3 Reading is deriving -/

/-- The constructs that hold no others. -/
def Construct.isLeaf : Construct → Bool
  | service | scope _ => false
  | _ => true

theorem leaf_of_reads {c : Construct} (hc : c.isLeaf = true)
    {nested : Scope → Token → Parser Node} {t : Token} {used : List Token} {n : Node}
    (hstarts : t.kind ∈ c.starts) (h : (c.parser nested t).Reads used n) :
    Leaf c (t :: used) n := by
  cases c <;> simp only [Construct.starts, List.mem_cons, List.not_mem_nil, or_false] at hstarts
  case service => cases hc
  case scope => cases hc
  case importDecl => exact (reads_importDecl hstarts).mp h
  case option => exact (reads_optionDecl hstarts).mp h
  case plainField => exact (reads_plainField hstarts).mp h
  case repeatedField => exact (reads_repeatedField hstarts).mp h
  case mapField => exact (reads_mapField hstarts).mp h
  case enumField => exact (reads_enumField hstarts).mp h
  case rpc => exact (reads_rpc hstarts).mp h
  case empty => exact (reads_empty hstarts).mp h
  case package =>
    obtain ⟨skipped, semi, rfl, hskipped, hsemi, rfl⟩ := reads_packageDecl.mp h
    exact .package hstarts (fun t ht => (hskipped t ht).1) hsemi

theorem reads_of_leaf {c : Construct} (nested : Scope → Token → Parser Node) {t : Token}
    {used : List Token} {n : Node} (h : Leaf c (t :: used) n)
    (hordinary : ∀ t ∈ used, t.Ordinary) : (c.parser nested t).Reads used n := by
  cases c
  case service => cases h
  case scope => cases h
  case importDecl => exact (reads_importDecl (by cases h; assumption)).mpr h
  case option => exact (reads_optionDecl (by cases h; assumption)).mpr h
  case plainField => exact (reads_plainField (by cases h; assumption)).mpr h
  case repeatedField => exact (reads_repeatedField (by cases h; assumption)).mpr h
  case mapField => exact (reads_mapField (by cases h with | mapField hmap => exact hmap.1)).mpr h
  case enumField => exact (reads_enumField (by cases h with | enumField hend => exact hend.1)).mpr h
  case rpc => exact (reads_rpc (by cases h; assumption)).mpr h
  case empty => exact (reads_empty (by cases h; assumption)).mpr h
  case package =>
    cases h with
    | package _ hskipped hsemi =>
      refine reads_packageDecl.mpr ⟨_, _, rfl, ?_, hsemi, rfl⟩
      intro t ht
      exact ⟨hskipped t ht, hordinary t (List.mem_append_left _ ht)⟩

theorem exists_start_of_leaf {c : Construct} {ts : List Token} {n : Node} (h : Leaf c ts n) :
    ∃ t used, ts = t :: used ∧ t.kind ∈ c.starts := by
  cases h with
  | mapField hmap hend => exact ⟨_, _, rfl, by simp [Construct.starts, hmap.keyword_kind]⟩
  | enumField hend => exact ⟨_, _, rfl, by simp [Construct.starts, hend.name_kind]⟩
  | plainField htype hend =>
    refine ⟨_, _, rfl, ?_⟩
    simpa [Construct.starts, Token.IsTypeName] using htype
  | _ => exact ⟨_, _, rfl, by simp [Construct.starts, *]⟩

theorem isLeaf_of_mem_inService : ∀ c ∈ Place.inService.admits, c.isLeaf = true := by
  decide

/-- Statements are read alike with any room. -/
theorem members_of_series_inService {room : Nat} {nested : Scope → Token → Parser Node}
    {ts : List Token} {ns : List Node} (h : Series (Place.inService.member nested) ts ns) :
    Members .inService room ts ns := by
  induction h with
  | nil => exact .nil
  | cons hmember _ _ hreads _ ih =>
    obtain ⟨c, hadmits, hstarts, rfl⟩ := exists_construct_of_member hmember
    exact .leaf hadmits (leaf_of_reads (isLeaf_of_mem_inService c hadmits) hstarts hreads) ih

/-- What is read side by side is derived: by induction on the room, and for each room on the
pieces. -/
theorem members_of_series {limit room : Nat} {place : Place} {ts : List Token} {ns : List Node}
    (h : Series (place.member (scope limit room)) ts ns) : Members place room ts ns := by
  induction room using Nat.strongRecOn generalizing place ts ns with
  | ind room ihroom =>
    induction h with
    | nil => exact .nil
    | cons hmember _ _ hreads _ ih =>
      obtain ⟨c, hadmits, hstarts, rfl⟩ := exists_construct_of_member hmember
      cases hleaf : c.isLeaf with
      | true => exact .leaf hadmits (leaf_of_reads hleaf hstarts hreads) ih
      | false =>
        cases c <;> simp only [Construct.isLeaf, reduceCtorEq] at hleaf
        case service =>
          obtain ⟨name, opening, inner, closing, nodes, rfl, hname, hopening, hclosing, hinner,
            rfl⟩ := (reads_service (scope limit room) _).mp hreads
          simp only [Construct.starts, List.mem_singleton] at hstarts
          simp only [List.cons_append, List.append_assoc]
          exact .service hadmits ⟨hstarts, hname, hopening, hclosing⟩
            (members_of_series_inService hinner) ih
        case scope kind =>
          -- a scope that was read had room for itself, and its members have one room less
          cases room with
          | zero => exact absurd hreads (not_reads_scope_zero limit kind)
          | succ room =>
            obtain ⟨name, opening, inner, closing, nodes, rfl, hname, hopening, hclosing, hinner,
              rfl⟩ := (reads_scope _).mp hreads
            simp only [Construct.starts, List.mem_singleton] at hstarts
            simp only [List.cons_append, List.append_assoc]
            exact .scope hadmits ⟨hstarts, hname, hopening, hclosing⟩
              (ihroom room (Nat.lt_succ_self room) hinner) ih

/-- What is derived is read, if it is made of ordinary tokens. -/
theorem series_of_members {limit room : Nat} {place : Place} {ts : List Token} {ns : List Node}
    (h : Members place room ts ns) (hordinary : ∀ t ∈ ts, t.Ordinary) :
    Series (place.member (scope limit room)) ts ns := by
  induction h with
  | nil => exact .nil
  | @leaf place room c ts rest n ns hadmits hleaf _ ih =>
    obtain ⟨t, used, rfl, hstarts⟩ := exists_start_of_leaf hleaf
    simp only [List.cons_append, List.forall_mem_cons, List.forall_mem_append] at hordinary
    obtain ⟨ht, hused, hrest⟩ := hordinary
    exact .cons (member_eq_some hadmits hstarts _) ht.not_comment ht.not_error
      (reads_of_leaf _ hleaf hused) (ih hrest)
  | @scope place room kind keyword name opening closing inner rest nodes ns hadmits hbraced _ _
      ihinner ih =>
    simp only [List.forall_mem_cons, List.forall_mem_append] at hordinary
    obtain ⟨ht, -, -, hinner, -, hrest⟩ := hordinary
    have hstarts : keyword.kind ∈ (Construct.scope kind).starts := by
      simp [Construct.starts, hbraced.keyword_kind]
    have hreads := (reads_scope keyword).mpr ⟨name, opening, inner, closing, nodes, rfl,
      hbraced.name_kind, hbraced.opening_kind, hbraced.closing_kind, ihinner hinner, rfl⟩
    have hmember := member_eq_some hadmits hstarts (Grammar.scope limit (room + 1))
    have hseries := Series.cons hmember ht.not_comment ht.not_error hreads (ih hrest)
    simpa using hseries
  | @service place room keyword name opening closing inner rest nodes ns hadmits hbraced _ _
      ihinner ih =>
    simp only [List.forall_mem_cons, List.forall_mem_append] at hordinary
    obtain ⟨ht, -, -, hinner, -, hrest⟩ := hordinary
    have hstarts : keyword.kind ∈ Construct.service.starts := by
      simp [Construct.starts, hbraced.keyword_kind]
    have hreads := (reads_service (scope limit room) keyword).mpr ⟨name, opening, inner, closing,
      nodes, rfl, hbraced.name_kind, hbraced.opening_kind, hbraced.closing_kind, ihinner hinner,
      rfl⟩
    have hmember := member_eq_some hadmits hstarts (Grammar.scope limit room)
    have hseries := Series.cons hmember ht.not_comment ht.not_error hreads (ih hrest)
    simpa using hseries

/-! ## §4 Files -/

/-- Reporting a declaration is not reading. -/
theorem reads_reported {p : Parser Node} {used : List Token} {n : Node} :
    (reported p).Reads used n ↔ p.Reads used n := by
  rw [reported, reads_bind]
  constructor
  · rintro ⟨u, v, m, rfl, hp, hrest⟩
    obtain ⟨u', v', _, rfl, hrecord, hpure⟩ := reads_bind.mp hrest
    obtain rfl := reads_record.mp hrecord
    obtain ⟨rfl, rfl⟩ := reads_pure.mp hpure
    simpa using hp
  · intro hp
    exact ⟨used, [], n, by simp, hp, reads_bind.mpr ⟨[], [], (), rfl, reads_record.mpr rfl,
      reads_pure.mpr ⟨rfl, rfl⟩⟩⟩

theorem series_map_reported {member : Token → Option (Parser Node)} {ts : List Token}
    {ns : List Node} : Series (fun t => (member t).map reported) ts ns ↔ Series member ts ns := by
  constructor
  · intro h
    induction h with
    | nil => exact .nil
    | cons hmember hcomment herror hreads _ ih =>
      obtain ⟨p, hp, rfl⟩ := Option.map_eq_some_iff.mp hmember
      exact .cons hp hcomment herror (reads_reported.mp hreads) ih
  · intro h
    induction h with
    | nil => exact .nil
    | cons hmember hcomment herror hreads _ ih =>
      exact .cons (by rw [hmember]; rfl) hcomment herror (reads_reported.mpr hreads) ih

theorem reads_preambleToken_bind {β : Type} {accepts : Token → Bool} {f : Unit → Parser β}
    {used : List Token} {b : β} :
    (preambleToken accepts >>= f).Reads used b ↔
      ∃ t v, used = t :: v ∧ t.kind ≠ .comment ∧ t.kind ≠ .error ∧ accepts t = true ∧
        (f ()).Reads v b := by
  rw [preambleToken, bind_assoc, reads_next_bind]
  constructor
  · rintro ⟨t, v, rfl, hcomment, herror, h⟩
    split at h
    · next haccepts => exact ⟨t, v, rfl, hcomment, herror, haccepts, Parser.pure_bind () f ▸ h⟩
    · rw [reads_bind] at h
      obtain ⟨_, _, _, _, h, _⟩ := h
      exact absurd h not_reads_fail
  · rintro ⟨t, v, rfl, hcomment, herror, haccepts, h⟩
    refine ⟨t, v, rfl, hcomment, herror, ?_⟩
    rwa [if_pos haccepts, Parser.pure_bind]

theorem preamble_eq : preamble =
    preambleToken (·.kind = .keyword .syntaxKw) >>= fun _ =>
      preambleToken (·.kind = .equals) >>= fun _ =>
        preambleToken (fun t => t.kind = .stringLit && t.text = "\"proto3\"") >>= fun _ =>
          preambleToken (·.kind = .semicolon) >>= pure := by
  rw [Parser.bind_pure]
  rfl

theorem reads_preamble {used : List Token} :
    preamble.Reads used () ↔ ∃ a b c d, used = [a, b, c, d] ∧ Preamble a b c d := by
  rw [preamble_eq]
  simp only [reads_preambleToken_bind, reads_pure, decide_eq_true_eq, Bool.and_eq_true]
  constructor
  · rintro ⟨a, _, rfl, -, -, ha, b, _, rfl, -, -, hb, c, _, rfl, -, -, hc, d, _, rfl, -, -, hd,
      rfl, -⟩
    exact ⟨a, b, c, d, rfl, ⟨ha, hb, hc.1, hc.2, hd⟩⟩
  · rintro ⟨a, b, c, d, rfl, hp⟩
    exact ⟨a, _, rfl, by simp [hp.keyword_kind], by simp [hp.keyword_kind], hp.keyword_kind,
      b, _, rfl, by simp [hp.equals_kind], by simp [hp.equals_kind], hp.equals_kind,
      c, _, rfl, by simp [hp.language_kind], by simp [hp.language_kind],
      ⟨hp.language_kind, hp.language_text⟩,
      d, _, rfl, by simp [hp.semi_kind], by simp [hp.semi_kind], hp.semi_kind, rfl, trivial⟩

theorem declaration_of_endOfInput {limit : Nat} (t : Token) (ht : t.kind = .endOfInput) :
    (Place.file.member (scope limit limit) t).map reported = none := by
  rw [member_eq_none (.inr ht)]
  rfl

theorem reads_file {limit : Nat} {used : List Token} {f : File} :
    (file limit).Reads used f ↔
      ∃ a b c d body last nodes, used = a :: b :: c :: d :: (body ++ [last]) ∧ Preamble a b c d ∧
        last.kind = .endOfInput ∧ Series (Place.file.member (scope limit limit)) body nodes ∧
        f = ⟨.proto3, nodes, ⟨0, last.stop⟩⟩ := by
  have hmember : (fun t => (declaration limit t).map reported) =
      fun t => (Place.file.member (scope limit limit) t).map reported := by
    funext t
    rw [declaration_eq]
  rw [file, hmember, reads_bind]
  constructor
  · rintro ⟨_, _, _, rfl, hpreamble, h⟩
    obtain ⟨a, b, c, d, rfl, hp⟩ := reads_preamble.mp hpreamble
    obtain ⟨u, v, ⟨nodes, last⟩, rfl, hmembers, hrest⟩ := reads_bind.mp h
    obtain ⟨body, rfl, hlast, hbody⟩ :=
      (reads_members declaration_of_endOfInput (by simp) (by simp)).mp hmembers
    obtain ⟨u', v', _, rfl, hrecord, hpure⟩ := reads_bind.mp hrest
    obtain rfl := reads_record.mp hrecord
    obtain ⟨rfl, rfl⟩ := reads_pure.mp hpure
    exact ⟨a, b, c, d, body, last, nodes, by simp, hp, hlast, series_map_reported.mp hbody, rfl⟩
  · rintro ⟨a, b, c, d, body, last, nodes, rfl, hp, hlast, hbody, rfl⟩
    refine ⟨[a, b, c, d], body ++ [last], (), rfl, reads_preamble.mpr ⟨a, b, c, d, rfl, hp⟩, ?_⟩
    refine reads_bind.mpr ⟨body ++ [last], [], (nodes, last), by simp, ?_, ?_⟩
    · exact (reads_members declaration_of_endOfInput (by simp) (by simp)).mpr
        ⟨body, rfl, hlast, series_map_reported.mpr hbody⟩
    · exact reads_bind.mpr ⟨[], [], (), rfl, reads_record.mpr rfl, reads_pure.mpr ⟨rfl, rfl⟩⟩

end ProtoSchema
