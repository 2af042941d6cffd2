import ProtoSchema.Proofs.Blame
import ProtoSchema.Proofs.Expectation
import ProtoSchema.Proofs.Spans

/-!
# Layout does not matter

Two texts with the same words are read alike (`parseText_corresponds`): as trees that differ in
nothing but the places of their tokens, or not at all, for the same fault at the same token.  What
stands between the tokens, comments and blanks, says nothing.

The two runs go side by side.  Their streams hold the same tokens, those of the second moved, and
whatever a parser makes of the first stream it makes, moved, of the second (`Mirrors`).  So no
parser decides anything by an offset.

* §1 moving tokens, trees and faults;
* §2 runs side by side, §3 tokens in front of a parser;
* §4 constructs that hold no others, §5 members, scopes and files (`mirrors_file`);
* §6 the move between two texts.
-/

namespace ProtoSchema

open ProtoSchema.Parser ProtoSchema.Grammar

/-! ## §1 Moving -/

/-- Where offsets go when the tokens of a text are laid out another way.  One token may end where
the next one starts, and they need not be that close elsewhere; so ends have places of their own. -/
structure Move where
  start : Nat → Nat
  stop : Nat → Nat

/-- The same fault at another place. -/
def Fault.moveTo (f : Fault) (offset : Nat) : Fault :=
  match f with
  | .lexical _ message => .lexical offset message
  | .unexpected _ expected found => .unexpected offset expected found
  | .missingPreamble _ found => .missingPreamble offset found
  | .duplicateModifier _ modifier => .duplicateModifier offset modifier
  | .nestingTooDeep _ limit => .nestingTooDeep offset limit
  | .invalidUtf8 _ => .invalidUtf8 offset

namespace Move

variable (m : Move)

def token (t : Token) : Token := { t with offset := m.start t.offset }

def span (s : Span) : Span := ⟨m.start s.start, m.stop s.stop⟩

def ident (i : Ident) : Ident := { i with span := m.span i.span }

def literal (l : Literal) : Literal := { l with span := m.span l.span }

def mapType (t : MapType) : MapType := ⟨m.ident t.key, m.ident t.value, m.span t.span⟩

def fieldType : FieldType → FieldType
  | .named name => .named (m.ident name)
  | .map type => .map (m.mapType type)

mutual

/-- The node with all offsets in it moved, those of braces as starts. -/
def node : Node → Node
  | .importDecl d => .importDecl ⟨d.modifiers.map m.ident, m.literal d.path, m.span d.span⟩
  | .package span => .package (m.span span)
  | .option d => .option ⟨m.ident d.name, m.literal d.value, m.span d.span⟩
  | .scope kind name members span => .scope kind (m.ident name) (nodes members) (m.span span)
  | .field d =>
    .field ⟨m.ident d.name, m.literal d.number, m.fieldType d.type, d.repeated.map m.ident,
      m.span d.span⟩
  | .enumField d => .enumField ⟨m.ident d.name, d.value, m.span d.span⟩
  | .service name opening statements closing span =>
    .service (m.ident name) (m.start opening) (nodes statements) (m.start closing) (m.span span)
  | .rpc d => .rpc ⟨m.ident d.name, m.ident d.input, m.ident d.output, m.span d.span⟩
  | .empty span => .empty (m.span span)

def nodes : List Node → List Node
  | [] => []
  | n :: ns => node n :: nodes ns

end

theorem nodes_eq_map (ns : List Node) : m.nodes ns = ns.map m.node := by
  induction ns with
  | nil => rfl
  | cons n ns ih => rw [nodes, ih, List.map_cons]

def fault (f : Fault) : Fault := f.moveTo (m.start f.offset)

/-- The end of the token goes where the end of the moved token is. -/
def Carries (t : Token) : Prop := m.stop t.stop = (m.token t).stop

/-- A token of a stream without comments.  The one that ends the stream need not be carried: no
tree has its end in it. -/
structure Fits (t : Token) : Prop where
  not_comment : t.kind ≠ .comment
  carries : t.kind.isLast = false → m.Carries t

variable {m}

theorem Carries.spanTo {last : Token} (h : m.Carries last) (first : Token) :
    (m.token first).spanTo (m.token last) = m.span (first.spanTo last) := by
  rw [Token.spanTo, Token.spanTo, span, h]
  rfl

theorem Carries.ident {t : Token} (h : m.Carries t) : (m.token t).ident = m.ident t.ident := by
  rw [Token.ident, Token.ident, Move.ident, show (m.token t).span = m.span t.span from h.spanTo t]
  rfl

theorem Carries.literal {t : Token} (h : m.Carries t) (kind : LiteralKind) :
    (m.token t).literal kind = m.literal (t.literal kind) := by
  rw [Token.literal, Token.literal, Move.literal,
    show (m.token t).span = m.span t.span from h.spanTo t]
  rfl

theorem Fits.of_ordinary {t : Token} (h : m.Fits t) (ht : t.Ordinary) : m.Carries t :=
  h.carries ht.not_last

theorem Fits.of_kind {t : Token} {kind : TokenKind} (h : m.Fits t) (ht : t.kind = kind)
    (hlast : kind.isLast = false) : m.Carries t :=
  h.carries (ht ▸ hlast)

end Move

/-! ## §2 Runs side by side -/

section

variable {m : Move} {α β α' β' σ σ' : Type} {R : α → α' → Prop} {S : β → β' → Prop}

/-- The fault of a stream without an end. -/
def noToken : Fault := .unexpected 0 "token" (default : Token).display

/-- Two outcomes, the second of which is the first one moved. -/
inductive Mirrored (m : Move) (R : α → α' → Prop) : Outcome α → Outcome α' → Prop
  | ok {a : α} {a' : α'} {rest : List Token} {log log' : List Record} (h : R a a') :
      Mirrored m R ⟨.ok a, rest, log⟩ ⟨.ok a', rest.map m.token, log'⟩
  | error {f : Fault} {rest rest' : List Token} {log log' : List Record} :
      Mirrored m R ⟨.error f, rest, log⟩ ⟨.error (m.fault f), rest', log'⟩
  /-- There was no token to blame. -/
  | exhausted {rest rest' : List Token} {log log' : List Record} :
      Mirrored m R ⟨.error noToken, rest, log⟩ ⟨.error noToken, rest', log'⟩

theorem Mirrored.withLog {out : Outcome α} {out' : Outcome α'} (h : Mirrored m R out out')
    (log log' : List Record) :
    Mirrored m R { out with log := log } { out' with log := log' } := by
  cases h with
  | ok h => exact .ok h
  | error => exact .error
  | exhausted => exact .exhausted

theorem Mirrored.bind {out : Outcome α} {out' : Outcome α'} (h : Mirrored m R out out')
    {go : α → List Token → Outcome β} {go' : α' → List Token → Outcome β'}
    (hgo : ∀ a a', out.result = .ok a → R a a' →
      Mirrored m S (go a out.rest) (go' a' (out.rest.map m.token))) :
    Mirrored m S (out.bind go) (out'.bind go') := by
  cases h with
  | ok h =>
    rw [Outcome.bind_of_ok rfl, Outcome.bind_of_ok rfl]
    exact (hgo _ _ rfl h).withLog _ _
  | error =>
    rw [Outcome.bind_of_error rfl, Outcome.bind_of_error rfl]
    exact .error
  | exhausted =>
    rw [Outcome.bind_of_error rfl, Outcome.bind_of_error rfl]
    exact .exhausted

/-- Whatever `p` makes of a stream, `q` makes, moved, of the stream moved. -/
def Mirrors (m : Move) (R : α → α' → Prop) (p : Parser α) (q : Parser α') : Prop :=
  ∀ ts, (∀ t ∈ ts, m.Fits t) → Mirrored m R (p.run ts) (q.run (ts.map m.token))

theorem mirrors_pure {a : α} {a' : α'} (h : R a a') :
    Mirrors m R (pure a) (pure a') :=
  fun _ _ => .ok h

theorem mirrors_fail (f : Fault) : Mirrors m R (fail f) (fail (m.fault f)) :=
  fun _ _ => .error

theorem mirrors_record (r r' : Record) :
    Mirrors m (fun _ _ => True) (record r) (record r') :=
  fun _ _ => .ok trivial

theorem Mirrors.bind {p : Parser α} {q : Parser α'} (h : Mirrors m R p q) {f : α → Parser β}
    {g : α' → Parser β'} (hf : ∀ a a', R a a' → Mirrors m S (f a) (g a')) :
    Mirrors m S (p >>= f) (q >>= g) := by
  intro ts hts
  rw [run_bind, run_bind]
  refine (h ts hts).bind ?_
  intro a a' _ ha
  exact hf a a' ha _ fun t ht => hts t ((p.rest_suffix ts).subset ht)

/-- The token that is pulled is the same one, moved. -/
theorem mirrors_next :
    Mirrors m (fun t t' => t' = m.token t ∧ m.Fits t ∧ t.kind ≠ .error) next next := by
  intro ts hts
  cases ts with
  | nil => exact .exhausted
  | cons t rest =>
    have ht := hts t List.mem_cons_self
    have hcomment : (m.token t).kind ≠ .comment := ht.not_comment
    simp only [next, List.map_cons, pull?_cons, if_neg ht.not_comment, if_neg hcomment]
    by_cases herror : t.kind = .error
    · rw [if_pos herror, if_pos (show (m.token t).kind = .error from herror)]
      exact .error
    · rw [if_neg herror, if_neg (show (m.token t).kind ≠ .error from herror)]
      exact .ok ⟨rfl, ht, herror⟩

theorem mirrors_next_bind {f : Token → Parser β} {g : Token → Parser β'}
    (hf : ∀ t, m.Fits t → Mirrors m S (f t) (g (m.token t))) :
    Mirrors m S (next >>= f) (next >>= g) := by
  refine mirrors_next.bind ?_
  rintro t _ ⟨rfl, ht, -⟩
  exact hf t ht

/-- Turns of two loops that end alike. -/
inductive Turn.Alike (R : σ → σ' → Prop) (S : β → β' → Prop) : Turn σ β → Turn σ' β' → Prop
  | again {s : σ} {s' : σ'} (h : R s s') : Turn.Alike R S (.again s) (.again s')
  | finish {b : β} {b' : β'} (h : S b b') : Turn.Alike R S (.finish b) (.finish b')

/-- Loops go side by side if their turns do: by induction on the tokens, of which every turn takes
one. -/
theorem mirrors_loop {T : σ → σ' → Prop} {turn : σ → Token → Parser (Turn σ β)}
    {turn' : σ' → Token → Parser (Turn σ' β')}
    (hturn : ∀ s s' t, T s s' → m.Fits t →
      Mirrors m (Turn.Alike T S) (turn s t) (turn' s' (m.token t))) {s : σ} {s' : σ'}
    (hs : T s s') : Mirrors m S (loop turn s) (loop turn' s') := by
  intro ts hts
  show Mirrored m S (runLoop turn s ts) (runLoop turn' s' (ts.map m.token))
  induction hn : ts.length using Nat.strongRecOn generalizing s s' ts with
  | ind n ih =>
    rw [runLoop_eq, runLoop_eq]
    refine (mirrors_next ts hts).bind ?_
    rintro t _ hnext ⟨rfl, ht, -⟩
    have hrest : ∀ u ∈ (next.run ts).rest, m.Fits u :=
      fun u hu => hts u ((next.rest_suffix ts).subset hu)
    refine (hturn s s' t hs ht _ hrest).bind ?_
    rintro r r' - (hs' | hb)
    · refine ih _ (hn ▸ length_rest_turn_lt turn hnext) hs' _ ?_ rfl
      exact fun u hu => hrest u (((turn s t).rest_suffix _).subset hu)
    · exact .ok hb

/-! ## §3 Tokens in front of a parser -/

theorem mirrors_refuse {t : Token} {expected : Expected} :
    Mirrors m R (refuse t expected) (refuse (m.token t) expected) :=
  mirrors_fail _

theorem mirrors_refuse_bind {t : Token} {expected : Expected} {f : α → Parser β}
    {g : α → Parser β'} :
    Mirrors m S (refuse t expected >>= f) (refuse (m.token t) expected >>= g) :=
  mirrors_refuse.bind (R := fun _ _ => False) fun _ _ h => h.elim

theorem mirrors_expect_bind {kind : TokenKind} (hkind : kind.isLast = false)
    {f : Token → Parser β} {g : Token → Parser β'}
    (hf : ∀ t, m.Carries t → Mirrors m S (f t) (g (m.token t))) :
    Mirrors m S (expect kind >>= f) (expect kind >>= g) := by
  rw [expect, bind_assoc, bind_assoc]
  refine mirrors_next_bind fun t ht => ?_
  by_cases h : t.kind = kind
  · rw [if_pos h, if_pos (show (m.token t).kind = kind from h), Parser.pure_bind,
      Parser.pure_bind]
    exact hf t (ht.of_kind h hkind)
  · rw [if_neg h, if_neg (show (m.token t).kind ≠ kind from h)]
    exact mirrors_refuse_bind

theorem mirrors_typeName_bind {f : Ident → Parser β} {g : Ident → Parser β'}
    (hf : ∀ i, Mirrors m S (f i) (g (m.ident i))) :
    Mirrors m S (typeName >>= f) (typeName >>= g) := by
  rw [typeName, bind_assoc, bind_assoc]
  refine mirrors_next_bind fun t ht => ?_
  have hkind : (m.token t).kind = t.kind := rfl
  rw [hkind]
  by_cases h : t.kind = .identifier ∨ t.kind = .qualified
  · rw [if_pos h, if_pos h, Parser.pure_bind, Parser.pure_bind,
      (ht.of_ordinary (Token.IsTypeName.ordinary h)).ident]
    exact hf t.ident
  · rw [if_neg h, if_neg h]
    exact mirrors_refuse_bind

theorem mirrors_optionValue_bind {f : Literal → Parser β} {g : Literal → Parser β'}
    (hf : ∀ l, Mirrors m S (f l) (g (m.literal l))) :
    Mirrors m S (optionValue >>= f) (optionValue >>= g) := by
  rw [optionValue, bind_assoc, bind_assoc]
  refine mirrors_next_bind fun t ht => ?_
  have hkind : (m.token t).kind = t.kind := rfl
  rw [hkind]
  split
  · next h =>
    rw [Parser.pure_bind, Parser.pure_bind, (ht.of_kind h rfl).literal]
    exact hf _
  · next h =>
    rw [Parser.pure_bind, Parser.pure_bind, (ht.of_kind h rfl).literal]
    exact hf _
  · exact mirrors_refuse_bind

end

/-! ## §4 Constructs that hold no others -/

section

variable {m : Move}

/-- Two parsers of nodes side by side: the second node is the first one moved. -/
def MirrorsNode (m : Move) (p q : Parser Node) : Prop := Mirrors m (fun n n' => n' = m.node n) p q

variable {keyword : Token}

theorem mirrors_optionDecl : MirrorsNode m (optionDecl keyword) (optionDecl (m.token keyword)) := by
  refine mirrors_typeName_bind fun name => mirrors_expect_bind rfl fun _ _ =>
    mirrors_optionValue_bind fun value => mirrors_expect_bind rfl fun semi hsemi => ?_
  apply mirrors_pure
  rw [hsemi.spanTo, Move.node]

theorem mirrors_field (first : Token) (type : FieldType) (repeated : Option Ident) :
    MirrorsNode m (field first type repeated)
      (field (m.token first) (m.fieldType type) (repeated.map m.ident)) := by
  refine mirrors_expect_bind rfl fun name hname => mirrors_expect_bind rfl fun _ _ =>
    mirrors_expect_bind rfl fun number hnumber => mirrors_expect_bind rfl fun semi hsemi => ?_
  apply mirrors_pure
  rw [hname.ident, hnumber.literal, hsemi.spanTo, Move.node]

theorem mirrors_repeatedField (hkeyword : m.Carries keyword) :
    MirrorsNode m (repeatedField keyword) (repeatedField (m.token keyword)) := by
  refine mirrors_typeName_bind fun type => ?_
  rw [hkeyword.ident]
  exact mirrors_field keyword (.named type) (some keyword.ident)

theorem mirrors_mapField : MirrorsNode m (mapField keyword) (mapField (m.token keyword)) := by
  simp only [mapField, mapType, bind_assoc, Parser.pure_bind]
  refine mirrors_expect_bind rfl fun _ _ => mirrors_typeName_bind fun key =>
    mirrors_expect_bind rfl fun _ _ => mirrors_typeName_bind fun value =>
    mirrors_expect_bind rfl fun close hclose => ?_
  rw [hclose.spanTo]
  exact mirrors_field keyword (.map ⟨key, value, keyword.spanTo close⟩) none

theorem mirrors_enumField {name : Token} (hname : m.Carries name) :
    MirrorsNode m (enumField name) (enumField (m.token name)) := by
  refine mirrors_expect_bind rfl fun _ _ => mirrors_expect_bind rfl fun value _ =>
    mirrors_expect_bind rfl fun semi hsemi => ?_
  apply mirrors_pure
  rw [hname.ident, hsemi.spanTo, Move.node]
  rfl

theorem mirrors_rpc : MirrorsNode m (rpc keyword) (rpc (m.token keyword)) := by
  rw [rpc, rpc, identifier_bind, identifier_bind]
  refine mirrors_expect_bind rfl fun name hname => mirrors_expect_bind rfl fun _ _ =>
    mirrors_typeName_bind fun input => mirrors_expect_bind rfl fun _ _ =>
    mirrors_expect_bind rfl fun _ _ => mirrors_expect_bind rfl fun _ _ =>
    mirrors_typeName_bind fun output => mirrors_expect_bind rfl fun _ _ =>
    mirrors_expect_bind rfl fun _ _ => mirrors_expect_bind rfl fun close hclose => ?_
  apply mirrors_pure
  rw [hname.ident, hclose.spanTo, Move.node]

/-- The modifiers before a token are known by their texts, wherever they stand. -/
theorem mirrors_importTurn {modifiers : List Ident} {t : Token} (ht : m.Fits t) :
    Mirrors m (Turn.Alike (fun is is' => is' = is.map m.ident) fun n n' => n' = m.node n)
      (importTurn keyword modifiers t)
      (importTurn (m.token keyword) (modifiers.map m.ident) (m.token t)) := by
  have hkind : (m.token t).kind = t.kind := rfl
  have hany : (modifiers.map m.ident).any (·.name = t.text) = modifiers.any (·.name = t.text) := by
    rw [List.any_map]
    rfl
  have hmodifier : t.IsModifier → Mirrors m
      (Turn.Alike (fun is is' => is' = is.map m.ident) fun n n' => n' = m.node n)
      (if modifiers.any (·.name = t.text) then fail (.duplicateModifier t.offset t.text)
        else return .again (modifiers ++ [t.ident]))
      (if (modifiers.map m.ident).any (·.name = t.text) then
          fail (.duplicateModifier (m.token t).offset t.text)
        else return .again (modifiers.map m.ident ++ [(m.token t).ident])) := by
    intro h
    rw [hany]
    split
    · exact mirrors_fail _
    · apply mirrors_pure
      have hlast : t.kind.isLast = false := by
        rcases h with h | h <;> rw [h] <;> rfl
      rw [(ht.carries hlast).ident]
      exact .again (by simp)
  unfold importTurn
  rw [hkind]
  split
  · next h => exact hmodifier (.inl h)
  · next h => exact hmodifier (.inr h)
  · next h =>
    refine mirrors_expect_bind rfl fun semi hsemi => ?_
    apply mirrors_pure
    rw [(ht.of_kind h rfl).literal, hsemi.spanTo]
    exact .finish (by rw [Move.node])
  · exact mirrors_refuse

theorem mirrors_importDecl : MirrorsNode m (importDecl keyword) (importDecl (m.token keyword)) := by
  refine mirrors_loop (T := fun is is' => is' = is.map m.ident) ?_ rfl
  rintro modifiers _ t rfl ht
  exact mirrors_importTurn ht

theorem mirrors_packageDecl :
    MirrorsNode m (packageDecl keyword) (packageDecl (m.token keyword)) := by
  refine mirrors_loop (T := fun _ _ => True) ?_ trivial
  intro _ _ t _ ht
  have hkind : (m.token t).kind = t.kind := rfl
  unfold packageTurn
  rw [hkind]
  split
  · next h =>
    apply mirrors_pure
    rw [(ht.of_kind h rfl).spanTo]
    exact .finish (by rw [Move.node])
  · exact mirrors_refuse
  · exact mirrors_pure (.again trivial)

theorem mirrors_leaf {c : Construct} (hc : c.isLeaf = true)
    (nested nested' : Scope → Token → Parser Node) {t : Token} (ht : m.Carries t) :
    MirrorsNode m (c.parser nested t) (c.parser nested' (m.token t)) := by
  cases c with
  | service => cases hc
  | scope kind => cases hc
  | importDecl => exact mirrors_importDecl
  | package => exact mirrors_packageDecl
  | option => exact mirrors_optionDecl
  | plainField =>
    have hfield := mirrors_field (m := m) t (.named t.ident) none
    rwa [Move.fieldType, ← ht.ident] at hfield
  | repeatedField => exact mirrors_repeatedField ht
  | mapField => exact mirrors_mapField
  | enumField => exact mirrors_enumField ht
  | rpc => exact mirrors_rpc
  | empty =>
    apply mirrors_pure
    rw [show (m.token t).span = m.span t.span from ht.spanTo t, Move.node]

/-! ## §5 Members and files -/

/-- Which construct a place admits is seen from the kind of a token. -/
theorem mirrors_member {place : Place} {nested nested' : Scope → Token → Parser Node}
    (hplace : ∀ c ∈ place.admits, ∀ t, t.kind ∈ c.starts → m.Carries t →
      MirrorsNode m (c.parser nested t) (c.parser nested' (m.token t))) {t : Token}
    (ht : m.Fits t) :
    Option.Rel (MirrorsNode m) (place.member nested t) (place.member nested' (m.token t)) := by
  have hfind : place.admits.find? (fun c => (m.token t).kind ∈ c.starts) =
      place.admits.find? fun c => t.kind ∈ c.starts := rfl
  rw [Place.member, Place.member, hfind]
  cases hc : place.admits.find? fun c => t.kind ∈ c.starts with
  | none => exact .none
  | some c =>
    have hstarts : t.kind ∈ c.starts := by simpa using List.find?_some hc
    exact .some (hplace c (List.mem_of_find?_eq_some hc) t hstarts
      (ht.of_ordinary (ordinary_of_starts hstarts)))

theorem mirrors_members {close : TokenKind} {expected : Expected}
    {member member' : Token → Option (Parser Node)}
    (hmember : ∀ t, m.Fits t → Option.Rel (MirrorsNode m) (member t) (member' (m.token t))) :
    Mirrors m
      (fun r r' => r' = (m.nodes r.1, m.token r.2) ∧ (close.isLast = false → m.Carries r.2))
      (members close expected member) (members close expected member') := by
  refine mirrors_loop (T := fun ns ns' => ns'.toList = m.nodes ns.toList) ?_ rfl
  intro nodes nodes' t hnodes ht
  have hkind : (m.token t).kind = t.kind := rfl
  unfold memberTurn
  rw [hkind]
  split
  · next h =>
    refine mirrors_pure (.finish ⟨by rw [hnodes], ?_⟩)
    exact ht.of_kind h
  · generalize member t = p, member' (m.token t) = q, hmember t ht = hpq
    cases hpq with
    | none => exact mirrors_refuse
    | some hpq =>
      refine hpq.bind ?_
      rintro n _ rfl
      refine mirrors_pure (.again ?_)
      simp [hnodes, Move.nodes_eq_map]

theorem mirrors_braced {expected : Expected} {place : Place}
    {nested nested' : Scope → Token → Parser Node}
    (hplace : ∀ c ∈ place.admits, ∀ t, t.kind ∈ c.starts → m.Carries t →
      MirrorsNode m (c.parser nested t) (c.parser nested' (m.token t)))
    {build build' : Ident → Token → List Node → Token → Node}
    (hbuild : ∀ name opening nodes closing, m.Carries closing →
      build' (m.ident name) (m.token opening) (m.nodes nodes) (m.token closing) =
        m.node (build name opening nodes closing)) :
    MirrorsNode m (braced expected (place.member nested) build)
      (braced expected (place.member nested') build') := by
  rw [braced, braced, identifier_bind, identifier_bind]
  refine mirrors_expect_bind rfl fun name hname => mirrors_expect_bind rfl fun opening _ => ?_
  refine (mirrors_members fun t ht => mirrors_member hplace ht).bind ?_
  rintro ⟨nodes, closing⟩ _ ⟨rfl, hclosing⟩
  rw [hname.ident]
  exact mirrors_pure (hbuild name.ident opening nodes closing (hclosing rfl))

theorem mirrors_service (keyword : Token) :
    MirrorsNode m (service keyword) (service (m.token keyword)) := by
  rw [service_eq (scope 0 0), service_eq (scope 0 0)]
  refine mirrors_braced ?_ ?_
  · intro c hc t _ ht
    exact mirrors_leaf (isLeaf_of_mem_inService c hc) _ _ ht
  · intro name opening nodes closing hclosing
    rw [serviceNode, serviceNode, hclosing.spanTo, Move.node]
    rfl

theorem mirrors_construct {nested nested' : Scope → Token → Parser Node}
    (hnested : ∀ kind t, MirrorsNode m (nested kind t) (nested' kind (m.token t)))
    (c : Construct) {t : Token} (ht : m.Carries t) :
    MirrorsNode m (c.parser nested t) (c.parser nested' (m.token t)) := by
  cases hc : c.isLeaf with
  | true => exact mirrors_leaf hc nested nested' ht
  | false =>
    cases c <;> simp only [Construct.isLeaf, reduceCtorEq] at hc
    case service => exact mirrors_service t
    case scope kind => exact hnested kind t

theorem mirrors_scope (limit room : Nat) (kind : Scope) (keyword : Token) :
    MirrorsNode m (scope limit room kind keyword) (scope limit room kind (m.token keyword)) := by
  induction room generalizing kind keyword with
  | zero => exact mirrors_fail _
  | succ room ih =>
    rw [scope_succ, scope_succ]
    refine mirrors_braced ?_ ?_
    · intro c _ t _ ht
      exact mirrors_construct ih c ht
    · intro name opening nodes closing hclosing
      rw [scopeNode, scopeNode, hclosing.spanTo, Move.node]

theorem mirrors_reported {p q : Parser Node} (h : MirrorsNode m p q) :
    MirrorsNode m (reported p) (reported q) := by
  refine h.bind ?_
  rintro n _ rfl
  exact (mirrors_record _ _).bind fun _ _ _ => mirrors_pure rfl

theorem mirrors_preambleToken_bind {β β' : Type} {S : β → β' → Prop} {accepts : Token → Bool}
    (haccepts : ∀ t, accepts (m.token t) = accepts t) {f : Unit → Parser β} {g : Unit → Parser β'}
    (hf : Mirrors m S (f ()) (g ())) :
    Mirrors m S (preambleToken accepts >>= f) (preambleToken accepts >>= g) := by
  rw [preambleToken, bind_assoc, bind_assoc]
  refine mirrors_next_bind fun t _ => ?_
  rw [haccepts]
  split
  · rw [Parser.pure_bind, Parser.pure_bind]
    exact hf
  · exact (mirrors_fail (.missingPreamble t.offset t.display)).bind (R := fun _ _ => False)
      fun _ _ h => h.elim

theorem mirrors_file (limit : Nat) :
    Mirrors m (fun f f' => f'.declarations = m.nodes f.declarations) (file limit)
      (file limit) := by
  rw [file]
  simp only [preamble, bind_assoc]
  refine mirrors_preambleToken_bind (fun _ => rfl) ?_
  refine mirrors_preambleToken_bind (fun _ => rfl) ?_
  refine mirrors_preambleToken_bind (fun _ => rfl) ?_
  refine mirrors_preambleToken_bind (fun _ => rfl) ?_
  refine (mirrors_members ?_).bind ?_
  · intro t ht
    have hmember : Option.Rel (MirrorsNode m) (Place.file.member (scope limit limit) t)
        (Place.file.member (scope limit limit) (m.token t)) :=
      mirrors_member (fun c _ t _ ht => mirrors_construct (mirrors_scope limit limit) c ht) ht
    rw [declaration_eq, declaration_eq]
    generalize Place.file.member (scope limit limit) t = p,
      Place.file.member (scope limit limit) (m.token t) = q at hmember
    cases hmember with
    | none => exact .none
    | some h => exact .some (mirrors_reported h)
  · rintro ⟨nodes, last⟩ _ ⟨rfl, -⟩
    exact (mirrors_record _ _).bind fun _ _ _ => mirrors_pure rfl

end

/-! ## §6 The move between two texts -/

section

variable {ts us : List Token}

/-- The move that takes every token of `ts` to the token of `us` at the same index.  Any other
offset goes wherever `elsewhere` says. -/
def Move.between (elsewhere : Nat → Nat) (ts us : List Token) : Move where
  start x := ((ts.zip us).find? fun p => p.1.offset = x).elim (elsewhere x) fun p => p.2.offset
  stop x := ((ts.zip us).find? fun p => p.1.stop = x).elim (elsewhere x) fun p => p.2.stop

/-- What is looked up by a key that no token before `t` has is found at the index of `t`. -/
theorem find?_zip (key : Token → Nat) {pre pre' post post' : List Token} {t u : Token}
    (hlength : pre.length = pre'.length) (hpre : ∀ v ∈ pre, key v ≠ key t) :
    ((pre ++ t :: post).zip (pre' ++ u :: post')).find? (fun p => key p.1 = key t) =
      some (t, u) := by
  rw [List.zip_append hlength, List.find?_append, List.find?_eq_none.mpr, List.zip_cons_cons]
  · simp
  · rintro ⟨v, v'⟩ hv
    simpa using hpre v (List.of_mem_zip hv).1

/-- The move takes a token to the one at the same index, and its end with it. -/
theorem Ascending.between_token (hts : Ascending ts) (elsewhere : Nat → Nat)
    {pre pre' post post' : List Token} {t u : Token} (hsplit : ts = pre ++ t :: post)
    (hsplit' : us = pre' ++ u :: post') (hlength : pre.length = pre'.length)
    (hword : u.word = t.word) :
    (Move.between elsewhere ts us).token t = u ∧
      (t.kind.isLast = false → (Move.between elsewhere ts us).Carries t) := by
  have hbefore := hts.before pre t post hsplit
  subst hsplit hsplit'
  have htoken : (Move.between elsewhere (pre ++ t :: post) (pre' ++ u :: post')).token t = u := by
    have hfind : ((pre ++ t :: post).zip (pre' ++ u :: post')).find?
        (fun p => p.1.offset = t.offset) = some (t, u) := by
      refine find?_zip Token.offset hlength fun v hv => ?_
      have := hbefore v hv
      omega
    obtain ⟨kind, offset, text⟩ := u
    simp only [Move.token, Move.between, hfind, Option.elim_some]
    rw [← kind_of_word hword, ← text_of_word hword]
  refine ⟨htoken, fun hlast => ?_⟩
  have hfind : ((pre ++ t :: post).zip (pre' ++ u :: post')).find?
      (fun p => p.1.stop = t.stop) = some (t, u) := by
    refine find?_zip Token.stop hlength fun v hv => ?_
    have := hbefore v hv
    have := hts.covers t (by simp) hlast
    omega
  rw [Move.Carries, htoken]
  simp only [Move.between, hfind, Option.elim_some]

theorem Ascending.map_between (hts : Ascending ts) (hwords : us.map Token.word = ts.map Token.word)
    (elsewhere : Nat → Nat) :
    us = ts.map (Move.between elsewhere ts us).token ∧
      ∀ t ∈ ts, t.kind.isLast = false → (Move.between elsewhere ts us).Carries t := by
  have hlength : us.length = ts.length := by simpa using congrArg List.length hwords
  have hsplit : ∀ (l : List Token) (i : Nat) (h : i < l.length),
      l = l.take i ++ l[i] :: l.drop (i + 1) := by
    intro l i h
    rw [List.getElem_cons_drop, List.take_append_drop]
  have htoken : ∀ (i : Nat) (h : i < ts.length) (h' : i < us.length),
      (Move.between elsewhere ts us).token ts[i] = us[i] ∧
        (ts[i].kind.isLast = false → (Move.between elsewhere ts us).Carries ts[i]) := by
    intro i h h'
    refine hts.between_token elsewhere (hsplit ts i h) (hsplit us i h')
      (by rw [List.length_take, List.length_take, hlength]) ?_
    have := congrArg (·[i]?) hwords
    simpa [h, h'] using this
  constructor
  · apply List.ext_getElem (by simp [hlength])
    intro i h' h
    rw [List.getElem_map, (htoken i _ h').1]
  · intro t ht
    obtain ⟨i, h, rfl⟩ := List.getElem_of_mem ht
    exact (htoken i h (hlength ▸ h)).2

end

/-- The move that takes the tokens of one text to those of another. -/
def Move.relayout (elsewhere : Nat → Nat) (a b : String) : Move :=
  between elsewhere (significant (tokenize a)) (significant (tokenize b))

/-- How readings of two texts correspond: their trees are the same but for places, or they end in
the same fault for the token at the same index.  Nothing in a tree stands at any other offset than
a token's, so it does not matter where other offsets go. -/
inductive Corresponds (elsewhere : Nat → Nat) (a b : String) :
    Except Fault File → Except Fault File → Prop
  | ok {nodes : List Node} :
      Corresponds elsewhere a b (.ok ⟨.proto3, nodes, ⟨0, a.utf8ByteSize⟩⟩)
        (.ok ⟨.proto3, (Move.relayout elsewhere a b).nodes nodes, ⟨0, b.utf8ByteSize⟩⟩)
  | error {i : Nat} {t u : Token} {f : Fault} (ht : (significant (tokenize a))[i]? = some t)
      (hu : (significant (tokenize b))[i]? = some u) (hoffset : f.offset = t.offset) :
      Corresponds elsewhere a b (.error f) (.error (f.moveTo u.offset))

theorem Fault.About.ne_noToken {t : Token} {f : Fault} (h : f.About t) : f ≠ noToken := by
  intro hf
  cases h with
  | unexpected _ expected => exact text_ne_token expected (Fault.unexpected.inj hf).2.1
  | _ => cases hf

/-- Texts with the same words are read alike. -/
theorem parseText_corresponds {a b : String}
    (hwords : (significant (tokenize b)).map Token.word =
      (significant (tokenize a)).map Token.word) (elsewhere : Nat → Nat) :
    Corresponds elsewhere a b (parseText a).value (parseText b).value := by
  obtain ⟨hmap, hcarries⟩ := (ascending_significant a).map_between hwords elsewhere
  rw [← Move.relayout] at hmap hcarries
  have hfits : ∀ t ∈ significant (tokenize a), (Move.relayout elsewhere a b).Fits t :=
    fun t ht => ⟨not_comment_of_mem_significant t ht, hcarries t ht⟩
  have hrun := mirrors_file nestingLimit _ hfits
  rw [← hmap] at hrun
  have ha := parseText_value a
  have hb := parseText_value b
  generalize (file nestingLimit).run (significant (tokenize a)) = out at hrun ha
  generalize (file nestingLimit).run (significant (tokenize b)) = out' at hrun hb
  rw [ha, hb]
  cases hrun with
  | @ok f f' rest log log' h =>
    have hspan := (nested_of_parseText ha).2
    have hspan' := (nested_of_parseText hb).2
    obtain ⟨⟨⟩, nodes, span⟩ := f
    obtain ⟨⟨⟩, nodes', span'⟩ := f'
    dsimp only at h hspan hspan'
    subst h hspan hspan'
    exact .ok
  | @error f rest rest' log log' =>
    obtain ⟨used, t, rest, hsplit, habout, -⟩ := parseText_fault_about ha
    have ht : (significant (tokenize a))[used.length]? = some t := by simp [hsplit]
    have hu : (significant (tokenize b))[used.length]? =
        some ((Move.relayout elsewhere a b).token t) := by
      rw [hmap, List.getElem?_map, ht]
      rfl
    rw [Move.fault, habout.offset_eq]
    exact .error ht hu habout.offset_eq
  | exhausted =>
    obtain ⟨used, t, rest, -, habout, -⟩ := parseText_fault_about ha
    exact absurd rfl habout.ne_noToken

/-- A text on one line, and the same words with comments and blanks between them. -/
def enumSource : String := "syntax=\"proto3\";enum E\x7bA=0;\x7d"

def spreadEnumSource : String :=
  "// Values.\nsyntax = \"proto3\";\n\nenum E \x7b // all of them\n  A = 0;\n\x7d\n"

theorem enumSource_corresponds :
    (significant (tokenize spreadEnumSource)).map Token.word =
        (significant (tokenize enumSource)).map Token.word ∧
      ∀ elsewhere, Corresponds elsewhere enumSource spreadEnumSource
        (parseText enumSource).value (parseText spreadEnumSource).value := by
  have hwords : (significant (tokenize spreadEnumSource)).map Token.word =
      (significant (tokenize enumSource)).map Token.word := by decide +kernel
  exact ⟨hwords, fun elsewhere => parseText_corresponds hwords elsewhere⟩

end ProtoSchema
