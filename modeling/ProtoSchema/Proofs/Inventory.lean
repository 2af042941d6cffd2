import ProtoSchema.Proofs.Spans
import Mathlib.Data.List.Forall2

/-!
# The words of a source and the words of its tree

A walk over a file that was read comes by the names and literals of its source, each of them once
(`parseText_words`).  Sorted by where they stand they are the tokens of those kinds, less what the
tree does not keep as a part: the preamble, what packages are called, and the numbers of enum
fields.

Which tokens are left out can be told from the tokens alone, by a pass over them that remembers
what it is within (`Region`).

* §1 regions of a token stream, §2 the words of a part;
* §3 what tokens and parts come to (`Accounts`), §4 constructs that hold no others;
* §5 members and files.
-/

namespace ProtoSchema

/-! ## §1 Regions -/

/-- What a token stands within. -/
inductive Region where
  /-- From the start of the text up to a semicolon. -/
  | preamble
  /-- Behind the word `package`, up to a semicolon. -/
  | package
  /-- Behind the word `enum`, up to a closing brace. -/
  | enum
  /-- Anywhere else. -/
  | other
  deriving DecidableEq

/-- What becomes of a token in a tree. -/
inductive Fate where
  /-- It is a name or a literal. -/
  | word
  /-- It is the number of an enum field, which the field has as a text. -/
  | enumNumber
  | dropped
  deriving DecidableEq

namespace Region

/-- The region behind a token. -/
def after : Region → TokenKind → Region
  | preamble, .semicolon => other
  | package, .semicolon => other
  | enum, .rightBrace => other
  | other, .keyword .packageKw => package
  | other, .keyword .enumKw => enum
  | r, _ => r

/-- What becomes of a token of this kind. -/
def fate : Region → TokenKind → Fate
  | preamble, _ | package, _ => .dropped
  | enum, .integerLit => .enumNumber
  | _, .identifier | _, .qualified | _, .stringLit | _, .integerLit | _, .booleanLit => .word
  | _, .keyword .weakKw | _, .keyword .publicKw | _, .keyword .repeatedKw => .word
  | _, _ => .dropped

/-- The region behind some tokens. -/
def through (r : Region) (ts : List Token) : Region := ts.foldl (fun r t => r.after t.kind) r

/-- The tokens with a certain fate, from a region on. -/
def pick (fate : Fate) : Region → List Token → List Token
  | _, [] => []
  | r, t :: ts =>
    if r.fate t.kind = fate then t :: pick fate (r.after t.kind) ts
    else pick fate (r.after t.kind) ts

variable (r : Region) {t : Token} {kind : TokenKind} {fate : Fate}

theorem through_append (ts us : List Token) : r.through (ts ++ us) = (r.through ts).through us :=
  List.foldl_append

theorem through_cons (hkind : t.kind = kind) (ts : List Token) :
    r.through (t :: ts) = (r.after kind).through ts := by
  rw [through, List.foldl_cons, hkind]
  rfl

theorem pick_append (ts us : List Token) :
    r.pick fate (ts ++ us) = r.pick fate ts ++ (r.through ts).pick fate us := by
  induction ts generalizing r with
  | nil => rfl
  | cons t ts ih =>
    rw [List.cons_append, pick, pick, ih]
    split <;> rfl

theorem pick_cons_of_eq (hkind : t.kind = kind) (hfate : r.fate kind = fate) (ts : List Token) :
    r.pick fate (t :: ts) = t :: (r.after kind).pick fate ts := by
  rw [pick, hkind, if_pos hfate]

theorem pick_cons_of_ne (hkind : t.kind = kind) (hfate : r.fate kind ≠ fate) (ts : List Token) :
    r.pick fate (t :: ts) = (r.after kind).pick fate ts := by
  rw [pick, hkind, if_neg hfate]

theorem pick_sublist (ts : List Token) : (r.pick fate ts).Sublist ts := by
  induction ts generalizing r with
  | nil => exact .slnil
  | cons t ts ih =>
    rw [pick]
    split
    · exact (ih _).cons_cons _
    · exact (ih _).cons _

/-- Comments are dropped, and are in no region. -/
theorem pick_significant (hfate : fate ≠ .dropped) (ts : List Token) :
    r.pick fate (significant ts) = r.pick fate ts := by
  induction ts generalizing r with
  | nil => rfl
  | cons t ts ih =>
    by_cases ht : t.kind = .comment
    · have hcomment : r.after .comment = r ∧ r.fate .comment = .dropped := by
        cases r <;> exact ⟨rfl, rfl⟩
      rw [significant, List.filter_cons_of_neg (by simpa using ht),
        r.pick_cons_of_ne ht (by rw [hcomment.2]; exact hfate.symm), hcomment.1]
      exact ih r
    · rw [significant, List.filter_cons_of_pos (by simpa using ht), pick, pick, ← ih]
      rfl

end Region

/-! ## §2 Words of a part -/

/-- What a token says, and where. -/
def Token.reading (t : Token) : Span × String := (t.span, t.text)

/-- What a name or a literal says, and where. -/
def Part.word? : Part → Option (Span × String)
  | .ident i => some (i.span, i.name)
  | .literal l => some (l.span, l.value)
  | _ => none

def Part.enumField? : Part → Option EnumField
  | .node (.enumField decl) => some decl
  | _ => none

/-- The token `t` is where the number of the enum field stands. -/
def EnumField.IsNumberedBy (decl : EnumField) (t : Token) : Prop :=
  t.text = decl.value ∧ t.span.IsWithin decl.span

/-- What `g` makes of `p` and the parts below it, in visiting order. -/
def Part.gather {β : Type} (g : Part → Option β) (p : Part) : List β := p.subtree.filterMap g

section

variable {β : Type} {g : Part → Option β} {p : Part}

theorem gather_of_none (hp : g p = none) : p.gather g = p.children.flatMap (Part.gather g) := by
  rw [Part.gather, Part.subtree_eq, List.filterMap_cons, List.filterMap_flatMap, hp]
  rfl

theorem gather_of_some {b : β} (hp : g p = some b) :
    p.gather g = b :: p.children.flatMap (Part.gather g) := by
  rw [Part.gather, Part.subtree_eq, List.filterMap_cons, List.filterMap_flatMap, hp]
  rfl

end

@[simp] theorem words_ident (i : Ident) :
    (Part.ident i).gather Part.word? = [(i.span, i.name)] :=
  gather_of_some rfl

@[simp] theorem words_literal (l : Literal) :
    (Part.literal l).gather Part.word? = [(l.span, l.value)] :=
  gather_of_some rfl

@[simp] theorem enumFields_ident (i : Ident) : (Part.ident i).gather Part.enumField? = [] :=
  gather_of_none rfl

@[simp] theorem enumFields_literal (l : Literal) :
    (Part.literal l).gather Part.enumField? = [] :=
  gather_of_none rfl

@[simp] theorem enumFields_fieldType (type : FieldType) :
    type.part.gather Part.enumField? = [] := by
  cases type with
  | named name => exact enumFields_ident name
  | map type =>
    refine (gather_of_none rfl).trans ?_
    simp [FieldType.part, Part.children]

@[simp] theorem words_enumField (decl : EnumField) :
    (Part.node (.enumField decl)).gather Part.word? = [(decl.name.span, decl.name.name)] :=
  (gather_of_none rfl).trans (by simp [Part.children, Node.children])

@[simp] theorem enumFields_enumField (decl : EnumField) :
    (Part.node (.enumField decl)).gather Part.enumField? = [decl] :=
  (gather_of_some (g := Part.enumField?) rfl).trans (by simp [Part.children, Node.children])

/-- The parts of a field are visited in another order than that of the source, but have no enum
fields. -/
theorem enumFields_inSourceOrder (p : Part) :
    p.inSourceOrder.flatMap (Part.gather Part.enumField?) =
      p.children.flatMap (Part.gather Part.enumField?) := by
  unfold Part.inSourceOrder
  split
  · simp [Part.children, Node.children, List.flatMap_map]
  · rfl

/-! ## §3 Accounts -/

/-- The tokens lead from the region `r` to the region `r'`.  The words among them are those of the
parts, in some order, and the enum numbers among them are those of the enum fields, in the order in
which these are visited. -/
structure Accounts (r : Region) (ts : List Token) (r' : Region) (ps : List Part) : Prop where
  leads : r.through ts = r'
  words : ((r.pick .word ts).map Token.reading).Perm (ps.flatMap (Part.gather Part.word?))
  numbers : List.Forall₂ (fun t decl => decl.IsNumberedBy t) (r.pick .enumNumber ts)
    (ps.flatMap (Part.gather Part.enumField?))

theorem accounts_nil (r : Region) : Accounts r [] r [] := ⟨rfl, .nil, .nil⟩

namespace Accounts

variable {r r' r'' : Region} {t : Token} {kind : TokenKind} {ts us : List Token}
  {ps qs : List Part}

theorem append (h : Accounts r ts r' ps) (h' : Accounts r' us r'' qs) :
    Accounts r (ts ++ us) r'' (ps ++ qs) where
  leads := by rw [Region.through_append, h.leads, h'.leads]
  words := by
    rw [Region.pick_append, h.leads, List.map_append, List.flatMap_append]
    exact h.words.append h'.words
  numbers := by
    rw [Region.pick_append, h.leads, List.flatMap_append]
    exact List.rel_append h.numbers h'.numbers

theorem dropped (hkind : t.kind = kind) (hfate : r.fate kind = .dropped)
    (h : Accounts (r.after kind) ts r' ps) : Accounts r (t :: ts) r' ps where
  leads := (r.through_cons hkind ts).trans h.leads
  words := by
    rw [r.pick_cons_of_ne hkind (by rw [hfate]; decide)]
    exact h.words
  numbers := by
    rw [r.pick_cons_of_ne hkind (by rw [hfate]; decide)]
    exact h.numbers

theorem word {p : Part} (hkind : t.kind = kind) (hfate : r.fate kind = .word)
    (hword : p.gather Part.word? = [t.reading]) (hnone : p.gather Part.enumField? = [])
    (h : Accounts (r.after kind) ts r' ps) : Accounts r (t :: ts) r' (p :: ps) where
  leads := (r.through_cons hkind ts).trans h.leads
  words := by
    rw [r.pick_cons_of_eq hkind hfate, List.map_cons, List.flatMap_cons, hword]
    exact h.words.cons _
  numbers := by
    rw [r.pick_cons_of_ne hkind (by rw [hfate]; decide), List.flatMap_cons, hnone]
    exact h.numbers

theorem ident (hkind : t.kind = kind) (hfate : r.fate kind = .word)
    (h : Accounts (r.after kind) ts r' ps) : Accounts r (t :: ts) r' (.ident t.ident :: ps) :=
  word hkind hfate (words_ident _) (enumFields_ident _) h

theorem literal {literal : LiteralKind} (hkind : t.kind = kind) (hfate : r.fate kind = .word)
    (h : Accounts (r.after kind) ts r' ps) :
    Accounts r (t :: ts) r' (.literal (t.literal literal) :: ps) :=
  word hkind hfate (words_literal _) (enumFields_literal _) h

/-- A part that is no word itself, from the parts that it has. -/
theorem part {p : Part} (hword : p.word? = none) (hfield : p.enumField? = none)
    (h : Accounts r ts r' p.inSourceOrder) : Accounts r ts r' [p] where
  leads := h.leads
  words := by
    rw [List.flatMap_singleton, gather_of_none hword]
    exact h.words.trans ((inSourceOrder_perm p).flatMap_right _)
  numbers := by
    rw [List.flatMap_singleton, gather_of_none hfield, ← enumFields_inSourceOrder]
    exact h.numbers

end Accounts

/-! ## §4 Constructs that hold no others -/

/-- The region of what stands in a place. -/
def Place.region : Place → Region
  | inScope .enum => .enum
  | _ => .other

/-- Only options and lone semicolons stand both in enums and elsewhere. -/
theorem region_of_admits {place : Place} {c : Construct} (hadmits : c ∈ place.admits) :
    if c = .enumField then place.region = .enum
    else place.region = .other ∨ place.region = .enum ∧ (c = .empty ∨ c = .option) := by
  revert c
  cases place with
  | inScope kind => cases kind <;> decide
  | _ => decide

section

variable {r r' : Region} {ts : List Token} {ps : List Part}

theorem Accounts.typeName {t : Token} (ht : t.IsTypeName) (hr : r = .other ∨ r = .enum)
    (h : Accounts r ts r' ps) : Accounts r (t :: ts) r' (.ident t.ident :: ps) := by
  rcases ht with ht | ht <;> rcases hr with rfl | rfl <;> exact .ident ht rfl h

theorem accounts_modifiers {modifiers : List Token} (hmodifiers : ∀ m ∈ modifiers, m.IsModifier) :
    Accounts .other modifiers .other ((modifiers.map (·.ident)).map .ident) := by
  induction modifiers with
  | nil => exact accounts_nil _
  | cons m modifiers ih =>
    obtain ⟨hm, hmodifiers⟩ := List.forall_mem_cons.mp hmodifiers
    rcases hm with hm | hm
    · exact .ident hm rfl (ih hmodifiers)
    · exact .ident hm rfl (ih hmodifiers)

/-- Nothing is kept of what a package is called. -/
theorem accounts_skipped {skipped : List Token} (hskipped : ∀ t ∈ skipped, t.kind ≠ .semicolon) :
    Accounts .package skipped .package [] := by
  induction skipped with
  | nil => exact accounts_nil _
  | cons t skipped ih =>
    obtain ⟨ht, hskipped⟩ := List.forall_mem_cons.mp hskipped
    have hafter : Region.package.after t.kind = .package := by
      generalize t.kind = kind at ht
      cases kind <;> first | rfl | exact absurd rfl ht
    refine .dropped rfl rfl ?_
    rw [hafter]
    exact ih hskipped

theorem accounts_fieldEnd {name equals number semi : Token}
    (hend : FieldEnd name equals number semi) :
    Accounts .other [name, equals, number, semi] .other
      [.ident name.ident, .literal (number.literal .integer)] := by
  refine .ident hend.name_kind rfl (.dropped hend.equals_kind rfl ?_)
  exact .literal hend.number_kind rfl (.dropped hend.semi_kind rfl (accounts_nil _))

theorem accounts_mapType {keyword opening key comma value closing : Token}
    (hmap : MapHead keyword opening key comma value closing) :
    Accounts .other [keyword, opening, key, comma, value, closing] .other
      [.mapType ⟨key.ident, value.ident, keyword.spanTo closing⟩] := by
  refine .part rfl rfl (.dropped hmap.keyword_kind rfl (.dropped hmap.opening_kind rfl ?_))
  refine .typeName hmap.key_type (.inl rfl) (.dropped hmap.comma_kind rfl ?_)
  exact .typeName hmap.value_type (.inl rfl) (.dropped hmap.closing_kind rfl (accounts_nil _))

/-- The number of an enum field is the field's own, and no part of it. -/
theorem accounts_enumField {name equals value semi : Token}
    (hend : FieldEnd name equals value semi) (hts : LeftToRight [name, equals, value, semi]) :
    Accounts .enum [name, equals, value, semi] .enum
      [.node (.enumField ⟨name.ident, value.text, name.spanTo semi⟩)] := by
  have hnumber : EnumField.IsNumberedBy ⟨name.ident, value.text, name.spanTo semi⟩ value :=
    ⟨rfl, hts.offset_le value (by simp),
      LeftToRight.stop_le (show LeftToRight ([name, equals, value] ++ [semi]) from hts) value
        (by simp)⟩
  obtain ⟨hname, hequals, hvalue, hsemi⟩ := hend
  refine ⟨by simp [Region.through, Region.after, hname, hequals, hvalue, hsemi], ?_, ?_⟩
  · have hwords : Region.enum.pick .word [name, equals, value, semi] = [name] := by
      simp [Region.pick, Region.fate, Region.after, hname, hequals, hvalue, hsemi]
    rw [hwords, List.flatMap_singleton, words_enumField]
    exact .refl _
  · have hnumbers : Region.enum.pick .enumNumber [name, equals, value, semi] = [value] := by
      simp [Region.pick, Region.fate, Region.after, hname, hequals, hvalue, hsemi]
    rw [hnumbers, List.flatMap_singleton, enumFields_enumField]
    exact .cons hnumber .nil

theorem Leaf.accounts {place : Place} {c : Construct} {n : Node}
    (h : Leaf c ts n) (hadmits : c ∈ place.admits) (hts : LeftToRight ts) :
    Accounts place.region ts place.region [.node n] := by
  -- of the place, only the region matters, which most constructs determine
  have hregion := region_of_admits hadmits
  generalize place.region = r at hregion
  cases h with
  | @empty semi hsemi =>
    have hparts : Accounts r [semi] r [] := by
      rcases hregion with rfl | ⟨rfl, -⟩ <;> exact .dropped hsemi rfl (accounts_nil _)
    exact .part rfl rfl hparts
  | @importDecl keyword path semi modifiers hkeyword hmodifiers _ hpath hsemi =>
    obtain rfl : r = .other := by simpa using hregion
    refine .part rfl rfl (.dropped hkeyword rfl ((accounts_modifiers hmodifiers).append ?_))
    exact .literal hpath rfl (.dropped hsemi rfl (accounts_nil _))
  | @package keyword semi skipped hkeyword hskipped hsemi =>
    obtain rfl : r = .other := by simpa using hregion
    refine .part rfl rfl (.dropped hkeyword rfl ((accounts_skipped hskipped).append ?_))
    exact .dropped hsemi rfl (accounts_nil _)
  | @option keyword name equals value semi kind hkeyword hname hequals hvalue hsemi =>
    have hr : r = .other ∨ r = .enum := hregion.imp_right (·.1)
    have hparts : Accounts r [keyword, name, equals, value, semi] r
        [.ident name.ident, .literal (value.literal kind)] := by
      generalize hkind : value.kind = valueKind at hvalue
      rcases hr with rfl | rfl
      all_goals
        refine .dropped hkeyword rfl (.typeName hname (by decide) (.dropped hequals rfl ?_))
        cases hvalue <;> exact .literal hkind rfl (.dropped hsemi rfl (accounts_nil _))
    exact .part rfl rfl hparts
  | @plainField type name equals number semi htype hend =>
    obtain rfl : r = .other := by simpa using hregion
    exact .part rfl rfl (.typeName htype (.inl rfl) (accounts_fieldEnd hend))
  | @repeatedField keyword type name equals number semi hkeyword htype hend =>
    obtain rfl : r = .other := by simpa using hregion
    refine .part rfl rfl (.ident hkeyword rfl ?_)
    exact .typeName htype (.inl rfl) (accounts_fieldEnd hend)
  | @mapField keyword opening key comma value closing name equals number semi hmap hend =>
    obtain rfl : r = .other := by simpa using hregion
    exact .part rfl rfl ((accounts_mapType hmap).append (accounts_fieldEnd hend))
  | @enumField name equals value semi hend =>
    obtain rfl : r = .enum := by simpa using hregion
    exact accounts_enumField hend hts
  | @rpc keyword name open₁ input close₁ returns open₂ output close₂ opening closing hkeyword hname
      hopen₁ hinput hclose₁ hreturns hopen₂ houtput hclose₂ hopening hclosing =>
    obtain rfl : r = .other := by simpa using hregion
    refine .part rfl rfl (.dropped hkeyword rfl (.ident hname rfl (.dropped hopen₁ rfl ?_)))
    refine .typeName hinput (.inl rfl) (.dropped hclose₁ rfl (.dropped hreturns rfl ?_))
    refine .dropped hopen₂ rfl (.typeName houtput (.inl rfl) (.dropped hclose₂ rfl ?_))
    exact .dropped hopening rfl (.dropped hclosing rfl (accounts_nil _))

end

/-! ## §5 Members and files -/

/-- The brace that closes an enum leaves its region; around other braces the region is the same. -/
theorem Accounts.close {place : Place} {closing : Token} {inner : List Token} {ps : List Part}
    (h : Accounts place.region inner place.region ps) (hclosing : closing.kind = .rightBrace) :
    Accounts place.region (inner ++ [closing]) .other ps := by
  have hclose : Accounts place.region [closing] .other [] := by
    unfold Place.region
    split <;> exact .dropped hclosing rfl (accounts_nil _)
  simpa using h.append hclose

/-- By induction on how the members are derived. -/
theorem Members.accounts {place : Place} {room : Nat} {ts : List Token} {ns : List Node}
    (h : Members place room ts ns) (hts : LeftToRight ts) :
    Accounts place.region ts place.region (ns.map .node) := by
  induction h with
  | nil => exact accounts_nil _
  | leaf hadmits hleaf _ ih =>
    obtain ⟨hfirst, hrest, -⟩ := leftToRight_append.mp hts
    exact (hleaf.accounts hadmits hfirst).append (ih hrest)
  | @scope place _ kind keyword name opening closing inner rest nodes ns hadmits hbraced _ _
      ihinner ih =>
    have hplace : place.region = .other := by simpa using region_of_admits hadmits
    rw [hplace] at ih ⊢
    obtain ⟨hinner, hrest⟩ := hts.of_braced
    have hbody := (ihinner hinner).close hbraced.closing_kind
    have hscope : Accounts .other (keyword :: name :: opening :: (inner ++ [closing])) .other
        [.node (.scope kind name.ident nodes (keyword.spanTo closing))] := by
      refine .part rfl rfl ?_
      cases kind
      all_goals
        refine .dropped hbraced.keyword_kind rfl (.ident hbraced.name_kind rfl ?_)
        exact .dropped hbraced.opening_kind rfl hbody
    simpa using hscope.append (ih hrest)
  | @service place _ keyword name opening closing inner rest nodes ns hadmits hbraced _ _
      ihinner ih =>
    have hplace : place.region = .other := by simpa using region_of_admits hadmits
    rw [hplace] at ih ⊢
    obtain ⟨hinner, hrest⟩ := hts.of_braced
    have hbody := (ihinner hinner).close hbraced.closing_kind
    have hservice : Accounts .other (keyword :: name :: opening :: (inner ++ [closing])) .other
        [.node (.service name.ident opening.offset nodes closing.offset
          (keyword.spanTo closing))] := by
      refine .part rfl rfl (.dropped hbraced.keyword_kind rfl (.ident hbraced.name_kind rfl ?_))
      exact .part rfl rfl (.dropped hbraced.opening_kind rfl hbody)
    simpa using hservice.append (ih hrest)

theorem Derives.accounts {limit : Nat} {ts : List Token} {f : File}
    (h : Derives limit ts f.declarations) (hts : LeftToRight ts) :
    Accounts .preamble ts .other [.file f] := by
  refine .part rfl rfl ?_
  show Accounts .preamble ts .other (f.declarations.map .node)
  generalize f.declarations = nodes at h
  cases h with
  | @file keyword equals language semi body _ hpreamble hbody =>
    have hbodyts : LeftToRight body :=
      hts.sublist (List.sublist_append_right [keyword, equals, language, semi] body)
    refine .dropped hpreamble.keyword_kind rfl (.dropped hpreamble.equals_kind rfl ?_)
    exact .dropped hpreamble.language_kind rfl (.dropped hpreamble.semi_kind rfl
      (hbody.accounts hbodyts))

/-- A list that another one rearranges, and that ascends, is what sorting makes of the other. -/
theorem mergeSort_eq_of_perm {ws vs : List (Span × String)} (hperm : vs.Perm ws)
    (hvs : vs.Pairwise fun a b => a.1.start < b.1.start) :
    ws.mergeSort (fun a b => a.1.start ≤ b.1.start) = vs := by
  have hsorted : (ws.mergeSort fun a b => a.1.start ≤ b.1.start).Pairwise
      fun a b => decide (a.1.start ≤ b.1.start) = true := by
    apply List.pairwise_mergeSort
    · intro a b c hab hbc
      exact decide_eq_true (Nat.le_trans (of_decide_eq_true hab) (of_decide_eq_true hbc))
    · intro a b
      simpa using Nat.le_total a.1.start b.1.start
  refine List.Perm.eq_of_pairwise ?_ hsorted (hvs.imp fun hab => ?_)
    ((List.mergeSort_perm _ _).trans hperm.symm)
  · -- no two of `vs` start at one byte, so those that are before each other are the same
    intro a b ha hb hab hba
    have hstart : a.1.start = b.1.start :=
      Nat.le_antisymm (of_decide_eq_true hab) (of_decide_eq_true hba)
    have ha' : a ∈ vs := hperm.mem_iff.mpr (List.mem_mergeSort.mp ha)
    obtain ⟨i, hi, rfl⟩ := List.getElem_of_mem ha'
    obtain ⟨j, hj, rfl⟩ := List.getElem_of_mem hb
    have hij := List.pairwise_iff_getElem.mp hvs i j hi hj
    have hji := List.pairwise_iff_getElem.mp hvs j i hj hi
    have heq : i = j := by omega
    subst heq
    rfl
  · exact decide_eq_true (Nat.le_of_lt hab)

theorem pick_tokenize {source : String} {before : List Token} {last : Token}
    (htokens : tokenize source = before ++ [last]) (hlast : last.kind = .endOfInput) {fate : Fate}
    (hfate : fate ≠ .dropped) (r : Region) :
    r.pick fate (tokenize source) = r.pick fate (significant before) := by
  rw [htokens, Region.pick_append, Region.pick_significant _ hfate, Region.pick_cons_of_ne _ hlast]
  · simp [Region.pick]
  · cases r.through before <;> exact hfate.symm

/-- A walk over a file that was read comes by the words of its source, each of them once.  The
names and literals that it enters are, from left to right, the tokens of those kinds that stand
neither in the preamble nor in a package; only the numbers in enums are not among them, and these
are the numbers of the enum fields that it enters, one after the other. -/
theorem parseText_words {source : String} {f : File} (h : (parseText source).value = .ok f) :
    ((walk (.collect fun _ => true) (.file f) []).filterMap Part.word?).mergeSort
        (fun a b => a.1.start ≤ b.1.start) =
      (Region.preamble.pick .word (tokenize source)).map Token.reading ∧
    List.Forall₂ (fun t decl => decl.IsNumberedBy t)
      (Region.preamble.pick .enumNumber (tokenize source))
      ((walk (.collect fun _ => true) (.file f) []).filterMap Part.enumField?) := by
  obtain ⟨before, last, htokens, hlast, hderives, -⟩ := parseText_eq_ok_iff.mp h
  obtain ⟨hts, -⟩ := leftToRight_of_tokenize htokens
  obtain ⟨-, hwords, hnumbers⟩ := hderives.accounts hts
  rw [List.flatMap_singleton, ← pick_tokenize htokens hlast (by decide)] at hwords hnumbers
  rw [walk_collect, List.nil_append]
  refine ⟨mergeSort_eq_of_perm hwords ?_, hnumbers⟩
  rw [pick_tokenize htokens hlast (by decide)]
  have hpicked : LeftToRight (Region.preamble.pick .word (significant before)) :=
    hts.sublist (Region.pick_sublist _ _)
  refine List.pairwise_map.mpr (hpicked.pairwise.imp_of_mem fun ht _ htu => ?_)
  exact Nat.lt_of_lt_of_le (hpicked.covers _ ht) htu

/-- Words of every kind, those that are kept and those that are left out. -/
def wordySource : String :=
  "syntax=\"proto3\";package a.b;import public \"p\";message M\x7brepeated a.B c=1;\x7d" ++
    "enum E\x7bA=-1;\x7dservice S\x7brpc R(a)returns(b)\x7b\x7d\x7d"

def wordyFile : File :=
  ⟨.proto3,
    [.package ⟨16, 28⟩,
      .importDecl ⟨[⟨"public", ⟨35, 41⟩⟩], ⟨.string, "\"p\"", ⟨42, 45⟩⟩, ⟨28, 46⟩⟩,
      .scope .message ⟨"M", ⟨54, 55⟩⟩
        [.field ⟨⟨"c", ⟨69, 70⟩⟩, ⟨.integer, "1", ⟨71, 72⟩⟩, .named ⟨"a.B", ⟨65, 68⟩⟩,
          some ⟨"repeated", ⟨56, 64⟩⟩, ⟨56, 73⟩⟩]
        ⟨46, 74⟩,
      .scope .enum ⟨"E", ⟨79, 80⟩⟩ [.enumField ⟨⟨"A", ⟨81, 82⟩⟩, "-1", ⟨81, 86⟩⟩] ⟨74, 87⟩,
      .service ⟨"S", ⟨95, 96⟩⟩ 96
        [.rpc ⟨⟨"R", ⟨101, 102⟩⟩, ⟨"a", ⟨103, 104⟩⟩, ⟨"b", ⟨113, 114⟩⟩, ⟨97, 117⟩⟩] 117 ⟨87, 118⟩],
    ⟨0, 118⟩⟩

theorem wordyFile_words :
    (parseText wordySource).value = .ok wordyFile ∧
    ((walk (.collect fun _ => true) (.file wordyFile) []).filterMap Part.word?).mergeSort
        (fun a b => a.1.start ≤ b.1.start) =
      (Region.preamble.pick .word (tokenize wordySource)).map Token.reading ∧
    List.Forall₂ (fun t decl => decl.IsNumberedBy t)
      (Region.preamble.pick .enumNumber (tokenize wordySource))
      ((walk (.collect fun _ => true) (.file wordyFile) []).filterMap Part.enumField?) := by
  have h : (parseText wordySource).value = .ok wordyFile := by decide +kernel
  exact ⟨h, parseText_words h⟩

end ProtoSchema
