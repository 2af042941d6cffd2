import ProtoSchema.Proofs.Language
import ProtoSchema.Proofs.Nesting

/-!
# Where the parts of a file stand

The spans of a tree come from the tokens that spell it.  Tokens that stand one after the other
(`LeftToRight`) spell nodes that do so too, each laid out with all that is below it
(`Members.row`), so the spans of a file that was read mirror its tree
(`parseText_spans_mirror_tree`).

* §1 tokens from left to right, §2 parts made from one or two tokens, §3 constructs that hold no
  others;
* §4 members and files.
-/

namespace ProtoSchema

/-! ## §1 Tokens from left to right -/

/-- Tokens that cover some of the source each and do not overlap; a closing brace covers one
byte. -/
structure LeftToRight (ts : List Token) : Prop where
  pairwise : ts.Pairwise fun t u => t.stop ≤ u.offset
  covers : ∀ t ∈ ts, t.offset < t.stop
  brace : ∀ t ∈ ts, t.kind = .rightBrace → t.stop = t.offset + 1

theorem LeftToRight.sublist {ts us : List Token} (h : LeftToRight ts) (hus : us.Sublist ts) :
    LeftToRight us where
  pairwise := h.pairwise.sublist hus
  covers t ht := h.covers t (hus.subset ht)
  brace t ht := h.brace t (hus.subset ht)

theorem leftToRight_append {ts us : List Token} :
    LeftToRight (ts ++ us) ↔
      LeftToRight ts ∧ LeftToRight us ∧ ∀ t ∈ ts, ∀ u ∈ us, t.stop ≤ u.offset := by
  constructor
  · intro h
    exact ⟨h.sublist (List.sublist_append_left _ _), h.sublist (List.sublist_append_right _ _),
      (List.pairwise_append.mp h.pairwise).2.2⟩
  · rintro ⟨hts, hus, hcross⟩
    refine ⟨List.pairwise_append.mpr ⟨hts.pairwise, hus.pairwise, hcross⟩, ?_, ?_⟩
    · exact List.forall_mem_append.mpr ⟨hts.covers, hus.covers⟩
    · exact List.forall_mem_append.mpr ⟨hts.brace, hus.brace⟩

theorem leftToRight_cons {t : Token} {ts : List Token} :
    LeftToRight (t :: ts) ↔ t.offset < t.stop ∧ (t.kind = .rightBrace → t.stop = t.offset + 1) ∧
      (∀ u ∈ ts, t.stop ≤ u.offset) ∧ LeftToRight ts := by
  constructor
  · intro h
    exact ⟨h.covers t List.mem_cons_self, h.brace t List.mem_cons_self,
      (List.pairwise_cons.mp h.pairwise).1, h.sublist (List.sublist_cons_self _ _)⟩
  · rintro ⟨hcovers, hbrace, hcross, hts⟩
    exact ⟨List.pairwise_cons.mpr ⟨hcross, hts.pairwise⟩,
      List.forall_mem_cons.mpr ⟨hcovers, hts.covers⟩,
      List.forall_mem_cons.mpr ⟨hbrace, hts.brace⟩⟩

theorem leftToRight_nil : LeftToRight [] := ⟨.nil, by simp, by simp⟩

theorem LeftToRight.of_braced {keyword name opening closing : Token} {inner rest : List Token}
    (h : LeftToRight (keyword :: name :: opening :: (inner ++ closing :: rest))) :
    LeftToRight inner ∧ LeftToRight rest := by
  have hmore := h.sublist (List.sublist_append_right [keyword, name, opening] _)
  obtain ⟨hinner, hrest, -⟩ := leftToRight_append.mp hmore
  exact ⟨hinner, hrest.sublist (List.sublist_cons_self _ _)⟩

/-- The first token is the first to start. -/
theorem LeftToRight.offset_le {t : Token} {ts : List Token} (h : LeftToRight (t :: ts)) :
    ∀ u ∈ t :: ts, t.offset ≤ u.offset := by
  obtain ⟨hcovers, -, hcross, -⟩ := leftToRight_cons.mp h
  intro u hu
  rcases List.mem_cons.mp hu with rfl | hu
  · exact Nat.le_refl _
  · have := hcross u hu
    omega

/-- The last token is the last to end. -/
theorem LeftToRight.stop_le {ts : List Token} {t : Token} (h : LeftToRight (ts ++ [t])) :
    ∀ u ∈ ts ++ [t], u.stop ≤ t.stop := by
  obtain ⟨-, ht, hcross⟩ := leftToRight_append.mp h
  have hcovers := ht.covers t (by simp)
  intro u hu
  rcases List.mem_append.mp hu with hu | hu
  · have := hcross u hu t (by simp)
    omega
  · obtain rfl := List.mem_singleton.mp hu
    exact Nat.le_refl _

/-! ## §2 Parts in a row -/

/-- If the tokens `ts` stand from left to right, then `p` reaches from one of them to another, and
all below it is laid out. -/
def Spans (ts : List Token) (p : Part) : Prop :=
  LeftToRight ts → p.Nested ∧ ∃ t ∈ ts, ∃ u ∈ ts, p.span = t.spanTo u

/-- Parts that some of the tokens make, in their order. -/
inductive Row : List Token → List Part → Prop
  | nil : Row [] []
  | skip {t : Token} {ts : List Token} {ps : List Part} (hrest : Row ts ps) : Row (t :: ts) ps
  | part {ts us : List Token} {p : Part} {ps : List Part} (hp : Spans ts p) (hrest : Row us ps) :
      Row (ts ++ us) (p :: ps)

theorem Row.append {ts us : List Token} {ps qs : List Part} (h : Row ts ps) (h' : Row us qs) :
    Row (ts ++ us) (ps ++ qs) := by
  induction h with
  | nil => exact h'
  | skip _ ih => exact .skip ih
  | part hp _ ih =>
    rw [List.append_assoc]
    exact .part hp ih

theorem row_nil (ts : List Token) : Row ts [] := by
  induction ts with
  | nil => exact .nil
  | cons t ts ih => exact .skip ih

/-- Parts in a row are laid out, and do not overlap. -/
theorem Row.spec {ts : List Token} {ps : List Part} (h : Row ts ps) (hts : LeftToRight ts) :
    (∀ p ∈ ps, p.Nested ∧ ∃ t ∈ ts, ∃ u ∈ ts, p.span = t.spanTo u) ∧
      ps.Pairwise fun p q => p.span.stop ≤ q.span.start := by
  induction h with
  | nil => exact ⟨by simp, .nil⟩
  | @skip t ts ps _ ih =>
    obtain ⟨hps, hpairwise⟩ := ih (hts.sublist (List.sublist_cons_self _ _))
    refine ⟨?_, hpairwise⟩
    intro p hp
    obtain ⟨hnested, u, hu, v, hv, hspan⟩ := hps p hp
    exact ⟨hnested, u, List.mem_cons_of_mem _ hu, v, List.mem_cons_of_mem _ hv, hspan⟩
  | @part ts us p ps hp _ ih =>
    obtain ⟨hleft, hright, hcross⟩ := leftToRight_append.mp hts
    obtain ⟨hnested, t, ht, u, hu, hspan⟩ := hp hleft
    obtain ⟨hps, hpairwise⟩ := ih hright
    refine ⟨?_, List.pairwise_cons.mpr ⟨?_, hpairwise⟩⟩
    · intro q hq
      rcases List.mem_cons.mp hq with rfl | hq
      · exact ⟨hnested, t, List.mem_append_left _ ht, u, List.mem_append_left _ hu, hspan⟩
      · obtain ⟨hnested', v, hv, w, hw, hspan'⟩ := hps q hq
        exact ⟨hnested', v, List.mem_append_right _ hv, w, List.mem_append_right _ hw, hspan'⟩
    · intro q hq
      obtain ⟨-, v, hv, w, -, hspan'⟩ := hps q hq
      rw [hspan, hspan']
      exact hcross u hu v hv

/-- A part is laid out if its children are in a row and between its ends. -/
theorem nested_of_row {p : Part} {first last : Token} {us : List Token}
    (hspan : p.span = first.spanTo last) (hlt : first.offset < last.stop)
    (hrow : Row us p.inSourceOrder) (hus : LeftToRight us)
    (hwithin : ∀ t ∈ us, ∀ u ∈ us, (t.spanTo u).IsProperlyWithin (first.spanTo last)) :
    p.Nested := by
  obtain ⟨hparts, hordered⟩ := hrow.spec hus
  have hmem : ∀ c, c ∈ p.children ↔ c ∈ p.inSourceOrder := fun c =>
    (inSourceOrder_perm p).mem_iff.symm
  refine nested_iff.mpr ⟨⟨?_, ?_, hordered⟩, ?_⟩
  · rw [hspan]
    exact hlt
  · intro c hc
    obtain ⟨-, t, ht, u, hu, hc⟩ := hparts c ((hmem c).mp hc)
    rw [hspan, hc]
    exact hwithin t ht u hu
  · intro c hc
    exact (hparts c ((hmem c).mp hc)).1

/-- A part from the first to the last of some tokens, with its children before the last. -/
theorem spans_concat {p : Part} {first last : Token} (us : List Token)
    (hrow : Row (first :: us) p.inSourceOrder) (hspan : p.span = first.spanTo last) :
    Spans (first :: us ++ [last]) p := by
  intro hts
  obtain ⟨hus, hlast, hcross⟩ := leftToRight_append.mp hts
  have hlast := hlast.covers last (by simp)
  have hfirst := hcross first (by simp) last (by simp)
  have hcovers := hus.covers first (by simp)
  refine ⟨nested_of_row hspan (by omega) hrow hus ?_, first, by simp, last, by simp, hspan⟩
  intro t ht u hu
  have := hus.offset_le t ht
  have := hcross u hu last (by simp)
  rw [Span.isProperlyWithin_iff]
  simp only [Token.spanTo]
  omega

/-- A part from the first to the last of some tokens, with its children behind the first. -/
theorem spans_cons {p : Part} {first last : Token} {us : List Token}
    (hrow : Row (us ++ [last]) p.inSourceOrder) (hspan : p.span = first.spanTo last) :
    Spans (first :: (us ++ [last])) p := by
  intro hts
  obtain ⟨hfirst, -, hcross, hus⟩ := leftToRight_cons.mp hts
  have hlast := hus.covers last (by simp)
  have hcross' := hcross last (by simp)
  refine ⟨nested_of_row hspan (by omega) hrow hus ?_, first, by simp, last, by simp, hspan⟩
  intro t ht u hu
  have := hus.stop_le u hu
  have := hcross t ht
  rw [Span.isProperlyWithin_iff]
  simp only [Token.spanTo]
  omega

/-- A part that is one token. -/
theorem spans_token {p : Part} {t : Token} (hspan : p.span = t.spanTo t)
    (hchildren : p.inSourceOrder = []) : Spans [t] p := by
  intro hts
  refine ⟨nested_of_row hspan (hts.covers t (by simp)) (hchildren ▸ .nil) leftToRight_nil ?_,
    t, by simp, t, by simp, hspan⟩
  simp

theorem Row.ident {t : Token} {ts : List Token} {ps : List Part} (h : Row ts ps) :
    Row (t :: ts) (.ident t.ident :: ps) :=
  .part (spans_token rfl rfl) h

theorem Row.literal {t : Token} {kind : LiteralKind} {ts : List Token} {ps : List Part}
    (h : Row ts ps) : Row (t :: ts) (.literal (t.literal kind) :: ps) :=
  .part (spans_token rfl rfl) h

/-! ## §3 Constructs -/

theorem row_modifiers (modifiers : List Token) :
    Row modifiers ((modifiers.map Token.ident).map .ident) := by
  induction modifiers with
  | nil => exact .nil
  | cons m ms ih => exact .ident ih

theorem Leaf.spans {c : Construct} {ts : List Token} {n : Node} (h : Leaf c ts n) :
    Spans ts (.node n) := by
  cases h with
  | empty => exact spans_token rfl rfl
  | @importDecl keyword path semi modifiers =>
    have hrow : Row (modifiers ++ [path])
        ((modifiers.map Token.ident).map .ident ++ [.literal (path.literal .string)]) :=
      (row_modifiers modifiers).append (.literal .nil)
    have hspans : Spans (keyword :: (modifiers ++ [path]) ++ [semi]) (.node (.importDecl
        ⟨modifiers.map Token.ident, path.literal .string, keyword.spanTo semi⟩)) :=
      spans_concat _ (.skip hrow) rfl
    simpa using hspans
  | @package keyword semi skipped =>
    exact spans_concat skipped (row_nil _) rfl
  | @option keyword name equals value semi =>
    exact spans_concat [name, equals, value] (.skip (.ident (.skip (.literal .nil)))) rfl
  | @plainField type name equals number semi =>
    exact spans_concat [name, equals, number]
      (.ident (.ident (.skip (.literal .nil)))) rfl
  | @repeatedField keyword type name equals number semi =>
    exact spans_concat [type, name, equals, number]
      (.ident (.ident (.ident (.skip (.literal .nil))))) rfl
  | @mapField keyword opening key comma value closing name equals number semi =>
    have htype : Spans [keyword, opening, key, comma, value, closing]
        (.mapType ⟨key.ident, value.ident, keyword.spanTo closing⟩) :=
      spans_concat [opening, key, comma, value]
        (.skip (.skip (.ident (.skip (.ident .nil))))) rfl
    exact spans_concat [opening, key, comma, value, closing, name, equals, number]
      (.part htype (.ident (.skip (.literal .nil)))) rfl
  | @enumField name equals value semi =>
    exact spans_concat [equals, value] (.ident (row_nil _)) rfl
  | @rpc keyword name open₁ input close₁ returns open₂ output close₂ opening closing =>
    exact spans_concat [name, open₁, input, close₁, returns, open₂, output, close₂, opening]
      (.skip (.ident (.skip (.ident (.skip (.skip (.skip (.ident (row_nil _))))))))) rfl

/-! ## §4 Members and files -/

theorem Members.row {place : Place} {room : Nat} {ts : List Token} {ns : List Node}
    (h : Members place room ts ns) : Row ts (ns.map .node) := by
  induction h with
  | nil => exact .nil
  | leaf _ hleaf _ ih => exact .part hleaf.spans ih
  | @scope _ _ kind keyword name opening closing inner rest nodes ns _ _ _ _ ihinner ih =>
    have hspans : Spans (keyword :: (name :: opening :: inner) ++ [closing])
        (.node (.scope kind name.ident nodes (keyword.spanTo closing))) :=
      spans_concat _ (.skip (.ident (.skip ihinner))) rfl
    have hrow := Row.part hspans ih
    simpa using hrow
  | @service _ _ keyword name opening closing inner rest nodes ns _ hbraced _ _ ihinner ih =>
    have hblock : Spans (opening :: inner ++ [closing])
        (.block opening.offset nodes closing.offset) := by
      intro hts
      -- the block ends one byte behind its closing brace, which is where that brace ends
      have hstop := hts.brace closing (by simp) hbraced.closing_kind
      refine spans_concat _ (.skip ihinner) ?_ hts
      simp only [Part.span, Token.spanTo, hstop]
    have hspans : Spans (keyword :: (name :: opening :: inner ++ [closing])) (.node (.service
        name.ident opening.offset nodes closing.offset (keyword.spanTo closing))) := by
      refine spans_cons (.ident ?_) rfl
      simpa using Row.part hblock .nil
    have hrow := Row.part hspans ih
    simpa using hrow

/-- In front of its last token, a stream goes from left to right. -/
theorem Stream.leftToRight {c : Cursor} {b : Brackets} {before : List Token} {last : Token}
    (h : Stream c b (before ++ [last])) :
    LeftToRight (significant before) ∧
      ∀ t ∈ significant before, t.stop ≤ c.offset + Text.utf8Length c.rest := by
  obtain ⟨before', last', heq, -, hbefore⟩ := h.exists_last
  obtain ⟨rfl, -⟩ := List.append_inj' heq rfl
  have hsignificant : (significant before).Sublist before := List.filter_sublist
  have hcovers : ∀ t ∈ significant before,
      t.offset < t.stop ∧ t.stop ≤ c.offset + Text.utf8Length c.rest := by
    intro t ht
    have hmem := hsignificant.subset ht
    exact h.covers t (List.mem_append_left _ hmem) (hbefore t hmem)
  refine ⟨⟨?_, fun t ht => (hcovers t ht).1, ?_⟩, fun t ht => (hcovers t ht).2⟩
  · exact h.pairwise.sublist (hsignificant.trans (List.sublist_append_left _ _))
  · intro t ht
    exact h.rightBrace t (List.mem_append_left _ (hsignificant.subset ht))

theorem leftToRight_of_tokenize {source : String} {before : List Token} {last : Token}
    (htokens : tokenize source = before ++ [last]) :
    LeftToRight (significant before) ∧
      ∀ t ∈ significant before, t.stop ≤ source.utf8ByteSize := by
  have hstream := stream_tokenize source
  rw [htokens] at hstream
  simpa only [Text.utf8Length_toList, Nat.zero_add] using hstream.leftToRight

/-- A file that was read reaches over the whole source, and all in it is laid out. -/
theorem nested_of_parseText {source : String} {f : File} (h : (parseText source).value = .ok f) :
    (Part.file f).Nested ∧ f.span = ⟨0, source.utf8ByteSize⟩ := by
  obtain ⟨before, last, htokens, hlast, hderives, hspan⟩ := parseText_eq_ok_iff.mp h
  obtain ⟨hts, hstop⟩ := leftToRight_of_tokenize htokens
  -- the end of input stands at the end of the source and covers nothing
  have hend : last.stop = source.utf8ByteSize := by
    have hmem : last ∈ tokenize source := by simp [htokens]
    obtain ⟨hoffset, htext⟩ := (stream_tokenize source).endOfInput last hmem hlast
    rw [Token.stop, hoffset, htext, Text.utf8Length_toList]
    simp
  rw [hend] at hspan
  refine ⟨?_, hspan⟩
  obtain ⟨dialect, nodes, span⟩ := f
  dsimp only at hderives hspan
  generalize significant before = ts at hts hstop hderives
  cases hderives with
  | @file keyword equals language semi body _ hp hbody =>
    obtain ⟨hcovers, -, hcross, hrest⟩ := leftToRight_cons.mp hts
    have hbodyts : LeftToRight body :=
      hts.sublist (List.sublist_append_right [keyword, equals, language, semi] body)
    obtain ⟨hparts, hordered⟩ := hbody.row.spec hbodyts
    refine nested_iff.mpr ⟨⟨?_, ?_, hordered⟩, fun p hp => (hparts p hp).1⟩
    · have := hstop keyword (by simp)
      rw [Part.span, hspan]
      dsimp only
      omega
    · intro p hp
      obtain ⟨-, t, ht, u, hu, hpspan⟩ := hparts p hp
      have := hcross t (by simp [ht])
      have := hstop u (by simp [hu])
      rw [Span.isProperlyWithin_iff, hpspan, Part.span, hspan]
      simp only [Token.spanTo]
      omega

/-- The spans of a file that was read mirror its tree.  A walk visits the parts that paths lead to,
and each of them covers some bytes of the source; one covers a proper part of the bytes of another
if and only if it is below it, and parts of which neither is below the other do not overlap; the
children of each stand in the source one after the other. -/
theorem parseText_spans_mirror_tree {source : String} {f : File}
    (h : (parseText source).value = .ok f) :
    (∀ p, p ∈ walk (.collect fun _ => true) (.file f) [] ↔
      ∃ path, (Part.file f).at? path = some p) ∧
    (∀ path p, (Part.file f).at? path = some p →
      p.span.start < p.span.stop ∧ p.span.stop ≤ source.utf8ByteSize ∧
        p.inSourceOrder.Pairwise fun a b => a.span.stop ≤ b.span.start) ∧
    ∀ path path' a b, (Part.file f).at? path = some a → (Part.file f).at? path' = some b →
      (b.span.IsProperlyWithin a.span ↔ path <+: path' ∧ path ≠ path') ∧
        (¬ path <+: path' → ¬ path' <+: path → a.span.Disjoint b.span) := by
  obtain ⟨hnested, hspan⟩ := nested_of_parseText h
  refine ⟨fun p => mem_walk_iff, ?_, ?_⟩
  · intro path p hp
    have hlaid := (hnested.at? hp).laidOut
    have hwithin := hnested.isWithin hp
    rw [Span.IsWithin, Part.span, hspan] at hwithin
    exact ⟨hlaid.nonempty, hwithin.2, hlaid.ordered⟩
  · intro path path' a b ha hb
    exact ⟨hnested.isProperlyWithin_iff ha hb, hnested.disjoint ha hb⟩

/-- A message with one field. -/
def repeatedFieldSource : String := "syntax=\"proto3\";message M\x7brepeated a.B c=1;\x7d"

def repeatedFieldFile : File :=
  ⟨.proto3,
    [.scope .message ⟨"M", ⟨24, 25⟩⟩
      [.field ⟨⟨"c", ⟨39, 40⟩⟩, ⟨.integer, "1", ⟨41, 42⟩⟩, .named ⟨"a.B", ⟨35, 38⟩⟩,
        some ⟨"repeated", ⟨26, 34⟩⟩, ⟨26, 43⟩⟩]
      ⟨16, 44⟩],
    ⟨0, 44⟩⟩

theorem repeatedFieldFile_spans_mirror_tree :
    (∀ p, p ∈ walk (.collect fun _ => true) (.file repeatedFieldFile) [] ↔
      ∃ path, (Part.file repeatedFieldFile).at? path = some p) ∧
    (∀ path p, (Part.file repeatedFieldFile).at? path = some p →
      p.span.start < p.span.stop ∧ p.span.stop ≤ repeatedFieldSource.utf8ByteSize ∧
        p.inSourceOrder.Pairwise fun a b => a.span.stop ≤ b.span.start) ∧
    ∀ path path' a b, (Part.file repeatedFieldFile).at? path = some a →
      (Part.file repeatedFieldFile).at? path' = some b →
      (b.span.IsProperlyWithin a.span ↔ path <+: path' ∧ path ≠ path') ∧
        (¬ path <+: path' → ¬ path' <+: path → a.span.Disjoint b.span) :=
  parseText_spans_mirror_tree
    (show (parseText repeatedFieldSource).value = .ok repeatedFieldFile by decide +kernel)

end ProtoSchema
