import ProtoSchema.Walk

/-!
# Spans that mirror a tree

A part of a tree is named by its path, the numbers of the children to go down to (`Part.at?`).
`Part.LaidOut` says of one part how its span stands to those of its children; if it holds of every
part below `p`, then the spans alone tell which part is below which
(`Nested.isProperlyWithin_iff`, `Nested.disjoint`).

* §1 paths, §2 spans, §3 parts that are laid out, §4 what follows for parts far apart.
-/

namespace ProtoSchema

/-! ## §1 Paths -/

/-- The part below `p` that a path leads to. -/
def Part.at? (p : Part) : List Nat → Option Part
  | [] => some p
  | i :: path => p.children[i]?.bind fun c => c.at? path

theorem at?_nil (p : Part) : p.at? [] = some p := rfl

theorem at?_cons_eq_some {p q : Part} {i : Nat} {path : List Nat} :
    p.at? (i :: path) = some q ↔ ∃ c, p.children[i]? = some c ∧ c.at? path = some q :=
  Option.bind_eq_some_iff

theorem at?_append {p q : Part} {path ext : List Nat} :
    p.at? (path ++ ext) = some q ↔ ∃ m, p.at? path = some m ∧ m.at? ext = some q := by
  induction path generalizing p with
  | nil => simp [at?_nil]
  | cons i path ih =>
    rw [List.cons_append, at?_cons_eq_some]
    constructor
    · rintro ⟨c, hc, hq⟩
      obtain ⟨m, hm, hext⟩ := ih.mp hq
      exact ⟨m, at?_cons_eq_some.mpr ⟨c, hc, hm⟩, hext⟩
    · rintro ⟨m, hm, hext⟩
      obtain ⟨c, hc, hpath⟩ := at?_cons_eq_some.mp hm
      exact ⟨c, hc, ih.mpr ⟨m, hpath, hext⟩⟩

theorem mem_subtree_iff {p q : Part} :
    q ∈ p.subtree ↔ q = p ∨ ∃ c ∈ p.children, q ∈ c.subtree := by
  rw [Part.subtree_eq, List.mem_cons, List.mem_flatMap]

/-- What holds of all parts below `p` holds of `p` and of all parts below its children. -/
theorem forall_mem_subtree_iff {P : Part → Prop} {p : Part} :
    (∀ q ∈ p.subtree, P q) ↔ P p ∧ ∀ c ∈ p.children, ∀ q ∈ c.subtree, P q := by
  rw [Part.subtree_eq, List.forall_mem_cons, List.forall_mem_flatMap]

theorem mem_subtree_of_at? {p q : Part} {path : List Nat} (h : p.at? path = some q) :
    q ∈ p.subtree := by
  induction path generalizing p with
  | nil =>
    obtain rfl := Option.some.inj h
    exact mem_subtree_iff.mpr (.inl rfl)
  | cons i path ih =>
    obtain ⟨c, hc, hq⟩ := at?_cons_eq_some.mp h
    exact mem_subtree_iff.mpr (.inr ⟨c, List.mem_of_getElem? hc, ih hq⟩)

theorem exists_at?_of_mem_subtree {p q : Part} (h : q ∈ p.subtree) :
    ∃ path, p.at? path = some q := by
  induction hn : sizeOf p using Nat.strongRecOn generalizing p with
  | ind n ih =>
    rcases mem_subtree_iff.mp h with rfl | ⟨c, hc, hq⟩
    · exact ⟨[], rfl⟩
    · obtain ⟨path, hpath⟩ := ih _ (hn ▸ Part.sizeOf_lt_of_mem_children hc) hq rfl
      obtain ⟨i, hi⟩ := List.mem_iff_getElem?.mp hc
      exact ⟨i :: path, at?_cons_eq_some.mpr ⟨c, hi, hpath⟩⟩

/-- A walk that goes down everywhere visits the parts that paths lead to. -/
theorem mem_walk_iff {p q : Part} :
    q ∈ walk (.collect fun _ => true) p [] ↔ ∃ path, p.at? path = some q := by
  rw [walk_collect, List.nil_append]
  constructor
  · exact exists_at?_of_mem_subtree
  · rintro ⟨path, h⟩
    exact mem_subtree_of_at? h

/-! ## §2 Spans -/

/-- One of two spans ends before the other starts. -/
def Span.Disjoint (s t : Span) : Prop := s.stop ≤ t.start ∨ t.stop ≤ s.start

theorem Span.Disjoint.symm {s t : Span} (h : s.Disjoint t) : t.Disjoint s := Or.symm h

/-- `s` is a part of `outer`, or all of it. -/
def Span.IsWithin (s outer : Span) : Prop := outer.start ≤ s.start ∧ s.stop ≤ outer.stop

def Span.IsProperlyWithin (s outer : Span) : Prop := s.IsWithin outer ∧ s ≠ outer

theorem Span.isProperlyWithin_iff {s outer : Span} :
    s.IsProperlyWithin outer ↔ outer.start ≤ s.start ∧ s.stop ≤ outer.stop ∧
      (outer.start < s.start ∨ s.stop < outer.stop) := by
  obtain ⟨start, stop⟩ := s
  obtain ⟨start', stop'⟩ := outer
  rw [Span.IsProperlyWithin, Span.IsWithin, ne_eq, Span.mk.injEq]
  dsimp only
  omega

theorem Span.IsWithin.trans_properly {s t outer : Span} (h : s.IsWithin t)
    (ht : t.IsProperlyWithin outer) : s.IsProperlyWithin outer := by
  rw [Span.isProperlyWithin_iff] at ht ⊢
  rw [Span.IsWithin] at h
  omega

theorem Span.Disjoint.of_isWithin {s s' t t' : Span} (h : s.Disjoint t) (hs : s'.IsWithin s)
    (ht : t'.IsWithin t) : s'.Disjoint t' := by
  rw [Span.IsWithin] at hs ht
  rw [Span.Disjoint] at h ⊢
  omega

/-! ## §3 Laying out -/

/-- The children of a part in the order in which they stand in the source.  Only a field has
another order for its visitors. -/
def Part.inSourceOrder : Part → List Part
  | .node (.field decl) =>
    decl.repeated.toList.map .ident ++ [decl.type.part, .ident decl.name, .literal decl.number]
  | p => p.children

theorem inSourceOrder_perm (p : Part) : p.inSourceOrder.Perm p.children := by
  unfold Part.inSourceOrder
  split
  · next decl =>
    refine List.perm_append_comm.trans (List.Perm.append_right _ ?_)
    exact (List.Perm.swap _ _ _).trans ((List.Perm.swap _ _ _).cons _)
  · exact .refl _

/-- A part covers some of the source, its children cover less of it each, and none of them starts
before the one to its left ends. -/
structure Part.LaidOut (p : Part) : Prop where
  nonempty : p.span.start < p.span.stop
  within : ∀ c ∈ p.children, c.span.IsProperlyWithin p.span
  ordered : p.inSourceOrder.Pairwise fun a b => a.span.stop ≤ b.span.start

/-- All parts below `p` are laid out. -/
def Part.Nested (p : Part) : Prop := ∀ q ∈ p.subtree, q.LaidOut

theorem nested_iff {p : Part} : p.Nested ↔ p.LaidOut ∧ ∀ c ∈ p.children, c.Nested :=
  forall_mem_subtree_iff

theorem Part.Nested.at? {p q : Part} {path : List Nat} (h : p.Nested)
    (hq : p.at? path = some q) : q.Nested := by
  induction path generalizing p with
  | nil =>
    obtain rfl := Option.some.inj hq
    exact h
  | cons i path ih =>
    obtain ⟨c, hc, hq⟩ := at?_cons_eq_some.mp hq
    exact ih ((nested_iff.mp h).2 c (List.mem_of_getElem? hc)) hq

theorem Part.Nested.laidOut {p : Part} (h : p.Nested) : p.LaidOut := (nested_iff.mp h).1

/-! ## §4 Parts far apart -/

/-- The children of a part do not overlap, whatever the order in which they are visited. -/
theorem Part.LaidOut.disjoint {p c d : Part} (h : p.LaidOut) {i j : Nat} (hij : i ≠ j)
    (hc : p.children[i]? = some c) (hd : p.children[j]? = some d) : c.span.Disjoint d.span := by
  have hsource : p.inSourceOrder.Pairwise fun a b => a.span.Disjoint b.span :=
    h.ordered.imp fun hab => .inl hab
  have hchildren := (inSourceOrder_perm p).pairwise hsource fun hab => hab.symm
  obtain ⟨hi, rfl⟩ := List.getElem?_eq_some_iff.mp hc
  obtain ⟨hj, rfl⟩ := List.getElem?_eq_some_iff.mp hd
  rw [List.pairwise_iff_getElem] at hchildren
  rcases Nat.lt_or_gt_of_ne hij with hlt | hgt
  · exact hchildren i j hi hj hlt
  · exact (hchildren j i hj hi hgt).symm

/-- What stands below a part covers less than it. -/
theorem Part.Nested.isProperlyWithin {p q : Part} (h : p.Nested) {path : List Nat}
    (hpath : path ≠ []) (hq : p.at? path = some q) : q.span.IsProperlyWithin p.span := by
  induction path generalizing p with
  | nil => exact absurd rfl hpath
  | cons i path ih =>
    obtain ⟨hp, hchildren⟩ := nested_iff.mp h
    obtain ⟨c, hc, hq⟩ := at?_cons_eq_some.mp hq
    have hmem := List.mem_of_getElem? hc
    have hcp := hp.within c hmem
    by_cases hnil : path = []
    · subst hnil
      obtain rfl := Option.some.inj hq
      exact hcp
    · exact (ih (hchildren c hmem) hnil hq).1.trans_properly hcp

theorem Part.Nested.isWithin {p q : Part} (h : p.Nested) {path : List Nat}
    (hq : p.at? path = some q) : q.span.IsWithin p.span := by
  by_cases hpath : path = []
  · subst hpath
    obtain rfl := Option.some.inj hq
    exact ⟨Nat.le_refl _, Nat.le_refl _⟩
  · exact (h.isProperlyWithin hpath hq).1

/-- Parts neither of which is below the other do not overlap: they are below different children of
the last part that their paths share. -/
theorem Part.Nested.disjoint {p a b : Part} (h : p.Nested) {path path' : List Nat}
    (ha : p.at? path = some a) (hb : p.at? path' = some b) (hab : ¬ path <+: path')
    (hba : ¬ path' <+: path) : a.span.Disjoint b.span := by
  induction path generalizing p path' with
  | nil => exact absurd (List.nil_prefix) hab
  | cons i path ih =>
    cases path' with
    | nil => exact absurd (List.nil_prefix) hba
    | cons j path' =>
      obtain ⟨hp, hchildren⟩ := nested_iff.mp h
      obtain ⟨c, hc, ha⟩ := at?_cons_eq_some.mp ha
      obtain ⟨d, hd, hb⟩ := at?_cons_eq_some.mp hb
      have hcn := hchildren c (List.mem_of_getElem? hc)
      have hdn := hchildren d (List.mem_of_getElem? hd)
      by_cases hij : i = j
      · subst hij
        obtain rfl := Option.some.inj (hc.symm.trans hd)
        rw [List.cons_prefix_cons] at hab hba
        exact ih hcn ha hb (fun h => hab ⟨rfl, h⟩) fun h => hba ⟨rfl, h⟩
      · -- the paths part here
        exact (hp.disjoint hij hc hd).of_isWithin (hcn.isWithin ha) (hdn.isWithin hb)

/-- A part covers less than another if and only if it is below it. -/
theorem Part.Nested.isProperlyWithin_iff {p a b : Part} (h : p.Nested) {path path' : List Nat}
    (ha : p.at? path = some a) (hb : p.at? path' = some b) :
    b.span.IsProperlyWithin a.span ↔ path <+: path' ∧ path ≠ path' := by
  constructor
  · intro hba
    refine ⟨?_, ?_⟩
    · by_cases hdown : path <+: path'
      · exact hdown
      · exfalso
        have hproper := Span.isProperlyWithin_iff.mp hba
        -- if `b` is above `a` it covers more, and if it is beside `a` it covers something else
        by_cases hup : path' <+: path
        · obtain ⟨ext, rfl⟩ := hup
          obtain ⟨m, hm, hext⟩ := at?_append.mp ha
          obtain rfl := Option.some.inj (hm.symm.trans hb)
          have hwithin := (h.at? hm).isWithin hext
          rw [Span.IsWithin] at hwithin
          omega
        · have hdisjoint := h.disjoint ha hb hdown hup
          have hane := (h.at? ha).laidOut.nonempty
          have hbne := (h.at? hb).laidOut.nonempty
          rw [Span.Disjoint] at hdisjoint
          omega
    · rintro rfl
      obtain rfl := Option.some.inj (ha.symm.trans hb)
      exact hba.2 rfl
  · rintro ⟨⟨ext, rfl⟩, hne⟩
    obtain ⟨m, hm, hext⟩ := at?_append.mp hb
    obtain rfl := Option.some.inj (hm.symm.trans ha)
    refine (h.at? hm).isProperlyWithin ?_ hext
    rintro rfl
    simp at hne

end ProtoSchema
