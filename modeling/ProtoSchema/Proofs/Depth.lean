import ProtoSchema.Proofs.Linting
import ProtoSchema.Proofs.Traversal

/-!
# How deep a walk goes

A file that was read is shallow, however long its text is.  Scopes stand within one another to the
nesting limit only, and what holds no scope adds a fixed number of levels, so a walk that starts
anywhere in the file never has more than 104 parts entered and not yet left (`walk_depth`).

The longest way down is the file, a hundred scopes, a field, its map type and the name in that; a
service is no scope, but only a file holds one, and the way down through it is shorter.

* §1 levels below a part, §2 levels below members, §3 scopes above a part;
* §4 how many parts are open when a walk enters one.
-/

namespace ProtoSchema

/-! ## §1 Levels -/

/-- No way down from `p` has more than `n` parts on it, `p` included. -/
def Part.HeightAtMost (p : Part) (n : Nat) : Prop :=
  ∀ path q, p.at? path = some q → path.length < n

section

variable {p q : Part} {m n : Nat}

theorem Part.HeightAtMost.mono (h : p.HeightAtMost m) (hmn : m ≤ n) : p.HeightAtMost n :=
  fun path q hq => Nat.lt_of_lt_of_le (h path q hq) hmn

theorem heightAtMost_succ (h : ∀ c ∈ p.children, c.HeightAtMost n) : p.HeightAtMost (n + 1) := by
  intro path q hq
  cases path with
  | nil => exact Nat.succ_pos n
  | cons i path =>
    obtain ⟨c, hc, hq⟩ := at?_cons_eq_some.mp hq
    exact Nat.succ_lt_succ (h c (List.mem_of_getElem? hc) path q hq)

/-- What stands below a part is no higher than the part. -/
theorem Part.HeightAtMost.of_mem_subtree (h : p.HeightAtMost n) (hq : q ∈ p.subtree) :
    q.HeightAtMost n := by
  obtain ⟨front, hfront⟩ := exists_at?_of_mem_subtree hq
  intro path r hr
  have := h (front ++ path) r (at?_append.mpr ⟨q, hfront, hr⟩)
  rw [List.length_append] at this
  omega

end

theorem heightAtMost_ident (i : Ident) : (Part.ident i).HeightAtMost 1 :=
  heightAtMost_succ (List.forall_mem_nil _)

theorem Part.Plain.heightAtMost {p : Part} (h : p.Plain) : p.HeightAtMost 2 := by
  cases h with
  | ident i => exact (heightAtMost_ident i).mono (by decide)
  | literal => exact heightAtMost_succ (List.forall_mem_nil _)
  | mapType m =>
    refine heightAtMost_succ (List.forall_mem_cons.mpr ⟨heightAtMost_ident _, ?_⟩)
    exact List.forall_mem_singleton.mpr (heightAtMost_ident _)

/-- A part that holds no declarations has three levels at most, as a field with a map type does. -/
theorem heightAtMost_of_isSimple {p : Part} (h : p.kind.isSimple = true) : p.HeightAtMost 3 :=
  heightAtMost_succ fun _ hc => (plain_of_mem_children h hc).heightAtMost

/-! ## §2 Levels of members -/

/-- How high the members of a place are, if they may have `room` scopes within each other. -/
def Place.levels (room : Nat) : Place → Nat
  | file => max 5 (room + 3)
  | inScope _ => room + 3
  | inService => 3

theorem three_le_levels (place : Place) (room : Nat) : 3 ≤ place.levels room := by
  cases place <;> simp only [Place.levels] <;> omega

/-- By induction on how the members are derived: a scope uses up the room that it adds a level
for, and a service is a member of a file only. -/
theorem Members.heightAtMost {place : Place} {room : Nat} {ts : List Token} {ns : List Node}
    (h : Members place room ts ns) :
    ∀ n ∈ ns, (Part.node n).HeightAtMost (place.levels room) := by
  induction h with
  | nil => simp
  | @leaf place room _ _ _ n _ _ hleaf _ ih =>
    refine List.forall_mem_cons.mpr ⟨?_, ih⟩
    exact (heightAtMost_of_isSimple hleaf.isSimple).mono (three_le_levels place room)
  | @scope place room kind _ name _ _ _ _ _ _ hadmits _ _ _ ihinner ih =>
    have hlevels : room + 4 ≤ place.levels (room + 1) := by
      cases place with
      | file => exact Nat.le_max_right _ _
      | inScope => exact Nat.le_refl _
      | inService => simp [Place.admits] at hadmits
    refine List.forall_mem_cons.mpr ⟨(heightAtMost_succ ?_).mono hlevels, ih⟩
    simp only [Part.children, Node.children, List.forall_mem_cons, List.forall_mem_map]
    exact ⟨(heightAtMost_ident _).mono (by omega), ihinner⟩
  | @service place room _ name _ _ _ _ _ _ hadmits _ _ _ ihinner ih =>
    have hlevels : 5 ≤ place.levels room := by
      cases place with
      | file => exact Nat.le_max_left _ _
      | inScope kind => cases kind <;> simp [Place.admits] at hadmits
      | inService => simp [Place.admits] at hadmits
    refine List.forall_mem_cons.mpr ⟨(heightAtMost_succ ?_).mono hlevels, ih⟩
    simp only [Part.children, Node.children, List.forall_mem_cons]
    refine ⟨(heightAtMost_ident _).mono (by decide), heightAtMost_succ ?_, List.forall_mem_nil _⟩
    simpa only [Part.children, List.forall_mem_map, Place.levels] using ihinner

theorem Derives.heightAtMost {limit : Nat} {ts : List Token} {f : File}
    (h : Derives limit ts f.declarations) :
    (Part.file f).HeightAtMost (max 5 (limit + 3) + 1) := by
  obtain ⟨dialect, nodes, span⟩ := f
  cases h with
  | file _ hbody =>
    apply heightAtMost_succ
    simpa only [Part.children, List.forall_mem_map, Place.levels] using hbody.heightAtMost

/-! ## §3 Scopes above a part -/

/-- A message, a oneof or an enum. -/
def Part.isScope : Part → Bool
  | node (.scope _ _ _ _) => true
  | _ => false

/-- The parts above the one that a path from `p` leads to, the uppermost first. -/
def Part.above (p : Part) (path : List Nat) : List Part :=
  (List.range path.length).filterMap fun k => p.at? (path.take k)

theorem above_cons {p c : Part} {i : Nat} (hc : p.children[i]? = some c) (path : List Nat) :
    p.above (i :: path) = p :: c.above path := by
  simp [Part.above, List.range_succ_eq_map, List.filterMap_map, Function.comp_def, Part.at?, hc]

theorem declared?_of_isScope {p : Part} (h : p.isScope = true) : p.declared? ≠ none := by
  unfold Part.isScope at h
  split at h
  · simp [Part.declared?]
  · cases h

/-- There is no scope below a name. -/
theorem not_isScope_below_ident {i : Ident} {path : List Nat} {q : Part}
    (h : (Part.ident i).at? path = some q) : ¬ q.isScope = true :=
  fun hq => declared?_of_isScope hq ((Part.Plain.ident i).declared? q (mem_subtree_of_at? h))

/-- A scope below a part that is none is below a child of it, with the same scopes above. -/
theorem exists_child_of_not_isScope {p q : Part} (hp : ¬ p.isScope = true) {path : List Nat}
    (hpath : p.at? path = some q) (hq : q.isScope = true) :
    ∃ c ∈ p.children, ∃ rest, c.at? rest = some q ∧
      (p.above path).countP Part.isScope = (c.above rest).countP Part.isScope := by
  cases path with
  | nil =>
    obtain rfl := Option.some.inj hpath
    exact absurd hq hp
  | cons i path =>
    obtain ⟨c, hc, hpath⟩ := at?_cons_eq_some.mp hpath
    refine ⟨c, List.mem_of_getElem? hc, path, hpath, ?_⟩
    rw [above_cons hc, List.countP_cons_of_neg hp]

/-- Above a scope there are fewer scopes than there is room for. -/
theorem Members.scopes_above {place : Place} {room : Nat} {ts : List Token} {ns : List Node}
    (h : Members place room ts ns) :
    ∀ n ∈ ns, ∀ path q, (Part.node n).at? path = some q → q.isScope = true →
      ((Part.node n).above path).countP Part.isScope < room := by
  induction h with
  | nil => simp
  | @leaf _ _ _ _ _ n _ _ hleaf _ ih =>
    refine List.forall_mem_cons.mpr ⟨fun path q hpath hq => ?_, ih⟩
    exfalso
    rcases mem_subtree_iff.mp (mem_subtree_of_at? hpath) with rfl | ⟨c, hc, hmem⟩
    · cases hleaf <;> cases hq
    · exact declared?_of_isScope hq (declared?_below_simple hleaf.isSimple c hc q hmem)
  | @scope _ room _ _ name _ _ _ _ _ _ _ _ _ _ ihinner ih =>
    refine List.forall_mem_cons.mpr ⟨fun path q hpath hq => ?_, ih⟩
    cases path with
    | nil => exact Nat.succ_pos room
    | cons i path =>
      obtain ⟨c, hc, hpath⟩ := at?_cons_eq_some.mp hpath
      rw [above_cons hc, List.countP_cons_of_pos rfl]
      rcases List.mem_cons.mp (List.mem_of_getElem? hc) with rfl | hmem
      · exact absurd hq (not_isScope_below_ident hpath)
      · obtain ⟨n, hn, rfl⟩ := List.mem_map.mp hmem
        exact Nat.succ_lt_succ (ihinner n hn path q hpath hq)
  | @service _ _ _ name _ _ _ _ _ _ _ _ _ _ ihinner ih =>
    refine List.forall_mem_cons.mpr ⟨fun path q hpath hq => ?_, ih⟩
    -- neither the service nor its block is a scope
    obtain ⟨c, hc, path, hpath, hcount⟩ :=
      exists_child_of_not_isScope (by simp [Part.isScope]) hpath hq
    simp only [Part.children, Node.children, List.mem_cons, List.not_mem_nil, or_false] at hc
    rcases hc with rfl | rfl
    · exact absurd hq (not_isScope_below_ident hpath)
    · obtain ⟨d, hd, path, hpath, hcount'⟩ :=
        exists_child_of_not_isScope (by simp [Part.isScope]) hpath hq
      obtain ⟨n, hn, rfl⟩ := List.mem_map.mp hd
      rw [hcount, hcount']
      exact ihinner n hn path q hpath hq

theorem Derives.scopes_above {limit : Nat} {ts : List Token} {f : File}
    (h : Derives limit ts f.declarations) {path : List Nat} {q : Part}
    (hpath : (Part.file f).at? path = some q) (hq : q.isScope = true) :
    ((Part.file f).above path).countP Part.isScope < limit := by
  obtain ⟨dialect, nodes, span⟩ := f
  cases h with
  | file _ hbody =>
    obtain ⟨c, hc, path, hpath, hcount⟩ :=
      exists_child_of_not_isScope (by simp [Part.isScope]) hpath hq
    obtain ⟨n, hn, rfl⟩ := List.mem_map.mp hc
    rw [hcount]
    exact hbody.scopes_above n hn path q hpath hq

/-! ## §4 Walks -/

theorem Bracketed.length_exits {α : Type} {w : List (Call α)} (h : Bracketed w) :
    (exits w).length = (entries w).length := by
  induction h with
  | nil => rfl
  | pair _ _ ihinner ih =>
    simp only [exits_enter, exits_append, exits_leave, entries_enter, entries_append,
      entries_leave, List.length_append, List.length_cons, ihinner, ih]
    omega

/-- When a part is entered, as many are open as the path to it is long: by induction on the tour,
parts beside each other being equally far down. -/
theorem Tours.length_entries {xs : List Spot} {w : List (Call Spot)} (h : Tours xs w) {d : Nat}
    (hd : ∀ x ∈ xs, x.path.length = d) {pre post : List (Call Spot)} {x : Spot} {answer : Bool}
    (hw : w = pre ++ .enter x answer :: post) :
    (entries pre).length + d = (exits pre).length + x.path.length := by
  induction h generalizing d pre post with
  | nil => simp at hw
  | @declined y ys w _ ih =>
    obtain ⟨hy, hys⟩ := List.forall_mem_cons.mp hd
    rcases List.cons_eq_append_iff.mp hw with ⟨rfl, hcall⟩ | ⟨rest, rfl, hrest⟩
    · obtain rfl : x = y := (Call.enter.inj (List.cons.inj hcall).1).1
      simp [hy]
    · rcases List.cons_eq_append_iff.mp hrest with ⟨-, hcall⟩ | ⟨rest, rfl, hmore⟩
      · cases (List.cons.inj hcall).1
      · have := ih hys hmore
        simp only [entries_enter, entries_leave, exits_enter, exits_leave, List.length_cons]
        omega
  | @accepted y ys w w' hinner _ ihinner ih =>
    obtain ⟨hy, hys⟩ := List.forall_mem_cons.mp hd
    rcases List.cons_eq_append_iff.mp hw with ⟨rfl, hcall⟩ | ⟨rest, rfl, hrest⟩
    · obtain rfl : x = y := (Call.enter.inj (List.cons.inj hcall).1).1
      simp [hy]
    · have hchildren : ∀ c ∈ y.children, c.path.length = d + 1 := by
        intro c hc
        obtain ⟨i, -, hpath⟩ := mem_children_iff.mp hc
        rw [hpath, List.length_append, List.length_singleton, hy]
      rcases List.append_eq_append_iff.mp hrest with ⟨front, rfl, hfront⟩ | ⟨back, hinside, hback⟩
      · -- all calls for the children come before
        rcases List.cons_eq_append_iff.mp hfront with ⟨-, hcall⟩ | ⟨front, rfl, hmore⟩
        · cases (List.cons.inj hcall).1
        · have := ih hys hmore
          have := hinner.bracketed.length_exits
          simp only [entries_enter, entries_append, entries_leave, exits_enter, exits_append,
            exits_leave, List.length_cons, List.length_append]
          omega
      · rcases List.cons_eq_append_iff.mp hback with ⟨rfl, hcall⟩ | ⟨back, rfl, -⟩
        · cases (List.cons.inj hcall).1
        · have := ihinner hchildren hinside
          simp only [entries_enter, exits_enter, List.length_cons]
          omega

theorem entries_map {α β : Type} (f : α → β) (w : List (Call α)) :
    entries (w.map (Call.map f)) = (entries w).map f := by
  induction w with
  | nil => rfl
  | cons call w ih => cases call <;> simp [Call.map, ih]

theorem exits_map {α β : Type} (f : α → β) (w : List (Call α)) :
    exits (w.map (Call.map f)) = (exits w).map f := by
  induction w with
  | nil => rfl
  | cons call w ih => cases call <;> simp [Call.map, ih]

/-- A walk from a part never has more parts open than the part has levels. -/
theorem Part.HeightAtMost.walk {σ : Type} {p : Part} {n : Nat} (h : p.HeightAtMost n)
    (v : Visitor σ) (s : σ) {pre post : List (Call Part)} {q : Part} {answer : Bool}
    (hcalls : (ProtoSchema.walk v.noting p (s, [])).2 = pre ++ .enter q answer :: post) :
    (entries pre).length < (exits pre).length + n := by
  obtain ⟨w, hw, hwalk⟩ := exists_tours v ⟨[], p⟩ s []
  rw [hwalk, List.nil_append] at hcalls
  obtain ⟨front, back, rfl, rfl, hback⟩ := List.map_eq_append_iff.mp hcalls
  obtain ⟨call, back, rfl, hcall, rfl⟩ := List.map_eq_cons_iff.mp hback
  cases call with
  | leave => cases hcall
  | enter x answer' =>
    have hlength := hw.length_entries (d := 0) (by simp) rfl
    have hheight := h x.path x.part (has_iff.mp (hw.has x (by simp)))
    rw [entries_map, exits_map, List.length_map, List.length_map]
    omega

/-- However long the text of a file is, a walk that starts at any part of it has at most 104 parts
open, the one that it enters included, whatever the visitor does; and above a message, a oneof or an
enum there are at most 99 others. -/
theorem walk_depth {source : String} {f : File} (h : (parseText source).value = .ok f) :
    (∀ p ∈ (Part.file f).subtree, ∀ {σ : Type} (v : Visitor σ) (s : σ),
      (walk v.noting p (s, [])).1 = walk v p s ∧
        ∀ pre q answer post, (walk v.noting p (s, [])).2 = pre ++ .enter q answer :: post →
          (entries pre).length + 1 ≤ (exits pre).length + 104) ∧
    ∀ path q, (Part.file f).at? path = some q → q.isScope = true →
      ((Part.file f).above path).countP Part.isScope ≤ 99 := by
  obtain ⟨before, last, -, -, hderives, -⟩ := parseText_eq_ok_iff.mp h
  refine ⟨fun p hp σ v s => ⟨?_, fun pre q answer post hcalls => ?_⟩, fun path q hpath hq => ?_⟩
  · obtain ⟨w, -, hwalk⟩ := exists_tours v ⟨[], p⟩ s []
    exact congrArg Prod.fst hwalk
  · exact (hderives.heightAtMost.of_mem_subtree hp).walk v s hcalls
  · exact Nat.le_of_lt_succ (hderives.scopes_above hpath hq)

/-- The enum stands in one message. -/
theorem nestedEnumFile_walk_depth :
    (∀ pre q answer post,
      (walk (Visitor.collect fun _ => true).noting (.file nestedEnumFile) ([], [])).2 =
          pre ++ .enter q answer :: post →
        (entries pre).length + 1 ≤ (exits pre).length + 104) ∧
      ((Part.file nestedEnumFile).above [0, 1]).countP Part.isScope = 1 ∧
      ((Part.file nestedEnumFile).above [0, 1]).countP Part.isScope ≤ 99 := by
  obtain ⟨hwalk, hscopes⟩ := walk_depth
    (show (parseText "syntax=\"proto3\";message m\x7benum e\x7ba=0;\x7d\x7d").value =
      .ok nestedEnumFile by decide +kernel)
  exact ⟨(hwalk _ (mem_subtree_iff.mpr (.inl rfl)) _ []).2, rfl, hscopes [0, 1] _ rfl rfl⟩

end ProtoSchema
