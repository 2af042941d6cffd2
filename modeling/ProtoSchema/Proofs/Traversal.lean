import ProtoSchema.Proofs.Nesting

/-!
# What a visitor is told

A visitor may build up any state and answer by it.  Whatever it does, the calls that a walk makes
are a tour of the tree (`Tour`): they nest like brackets, a part is entered if and only if all parts
above it said yes, and the order is that of the tree, downwards on entering and upwards on leaving
(`walk_tour`).

A visitor that notes its calls is what makes them visible (`Visitor.noting`).  It sees parts, and
equal parts may stand in several places, so the theorem finds for each call the place that it is
about (`Spot`).

* §1 which child of a part comes when, §2 calls, §3 places and tours;
* §4 the calls for several parts beside each other (`Tours`), §5 where they stand, §6 which parts
  are entered, §7 the calls of a walk.
-/

namespace ProtoSchema

variable {σ : Type}

/-! ## §1 Children -/

/-- `p.Child i c`: the part `c` comes next behind `i` others when the children of `p` are walked. -/
inductive Part.Child : Part → Nat → Part → Prop
  | declaration {f : File} {i : Nat} {n : Node} (h : f.declarations[i]? = some n) :
      Child (.file f) i (.node n)
  | modifier {d : Import} {i : Nat} {m : Ident} (h : d.modifiers[i]? = some m) :
      Child (.node (.importDecl d)) i (.ident m)
  | importPath (d : Import) : Child (.node (.importDecl d)) d.modifiers.length (.literal d.path)
  | optionName (d : OptionDecl) : Child (.node (.option d)) 0 (.ident d.name)
  | optionValue (d : OptionDecl) : Child (.node (.option d)) 1 (.literal d.value)
  | scopeName (kind : Scope) (name : Ident) (members : List Node) (span : Span) :
      Child (.node (.scope kind name members span)) 0 (.ident name)
  | member (kind : Scope) (name : Ident) {members : List Node} (span : Span) {i : Nat} {n : Node}
      (h : members[i]? = some n) : Child (.node (.scope kind name members span)) (i + 1) (.node n)
  | fieldName (d : Field) : Child (.node (.field d)) 0 (.ident d.name)
  | fieldNumber (d : Field) : Child (.node (.field d)) 1 (.literal d.number)
  | namedType {d : Field} {name : Ident} (h : d.type = .named name) :
      Child (.node (.field d)) 2 (.ident name)
  | mapType {d : Field} {type : MapType} (h : d.type = .map type) :
      Child (.node (.field d)) 2 (.mapType type)
  | repeated {d : Field} {word : Ident} (h : d.repeated = some word) :
      Child (.node (.field d)) 3 (.ident word)
  | mapKey (m : MapType) : Child (.mapType m) 0 (.ident m.key)
  | mapValue (m : MapType) : Child (.mapType m) 1 (.ident m.value)
  | enumFieldName (d : EnumField) : Child (.node (.enumField d)) 0 (.ident d.name)
  | serviceName (name : Ident) (opening : Nat) (statements : List Node) (closing : Nat)
      (span : Span) : Child (.node (.service name opening statements closing span)) 0 (.ident name)
  | serviceBlock (name : Ident) (opening : Nat) (statements : List Node) (closing : Nat)
      (span : Span) :
      Child (.node (.service name opening statements closing span)) 1
        (.block opening statements closing)
  | statement (opening : Nat) {statements : List Node} (closing : Nat) {i : Nat} {n : Node}
      (h : statements[i]? = some n) : Child (.block opening statements closing) i (.node n)
  | rpcName (d : Rpc) : Child (.node (.rpc d)) 0 (.ident d.name)
  | rpcInput (d : Rpc) : Child (.node (.rpc d)) 1 (.ident d.input)
  | rpcOutput (d : Rpc) : Child (.node (.rpc d)) 2 (.ident d.output)

theorem child_of_node {n : Node} {c : Part} {i : Nat} (h : n.children[i]? = some c) :
    (Part.node n).Child i c := by
  cases n with
  | package | empty => cases h
  | importDecl d =>
    rw [Node.children, List.getElem?_append, List.length_map] at h
    split at h
    · obtain ⟨m, hm, rfl⟩ := Option.map_eq_some_iff.mp (List.getElem?_map ▸ h)
      exact .modifier hm
    · next hi =>
      obtain ⟨hlast, rfl⟩ := List.getElem?_eq_some_iff.mp h
      obtain rfl : i = d.modifiers.length := by simp at hlast; omega
      simpa using Part.Child.importPath d
  | option d =>
    rcases i with _ | _ | i <;> cases h
    · exact .optionName d
    · exact .optionValue d
  | scope kind name members span =>
    rcases i with _ | i
    · cases h
      exact .scopeName kind name members span
    · obtain ⟨n, hn, rfl⟩ := Option.map_eq_some_iff.mp (List.getElem?_map ▸ h)
      exact .member kind name span hn
  | field d =>
    obtain ⟨name, number, type, repeated, span⟩ := d
    rcases i with _ | _ | _ | i
    · cases h
      exact .fieldName _
    · cases h
      exact .fieldNumber _
    · cases type <;> cases h
      · exact .namedType rfl
      · exact .mapType rfl
    · cases repeated with
      | none => cases h
      | some word =>
        rcases i with _ | i <;> cases h
        exact .repeated rfl
  | enumField d =>
    rcases i with _ | i <;> cases h
    exact .enumFieldName d
  | service name opening statements closing span =>
    rcases i with _ | _ | i <;> cases h
    · exact .serviceName name opening statements closing span
    · exact .serviceBlock name opening statements closing span
  | rpc d =>
    rcases i with _ | _ | _ | i <;> cases h
    · exact .rpcName d
    · exact .rpcInput d
    · exact .rpcOutput d

/-- The table of children is the order in which a walk takes them. -/
theorem child_iff {p c : Part} {i : Nat} : p.Child i c ↔ p.children[i]? = some c := by
  constructor
  · intro h
    cases h with
    | declaration h | member _ _ _ h | statement _ _ h => simp [Part.children, Node.children, h]
    | @modifier d i m h =>
      obtain ⟨hi, rfl⟩ := List.getElem?_eq_some_iff.mp h
      simp [Part.children, Node.children, List.getElem?_append_left, hi]
    | importPath d => simp [Part.children, Node.children]
    | namedType h | mapType h => simp [Part.children, Node.children, FieldType.part, h]
    | repeated h => simp [Part.children, Node.children, h]
    | _ => rfl
  · intro h
    cases p with
    | ident | literal => cases h
    | file f =>
      obtain ⟨n, hn, rfl⟩ := Option.map_eq_some_iff.mp (List.getElem?_map ▸ h)
      exact .declaration hn
    | block opening statements closing =>
      obtain ⟨n, hn, rfl⟩ := Option.map_eq_some_iff.mp (List.getElem?_map ▸ h)
      exact .statement opening closing hn
    | mapType m =>
      rcases i with _ | _ | i <;> cases h
      · exact .mapKey m
      · exact .mapValue m
    | node n => exact child_of_node h

/-- The part `q` stands below `p`, or is `p`, and a path leads there. -/
inductive Part.Has : Part → List Nat → Part → Prop
  | self (p : Part) : Has p [] p
  | down {p c q : Part} {i : Nat} {path : List Nat} (hchild : p.Child i c)
      (hrest : c.Has path q) : p.Has (i :: path) q

theorem has_iff {p q : Part} {path : List Nat} : p.Has path q ↔ p.at? path = some q := by
  constructor
  · intro h
    induction h with
    | self => rfl
    | down hchild _ ih => exact at?_cons_eq_some.mpr ⟨_, child_iff.mp hchild, ih⟩
  · intro h
    induction path generalizing p with
    | nil =>
      cases h
      exact .self _
    | cons i path ih =>
      obtain ⟨c, hc, hq⟩ := at?_cons_eq_some.mp h
      exact .down (child_iff.mpr hc) (ih hq)

/-! ## §2 Calls -/

/-- What a visitor is told: it enters something, and answers whether to go down, or it leaves. -/
inductive Call (α : Type) where
  | enter (what : α) (answer : Bool)
  | leave (what : α)

namespace Call

variable {α β : Type}

def map (f : α → β) : Call α → Call β
  | enter a answer => .enter (f a) answer
  | leave a => .leave (f a)

def entered? : Call α → Option α
  | enter a _ => some a
  | leave _ => none

def left? : Call α → Option α
  | enter _ _ => none
  | leave a => some a

end Call

/-- What is entered, in the order of the calls. -/
def entries {α : Type} (w : List (Call α)) : List α := w.filterMap Call.entered?

/-- What is left, in the order of the calls. -/
def exits {α : Type} (w : List (Call α)) : List α := w.filterMap Call.left?

/-- The visitor `v`, which notes its calls, the latest last. -/
def Visitor.noting (v : Visitor σ) : Visitor (σ × List (Call Part)) where
  enter p s := ((v.enter p s.1).1, (v.enter p s.1).2, s.2 ++ [.enter p (v.enter p s.1).1])
  leave p s := (v.leave p s.1, s.2 ++ [.leave p])

@[simp] theorem Visitor.enter_noting (v : Visitor σ) (p : Part) (s : σ) (past : List (Call Part)) :
    v.noting.enter p (s, past) =
      ((v.enter p s).1, (v.enter p s).2, past ++ [.enter p (v.enter p s).1]) := rfl

@[simp] theorem Visitor.leave_noting (v : Visitor σ) (p : Part) (s : σ) (past : List (Call Part)) :
    v.noting.leave p (s, past) = (v.leave p s, past ++ [.leave p]) := rfl

/-! ## §3 Tours -/

/-- A part, and the path to it. -/
structure Spot where
  path : List Nat
  part : Part

namespace Spot

/-- `x` stands above `y`, its parent or further up. -/
def IsAbove (x y : Spot) : Prop := x.path <+: y.path ∧ x.path ≠ y.path

/-- Somewhere, `x` stands in or below an earlier child than `y`. -/
def IsLeftOf (x y : Spot) : Prop :=
  ∃ path i j, i < j ∧ path ++ [i] <+: x.path ∧ path ++ [j] <+: y.path

end Spot

/-- Calls that nest like brackets: what is entered is left, and between the two there are only
calls that do so too. -/
inductive Bracketed {α : Type} : List (Call α) → Prop
  | nil : Bracketed []
  | pair {a : α} {answer : Bool} {w w' : List (Call α)} (hinner : Bracketed w)
      (hrest : Bracketed w') : Bracketed (.enter a answer :: (w ++ .leave a :: w'))

/-- The calls `w` are a walk from `p`. -/
structure Tour (p : Part) (w : List (Call Spot)) : Prop where
  bracketed : Bracketed w
  /-- Nothing is entered but parts of the tree, where they stand. -/
  has : ∀ x ∈ entries w, p.Has x.path x.part
  entered_once : (entries w).Nodup
  /-- What is entered is left once, later on, and at once if the answer was no. -/
  left_once : ∀ x answer, .enter x answer ∈ w → ∃ before inner after,
    w = before ++ .enter x answer :: (inner ++ .leave x :: after) ∧
      x ∉ exits before ++ exits inner ++ exits after ∧ (answer = false → inner = [])
  /-- A part is entered if and only if all parts above it were, and answered yes. -/
  entered_iff : ∀ x : Spot, p.Has x.path x.part →
    (x ∈ entries w ↔ ∀ y : Spot, p.Has y.path y.part → y.IsAbove x → .enter y true ∈ w)
  preorder : (entries w).Pairwise fun x y => x.IsAbove y ∨ x.IsLeftOf y
  postorder : (exits w).Pairwise fun x y => y.IsAbove x ∨ x.IsLeftOf y

/-! ## §4 Parts beside each other -/

def Spot.children (x : Spot) : List Spot := x.part.children.mapIdx fun i c => ⟨x.path ++ [i], c⟩

theorem mem_children_iff {x y : Spot} :
    y ∈ x.children ↔ ∃ i, x.part.Child i y.part ∧ y.path = x.path ++ [i] := by
  obtain ⟨path, part⟩ := y
  simp only [Spot.children, List.mem_mapIdx, child_iff, Spot.mk.injEq]
  constructor
  · rintro ⟨i, hi, rfl, rfl⟩
    exact ⟨i, List.getElem?_eq_getElem hi, rfl⟩
  · rintro ⟨i, hchild, rfl⟩
    obtain ⟨hi, rfl⟩ := List.getElem?_eq_some_iff.mp hchild
    exact ⟨i, hi, rfl, rfl⟩

theorem map_part_children (x : Spot) : x.children.map Spot.part = x.part.children := by
  apply List.ext_getElem?
  intro i
  rw [Spot.children, List.getElem?_map, List.getElem?_mapIdx, Option.map_map]
  exact Option.map_id_apply

/-- The calls for parts beside each other, each of which is left at once or has the calls for its
children between entering and leaving. -/
inductive Tours : List Spot → List (Call Spot) → Prop
  | nil : Tours [] []
  | declined {x : Spot} {xs : List Spot} {w : List (Call Spot)} (hrest : Tours xs w) :
      Tours (x :: xs) (.enter x false :: .leave x :: w)
  | accepted {x : Spot} {xs : List Spot} {w w' : List (Call Spot)} (hinner : Tours x.children w)
      (hrest : Tours xs w') : Tours (x :: xs) (.enter x true :: (w ++ .leave x :: w'))

theorem Tours.append {xs ys : List Spot} {w w' : List (Call Spot)} (h : Tours xs w)
    (h' : Tours ys w') : Tours (xs ++ ys) (w ++ w') := by
  induction h with
  | nil => exact h'
  | declined _ ih => exact .declined ih
  | accepted hinner _ _ ih =>
    have hmore := Tours.accepted hinner ih
    simpa using hmore

theorem Tours.bracketed {xs : List Spot} {w : List (Call Spot)} (h : Tours xs w) :
    Bracketed w := by
  induction h with
  | nil => exact .nil
  | declined _ ih => exact .pair .nil ih
  | accepted _ _ ihinner ih => exact .pair ihinner ih

@[simp] theorem entries_nil {α : Type} : entries ([] : List (Call α)) = [] := rfl

@[simp] theorem entries_enter {α : Type} (a : α) (answer : Bool) (w : List (Call α)) :
    entries (.enter a answer :: w) = a :: entries w := rfl

@[simp] theorem entries_leave {α : Type} (a : α) (w : List (Call α)) :
    entries (.leave a :: w) = entries w := rfl

@[simp] theorem entries_append {α : Type} (w w' : List (Call α)) :
    entries (w ++ w') = entries w ++ entries w' := List.filterMap_append

@[simp] theorem exits_nil {α : Type} : exits ([] : List (Call α)) = [] := rfl

@[simp] theorem exits_enter {α : Type} (a : α) (answer : Bool) (w : List (Call α)) :
    exits (.enter a answer :: w) = exits w := rfl

@[simp] theorem exits_leave {α : Type} (a : α) (w : List (Call α)) :
    exits (.leave a :: w) = a :: exits w := rfl

@[simp] theorem exits_append {α : Type} (w w' : List (Call α)) :
    exits (w ++ w') = exits w ++ exits w' := List.filterMap_append

/-- Bracketed calls leave what they enter. -/
theorem Bracketed.mem_exits_iff {α : Type} {w : List (Call α)} (h : Bracketed w) {a : α} :
    a ∈ exits w ↔ a ∈ entries w := by
  induction h with
  | nil => rfl
  | pair _ _ ihinner ih =>
    simp only [exits_enter, exits_append, exits_leave, entries_enter, entries_append,
      entries_leave, List.mem_append, List.mem_cons, ihinner, ih]
    exact or_left_comm

/-! ## §5 Where the calls stand -/

/-- `y` is `x`, or stands below it. -/
def Spot.Covers (x y : Spot) : Prop := ∃ ext, x.part.Has ext y.part ∧ y.path = x.path ++ ext

theorem Spot.covers_self (x : Spot) : x.Covers x := ⟨[], .self _, by simp⟩

theorem Spot.Covers.of_child {x c y : Spot} (hc : c ∈ x.children) (h : c.Covers y) :
    x.Covers y := by
  obtain ⟨i, hchild, hpath⟩ := mem_children_iff.mp hc
  obtain ⟨ext, hext, hy⟩ := h
  exact ⟨i :: ext, .down hchild hext, by rw [hy, hpath]; simp⟩

theorem Spot.Covers.isAbove_of_child {x c y : Spot} (hc : c ∈ x.children) (h : c.Covers y) :
    x.IsAbove y := by
  obtain ⟨i, -, hpath⟩ := mem_children_iff.mp hc
  obtain ⟨ext, -, hy⟩ := h
  rw [hpath, List.append_assoc] at hy
  refine ⟨⟨_, hy.symm⟩, fun h => ?_⟩
  rw [← h] at hy
  simp at hy

theorem Spot.IsLeftOf.of_covers {x y x' y' : Spot} (h : x.IsLeftOf y) (hx : x.Covers x')
    (hy : y.Covers y') : x'.IsLeftOf y' := by
  obtain ⟨path, i, j, hij, hi, hj⟩ := h
  obtain ⟨ext, -, hx⟩ := hx
  obtain ⟨ext', -, hy⟩ := hy
  refine ⟨path, i, j, hij, ?_, ?_⟩
  · rw [hx]
    exact hi.trans (List.prefix_append _ _)
  · rw [hy]
    exact hj.trans (List.prefix_append _ _)

theorem Spot.not_isLeftOf_self (x : Spot) : ¬ x.IsLeftOf x := by
  rintro ⟨path, i, j, hij, hi, hj⟩
  -- both numbers stand behind `path` in the same path
  have heq := (List.prefix_of_prefix_length_le hi hj (by simp)).eq_of_length (by simp)
  simp only [List.append_cancel_left_eq, List.cons.injEq, and_true] at heq
  omega

theorem isLeftOf_children (x : Spot) : x.children.Pairwise Spot.IsLeftOf := by
  rw [List.pairwise_iff_getElem]
  intro i j hi hj hij
  simp only [Spot.children, List.getElem_mapIdx]
  exact ⟨x.path, i, j, hij, List.prefix_rfl, List.prefix_rfl⟩

section

variable {x y z : Spot} {xs : List Spot} {w : List (Call Spot)}

/-- What is entered stands below one of the parts. -/
theorem Tours.exists_covers (h : Tours xs w) : ∀ y ∈ entries w, ∃ x ∈ xs, x.Covers y := by
  induction h with
  | nil => simp
  | @declined x xs w _ ih =>
    simp only [entries_enter, entries_leave, List.forall_mem_cons]
    refine ⟨⟨x, List.mem_cons_self, x.covers_self⟩, fun y hy => ?_⟩
    obtain ⟨x', hx', hcovers⟩ := ih y hy
    exact ⟨x', List.mem_cons_of_mem x hx', hcovers⟩
  | @accepted x xs w w' _ _ ihinner ih =>
    simp only [entries_enter, entries_append, entries_leave, List.forall_mem_cons,
      List.forall_mem_append]
    refine ⟨⟨x, List.mem_cons_self, x.covers_self⟩, fun y hy => ?_, fun y hy => ?_⟩
    · obtain ⟨c, hc, hcovers⟩ := ihinner y hy
      exact ⟨x, List.mem_cons_self, hcovers.of_child hc⟩
    · obtain ⟨x', hx', hcovers⟩ := ih y hy
      exact ⟨x', List.mem_cons_of_mem x hx', hcovers⟩

theorem Tours.all_below (h : Tours x.children w) : ∀ y ∈ entries w, x.IsAbove y ∧ x.Covers y := by
  intro y hy
  obtain ⟨c, hc, hcovers⟩ := h.exists_covers y hy
  exact ⟨hcovers.isAbove_of_child hc, hcovers.of_child hc⟩

theorem Tours.isLeftOf (h : Tours xs w) (hx : ∀ y ∈ xs, x.IsLeftOf y) (hz : x.Covers z) :
    ∀ y ∈ entries w, z.IsLeftOf y := by
  intro y hy
  obtain ⟨x', hx', hcovers⟩ := h.exists_covers y hy
  exact (hx x' hx').of_covers hz hcovers

/-- Parts are entered from left to right, and each before those below it. -/
theorem Tours.preorder (h : Tours xs w) (hxs : xs.Pairwise Spot.IsLeftOf) :
    (entries w).Pairwise fun x y => x.IsAbove y ∨ x.IsLeftOf y := by
  induction h with
  | nil => exact .nil
  | @declined x xs w hrest ih =>
    obtain ⟨hx, hxs⟩ := List.pairwise_cons.mp hxs
    simp only [entries_enter, entries_leave, List.pairwise_cons]
    exact ⟨fun y hy => .inr (hrest.isLeftOf hx x.covers_self y hy), ih hxs⟩
  | @accepted x xs w w' hinner hrest ihinner ih =>
    obtain ⟨hx, hxs⟩ := List.pairwise_cons.mp hxs
    simp only [entries_enter, entries_append, entries_leave, List.pairwise_cons,
      List.pairwise_append, List.forall_mem_append]
    refine ⟨⟨?_, ?_⟩, ihinner (isLeftOf_children x), ih hxs, ?_⟩
    · exact fun y hy => .inl (hinner.all_below y hy).1
    · exact fun y hy => .inr (hrest.isLeftOf hx x.covers_self y hy)
    · exact fun z hz y hy => .inr (hrest.isLeftOf hx (hinner.all_below z hz).2 y hy)

/-- Parts are left from left to right, and each after those below it. -/
theorem Tours.postorder (h : Tours xs w) (hxs : xs.Pairwise Spot.IsLeftOf) :
    (exits w).Pairwise fun x y => y.IsAbove x ∨ x.IsLeftOf y := by
  induction h with
  | nil => exact .nil
  | @declined x xs w hrest ih =>
    obtain ⟨hx, hxs⟩ := List.pairwise_cons.mp hxs
    simp only [exits_enter, exits_leave, List.pairwise_cons, hrest.bracketed.mem_exits_iff]
    exact ⟨fun y hy => .inr (hrest.isLeftOf hx x.covers_self y hy), ih hxs⟩
  | @accepted x xs w w' hinner hrest ihinner ih =>
    obtain ⟨hx, hxs⟩ := List.pairwise_cons.mp hxs
    simp only [exits_enter, exits_append, exits_leave, List.pairwise_append, List.pairwise_cons,
      List.forall_mem_cons, hinner.bracketed.mem_exits_iff, hrest.bracketed.mem_exits_iff]
    refine ⟨ihinner (isLeftOf_children x), ⟨?_, ih hxs⟩, fun z hz => ⟨?_, ?_⟩⟩
    · exact fun y hy => .inr (hrest.isLeftOf hx x.covers_self y hy)
    · exact .inl (hinner.all_below z hz).1
    · exact fun y hy => .inr (hrest.isLeftOf hx (hinner.all_below z hz).2 y hy)

/-! ## §6 Which parts are entered -/

theorem mem_entries_of_enter {α : Type} {w : List (Call α)} {a : α} {answer : Bool}
    (h : .enter a answer ∈ w) : a ∈ entries w :=
  List.mem_filterMap.mpr ⟨_, h, rfl⟩

/-- The parts beside each other are entered. -/
theorem Tours.entered (h : Tours xs w) : ∀ x ∈ xs, x ∈ entries w := by
  induction h with
  | nil => simp
  | declined _ ih =>
    simp only [entries_enter, entries_leave]
    exact List.forall_mem_cons.mpr
      ⟨List.mem_cons_self, fun y hy => List.mem_cons_of_mem _ (ih y hy)⟩
  | accepted _ _ _ ih =>
    simp only [entries_enter, entries_append, entries_leave]
    refine List.forall_mem_cons.mpr ⟨List.mem_cons_self, fun y hy => List.mem_cons_of_mem _ ?_⟩
    exact List.mem_append_right _ (ih y hy)

/-- A yes brings in the children. -/
theorem Tours.entered_children (h : Tours xs w) (hx : .enter x true ∈ w) :
    ∀ c ∈ x.children, c ∈ entries w := by
  induction h with
  | nil => cases hx
  | declined _ ih =>
    simp only [List.mem_cons, Call.enter.injEq, reduceCtorEq, and_false, false_or] at hx
    intro c hc
    exact List.mem_cons_of_mem _ (ih hx c hc)
  | accepted hinner _ ihinner ih =>
    simp only [List.mem_cons, List.mem_append, Call.enter.injEq, and_true, reduceCtorEq,
      false_or] at hx
    simp only [entries_enter, entries_append, entries_leave, List.mem_cons, List.mem_append]
    intro c hc
    rcases hx with rfl | hx | hx
    · exact .inr (.inl (hinner.entered c hc))
    · exact .inr (.inl (ihinner hx c hc))
    · exact .inr (.inr (ih hx c hc))

/-- What is entered is one of the parts beside each other, or its parent said yes. -/
theorem Tours.exists_parent (h : Tours xs w) (hy : y ∈ entries w) :
    y ∈ xs ∨ ∃ x, .enter x true ∈ w ∧ y ∈ x.children := by
  induction h with
  | nil => cases hy
  | declined _ ih =>
    simp only [entries_enter, entries_leave, List.mem_cons] at hy ⊢
    rcases hy with rfl | hy
    · exact .inl (.inl rfl)
    · rcases ih hy with hy | ⟨x, hx, hy⟩
      · exact .inl (.inr hy)
      · exact .inr ⟨x, .inr (.inr hx), hy⟩
  | @accepted x xs w w' _ _ ihinner ih =>
    simp only [entries_enter, entries_append, entries_leave, List.mem_cons, List.mem_append]
      at hy ⊢
    rcases hy with rfl | hy | hy
    · exact .inl (.inl rfl)
    · rcases ihinner hy with hy | ⟨z, hz, hy⟩
      · exact .inr ⟨x, .inl rfl, hy⟩
      · exact .inr ⟨z, .inr (.inl hz), hy⟩
    · rcases ih hy with hy | ⟨z, hz, hy⟩
      · exact .inl (.inr hy)
      · exact .inr ⟨z, .inr (.inr (.inr hz)), hy⟩

/-- What is entered is left later on, at once if the answer was no. -/
theorem Tours.exists_exit (h : Tours xs w) {answer : Bool} (hx : .enter x answer ∈ w) :
    ∃ before inner after, w = before ++ .enter x answer :: (inner ++ .leave x :: after) ∧
      (answer = false → inner = []) := by
  induction h with
  | nil => cases hx
  | @declined z _ w _ ih =>
    simp only [List.mem_cons, Call.enter.injEq, reduceCtorEq, false_or] at hx
    rcases hx with ⟨rfl, rfl⟩ | hx
    · exact ⟨[], [], w, rfl, fun _ => rfl⟩
    · obtain ⟨before, inner, after, rfl, hno⟩ := ih hx
      exact ⟨.enter z false :: .leave z :: before, inner, after, rfl, hno⟩
  | @accepted z _ w w' _ _ ihinner ih =>
    simp only [List.mem_cons, List.mem_append, Call.enter.injEq, reduceCtorEq, false_or] at hx
    rcases hx with ⟨rfl, rfl⟩ | hx | hx
    · exact ⟨[], w, w', rfl, nofun⟩
    · obtain ⟨before, inner, after, rfl, hno⟩ := ihinner hx
      exact ⟨.enter z true :: before, inner, after ++ .leave z :: w', by simp, hno⟩
    · obtain ⟨before, inner, after, rfl, hno⟩ := ih hx
      exact ⟨.enter z true :: (w ++ .leave z :: before), inner, after, by simp, hno⟩

end

/-! ## §7 Walks -/

theorem has_append {p q : Part} {path ext : List Nat} :
    p.Has (path ++ ext) q ↔ ∃ m, p.Has path m ∧ m.Has ext q := by
  simp only [has_iff]
  exact at?_append

theorem Tours.has {p : Part} {w : List (Call Spot)} (h : Tours [⟨[], p⟩] w) :
    ∀ x ∈ entries w, p.Has x.path x.part := by
  intro x hx
  obtain ⟨_, hroot, ext, hext, hpath⟩ := h.exists_covers x hx
  obtain rfl := List.mem_singleton.mp hroot
  rw [hpath]
  exact hext

/-- A path leads to one part. -/
theorem eq_of_path_eq {p : Part} {x y : Spot} (hx : p.Has x.path x.part)
    (hy : p.Has y.path y.part) (h : x.path = y.path) : x = y := by
  obtain ⟨path, part⟩ := x
  obtain ⟨path', part'⟩ := y
  obtain rfl : path = path' := h
  obtain rfl : part = part' := Option.some.inj ((has_iff.mp hx).symm.trans (has_iff.mp hy))
  rfl

/-- Where a part was entered, all parts above it said yes: by induction on the path to it, the
parent first. -/
theorem Tours.enter_above {p : Part} {w : List (Call Spot)} (h : Tours [⟨[], p⟩] w) {x y : Spot}
    (hx : x ∈ entries w) (hy : p.Has y.path y.part) (habove : y.IsAbove x) :
    .enter y true ∈ w := by
  induction hn : x.path.length using Nat.strongRecOn generalizing x with
  | ind n ih =>
    obtain ⟨hle, hne⟩ := habove
    rcases h.exists_parent hx with hroot | ⟨z, hz, hchild⟩
    · obtain rfl := List.mem_singleton.mp hroot
      exact absurd (List.prefix_nil.mp hle) hne
    · obtain ⟨i, -, hpath⟩ := mem_children_iff.mp hchild
      have hzmem := mem_entries_of_enter hz
      -- `y` is the parent of `x`, or above it
      rw [hpath, List.prefix_concat_iff] at hle
      rcases hle with heq | hle
      · exact absurd (heq.trans hpath.symm) hne
      · by_cases heq : y.path = z.path
        · obtain rfl := eq_of_path_eq hy (h.has z hzmem) heq
          exact hz
        · exact ih z.path.length (by simp [← hn, hpath]) hzmem ⟨hle, heq⟩ rfl

/-- Where all parts above a part said yes, it is entered: its parent did. -/
theorem Tours.mem_entries {p : Part} {w : List (Call Spot)} (h : Tours [⟨[], p⟩] w) {x : Spot}
    (hx : p.Has x.path x.part)
    (habove : ∀ y : Spot, p.Has y.path y.part → y.IsAbove x → .enter y true ∈ w) :
    x ∈ entries w := by
  obtain ⟨path, q⟩ := x
  rcases List.eq_nil_or_concat path with rfl | ⟨path, i, rfl⟩
  · cases hx
    exact h.entered _ (by simp)
  · rw [List.concat_eq_append] at hx habove ⊢
    obtain ⟨m, hm, hq⟩ := has_append.mp hx
    cases hq with
    | down hchild hself =>
      cases hself
      refine h.entered_children (habove ⟨path, m⟩ hm ?_) _ (mem_children_iff.mpr ⟨i, hchild, rfl⟩)
      exact ⟨List.prefix_append _ _, by simp⟩

theorem Tours.tour {p : Part} {w : List (Call Spot)} (h : Tours [⟨[], p⟩] w) : Tour p w := by
  have hroot : [(⟨[], p⟩ : Spot)].Pairwise Spot.IsLeftOf := List.pairwise_singleton _ _
  have hpre := h.preorder hroot
  have hpost := h.postorder hroot
  constructor
  case bracketed => exact h.bracketed
  case has => exact h.has
  case preorder => exact hpre
  case postorder => exact hpost
  case entered_once =>
    refine hpre.imp ?_
    rintro x y (habove | hleft) rfl
    · exact habove.2 rfl
    · exact x.not_isLeftOf_self hleft
  case entered_iff =>
    exact fun x hx => ⟨fun hmem y hy => h.enter_above hmem hy, h.mem_entries hx⟩
  case left_once =>
    intro x answer hx
    obtain ⟨before, inner, after, rfl, hno⟩ := h.exists_exit hx
    refine ⟨before, inner, after, rfl, ?_, hno⟩
    have hnodup : (exits (before ++ .enter x answer :: (inner ++ .leave x :: after))).Nodup := by
      refine hpost.imp ?_
      rintro y z (habove | hleft) rfl
      · exact habove.2 rfl
      · exact y.not_isLeftOf_self hleft
    simp only [exits_append, exits_enter, exits_leave, ← List.append_assoc] at hnodup
    have hmiddle := (List.perm_middle.nodup_iff.mp hnodup)
    exact (List.nodup_cons.mp hmiddle).1

theorem exists_tours_of_forall (v : Visitor σ) {xs : List Spot}
    (hxs : ∀ x ∈ xs, ∀ s past, ∃ w, Tours [x] w ∧ walk v.noting x.part (s, past) =
      (walk v x.part s, past ++ w.map (Call.map Spot.part))) (s : σ) (past : List (Call Part)) :
    ∃ w, Tours xs w ∧ (xs.map Spot.part).foldl (fun s c => walk v.noting c s) (s, past) =
      ((xs.map Spot.part).foldl (fun s c => walk v c s) s, past ++ w.map (Call.map Spot.part)) := by
  induction xs generalizing s past with
  | nil => exact ⟨[], .nil, by simp⟩
  | cons x xs ih =>
    obtain ⟨hx, hxs⟩ := List.forall_mem_cons.mp hxs
    obtain ⟨w, hw, hwalk⟩ := hx s past
    obtain ⟨w', hw', hfold⟩ := ih hxs (walk v x.part s) (past ++ w.map (Call.map Spot.part))
    refine ⟨w ++ w', hw.append hw', ?_⟩
    rw [List.map_cons, List.foldl_cons, List.foldl_cons, hwalk, hfold, List.map_append,
      List.append_assoc]

/-- A walk makes the calls of a tour, and noting them changes nothing: by induction on the size of
the part. -/
theorem exists_tours (v : Visitor σ) (x : Spot) (s : σ) (past : List (Call Part)) :
    ∃ w, Tours [x] w ∧ walk v.noting x.part (s, past) =
      (walk v x.part s, past ++ w.map (Call.map Spot.part)) := by
  induction hn : sizeOf x.part using Nat.strongRecOn generalizing x s past with
  | ind n ih =>
    rw [walk_eq, walk_eq]
    by_cases hanswer : (v.enter x.part s).1 = true
    · have hchildren : ∀ c ∈ x.children, ∀ s past, ∃ w, Tours [c] w ∧
          walk v.noting c.part (s, past) =
            (walk v c.part s, past ++ w.map (Call.map Spot.part)) := by
        intro c hc s past
        have hmem : c.part ∈ x.part.children :=
          map_part_children x ▸ List.mem_map_of_mem hc
        exact ih _ (hn ▸ Part.sizeOf_lt_of_mem_children hmem) c s past rfl
      obtain ⟨w, hw, hfold⟩ := exists_tours_of_forall v hchildren (v.enter x.part s).2
        (past ++ [.enter x.part true])
      rw [map_part_children] at hfold
      refine ⟨.enter x true :: (w ++ [.leave x]), .accepted hw .nil, ?_⟩
      simp only [Visitor.enter_noting, hanswer, if_true, hfold, Visitor.leave_noting]
      simp [Call.map]
    · rw [Bool.not_eq_true] at hanswer
      refine ⟨[.enter x false, .leave x], .declined .nil, ?_⟩
      simp [hanswer, Call.map]

/-- The calls that any visitor sees, whatever its answers hang on, are a tour of the tree, and
noting them changes nothing for it. -/
theorem walk_tour (v : Visitor σ) (p : Part) (s : σ) :
    ∃ w, Tour p w ∧ walk v.noting p (s, []) = (walk v p s, w.map (Call.map Spot.part)) := by
  obtain ⟨w, hw, hwalk⟩ := exists_tours v ⟨[], p⟩ s []
  rw [List.nil_append] at hwalk
  exact ⟨w, hw.tour, hwalk⟩

end ProtoSchema
