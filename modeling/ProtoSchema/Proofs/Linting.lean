import Mathlib.Data.List.Flatten
import ProtoSchema.Linter
import ProtoSchema.Proofs.Language
import ProtoSchema.Proofs.Nesting

/-!
# What the linter reports

A rule does not look below a part of its kind if such parts never hold one another.  In a tree that
was read they do not: the members of an enum are options, enum fields and semicolons
(`Members.enum_member`).  Hence a rule finds on its walk what a walk of the whole tree would find,
and the problems of a file are those of all its parts, rule by rule (`lintTree_eq_complaints`).

* §1 patterns for names, §2 what a rule has to say about one part;
* §3 walks that leave out nothing of interest, §4 what stands below an enum;
* §5 the problems of a file.
-/

namespace ProtoSchema

/-! ## §1 Patterns -/

/-- A class of characters, given by the first and the last of each of its ranges. -/
abbrev CharClass := List (Char × Char)

def CharClass.Has (s : CharClass) (c : Char) : Prop := ∃ r ∈ s, r.1 ≤ c ∧ c ≤ r.2

/-- A pattern for a whole name: a character of one class, and then any number of another. -/
structure NamePattern where
  first : CharClass
  later : CharClass

inductive NamePattern.Matches (p : NamePattern) : List Char → Prop
  | mk {c : Char} {cs : List Char} (hfirst : p.first.Has c) (hlater : ∀ d ∈ cs, p.later.Has d) :
      Matches p (c :: cs)

/-- `[A-Z][a-zA-Z0-9]*`, `[A-Z][A-Z0-9_]*` and `[a-z][a-z0-9_]*`. -/
def NameStyle.pattern : NameStyle → NamePattern
  | camelCase => ⟨[('A', 'Z')], [('a', 'z'), ('A', 'Z'), ('0', '9')]⟩
  | allCaps => ⟨[('A', 'Z')], [('A', 'Z'), ('0', '9'), ('_', '_')]⟩
  | lowerSnakeCase => ⟨[('a', 'z')], [('a', 'z'), ('0', '9'), ('_', '_')]⟩

theorem isUpper_iff {c : Char} : c.isUpper = true ↔ 'A' ≤ c ∧ c ≤ 'Z' := by
  show decide ('A'.val ≤ c.val ∧ c.val ≤ 'Z'.val) = true ↔ _
  exact decide_eq_true_iff

theorem isLower_iff {c : Char} : c.isLower = true ↔ 'a' ≤ c ∧ c ≤ 'z' := by
  show (decide ('a'.val ≤ c.val) && decide (c.val ≤ 'z'.val)) = true ↔ _
  rw [Bool.and_eq_true_iff, decide_eq_true_iff, decide_eq_true_iff]
  exact Iff.rfl

theorem isDigit_iff {c : Char} : c.isDigit = true ↔ '0' ≤ c ∧ c ≤ '9' := by
  show (decide ('0'.val ≤ c.val) && decide (c.val ≤ '9'.val)) = true ↔ _
  rw [Bool.and_eq_true_iff, decide_eq_true_iff, decide_eq_true_iff]
  exact Iff.rfl

theorem isAlphanum_iff {c : Char} :
    c.isAlphanum = true ↔ (c.isUpper = true ∨ c.isLower = true) ∨ c.isDigit = true := by
  show ((c.isUpper || c.isLower) || c.isDigit) = true ↔ _
  rw [Bool.or_eq_true, Bool.or_eq_true]

theorem le_and_le_iff_eq {c d : Char} : d ≤ c ∧ c ≤ d ↔ c = d := by
  constructor
  · rintro ⟨h, h'⟩
    exact Char.le_antisymm h' h
  · rintro rfl
    exact ⟨Char.le_refl _, Char.le_refl _⟩

theorem allowsFirst_iff (style : NameStyle) (c : Char) :
    style.allowsFirst c = true ↔ style.pattern.first.Has c := by
  cases style <;>
    simp [NameStyle.allowsFirst, NameStyle.pattern, CharClass.Has, isUpper_iff, isLower_iff]

theorem allowsLater_iff (style : NameStyle) (c : Char) :
    style.allowsLater c = true ↔ style.pattern.later.Has c := by
  cases style <;>
    simp [NameStyle.allowsLater, NameStyle.pattern, CharClass.Has, isAlphanum_iff, isUpper_iff,
      isLower_iff, isDigit_iff, le_and_le_iff_eq, or_assoc, or_left_comm]

theorem admits_iff_matches (style : NameStyle) (name : String) :
    style.admits name = true ↔ style.pattern.Matches name.toList := by
  unfold NameStyle.admits
  cases name.toList with
  | nil => exact ⟨nofun, nofun⟩
  | cons c cs =>
    simp only [Bool.and_eq_true, List.all_eq_true, allowsFirst_iff, allowsLater_iff]
    constructor
    · rintro ⟨hfirst, hlater⟩
      exact .mk hfirst hlater
    · rintro ⟨hfirst, hlater⟩
      exact ⟨hfirst, hlater⟩

/-! ## §2 One part -/

/-- The kind of part that a rule is about. -/
def Rule.kind : Rule → PartKind
  | enumNames => .enum
  | enumFieldNames => .enumField
  | messageNames => .message
  | fieldNames => .field
  | serviceNames => .service
  | rpcNames => .rpc

/-- The pattern that a rule wants names to match. -/
def Rule.pattern : Rule → NamePattern
  | enumNames | messageNames | serviceNames | rpcNames => NameStyle.camelCase.pattern
  | enumFieldNames => NameStyle.allCaps.pattern
  | fieldNames => NameStyle.lowerSnakeCase.pattern

/-- What a rule says in front of a bad name. -/
def Rule.advice : Rule → String
  | enumNames => "enum names should be CamelCase; "
  | enumFieldNames => "enum field names should be ALL_CAPS; "
  | messageNames => "message names should be CamelCase; "
  | fieldNames => "field names should be lower_snake_case; "
  | serviceNames => "service names should be CamelCase; "
  | rpcNames => "rpc names should be CamelCase; "

/-- The name that a part declares. -/
def Part.declared? : Part → Option Ident
  | node (.scope _ name _ _) => some name
  | node (.field decl) => some decl.name
  | node (.enumField decl) => some decl.name
  | node (.service name _ _ _ _) => some name
  | node (.rpc decl) => some decl.name
  | _ => none

theorem pattern_style (r : Rule) : r.style.pattern = r.pattern := by
  cases r <;> rfl

theorem advice_append (r : Rule) (name : String) :
    s!"{r.subject} names should be {r.style.name}; {name}" = r.advice ++ name := by
  refine congrArg (· ++ name) ?_
  cases r <;> decide

instance decidableMatches (r : Rule) (name : String) : Decidable (r.pattern.Matches name.toList) :=
  decidable_of_iff _ (pattern_style r ▸ admits_iff_matches r.style name)

/-- What a rule has to say about a part: a problem, if the part is of the rule's kind and its name
does not match the pattern. -/
def Rule.complaint? (r : Rule) (p : Part) : Option Problem :=
  if p.kind = r.kind then
    p.declared?.bind fun name =>
      if r.pattern.Matches name.name.toList then none
      else some ⟨p.span.start, r.advice ++ name.name, ⟨9, -1⟩, "naming"⟩
  else none

theorem name?_eq (r : Rule) (p : Part) :
    r.name? p = if p.kind = r.kind then p.declared? else none := by
  cases p with
  | node n =>
    cases n with
    | scope kind => cases r <;> cases kind <;> rfl
    | _ => cases r <;> rfl
  | _ => cases r <;> rfl

theorem problem?_eq_complaint? (r : Rule) (p : Part) : r.problem? p = r.complaint? p := by
  unfold Rule.problem? Rule.complaint?
  rw [name?_eq]
  by_cases hkind : p.kind = r.kind
  · rw [if_pos hkind, if_pos hkind]
    cases p.declared? with
    | none => rfl
    | some name =>
      simp only [Option.bind_some, admits_iff_matches, pattern_style, advice_append]
  · rw [if_neg hkind, if_neg hkind]

/-! ## §3 Walks that leave out nothing of interest -/

/-- A walk finds all that `g` finds, if `g` finds nothing below the parts where it turns back. -/
theorem filterMap_reached {β : Type} {descend : Part → Bool} {g : Part → Option β} {p : Part}
    (h : ∀ q ∈ p.subtree, descend q = false →
      ∀ c ∈ q.children, ∀ d ∈ c.subtree, g d = none) :
    (p.reached descend).filterMap g = p.subtree.filterMap g := by
  induction hn : sizeOf p using Nat.strongRecOn generalizing p with
  | ind n ih =>
    rw [Part.reached_eq, Part.subtree_eq, List.filterMap_cons, List.filterMap_cons]
    suffices hbelow : (if descend p then p.children.flatMap (Part.reached descend)
        else []).filterMap g = (p.children.flatMap Part.subtree).filterMap g by
      rw [hbelow]
    cases hdescend : descend p with
    | false =>
      symm
      simp only [Bool.false_eq_true, if_false, List.filterMap_nil, List.filterMap_eq_nil_iff,
        List.mem_flatMap]
      rintro d ⟨c, hc, hd⟩
      exact h p (mem_subtree_iff.mpr (.inl rfl)) hdescend c hc d hd
    | true =>
      rw [if_pos rfl, List.filterMap_flatMap, List.filterMap_flatMap, List.flatMap_def,
        List.flatMap_def]
      congr 1
      apply List.map_congr_left
      intro c hc
      refine ih (sizeOf c) (hn ▸ Part.sizeOf_lt_of_mem_children hc) ?_ rfl
      intro q hq
      exact h q (mem_subtree_iff.mpr (.inr ⟨c, hc, hq⟩))

/-- A walk visits nothing but parts below the one that it starts from, and in their order. -/
theorem reached_sublist_subtree (descend : Part → Bool) (p : Part) :
    (p.reached descend).Sublist p.subtree := by
  induction hn : sizeOf p using Nat.strongRecOn generalizing p with
  | ind n ih =>
    rw [Part.reached_eq, Part.subtree_eq]
    refine List.Sublist.cons_cons p ?_
    split
    · refine List.Sublist.flatMap_right _ ?_
      intro c hc
      exact ih (sizeOf c) (hn ▸ Part.sizeOf_lt_of_mem_children hc) c rfl
    · exact List.nil_sublist _

/-! ## §4 Below an enum -/

/-- The kind of part that a construct makes. -/
def Construct.kind : Construct → PartKind
  | importDecl => .importDecl
  | package => .package
  | option => .option
  | service => .service
  | scope kind => kind.partKind
  | plainField | repeatedField | mapField => .field
  | enumField => .enumField
  | rpc => .rpc
  | empty => .empty

theorem Leaf.kind {c : Construct} {ts : List Token} {n : Node} (h : Leaf c ts n) :
    n.kind = c.kind := by
  cases h <;> rfl

/-- The members of a place are of the kinds that it admits. -/
theorem Members.exists_construct {place : Place} {room : Nat} {ts : List Token} {ns : List Node}
    (h : Members place room ts ns) : ∀ n ∈ ns, ∃ c ∈ place.admits, n.kind = c.kind := by
  induction h with
  | nil => simp
  | leaf hadmits hleaf _ ih =>
    exact List.forall_mem_cons.mpr ⟨⟨_, hadmits, hleaf.kind⟩, ih⟩
  | scope hadmits _ _ _ _ ih => exact List.forall_mem_cons.mpr ⟨⟨_, hadmits, rfl⟩, ih⟩
  | service hadmits _ _ _ _ ih => exact List.forall_mem_cons.mpr ⟨⟨_, hadmits, rfl⟩, ih⟩

/-- The kinds of part that hold names, literals and map types at most. -/
def PartKind.isSimple : PartKind → Bool
  | file | message | oneOf | enum | service | block => false
  | _ => true

/-- A name, a literal or a map type declares nothing, and neither does what stands below it. -/
inductive Part.Plain : Part → Prop
  | ident (i : Ident) : Plain (.ident i)
  | literal (l : Literal) : Plain (.literal l)
  | mapType (m : MapType) : Plain (.mapType m)

theorem subtree_ident (i : Ident) : (Part.ident i).subtree = [.ident i] := by
  rw [Part.subtree_eq]
  rfl

theorem Part.Plain.declared? {p : Part} (hp : p.Plain) : ∀ q ∈ p.subtree, q.declared? = none := by
  intro q hq
  rcases mem_subtree_iff.mp hq with rfl | ⟨c, hc, hq⟩
  · cases hp <;> rfl
  · -- only a map type holds anything, the names of two types
    cases hp with
    | ident => cases hc
    | literal => cases hc
    | mapType m =>
      simp only [Part.children, List.mem_cons, List.not_mem_nil, or_false] at hc
      rcases hc with rfl | rfl <;> rw [subtree_ident, List.mem_singleton] at hq <;> subst hq <;> rfl

theorem plain_of_mem_children {p c : Part} (hp : p.kind.isSimple = true) (hc : c ∈ p.children) :
    c.Plain := by
  cases p with
  | file => cases hp
  | block => cases hp
  | ident => cases hc
  | literal => cases hc
  | mapType =>
    simp only [Part.children, List.mem_cons, List.not_mem_nil, or_false] at hc
    rcases hc with rfl | rfl <;> exact .ident _
  | node n =>
    cases n with
    | scope kind => cases kind <;> cases hp
    | service => cases hp
    | package => cases hc
    | empty => cases hc
    | importDecl decl =>
      simp only [Part.children, Node.children, List.mem_append, List.mem_map,
        List.mem_singleton] at hc
      rcases hc with ⟨i, -, rfl⟩ | rfl
      · exact .ident i
      · exact .literal _
    | option decl =>
      simp only [Part.children, Node.children, List.mem_cons, List.not_mem_nil, or_false] at hc
      rcases hc with rfl | rfl
      · exact .ident _
      · exact .literal _
    | field decl =>
      simp only [Part.children, Node.children, List.mem_append, List.mem_map, List.mem_cons,
        List.not_mem_nil, or_false] at hc
      rcases hc with (rfl | rfl | rfl) | ⟨i, -, rfl⟩
      · exact .ident _
      · exact .literal _
      · cases decl.type with
        | named name => exact .ident name
        | map type => exact .mapType type
      · exact .ident i
    | enumField decl =>
      obtain rfl := List.mem_singleton.mp hc
      exact .ident _
    | rpc decl =>
      simp only [Part.children, Node.children, List.mem_cons, List.not_mem_nil, or_false] at hc
      rcases hc with rfl | rfl | rfl <;> exact .ident _

/-- What stands below a simple part declares nothing. -/
theorem declared?_below_simple {p : Part} (hp : p.kind.isSimple = true) :
    ∀ c ∈ p.children, ∀ q ∈ c.subtree, q.declared? = none :=
  fun _ hc => (plain_of_mem_children hp hc).declared?

/-- The kinds of part that an enum holds. -/
def PartKind.inEnum : List PartKind := [.empty, .option, .enumField]

theorem kind_of_mem_admits_enum : ∀ c ∈ (Place.inScope .enum).admits,
    c.kind ∈ PartKind.inEnum := by
  decide

theorem isSimple_of_mem_inEnum : ∀ kind ∈ PartKind.inEnum, kind.isSimple = true := by
  decide

theorem isSimple_of_isLeaf {c : Construct} (h : c.isLeaf = true) : c.kind.isSimple = true := by
  cases c <;> first | rfl | cases h

theorem Leaf.isLeaf {c : Construct} {ts : List Token} {n : Node} (h : Leaf c ts n) :
    c.isLeaf = true := by
  cases h <;> rfl

theorem Leaf.isSimple {c : Construct} {ts : List Token} {n : Node} (h : Leaf c ts n) :
    (Part.node n).kind.isSimple = true := by
  rw [Part.kind, h.kind]
  exact isSimple_of_isLeaf h.isLeaf

/-- In what was derived, enums hold options, enum fields and semicolons. -/
theorem Members.enum_member {place : Place} {room : Nat} {ts : List Token} {ns : List Node}
    (h : Members place room ts ns) {name : Ident} {members : List Node} {span : Span} :
    ∀ n ∈ ns, Part.node (.scope .enum name members span) ∈ (Part.node n).subtree →
      ∀ m ∈ members, m.kind ∈ PartKind.inEnum := by
  induction h with
  | nil => simp
  | @leaf _ _ c _ _ n _ _ hleaf _ ih =>
    refine List.forall_mem_cons.mpr ⟨fun hmem => ?_, ih⟩
    have hsimple := hleaf.isSimple
    rcases mem_subtree_iff.mp hmem with heq | ⟨d, hd, hmem⟩
    · rw [← heq] at hsimple
      cases hsimple
    · cases declared?_below_simple hsimple d hd _ hmem
  | @scope _ _ kind keyword name' opening closing inner _ nodes _ _ _ hinner _ ihinner ih =>
    refine List.forall_mem_cons.mpr ⟨fun hmem => ?_, ih⟩
    rcases mem_subtree_iff.mp hmem with heq | ⟨d, hd, hmem⟩
    · -- the enum itself
      injection heq with heq
      injection heq with hkind _ hnodes _
      subst hkind hnodes
      intro m hm
      obtain ⟨c, hc, hkind⟩ := hinner.exists_construct m hm
      exact hkind ▸ kind_of_mem_admits_enum c hc
    · rcases List.mem_cons.mp hd with rfl | hd
      · cases (Part.Plain.ident name'.ident).declared? _ hmem
      · obtain ⟨n, hn, rfl⟩ := List.mem_map.mp hd
        exact ihinner n hn hmem
  | @service _ _ keyword name' opening closing inner _ nodes _ _ _ _ _ ihinner ih =>
    refine List.forall_mem_cons.mpr ⟨fun hmem => ?_, ih⟩
    rcases mem_subtree_iff.mp hmem with heq | ⟨d, hd, hmem⟩
    · injection heq with heq
      cases heq
    · simp only [Part.children, Node.children, List.mem_cons, List.not_mem_nil, or_false] at hd
      rcases hd with rfl | rfl
      · cases (Part.Plain.ident name'.ident).declared? _ hmem
      · rcases mem_subtree_iff.mp hmem with heq | ⟨e, he, hmem⟩
        · cases heq
        · obtain ⟨n, hn, rfl⟩ := List.mem_map.mp he
          exact ihinner n hn hmem

/-! ## §5 The problems of a file -/

theorem complaint?_of_declared? {r : Rule} {p : Part} (h : p.declared? = none) :
    r.complaint? p = none := by
  unfold Rule.complaint?
  rw [h]
  split <;> rfl

theorem complaint?_of_kind {r : Rule} {p : Part} (h : p.kind ≠ r.kind) : r.complaint? p = none :=
  if_neg h

/-- In a file that was read, no enum stands below an enum. -/
theorem complaint?_below_enum {source : String} {f : File} (h : (parseText source).value = .ok f)
    {name : Ident} {members : List Node} {span : Span}
    (hp : .node (.scope .enum name members span) ∈ (Part.file f).subtree) :
    ∀ c ∈ (Part.node (.scope .enum name members span)).children, ∀ q ∈ c.subtree,
      Rule.enumNames.complaint? q = none := by
  obtain ⟨before, last, -, -, hderives, -⟩ := parseText_eq_ok_iff.mp h
  have hmembers : ∀ m ∈ members, m.kind ∈ PartKind.inEnum := by
    rcases mem_subtree_iff.mp hp with heq | ⟨c, hc, hp⟩
    · cases heq
    · obtain ⟨n, hn, rfl⟩ := List.mem_map.mp hc
      generalize significant before = ts at hderives
      cases hderives with
      | file _ hbody => exact hbody.enum_member n hn hp
  intro c hc q hq
  rcases List.mem_cons.mp hc with rfl | hc
  · exact complaint?_of_declared? ((Part.Plain.ident name).declared? q hq)
  · obtain ⟨m, hm, rfl⟩ := List.mem_map.mp hc
    have hsimple : (Part.node m).kind.isSimple = true :=
      isSimple_of_mem_inEnum m.kind (hmembers m hm)
    rcases mem_subtree_iff.mp hq with rfl | ⟨d, hd, hq⟩
    · apply complaint?_of_kind
      intro henum
      rw [henum] at hsimple
      cases hsimple
    · exact complaint?_of_declared? (declared?_below_simple hsimple d hd q hq)

/-- In a file that was read, a rule that does not look below a part misses nothing there. -/
theorem complaint?_below {source : String} {f : File} (h : (parseText source).value = .ok f)
    {r : Rule} (hr : r.descends = false) {p : Part} (hp : p ∈ (Part.file f).subtree)
    (hname : r.name? p ≠ none) :
    ∀ c ∈ p.children, ∀ q ∈ c.subtree, r.complaint? q = none := by
  by_cases hsimple : p.kind.isSimple = true
  · intro c hc q hq
    exact complaint?_of_declared? (declared?_below_simple hsimple c hc q hq)
  · -- of the parts that are picked and not looked below, enums alone are not simple
    unfold Rule.name? at hname
    split at hname
    · exact complaint?_below_enum h hp
    all_goals first | exact absurd rfl hsimple | exact absurd rfl hname | cases hr

theorem confidence_of_complaint? {r : Rule} {p : Part} {problem : Problem}
    (h : r.complaint? p = some problem) : problem.confidence = ⟨9, -1⟩ := by
  unfold Rule.complaint? at h
  split at h
  · obtain ⟨name, -, h⟩ := Option.bind_eq_some_iff.mp h
    split at h
    · cases h
    · cases h
      rfl
  · cases h

/-- The linter reports the bad names of all parts of a file that was read, and nothing else: rule by
rule, in the order in which a walk that goes down everywhere visits the parts. -/
theorem lintTree_eq_complaints {source : String} {f : File}
    (h : (parseText source).value = .ok f) :
    ({} : Linter).lintTree f =
      Rule.all.flatMap fun r =>
        (walk (.collect fun _ => true) (.file f) []).filterMap r.complaint? := by
  have hrule : ∀ r : Rule, r.problems f =
      (walk (.collect fun _ => true) (.file f) []).filterMap r.complaint? := by
    intro r
    rw [walk_collect, List.nil_append, Rule.problems,
      show r.problem? = r.complaint? from funext (problem?_eq_complaint? r)]
    refine filterMap_reached ?_
    intro p hp hdescend
    simp only [Bool.or_eq_false_iff, Option.isNone_eq_false_iff] at hdescend
    refine complaint?_below h hdescend.2 hp ?_
    intro hname
    rw [hname] at hdescend
    cases hdescend.1
  have hkeeps : ∀ (r : Rule) (p : Part) (problem : Problem), r.complaint? p = some problem →
      ({} : Linter).keeps problem = true := by
    intro r p problem hproblem
    rw [Linter.keeps, confidence_of_complaint? hproblem]
    decide +kernel
  unfold Linter.lintTree
  simp only [hrule]
  refine List.filter_eq_self.mpr ?_
  intro problem hproblem
  obtain ⟨r, -, hr⟩ := List.mem_flatMap.mp hproblem
  obtain ⟨p, -, hp⟩ := List.mem_filterMap.mp hr
  exact hkeeps r p problem hp

/-- An enum in a message, with no good name among them. -/
def nestedEnumFile : File :=
  ⟨.proto3,
    [.scope .message ⟨"m", ⟨24, 25⟩⟩
      [.scope .enum ⟨"e", ⟨31, 32⟩⟩ [.enumField ⟨⟨"a", ⟨33, 34⟩⟩, "0", ⟨33, 37⟩⟩] ⟨26, 38⟩]
      ⟨16, 39⟩],
    ⟨0, 39⟩⟩

theorem nestedEnumFile_complaints :
    ({} : Linter).lintTree nestedEnumFile =
      Rule.all.flatMap fun r =>
        (walk (.collect fun _ => true) (.file nestedEnumFile) []).filterMap r.complaint? :=
  lintTree_eq_complaints
    (show (parseText "syntax=\"proto3\";message m\x7benum e\x7ba=0;\x7d\x7d").value =
      .ok nestedEnumFile by decide +kernel)

example :
    (match (parseText "syntax=\"proto3\";message m\x7benum e\x7ba=0;\x7d\x7d").value with
      | .ok f => (({} : Linter).lintTree f).map (·.position)
      | .error _ => []) = [26, 33, 16] := by
  decide +kernel

end ProtoSchema
