import ProtoSchema.Proofs.Configuration
import ProtoSchema.Proofs.SpanTexts

/-!
# In what order problems are reported

A linter reports rule by rule, and each rule in the order of its walk.  Where parts are laid out,
those that declare names start one after the other on a walk (`Nested.pairwise_startsBefore`): what
a scope or a service holds stands behind its name.  It does not matter that a field is visited in
another order than it is written in, for nothing below a field declares a name.  So each rule
reports from the start of the file to its end (`lintTree_ordered`).

* §1 parts that start one after the other, §2 the problems of one rule;
* §3 the problems of a file.
-/

namespace ProtoSchema

/-! ## §1 Starts -/

/-- If both parts declare names, then `p` starts before `q`. -/
def Part.StartsBefore (p q : Part) : Prop :=
  p.declared? ≠ none → q.declared? ≠ none → p.span.start < q.span.start

section

variable {p q : Part}

theorem startsBefore_of_left (h : p.declared? = none) : p.StartsBefore q :=
  fun hp => absurd h hp

theorem startsBefore_of_right (h : q.declared? = none) : p.StartsBefore q :=
  fun _ hq => absurd h hq

theorem inSourceOrder_of_not_simple (h : ¬ p.kind.isSimple = true) :
    p.inSourceOrder = p.children := by
  unfold Part.inSourceOrder
  split
  · exact absurd rfl h
  · rfl

/-- What stands below a part starts in it. -/
theorem Part.Nested.start_of_mem_subtree (h : p.Nested) (hq : q ∈ p.subtree) :
    p.span.start ≤ q.span.start ∧ q.span.start < p.span.stop := by
  obtain ⟨path, hpath⟩ := exists_at?_of_mem_subtree hq
  obtain ⟨hstart, hstop⟩ := h.isWithin hpath
  exact ⟨hstart, Nat.lt_of_lt_of_le (h.at? hpath).laidOut.nonempty hstop⟩

/-- A part whose first child is its name starts before all that the others hold. -/
theorem Part.Nested.startsBefore_of_named (h : p.Nested) {name : Ident} {rest : List Part}
    (hsource : p.inSourceOrder = p.children) (hchildren : p.children = .ident name :: rest) :
    ∀ c ∈ p.children, ∀ q ∈ c.subtree, p.StartsBefore q := by
  obtain ⟨hlaid, hbelow⟩ := nested_iff.mp h
  have hordered := hlaid.ordered
  have hwithin := hlaid.within
  rw [hsource] at hordered
  rw [hchildren] at hordered hwithin hbelow ⊢
  have hname := (hbelow _ List.mem_cons_self).laidOut.nonempty
  have hstart := (hwithin _ List.mem_cons_self).1.1
  refine List.forall_mem_cons.mpr ⟨fun q hq => ?_, fun c hc q hq _ _ => ?_⟩
  · exact startsBefore_of_right ((Part.Plain.ident name).declared? q hq)
  · calc p.span.start
      _ ≤ (Part.ident name).span.start := hstart
      _ < (Part.ident name).span.stop := hname
      _ ≤ c.span.start := (List.pairwise_cons.mp hordered).1 c hc
      _ ≤ q.span.start := ((hbelow c (List.mem_cons_of_mem _ hc)).start_of_mem_subtree hq).1

theorem Part.Nested.startsBefore_below (h : p.Nested) :
    ∀ c ∈ p.children, ∀ q ∈ c.subtree, p.StartsBefore q := by
  by_cases hsimple : p.kind.isSimple = true
  · exact fun c hc q hq => startsBefore_of_right (declared?_below_simple hsimple c hc q hq)
  · have hsource := inSourceOrder_of_not_simple hsimple
    cases p with
    | node n =>
      cases n with
      | scope => exact h.startsBefore_of_named hsource rfl
      | service => exact h.startsBefore_of_named hsource rfl
      | _ => exact absurd rfl hsimple
    | _ => exact fun _ _ _ _ => startsBefore_of_left rfl

/-- On a walk, parts that declare names start one after the other: by induction on the size of the
part, each child ending before the next one starts. -/
theorem Part.Nested.pairwise_startsBefore (h : p.Nested) :
    p.subtree.Pairwise Part.StartsBefore := by
  induction hn : sizeOf p using Nat.strongRecOn generalizing p with
  | ind n ih =>
    obtain ⟨hlaid, hbelow⟩ := nested_iff.mp h
    rw [Part.subtree_eq, List.pairwise_cons, List.forall_mem_flatMap, List.pairwise_flatMap]
    refine ⟨h.startsBefore_below, ?_, ?_⟩
    · exact fun c hc => ih _ (hn ▸ Part.sizeOf_lt_of_mem_children hc) (hbelow c hc) rfl
    · by_cases hsimple : p.kind.isSimple = true
      · refine List.pairwise_of_forall_mem_list fun a ha b _ x hx y _ => ?_
        exact startsBefore_of_left (declared?_below_simple hsimple a ha x hx)
      · have hordered := hlaid.ordered
        rw [inSourceOrder_of_not_simple hsimple] at hordered
        refine hordered.imp_of_mem fun {a b} ha hb hab x hx y hy _ _ => ?_
        calc x.span.start
          _ < a.span.stop := ((hbelow a ha).start_of_mem_subtree hx).2
          _ ≤ b.span.start := hab
          _ ≤ y.span.start := ((hbelow b hb).start_of_mem_subtree hy).1

end

/-! ## §2 One rule -/

theorem position_of_complaint? {r : Rule} {part : Part} {p : Problem}
    (h : r.complaint? part = some p) :
    part.declared? ≠ none ∧ p.position = part.span.start := by
  unfold Rule.complaint? at h
  split at h
  · obtain ⟨name, hname, h⟩ := Option.bind_eq_some_iff.mp h
    split at h
    · cases h
    · cases h
      exact ⟨by simp [hname], rfl⟩
  · cases h

section

variable {source : String} {f : File}

theorem pairwise_problems (h : (parseText source).value = .ok f) (r : Rule) :
    (r.problems f).Pairwise fun p q => p.position < q.position := by
  refine List.pairwise_filterMap.mpr ?_
  refine (((nested_of_parseText h).1.pairwise_startsBefore).sublist
    (reached_sublist_subtree _ _)).imp ?_
  intro part part' hbefore p hp q hq
  rw [problem?_eq_complaint?] at hp hq
  obtain ⟨hpart, hposition⟩ := position_of_complaint? hp
  obtain ⟨hpart', hposition'⟩ := position_of_complaint? hq
  rw [hposition, hposition']
  exact hbefore hpart hpart'

/-- All parts of a file that was read are shown where they stand. -/
theorem legible_of_parseText (h : (parseText source).value = .ok f) :
    ∀ n ∈ f.declarations, (Part.node n).Legible source := by
  obtain ⟨before, last, htokens, -, hderives, -⟩ := parseText_eq_ok_iff.mp h
  have hrun : Run source (significant before) := by
    refine ⟨?_, ordinary_of_tokenize htokens⟩
    rw [htokens, significant_append]
    exact (List.prefix_append _ _).isInfix
  generalize significant before = ts at hrun hderives
  cases hderives with
  | @file keyword equals language semi body _ _ hbody =>
    exact hbody.legible (hrun.of_within ⟨[keyword, equals, language, semi], [], by simp⟩)

/-- A problem is placed in the source, in front of one of its characters. -/
theorem exists_append_of_mem_problems (h : (parseText source).value = .ok f) {r : Rule}
    {p : Problem} (hp : p ∈ r.problems f) :
    p.position < source.utf8ByteSize ∧
      ∃ front back, source = front ++ back ∧ p.position = front.utf8ByteSize := by
  obtain ⟨part, hpart, hcomplaint⟩ := exists_complaint_of_mem_problems hp
  obtain ⟨hname, hposition⟩ := position_of_complaint? hcomplaint
  obtain ⟨hnested, hspan⟩ := nested_of_parseText h
  have hstop := (hnested.start_of_mem_subtree hpart).2
  rw [Part.span, hspan] at hstop
  refine ⟨hposition ▸ hstop, ?_⟩
  rcases mem_subtree_iff.mp hpart with rfl | ⟨c, hc, hpart⟩
  · exact absurd rfl hname
  · obtain ⟨n, hn, rfl⟩ := List.mem_map.mp hc
    obtain ⟨text, ⟨front, back, hsource, hstart, -⟩, -⟩ := legible_of_parseText h n hn part hpart
    exact ⟨front, text ++ back, by rw [hsource, String.append_assoc], hposition.trans hstart⟩

end

/-! ## §3 All rules -/

/-- Those among `ps` that the rule finds in the file. -/
def Rule.share (r : Rule) (f : File) (ps : List Problem) : List Problem :=
  ps.filter (· ∈ r.problems f)

theorem share_problems (r r' : Rule) (f : File) :
    r.share f (r'.problems f) = if r' = r then r.problems f else [] := by
  split
  · next heq =>
    subst heq
    exact List.filter_eq_self.mpr fun p hp => decide_eq_true hp
  · next hne =>
    refine List.filter_eq_nil_iff.mpr fun p hp hmem => hne ?_
    exact rule_unique hp (of_decide_eq_true hmem)

theorem share_flatMap (r : Rule) (rules : List Rule) (f : File) :
    r.share f (rules.flatMap (·.problems f)) =
      rules.flatMap fun r' => r.share f (r'.problems f) :=
  List.filter_flatMap

theorem flatMap_ite_eq {α β : Type} [DecidableEq α] {as : List α} (h : as.Nodup) (a : α)
    (bs : List β) : (as.flatMap fun b => if b = a then bs else []) = if a ∈ as then bs else [] := by
  induction as with
  | nil => rfl
  | cons b as ih =>
    obtain ⟨hb, has⟩ := List.nodup_cons.mp h
    rw [List.flatMap_cons, ih has]
    by_cases hba : b = a
    · subst hba
      simp [hb]
    · simp [hba, Ne.symm hba]

/-- A rule that was chosen finds all that it would find alone. -/
theorem share_configure (settings : List Setting) (r : Rule) (f : File) :
    r.share f ((Linter.configure settings).lintTree f) =
      if leastConfidence settings ≤ (0.9 : Float) then
        if r ∈ chosenRules settings then r.problems f else []
      else [] := by
  rw [Linter.lintTree_eq, Linter.minConfidence_configure, Linter.rules_configure]
  split
  · have hnodup : (Rule.all.filter (· ∈ chosenRules settings)).Nodup :=
      List.Nodup.sublist List.filter_sublist (by decide)
    simp only [share_flatMap, share_problems, flatMap_ite_eq hnodup, List.mem_filter, r.mem_all,
      true_and, decide_eq_true_eq]
  · rfl

theorem lintTree_eq_shares (settings : List Setting) (f : File) :
    (Linter.configure settings).lintTree f =
      Rule.all.flatMap fun r => r.share f ((Linter.configure settings).lintTree f) := by
  simp only [share_configure]
  rw [Linter.lintTree_eq, Linter.minConfidence_configure, Linter.rules_configure]
  split
  · rw [Linter.flatMap_problems_filter, List.filter_flatMap]
    simp only [Linter.filter_problems]
  · simp

/-- What a linter reports of a file that was read, however it was set up, is what one rule finds
after the other, in the order of the rules.  What a rule finds is reported from the start of the
file to its end, no place twice, and each place is in front of a character of the source. -/
theorem lintTree_ordered {source : String} {f : File} (h : (parseText source).value = .ok f)
    (settings : List Setting) :
    let problems := (Linter.configure settings).lintTree f
    problems = Rule.all.flatMap (fun r => r.share f problems) ∧
      (∀ r : Rule, (r.share f problems).Pairwise fun p q => p.position < q.position) ∧
      ∀ p ∈ problems, p.position < source.utf8ByteSize ∧
        ∃ front back, source = front ++ back ∧ p.position = front.utf8ByteSize := by
  intro problems
  have hshare : ∀ r : Rule, (r.share f problems).Sublist (r.problems f) := by
    intro r
    rw [share_configure]
    split
    · split
      · exact .refl _
      · exact List.nil_sublist _
    · exact List.nil_sublist _
  have hblocks : problems = Rule.all.flatMap fun r => r.share f problems :=
    lintTree_eq_shares settings f
  refine ⟨hblocks, fun r => (pairwise_problems h r).sublist (hshare r), fun p hp => ?_⟩
  rw [hblocks] at hp
  obtain ⟨r, -, hr⟩ := List.mem_flatMap.mp hp
  exact exists_append_of_mem_problems h ((hshare r).subset hr)

/-- An enum in a message: the rule for enums reports before the rule for messages. -/
theorem nestedEnumFile_ordered :
    let problems := (Linter.configure []).lintTree nestedEnumFile
    problems.map (·.position) = [26, 33, 16] ∧
    problems = Rule.all.flatMap (fun r => r.share nestedEnumFile problems) ∧
      (∀ r : Rule,
        (r.share nestedEnumFile problems).Pairwise fun p q => p.position < q.position) ∧
      ∀ p ∈ problems, p.position < 39 ∧
        ∃ front back, "syntax=\"proto3\";message m\x7benum e\x7ba=0;\x7d\x7d" = front ++ back ∧
          p.position = front.utf8ByteSize :=
  ⟨by decide +kernel, lintTree_ordered
    (show (parseText "syntax=\"proto3\";message m\x7benum e\x7ba=0;\x7d\x7d").value =
      .ok nestedEnumFile by decide +kernel) []⟩

end ProtoSchema
