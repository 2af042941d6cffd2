import Mathlib.Data.List.Induction
import ProtoSchema.Proofs.Linting

/-!
# Linters that are set up step by step

A linter is set up by settings, each of which chooses the rules or the least confidence.  The last
of each kind counts (`rules_configure`, `minConfidence_configure`), and of the rules it counts which
they are, not how they were listed.  What is chosen only leaves problems out: since no two rules
say the same (`eq_of_advice_append_eq`), the problems of the chosen rules are a selection from those
of all rules (`lintTree_configure`).

* §1 settings, §2 problems and the rules that they come from, §3 what a linter reports.
-/

namespace ProtoSchema

/-! ## §1 Settings -/

inductive Setting where
  | rules (rules : List Rule)
  | minConfidence (min : Float)

namespace Setting

def rules? : Setting → Option (List Rule)
  | rules rs => some rs
  | minConfidence _ => none

def minConfidence? : Setting → Option Float
  | rules _ => none
  | minConfidence min => some min

end Setting

namespace Linter

def set (l : Linter) : Setting → Linter
  | .rules rs => l.withRules rs
  | .minConfidence min => l.withMinConfidence min

/-- The default linter with settings made one after the other. -/
def configure (settings : List Setting) : Linter := settings.foldl set {}

end Linter

/-- The rules that were chosen last, or all. -/
def chosenRules (settings : List Setting) : List Rule :=
  (settings.filterMap Setting.rules?).getLast?.getD Rule.all

/-- The least confidence that was set last, or zero. -/
def leastConfidence (settings : List Setting) : Float :=
  (settings.filterMap Setting.minConfidence?).getLast?.getD 0.0

namespace Linter

theorem configure_concat (settings : List Setting) (s : Setting) :
    configure (settings ++ [s]) = (configure settings).set s := by
  simp [configure]

/-- By induction on the settings, from the last one back. -/
theorem rules_configure (settings : List Setting) :
    (configure settings).rules = Rule.all.filter (· ∈ chosenRules settings) := by
  induction settings using List.reverseRecOn with
  | nil => decide
  | append_singleton settings s ih =>
    rw [configure_concat]
    cases s with
    | rules rs => simp [chosenRules, Setting.rules?, set, withRules]
    | minConfidence min => simpa [chosenRules, Setting.rules?, set, withMinConfidence] using ih

theorem minConfidence_configure (settings : List Setting) :
    (configure settings).minConfidence = leastConfidence settings := by
  induction settings using List.reverseRecOn with
  | nil => rfl
  | append_singleton settings s ih =>
    rw [configure_concat]
    cases s with
    | rules rs => simpa [leastConfidence, Setting.minConfidence?, set, withRules] using ih
    | minConfidence min => simp [leastConfidence, Setting.minConfidence?, set, withMinConfidence]

end Linter

/-! ## §2 Problems and rules -/

theorem not_prefix_advice : ∀ r ∈ Rule.all, ∀ r' ∈ Rule.all, r ≠ r' →
    ¬ r.advice.toList <+: r'.advice.toList := by
  decide

/-- What is said tells the rule that says it. -/
theorem eq_of_advice_append_eq {r r' : Rule} {name name' : String}
    (h : r.advice ++ name = r'.advice ++ name') : r = r' := by
  have hlist : r.advice.toList ++ name.toList = r'.advice.toList ++ name'.toList := by
    rw [← String.toList_append, h, String.toList_append]
  by_contra hne
  rcases List.prefix_or_prefix_of_prefix (List.prefix_append r.advice.toList _)
    (hlist ▸ List.prefix_append r'.advice.toList _) with hprefix | hprefix
  · exact not_prefix_advice r r.mem_all r' r'.mem_all hne hprefix
  · exact not_prefix_advice r' r'.mem_all r r.mem_all (Ne.symm hne) hprefix

theorem exists_complaint_of_mem_problems {r : Rule} {f : File} {p : Problem}
    (h : p ∈ r.problems f) : ∃ part ∈ (Part.file f).subtree, r.complaint? part = some p := by
  obtain ⟨part, hreached, hpart⟩ := List.mem_filterMap.mp h
  exact ⟨part, (reached_sublist_subtree _ _).subset hreached, problem?_eq_complaint? r part ▸ hpart⟩

theorem text_of_complaint? {r : Rule} {part : Part} {p : Problem}
    (h : r.complaint? part = some p) :
    ∃ name, part.declared? = some name ∧ p.text = r.advice ++ name.name := by
  unfold Rule.complaint? at h
  split at h
  · obtain ⟨name, hname, h⟩ := Option.bind_eq_some_iff.mp h
    split at h
    · cases h
    · cases h
      exact ⟨name, hname, rfl⟩
  · cases h

/-- A problem comes from one rule only. -/
theorem rule_unique {r r' : Rule} {f : File} {p : Problem} (h : p ∈ r.problems f)
    (h' : p ∈ r'.problems f) : r = r' := by
  obtain ⟨part, -, hpart⟩ := exists_complaint_of_mem_problems h
  obtain ⟨part', -, hpart'⟩ := exists_complaint_of_mem_problems h'
  obtain ⟨name, -, htext⟩ := text_of_complaint? hpart
  obtain ⟨name', -, htext'⟩ := text_of_complaint? hpart'
  exact eq_of_advice_append_eq (htext.symm.trans htext')

/-- All problems are equally sure. -/
theorem keeps_of_mem_problems {r : Rule} {f : File} {p : Problem} (h : p ∈ r.problems f)
    (l : Linter) : l.keeps p = decide (l.minConfidence ≤ (0.9 : Float)) := by
  obtain ⟨part, -, hpart⟩ := exists_complaint_of_mem_problems h
  rw [Linter.keeps, confidence_of_complaint? hpart]
  rfl

/-! ## §3 What a linter reports -/

/-- No number is at most another, if it is none. -/
theorem not_le_of_isNaN {m : Float} (h : m.isNaN = true) (x : Float) : ¬ m ≤ x := by
  intro hle
  have hcompare : m.toModel.unpack.le x.toModel.unpack = true := of_decide_eq_true hle
  have hnan : m.toModel.unpack.isNaN = true := h
  generalize m.toModel.unpack = u at hcompare hnan
  cases u with
  | notANumber => cases hcompare
  | _ => cases hnan

namespace Linter

/-- A linter reports the problems of its rules, or nothing if it wants more confidence than any
problem has. -/
theorem lintTree_eq (l : Linter) (f : File) :
    l.lintTree f =
      if l.minConfidence ≤ (0.9 : Float) then l.rules.flatMap (·.problems f) else [] := by
  have hkeeps : ∀ p ∈ l.rules.flatMap (·.problems f),
      l.keeps p = decide (l.minConfidence ≤ (0.9 : Float)) := by
    intro p hp
    obtain ⟨r, -, hr⟩ := List.mem_flatMap.mp hp
    exact keeps_of_mem_problems hr l
  rw [lintTree, List.filter_congr hkeeps]
  split <;> simp_all

/-- Of the problems of a rule, those that come from chosen rules are all or none. -/
theorem filter_problems (chosen : List Rule) (r : Rule) (f : File) :
    ((r.problems f).filter fun p => ∃ r' ∈ chosen, p ∈ r'.problems f) =
      if r ∈ chosen then r.problems f else [] := by
  split
  · next hr => exact List.filter_eq_self.mpr fun p hp => decide_eq_true ⟨r, hr, hp⟩
  · next hr =>
    refine List.filter_eq_nil_iff.mpr ?_
    intro p hp hchosen
    obtain ⟨r', hr', hp'⟩ := of_decide_eq_true hchosen
    exact hr (rule_unique hp hp' ▸ hr')

theorem flatMap_problems_filter (chosen rules : List Rule) (f : File) :
    (rules.filter (· ∈ chosen)).flatMap (·.problems f) =
      (rules.flatMap (·.problems f)).filter fun p => ∃ r ∈ chosen, p ∈ r.problems f := by
  induction rules with
  | nil => rfl
  | cons r rules ih =>
    rw [List.flatMap_cons, List.filter_append, filter_problems, ← ih]
    by_cases hr : r ∈ chosen <;> simp [hr]

/-- The default linter reports the problems of all rules. -/
theorem lintTree_default (f : File) :
    ({} : Linter).lintTree f = Rule.all.flatMap (·.problems f) := by
  rw [lintTree_eq]
  exact if_pos (by decide +kernel)

/-- A linter that was set up by any settings reports nothing, if the least confidence that was set
last is more than problems have, or no number; otherwise it reports what the default linter reports,
as far as it comes from the rules that were chosen last, in the same order.  Settings with the same
last confidence, and the same rules among the last chosen, make linters that report the same. -/
theorem lintTree_configure (settings : List Setting) (f : File) :
    ((configure settings).lintTree f =
      if leastConfidence settings ≤ (0.9 : Float) then
        (({} : Linter).lintTree f).filter fun p => ∃ r ∈ chosenRules settings, p ∈ r.problems f
      else []) ∧
    ((leastConfidence settings).isNaN = true ∨ leastConfidence settings = 1.0 / 0.0 →
      (configure settings).lintTree f = []) ∧
    ∀ settings', leastConfidence settings' = leastConfidence settings →
      (∀ r, r ∈ chosenRules settings' ↔ r ∈ chosenRules settings) →
        (configure settings').lintTree f = (configure settings).lintTree f := by
  have hreports : ∀ settings, (configure settings).lintTree f =
      if leastConfidence settings ≤ (0.9 : Float) then
        (({} : Linter).lintTree f).filter fun p => ∃ r ∈ chosenRules settings, p ∈ r.problems f
      else [] := by
    intro settings
    rw [lintTree_eq, minConfidence_configure, rules_configure, flatMap_problems_filter,
      lintTree_default]
  refine ⟨hreports settings, ?_, ?_⟩
  · intro hhigh
    rw [hreports settings]
    refine if_neg ?_
    rcases hhigh with hnan | hinfinite
    · exact not_le_of_isNaN hnan _
    · rw [hinfinite]
      decide +kernel
  · intro settings' hleast hrules
    rw [hreports settings', hreports settings, hleast]
    simp only [hrules]

/-- No number for the least confidence, and the same two rules chosen in two ways. -/
theorem nestedEnumFile_configure :
    let noNumber : List Setting := [.minConfidence 1.0, .minConfidence (0.0 / 0.0)]
    let twice : List Setting :=
      [.rules [], .minConfidence 0.5, .rules [.fieldNames, .enumNames, .fieldNames]]
    let once : List Setting := [.rules [.enumNames, .fieldNames], .minConfidence 0.5]
    (leastConfidence noNumber).isNaN = true ∧ (configure noNumber).lintTree nestedEnumFile = [] ∧
      (configure twice).lintTree nestedEnumFile = (configure once).lintTree nestedEnumFile := by
  intro noNumber twice once
  have hnan : (leastConfidence noNumber).isNaN = true := by decide +kernel
  obtain ⟨-, hempty, -⟩ := lintTree_configure noNumber nestedEnumFile
  obtain ⟨-, -, hsame⟩ := lintTree_configure once nestedEnumFile
  refine ⟨hnan, hempty (.inl hnan), hsame twice rfl ?_⟩
  intro r
  cases r <;> decide

/-- Rules that an earlier setting left out are there again when a later one chooses them. -/
example :
    ((configure [.rules [], .minConfidence 1.0, .rules [.fieldNames, .enumNames, .enumNames],
      .minConfidence 0.5]).lintTree nestedEnumFile).map (·.position) = [26] := by
  decide +kernel

end Linter

end ProtoSchema
