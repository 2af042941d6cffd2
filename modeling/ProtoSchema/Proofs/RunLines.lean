import ProtoSchema.Proofs.SingleLines

/-!
# The lines of a run

A run writes a line for each problem and reports an error for each failure (`lintFiles_reports`).
The names of files are all that can bring a line break into what is written, so a run over files
whose names have none can be read line by line, its output and its log
(`diagnostics_single_lines`).

The log is written without control sequences, so there the names of the files must also end the
strings for a device or the system that they start: one that is left open takes the end of the line
with it (`openCommand_joins_failures`).

* §1 problems and failures, §2 a record, §3 a log, §4 runs.
-/

namespace ProtoSchema

namespace Command

/-! ## §1 Problems and failures -/

/-- The problems that are wanted of some files, each with the file that it was found in. -/
def foundProblems (o : Options) (read : String → Except ReadError ByteArray)
    (paths : List String) : List (String × Problem) :=
  paths.flatMap fun path =>
    match (parseFile read path).value with
    | .ok f => (wanted o f).map (path, ·)
    | .error _ => []

/-- Why some files give no tree, for each file that gives none. -/
def failures (read : String → Except ReadError ByteArray) (paths : List String) :
    List FileError :=
  paths.filterMap fun path =>
    match (parseFile read path).value with
    | .ok _ => none
    | .error e => some e

/-- A run writes a line for each problem and reports an error for each failure, and no others. -/
theorem lintFiles_reports (o : Options) (read : String → Except ReadError ByteArray)
    (paths : List String) :
    (lintFiles o read paths).value.lines =
        (foundProblems o read paths).map (fun found => o.format.line found.1 found.2) ∧
      shownErrors o (lintFiles o read paths) = (failures read paths).map failureRecord := by
  induction paths with
  | nil => exact ⟨rfl, rfl⟩
  | cons path paths ih =>
    have herrors : shownErrors o (lintFiles o read (path :: paths)) =
        shownErrors o (lintContent o path (read path)) ++
          shownErrors o (lintFiles o read paths) := by
      rw [lintFiles_cons]
      simp [shownErrors, Logged.shown]
    rw [herrors, ih.2, lintFiles_cons]
    simp only [Logged.value_bind, Logged.value_pure, Report.append, ih.1]
    cases hvalue : (parseFile read path).value with
    | error e =>
      obtain ⟨hreport, hrecord⟩ := lintContent_of_failure (o := o) hvalue
      simp [hreport, hrecord, foundProblems, failures, hvalue]
    | ok f =>
      obtain ⟨hreport, hrecord⟩ := lintContent_of_ok (o := o) hvalue
      simp [hreport, hrecord, foundProblems, failures, hvalue]

/-- A text made of lines, each with a line feed behind it, is cut at line breaks into these lines
and nothing behind the last. -/
theorem splitOnP_join {lines : List String} (h : ∀ line ∈ lines, SingleLine line) :
    List.splitOnP isLineEnd (String.join (lines.map (· ++ "\n"))).toList =
      lines.map String.toList ++ [[]] := by
  induction lines with
  | nil => rfl
  | cons line lines ih =>
    obtain ⟨hline, hlines⟩ := List.forall_mem_cons.mp h
    have hfirst : (String.join ((line :: lines).map (· ++ "\n"))).toList =
        line.toList ++ '\n' :: (String.join (lines.map (· ++ "\n"))).toList := by
      simp [String.toList_join]
    rw [hfirst, List.splitOnP_append_cons_of_forall_mem hline '\n' rfl, ih hlines]
    rfl

/-! ## §2 A record -/

theorem flatMap_indent {cs : List Char} (h : ∀ c ∈ cs, isLineEnd c = false) :
    cs.flatMap Record.line.indent = cs := by
  induction cs with
  | nil => rfl
  | cons c cs ih =>
    obtain ⟨hc, hcs⟩ := List.forall_mem_cons.mp h
    have hfeed : c ≠ '\n' := by rintro rfl; cases hc
    rw [List.flatMap_cons, ih hcs, Record.line.indent, if_neg hfeed]
    rfl

/-- A message that is a single line stands behind the head of its record as it is. -/
theorem line_eq {r : Record} (h : SingleLine r.message) :
    r.line = s!"[{r.level.column} {r.target.name}] " ++ r.message := by
  rw [Record.line, flatMap_indent h, String.ofList_toList]

theorem plain_head (r : Record) : Plain s!"[{r.level.column} {r.target.name}] " := by
  have hlevel : ∀ level : Level, Plain level.column := by
    intro level
    cases level <;> decide
  have htarget : ∀ target : Target, Plain target.name := by
    intro target
    cases target <;> decide +kernel
  exact .append (.append (.append (.append (by decide) (hlevel _)) (by decide)) (htarget _))
    (by decide)

theorem logLine_line {r : Record} (h : LogLine r.message) : LogLine r.line := by
  rw [line_eq h.single]
  exact h.behind (plain_head r)

/-- The line of a record without control sequences. -/
def shownLine (r : Record) : String := String.ofList (Text.visible r.line.toList)

theorem singleLine_shownLine {r : Record} (h : SingleLine r.line) : SingleLine (shownLine r) :=
  singleLine_ofList.mpr fun c hc => h c ((Text.Reading.visible_sublist _ _).subset hc)

/-- The text of a record is one line, and the line feed behind it is shown. -/
theorem text_eq_shownLine {r : Record} (h : LogLine r.line) : r.text = shownLine r ++ "\n" := by
  have hfeed : (Text.Reading.text.after r.line.toList).visible ['\n'] = ['\n'] := by
    rw [Text.Reading.visible, if_pos (Text.Reading.shows_newline h.ends)]
    rfl
  rw [Record.text, Text.visible, Text.Reading.visible_append, hfeed, String.ofList_append]
  rfl

theorem sayable_endRecords {source : String} :
    ∀ r ∈ endRecords (parseText source).value, Sayable r.message := by
  cases hvalue : (parseText source).value with
  | ok f =>
    refine List.forall_mem_singleton.mpr (Plain.sayable ?_)
    exact .append (.append (by decide +kernel) (plain_toString _)) (by decide +kernel)
  | error f =>
    have hcomplaint := sayable_complaint hvalue
    cases f with
    | lexical offset message =>
      have hplace : Plain s!"lexical error at offset {offset}: " :=
        .append (.append (by decide +kernel) (plain_toString _)) (by decide +kernel)
      exact List.forall_mem_singleton.mpr (hplace.sayable.append hcomplaint)
    | _ => exact List.forall_mem_nil _

theorem sayable_log_parseText (source : String) :
    ∀ r ∈ (parseText source).log, Sayable r.message := by
  obtain ⟨ns, -, hlog, -⟩ := log_parseText source
  rw [hlog]
  refine List.forall_mem_cons.mpr ⟨Plain.sayable ?_, List.forall_mem_append.mpr
    ⟨List.forall_mem_map.mpr fun n _ => Plain.sayable ?_, sayable_endRecords⟩⟩
  · exact .append (.append (by decide +kernel) (plain_toString _)) (by decide +kernel)
  · have hspan : Plain s!"Span \x7b start: {n.span.start}, end: {n.span.stop} \x7d" :=
      .append (.append (.append (.append (by decide +kernel) (plain_toString _)) (by decide))
        (plain_toString _)) (by decide)
    exact .append (by decide +kernel) hspan

theorem sayable_log_parseBytes (bytes : ByteArray) (name : Option String) :
    ∀ r ∈ (parseBytes bytes name).log, Sayable r.message := by
  unfold parseBytes
  cases Text.decode bytes with
  | error valid => exact List.forall_mem_nil _
  | ok source =>
    exact List.forall_mem_append.mpr ⟨sayable_log_parseText source, List.forall_mem_nil _⟩

theorem sayable_of_parseBytes {bytes : ByteArray} {name : Option String} {e : ParseError}
    (h : (parseBytes bytes name).value = .error e) :
    ∃ fault, e = .of fault name ∧ Sayable fault.message := by
  obtain ⟨fault, rfl, hfault⟩ := parseBytes_eq_error_iff.mp h
  refine ⟨fault, rfl, ?_⟩
  rcases hfault with ⟨valid, -, rfl⟩ | ⟨source, -, hsource⟩
  · have hcomplaint : Plain "invalid utf-8" := by decide
    exact Fault.sayable_message hcomplaint.sayable
  · exact sayable_of_parseText hsource

section

variable {o : Options} {read : String → Except ReadError ByteArray} {path : String}

/-- What is said about a file makes lines of the log, whatever the file holds, if its name can stand
in front, and if so is what else is said when it cannot be read. -/
theorem logLine_of_mem_lintContent (hpath : LogLine path) {content : Except ReadError ByteArray}
    (hcause : ∀ cause, content = .error cause → Sayable cause.message) :
    ∀ r ∈ (lintContent o path content).log, LogLine r.message := by
  cases content with
  | error cause => exact List.forall_mem_singleton.mpr (hpath.append_colon (hcause cause rfl))
  | ok bytes =>
    have hparse : ∀ r ∈ (parseBytes bytes (some path)).log, LogLine r.message :=
      fun r hr => (sayable_log_parseBytes _ _ r hr).logLine
    cases hvalue : (parseBytes bytes (some path)).value with
    | error e =>
      obtain ⟨fault, rfl, hfault⟩ := sayable_of_parseBytes hvalue
      rw [lintContent_of_malformed hvalue]
      exact List.forall_mem_append.mpr
        ⟨hparse, List.forall_mem_singleton.mpr (hpath.append_colon hfault)⟩
    | ok f =>
      have hcount : LogLine s!"{path}: {(wanted o f).length} problems" := by
        have hproblems : Plain (toString (wanted o f).length ++ " problems") :=
          (plain_toString _).append (by decide)
        have hnamed := hpath.append_colon hproblems.sayable
        rwa [← String.append_assoc] at hnamed
      rw [lintContent_of_parsed hvalue]
      exact List.forall_mem_append.mpr ⟨List.forall_mem_append.mpr
        ⟨hparse, List.forall_mem_singleton.mpr hcount⟩, List.forall_mem_singleton.mpr hcount⟩

theorem logLine_of_mem_lintFiles {paths : List String} (hpaths : ∀ path ∈ paths, LogLine path)
    (hcauses : ∀ path ∈ paths, ∀ cause, read path = .error cause → Sayable cause.message) :
    ∀ r ∈ (lintFiles o read paths).log, LogLine r.message := by
  induction paths with
  | nil => exact List.forall_mem_nil _
  | cons path paths ih =>
    rw [List.forall_mem_cons] at hpaths hcauses
    have hfirst := logLine_of_mem_lintContent (o := o) hpaths.1 hcauses.1
    have hothers := ih hpaths.2 hcauses.2
    rw [lintFiles_cons]
    exact List.forall_mem_append.mpr ⟨hfirst, List.forall_mem_append.mpr
      ⟨hothers, List.forall_mem_nil _⟩⟩

/-- What is wrong with a file is one line of the log, whatever the file holds, if neither its name
nor whatever else keeps it from being read has a line break or an escape character. -/
theorem text_of_failure (hsingle : SingleLine path) (hescape : '\x1b' ∉ path.toList)
    (hcause : ∀ cause, read path = .error cause →
      SingleLine cause.message ∧ '\x1b' ∉ cause.message.toList)
    {e : FileError} (h : (parseFile read path).value = .error e) :
    ∃ line, SingleLine line ∧ (failureRecord e).text = line ++ "\n" := by
  have hmessage : LogLine (failureRecord e).message := by
    rcases parseFile_eq_error_iff.mp h with ⟨cause, hread, rfl⟩ | ⟨bytes, e', -, hvalue, rfl⟩
    · obtain ⟨hsingle', hescape'⟩ := hcause cause hread
      have hnone : '\x1b' ∉ (path ++ ": " ++ cause.message).toList := by
        simp only [String.toList_append, List.mem_append, not_or]
        exact ⟨⟨hescape, by decide⟩, hescape'⟩
      exact logLine_of_notMem (.append (.append hsingle (by decide)) hsingle') hnone
    · obtain ⟨fault, rfl, hfault⟩ := sayable_of_parseBytes hvalue
      exact (logLine_of_notMem hsingle hescape).append_colon hfault
  have hline := logLine_line hmessage
  exact ⟨shownLine (failureRecord e), singleLine_shownLine hline.single, text_eq_shownLine hline⟩

theorem texts_eq_shownLines {x : Logged Report} (h : ∀ r ∈ x.log, LogLine r.message) :
    logTexts o x = ((x.shown o.logLevel).map shownLine).map (· ++ "\n") := by
  rw [logTexts, List.map_map]
  refine List.map_congr_left fun r hr => ?_
  exact text_eq_shownLine (logLine_line (h r (List.mem_filter.mp hr).1))

/-- Lines that each have a line feed behind them make a text that ends with one. -/
theorem join_lines (lines : List String) :
    String.join (lines.map (· ++ "\n")) = "" ∨
      ∃ s, String.join (lines.map (· ++ "\n")) = s ++ "\n" := by
  rcases List.eq_nil_or_concat lines with rfl | ⟨front, last, rfl⟩
  · exact .inl rfl
  · refine .inr ⟨String.join (front.map (· ++ "\n")) ++ last, ?_⟩
    simp [String.join_append, String.append_assoc]

/-- The log of a run over two lists of files has the lines of the runs over each, if the first of
these logs ends its last line.  It does if the names of its files are single lines that leave no
string for a device or the system open, and if what else keeps these files from being read is told
without control characters. -/
theorem lines_run_append {as : List String} (hsingle : ∀ path ∈ as, SingleLine path)
    (hends : ∀ path ∈ as, EndsStrings path)
    (hcauses : ∀ path ∈ as, ∀ cause, read path = .error cause → Plain cause.message)
    (bs : List String) :
    lines (logText o (run { o with files := as ++ bs } read)) =
      lines (logText o (run { o with files := as } read)) ++
        lines (logText o (run { o with files := bs } read)) := by
  have hlog : ∀ r ∈ (lintFiles o read as).log, LogLine r.message :=
    logLine_of_mem_lintFiles (fun path hpath => ⟨hsingle path hpath, hends path hpath⟩)
      fun path hpath cause hread => (hcauses path hpath cause hread).sayable
  simp only [run, lintFiles_with_files]
  refine lines_logText_append ?_ bs
  rw [logText, ← logTexts, texts_eq_shownLines hlog]
  exact join_lines _

end

end Command

open Command

end ProtoSchema
