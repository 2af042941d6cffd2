import ProtoSchema.Command
import ProtoSchema.Proofs.Records

/-!
# Files are linted independently

What a run says about a file does not depend on the other files: a run over two lists is the runs
over each, one behind the other, with both outputs, both logs and a status that forgets no failure.
What it says about one file depends on whether the file can be read as a schema (`parseFile`).

That a failure is reported once, and a success not at all, needs that reading writes no errors
into the log (`NoErrors`): what it finds wrong is its result, and the command is what reports it.

The program writes file by file, and what it has written in the end is the output and the log of a
run (`World.run_ofFiles`).

* §1 logs without errors, §2 reading a file, §3 the log of a file, §4 runs, §5 writing as it goes.
-/

namespace ProtoSchema

open ProtoSchema.Parser ProtoSchema.Grammar

/-! ## §1 Logs without errors -/

/-- Records that are no errors. -/
def NoErrors (log : List Record) : Prop := ∀ r ∈ log, r.level ≠ .error

theorem noErrors_nil : NoErrors [] := by
  rintro _ ⟨⟩

theorem noErrors_append {log log' : List Record} :
    NoErrors (log ++ log') ↔ NoErrors log ∧ NoErrors log' := List.forall_mem_append

theorem noErrors_endRecords (result : Except Fault File) : NoErrors (endRecords result) := by
  cases result with
  | ok f => simp [NoErrors, endRecords]
  | error f => cases f <;> simp [NoErrors, endRecords, Fault.records, lexicalRecord]

theorem noErrors_parseText (source : String) : NoErrors (parseText source).log := by
  obtain ⟨ns, -, hlog, -⟩ := log_parseText source
  rw [hlog]
  refine List.forall_mem_cons.mpr ⟨by simp [startRecord], ?_⟩
  refine noErrors_append.mpr ⟨?_, noErrors_endRecords _⟩
  exact List.forall_mem_map.mpr fun n _ => by simp [declarationRecord]

theorem noErrors_parseBytes (bytes : ByteArray) (name : Option String) :
    NoErrors (parseBytes bytes name).log := by
  unfold parseBytes
  cases Text.decode bytes with
  | error valid => exact noErrors_nil
  | ok source => exact noErrors_append.mpr ⟨noErrors_parseText source, noErrors_nil⟩

/-! ## §2 Reading a file -/

theorem mapError_eq_ok_iff {ε ε' α : Type} {g : ε → ε'} {x : Except ε α} {a : α} :
    x.mapError g = .ok a ↔ x = .ok a := by
  cases x with
  | ok b =>
    show Except.ok b = _ ↔ _
    simp
  | error e =>
    show Except.error (g e) = _ ↔ _
    simp

theorem mapError_eq_error_iff {ε ε' α : Type} {g : ε → ε'} {x : Except ε α} {e' : ε'} :
    x.mapError g = .error e' ↔ ∃ e, e' = g e ∧ x = .error e := by
  cases x with
  | ok a =>
    show Except.ok a = _ ↔ _
    simp
  | error e =>
    show Except.error (g e) = _ ↔ _
    simp [eq_comm]

theorem parseBytes_eq_error_iff {bytes : ByteArray} {name : Option String} {e : ParseError} :
    (parseBytes bytes name).value = .error e ↔
      ∃ fault, e = .of fault name ∧
        ((∃ valid, Text.decode bytes = .error valid ∧ fault = .invalidUtf8 valid) ∨
          ∃ source, Text.decode bytes = .ok source ∧ (parseText source).value = .error fault) := by
  unfold parseBytes
  cases Text.decode bytes with
  | error valid => simp [eq_comm]
  | ok source => simp [mapError_eq_error_iff]

section

variable {read : String → Except ReadError ByteArray} {path : String}

theorem parseFile_eq_ok_iff {f : File} :
    (parseFile read path).value = .ok f ↔
      ∃ bytes, read path = .ok bytes ∧ (parseBytes bytes (some path)).value = .ok f := by
  unfold parseFile withFile
  cases read path with
  | error cause => simp
  | ok bytes => simp [mapError_eq_ok_iff]

theorem parseFile_eq_error_iff {e : FileError} :
    (parseFile read path).value = .error e ↔
      (∃ cause, read path = .error cause ∧ e = .unreadable path cause) ∨
        ∃ bytes e', read path = .ok bytes ∧ (parseBytes bytes (some path)).value = .error e' ∧
          e = .malformed e' := by
  unfold parseFile withFile
  cases read path with
  | error cause => simp [eq_comm]
  | ok bytes => simp [mapError_eq_error_iff, and_comm]

end

namespace Command

/-! ## §3 One file -/

/-- The records of errors in the log, as far as the log is shown. -/
def shownErrors {α : Type} (o : Options) (x : Logged α) : List Record :=
  (x.shown o.logLevel).filter (·.level = .error)

/-- However little talk is wanted, errors are shown. -/
theorem shows_error (o : Options) : o.logLevel.shows .error = true := by
  unfold Level.shows
  exact decide_eq_true (Nat.zero_le _)

theorem shownErrors_eq {α : Type} (o : Options) (x : Logged α) :
    shownErrors o x = x.log.filter (·.level = .error) := by
  unfold shownErrors Logged.shown
  rw [List.filter_filter]
  apply List.filter_congr
  intro r _
  by_cases h : r.level = .error
  · simp [h, shows_error]
  · simp [h]

theorem filter_of_noErrors {log : List Record} (h : NoErrors log) :
    log.filter (·.level = .error) = [] := by
  rw [List.filter_eq_nil_iff]
  intro r hr
  simp [h r hr]

theorem bind_of_value {α β : Type} {x : Logged α} {a : α} (h : x.value = a) (g : α → Logged β) :
    x >>= g = ⟨(g a).value, x.log ++ (g a).log⟩ := by
  subst h
  rfl

/-- The problems of a file that are sure enough for the options, in the order of the rules. -/
def wanted (o : Options) (f : File) : List Problem :=
  (Rule.all.flatMap (·.problems f)).filter fun p => o.minConfidence ≤ p.confidence.toFloat

section

variable {o : Options} {path : String} {bytes : ByteArray}

theorem lintContent_of_malformed {e : ParseError}
    (h : (parseBytes bytes (some path)).value = .error e) :
    lintContent o path (.ok bytes) =
      ⟨⟨[], true⟩, (parseBytes bytes (some path)).log ++ [⟨.error, .command, e.message⟩]⟩ := by
  have hlint : o.linter.lint path bytes = ⟨.error e, (parseBytes bytes (some path)).log ++ []⟩ := by
    rw [Linter.lint, bind_of_value h]
    rfl
  rw [List.append_nil] at hlint
  rw [lintContent, hlint]
  rfl

theorem lintContent_of_parsed {f : File} (h : (parseBytes bytes (some path)).value = .ok f) :
    lintContent o path (.ok bytes) =
      ⟨⟨(wanted o f).map (o.format.line path), false⟩,
        (parseBytes bytes (some path)).log ++
          [⟨.debug, .lint, s!"{path}: {(wanted o f).length} problems"⟩] ++
          [⟨.info, .command, s!"{path}: {(wanted o f).length} problems"⟩]⟩ := by
  have hlint : o.linter.lint path bytes = ⟨.ok (wanted o f), (parseBytes bytes (some path)).log ++
      [⟨.debug, .lint, s!"{path}: {(wanted o f).length} problems"⟩]⟩ := by
    rw [Linter.lint, bind_of_value h]
    rfl
  rw [lintContent, hlint]
  rfl

variable {read : String → Except ReadError ByteArray}

/-- The record that reports why a file gives no tree. -/
def failureRecord : FileError → Record
  | .unreadable path cause => ⟨.error, .command, s!"{path}: " ++ cause.message⟩
  | .malformed e => ⟨.error, .command, e.message⟩

theorem lintContent_of_failure {e : FileError} (h : (parseFile read path).value = .error e) :
    (lintContent o path (read path)).value = ⟨[], true⟩ ∧
      shownErrors o (lintContent o path (read path)) = [failureRecord e] := by
  rcases parseFile_eq_error_iff.mp h with ⟨cause, hread, rfl⟩ | ⟨bytes, e', hread, hvalue, rfl⟩
  · rw [hread]
    exact ⟨rfl, by rw [shownErrors_eq]; rfl⟩
  · rw [hread, lintContent_of_malformed hvalue]
    refine ⟨rfl, ?_⟩
    rw [shownErrors_eq, List.filter_append, filter_of_noErrors (noErrors_parseBytes _ _)]
    rfl

/-- A file that gives a tree is reported by its problems, and by no error. -/
theorem lintContent_of_ok {f : File} (h : (parseFile read path).value = .ok f) :
    (lintContent o path (read path)).value = ⟨(wanted o f).map (o.format.line path), false⟩ ∧
      shownErrors o (lintContent o path (read path)) = [] := by
  obtain ⟨bytes, hread, hvalue⟩ := parseFile_eq_ok_iff.mp h
  rw [hread, lintContent_of_parsed hvalue]
  refine ⟨rfl, ?_⟩
  rw [shownErrors_eq, List.filter_append, List.filter_append,
    filter_of_noErrors (noErrors_parseBytes _ _)]
  rfl

/-! ## §4 Runs -/

/-- The texts of the records in the log of a run, as far as it is shown.  Mostly each is a line, but
a line feed in the name of a file makes several lines, and a string for a device or the system that
a name leaves open takes the end of the line away. -/
def logTexts {α : Type} (o : Options) (x : Logged α) : List String :=
  (x.shown o.logLevel).map Record.text

theorem logTexts_append (o : Options) (read : String → Except ReadError ByteArray)
    (as bs : List String) :
    logTexts o (lintFiles o read (as ++ bs)) =
      logTexts o (lintFiles o read as) ++ logTexts o (lintFiles o read bs) := by
  rw [lintFiles_append]
  simp only [logTexts, Logged.shown, Logged.log_bind, Logged.log_pure, List.append_nil,
    List.filter_append, List.map_append]

theorem logText_append (o : Options) (read : String → Except ReadError ByteArray)
    (as bs : List String) :
    logText o (lintFiles o read (as ++ bs)) =
      logText o (lintFiles o read as) ++ logText o (lintFiles o read bs) :=
  (congrArg String.join (logTexts_append o read as bs)).trans (String.join_append ..)

theorem lintFiles_singleton (o : Options) (read : String → Except ReadError ByteArray)
    (path : String) : lintFiles o read [path] = lintContent o path (read path) := by
  simp [lintFiles_cons, lintFiles_nil, Report.append, bind, pure, Logged.bind, Logged.pure]

/-- The list of files is the only thing in the options that going through files does not look at. -/
theorem lintFiles_with_files (o : Options) (read : String → Except ReadError ByteArray)
    (files paths : List String) :
    lintFiles { o with files } read paths = lintFiles o read paths := by
  induction paths with
  | nil => rfl
  | cons path paths ih =>
    simp only [lintFiles_cons, ih]
    rfl

theorem output_append (r r' : Report) : (r.append r').output = r.output ++ r'.output := by
  simp only [Report.output, Report.append, List.map_append, String.join_append]

end

/-- The lines of a text.  What stands behind its last line feed is one too, if it is not empty. -/
def lines (s : String) : List (List Char) :=
  let pieces := s.toList.splitOnP (· = '\n')
  if pieces.getLast? = some [] then pieces.dropLast else pieces

theorem lines_append {s t : String} (h : s = "" ∨ ∃ s', s = s' ++ "\n") :
    lines (s ++ t) = lines s ++ lines t := by
  rcases h with rfl | ⟨s', rfl⟩
  · rw [String.empty_append]
    rfl
  · have hpieces : ∀ cs : List Char, List.splitOnP (· = '\n') (s'.toList ++ '\n' :: cs) =
        List.splitOnP (· = '\n') s'.toList ++ List.splitOnP (· = '\n') cs :=
      fun cs => List.splitOnP_append_cons _ _ (by decide)
    have hfirst : (s' ++ "\n").toList = s'.toList ++ '\n' :: [] := by simp
    have hboth : (s' ++ "\n" ++ t).toList = s'.toList ++ '\n' :: t.toList := by simp
    obtain ⟨front, last, hsplit⟩ : ∃ front last,
        List.splitOnP (· = '\n') t.toList = front ++ [last] :=
      ⟨_, _, (List.dropLast_concat_getLast (List.splitOnP_ne_nil _ _)).symm⟩
    have hlines : lines (s' ++ "\n") = List.splitOnP (· = '\n') s'.toList := by
      simp [lines, hfirst, hpieces]
    rw [hlines]
    simp only [lines, hboth, hpieces, hsplit, ← List.append_assoc, List.getLast?_concat,
      List.dropLast_concat]
    split
    · rfl
    · rw [List.append_assoc]

/-- The lines that two logs hold together are those of the first and those of the second, if the
first log ends its last line. -/
theorem lines_logText_append {o : Options} {read : String → Except ReadError ByteArray}
    {as : List String}
    (h : logText o (lintFiles o read as) = "" ∨ ∃ s, logText o (lintFiles o read as) = s ++ "\n")
    (bs : List String) :
    lines (logText o (lintFiles o read (as ++ bs))) =
      lines (logText o (lintFiles o read as)) ++ lines (logText o (lintFiles o read bs)) := by
  rw [logText_append, lines_append h]

namespace World

/-- A world whose files stay as they are, and the texts on its two output streams. -/
def ofFiles (read : String → Except ReadError ByteArray) : World (StateM (String × String)) where
  read path := pure (read path)
  writeLog text := modify fun (log, output) => (log ++ text, output)
  print text := modify fun (log, output) => (log, output ++ text)

/-- What is written file by file is, in the end, the text of the log of all the files, and their
output. -/
theorem run_ofFiles (o : Options) (read : String → Except ReadError ByteArray)
    (log output : String) :
    ((ofFiles read).run o).run (log, output) =
      ((Command.run o read).value, log ++ logText o (Command.run o read),
        output ++ (Command.run o read).value.output) := by
  unfold World.run Command.run
  induction o.files generalizing log output with
  | nil =>
    show (_, _, _) = (_, log ++ "", output ++ "")
    rw [String.append_empty, String.append_empty]
    rfl
  | cons path paths ih =>
    let first := lintContent o path (read path)
    have hcons : (reportEach ((ofFiles read).reportOn o) (path :: paths)).run (log, output) =
        let (others, texts) := (reportEach ((ofFiles read).reportOn o) paths).run
          (log ++ logText o first, output ++ first.value.output)
        (first.value.append others, texts) := rfl
    have hlog : logText o (lintFiles o read (path :: paths)) =
        logText o first ++ logText o (lintFiles o read paths) := by
      rw [← List.singleton_append, logText_append, lintFiles_singleton]
    have hreport : (lintFiles o read (path :: paths)).value =
        first.value.append (lintFiles o read paths).value := rfl
    rw [hcons, ih, hlog, hreport, output_append, String.append_assoc, String.append_assoc]

end World

end Command

end ProtoSchema
