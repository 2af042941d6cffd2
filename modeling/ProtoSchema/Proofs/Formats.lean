import ProtoSchema.Proofs.JsonReading
import ProtoSchema.Proofs.RunLines

/-!
# The two output formats tell the same

A run reports the same problems in both formats, and nothing else of it hangs on the format
(`lintFiles_format`).  A line of JSON is read as an object with five members, which are the path and
the fields of the problem (`read?_line`), so the item of text is made up from it again
(`formats_agree`).

* §1 arguments, §2 lines of JSON, §3 runs.
-/

namespace ProtoSchema.Command

/-! ## §1 Arguments -/

namespace Settings

/-- The settings with a format chosen. -/
def withFormat (s : Settings) (format : Format) : Settings := { s with format := some format }

/-- An outcome that is the same for all formats, but for the format. -/
def Uniform (out : Format → Except UsageError Settings) : Prop :=
  (∃ e, ∀ format, out format = .error e) ∨
    ∃ s : Settings, ∀ format, out format = .ok (s.withFormat format)

theorem Uniform.bind {out : Format → Except UsageError Settings}
    {g : Settings → Except UsageError Settings} (h : Uniform out)
    (hg : ∀ s : Settings, Uniform fun format => g (s.withFormat format)) :
    Uniform fun format => out format >>= g := by
  rcases h with ⟨e, he⟩ | ⟨s, hs⟩
  · exact .inl ⟨e, fun format => congrArg (· >>= g) (he format)⟩
  · have hbind : ∀ format, out format >>= g = g (s.withFormat format) := fun format =>
      congrArg (· >>= g) (hs format)
    simpa only [hbind] using hg s

theorem uniform_error (e : UsageError) : Uniform fun _ => .error e := .inl ⟨e, fun _ => rfl⟩

theorem uniform_addFile (s : Settings) (file : String) :
    Uniform fun format => (s.withFormat format).addFile file := by
  unfold addFile
  split
  · exact uniform_error _
  · exact .inr ⟨{ s with files := s.files ++ [file] }, fun _ => rfl⟩

theorem uniform_addFiles (s : Settings) (files : List String) :
    Uniform fun format => files.foldlM addFile (s.withFormat format) := by
  induction files generalizing s with
  | nil => exact .inr ⟨s, fun _ => rfl⟩
  | cons file files ih => exact (uniform_addFile s file).bind ih

theorem uniform_setValue (s : Settings) (name value : String) :
    Uniform fun format => (s.withFormat format).setValue name value := by
  unfold setValue
  split
  · dsimp only [withFormat]
    split
    · exact uniform_error _
    · exact uniform_error _
    · next n _ _ => exact .inr ⟨{ s with minConfidence := some n.toFloat }, fun _ => rfl⟩
  · -- a format has been chosen already
    exact uniform_error (.repeatedOption name)

theorem uniform_addLetters (arg : String) (s : Settings) (cs : List Char) :
    Uniform fun format => addLetters arg (s.withFormat format) cs := by
  induction cs generalizing s with
  | nil => exact .inr ⟨s, fun _ => rfl⟩
  | cons c cs ih =>
    by_cases hv : c = 'v'
    · subst hv
      exact ih { s with verbosity := s.verbosity + 1 }
    · by_cases hh : c = 'h'
      · subst hh
        exact uniform_error .helpWanted
      · have hunknown : ∀ s, addLetters arg s (c :: cs) = .error (.unknownOption arg) := by
          intro s
          rw [addLetters]
          · simp
          · simp [hv]
          · simp [hh]
        simpa only [hunknown] using uniform_error _

/-- By induction on the number of arguments, for an option may take a second one. -/
theorem uniform_readArgs (s : Settings) (args : List String) :
    Uniform fun format => readArgs (s.withFormat format) args := by
  induction hn : args.length using Nat.strongRecOn generalizing s args with
  | ind n ih =>
    subst hn
    have hmore : ∀ (rest : List String), rest.length < args.length → ∀ s : Settings,
        Uniform fun format => readArgs (s.withFormat format) rest :=
      fun rest hrest s => ih rest.length hrest s rest rfl
    cases args with
    | nil => exact .inr ⟨s, fun _ => rfl⟩
    | cons arg args =>
      have hargs := hmore args (Nat.lt_succ_self _)
      unfold readArgs
      split
      · exact uniform_addFiles s args
      split
      · exact (uniform_addFile s arg).bind hargs
      split
      · exact (uniform_addLetters arg s _).bind hargs
      split
      · split
        · exact (uniform_setValue s _ _).bind hargs
        · split
          · exact uniform_error _
          · exact uniform_error _
      · split
        · split
          · exact uniform_error _
          · next value args =>
            split
            · exact uniform_error _
            · have hvalue := hmore args (by simp only [List.length_cons]; omega)
              exact (uniform_setValue s _ _).bind hvalue
        · split
          · exact hargs { s with verbosity := s.verbosity + 1 }
          · split
            · exact uniform_error _
            · exact uniform_error _

end Settings

/-- How a format is called in the arguments. -/
def Format.word : Format → String
  | text => "text"
  | json => "json"

theorem ofArgs_eq (args : List String) :
    Options.ofArgs args = (Settings.readArgs {} args).bind fun s =>
      if s.files.isEmpty then .error .noFiles
      else .ok ⟨s.files, s.minConfidence.getD (Decimal.toFloat ⟨8, -1⟩), s.format.getD .text,
        s.verbosity⟩ := by
  unfold Options.ofArgs
  cases Settings.readArgs {} args with
  | error => rfl
  | ok s =>
    show (if s.files.isEmpty then _ else _) = if s.files.isEmpty then _ else _
    split <;> rfl

/-- Arguments behind a format are read alike in both formats. -/
theorem ofArgs_format (args : List String) :
    (∃ e, ∀ format : Format, Options.ofArgs ("--format" :: format.word :: args) = .error e) ∨
      ∃ o : Options, ∀ format : Format,
        Options.ofArgs ("--format" :: format.word :: args) = .ok { o with format } := by
  have hfirst : ∀ format : Format, Settings.readArgs {} ("--format" :: format.word :: args) =
      Settings.readArgs (Settings.withFormat {} format) args := by
    intro format
    cases format <;> rfl
  simp only [ofArgs_eq, hfirst]
  rcases Settings.uniform_readArgs {} args with ⟨e, he⟩ | ⟨s, hs⟩
  · exact .inl ⟨e, fun format => congrArg (Except.bind · _) (he format)⟩
  · simp only [hs]
    by_cases hnone : s.files.isEmpty = true
    · exact .inl ⟨.noFiles, fun _ => if_pos hnone⟩
    · exact .inr ⟨⟨s.files, s.minConfidence.getD (Decimal.toFloat ⟨8, -1⟩), .text, s.verbosity⟩,
        fun _ => if_neg hnone⟩

/-! ## §2 Lines of JSON -/

/-- The object that tells of a problem. -/
def reportObject (path : String) (p : Problem) : Json :=
  .object [("path", .string path), ("position", .number false ⟨p.position, 0⟩),
    ("text", .string p.text), ("confidence", .number false p.confidence),
    ("category", .string p.category)]

/-- The keys of a line are written as strings are. -/
theorem toList_line (path : String) (p : Problem) :
    (Format.json.line path p).toList =
      '{' :: ((Text.jsonString "path").toList ++ ':' :: ((Text.jsonString path).toList ++
      ',' :: ((Text.jsonString "position").toList ++ ':' :: ((toString p.position).toList ++
      ',' :: ((Text.jsonString "text").toList ++ ':' :: ((Text.jsonString p.text).toList ++
      ',' :: ((Text.jsonString "confidence").toList ++ ':' :: (p.confidence.text.toList ++
      ',' :: ((Text.jsonString "category").toList ++ ':' :: ((Text.jsonString p.category).toList ++
      ['}'])))))))))) := by
  have hpath : "\x7b\"path\":".toList = '{' :: ((Text.jsonString "path").toList ++ [':']) := by
    decide
  have hposition : ",\"position\":".toList =
      ',' :: ((Text.jsonString "position").toList ++ [':']) := by
    decide
  have htext : ",\"text\":".toList = ',' :: ((Text.jsonString "text").toList ++ [':']) := by
    decide
  have hconfidence : ",\"confidence\":".toList =
      ',' :: ((Text.jsonString "confidence").toList ++ [':']) := by
    decide
  have hcategory : ",\"category\":".toList =
      ',' :: ((Text.jsonString "category").toList ++ [':']) := by
    decide
  have hend : "\x7d".toList = ['}'] := rfl
  unfold Format.line
  simp only [String.toList_append, hpath, hposition, htext, hconfidence, hcategory, hend,
    List.append_assoc, List.cons_append, List.nil_append]

theorem read?_line (path : String) {p : Problem} (h : p.confidence = ⟨9, -1⟩) :
    Json.read? (Format.json.line path p) = some (reportObject path p) := by
  have hsure : p.confidence.text = "0.9" := by rw [h]; decide
  have hnumber := jsonTokens?_word (w := "0.9".toList) (v := .number false ⟨9, -1⟩) (by decide)
    (List.all_eq_true.mp (by decide)) rfl (c := ',') (by decide)
  rw [Json.read?, toList_line, hsure]
  simp (disch := decide) only [jsonTokens?_mark, jsonTokens?_string, jsonTokens?_toString, hnumber,
    jsonTokens?_nil, Option.map_some, Option.bind_some]
  rw [reportObject, h]
  rfl

/-- JSON strings escape line breaks. -/
theorem isLineEnd_jsonChar (c : Char) : ∀ d ∈ Text.jsonChar c, isLineEnd d = false := by
  unfold Text.jsonChar
  -- seven characters have escapes of their own
  iterate 7
    split
    · exact any_eq_false_iff.mp (by decide)
  split
  · refine List.forall_mem_cons.mpr ⟨rfl, List.forall_mem_cons.mpr ⟨rfl, ?_⟩⟩
    refine List.forall_mem_append.mpr ⟨fun d hd => ?_, fun d hd => ?_⟩
    · rw [List.eq_of_mem_replicate hd]
      rfl
    · exact isLineEnd_of_not_control (isControl_hexDigits hd).1
  · next hfeed _ hreturn _ =>
    refine List.forall_mem_singleton.mpr ?_
    simp [isLineEnd, hfeed, hreturn]

theorem singleLine_jsonString (s : String) : SingleLine (Text.jsonString s) := by
  refine singleLine_ofList.mpr (List.forall_mem_cons.mpr ⟨rfl, ?_⟩)
  refine List.forall_mem_append.mpr ⟨?_, List.forall_mem_singleton.mpr rfl⟩
  exact List.forall_mem_flatMap.mpr fun c _ => isLineEnd_jsonChar c

theorem singleLine_json (path : String) {p : Problem} (h : p.confidence = ⟨9, -1⟩) :
    SingleLine (Format.json.line path p) := by
  have hsure : SingleLine p.confidence.text := by rw [h]; decide
  have hkey := fun key => singleLine_jsonString key
  rw [SingleLine, toList_line]
  simp only [List.forall_mem_cons, List.forall_mem_append]
  exact ⟨rfl, hkey _, rfl, hkey path, rfl, hkey _, rfl, (plain_toString _).single, rfl, hkey _, rfl,
    hkey p.text, rfl, hkey _, rfl, hsure, rfl, hkey _, rfl, hkey p.category, rfl,
    List.forall_mem_nil _⟩

/-! ## §3 Runs -/

theorem lintContent_format (o : Options) (format : Format) (path : String)
    (content : Except ReadError ByteArray) :
    (lintContent { o with format } path content).log = (lintContent o path content).log ∧
      (lintContent { o with format } path content).value.failed =
        (lintContent o path content).value.failed := by
  cases content with
  | error => exact ⟨rfl, rfl⟩
  | ok bytes =>
    have hlinter : ({ o with format } : Options).linter = o.linter := rfl
    simp only [lintContent, hlinter, Logged.log_bind, Logged.value_bind]
    cases (o.linter.lint path bytes).value <;> exact ⟨rfl, rfl⟩

/-- The log of a run and its exit status do not hang on the format. -/
theorem lintFiles_format (o : Options) (format : Format)
    (read : String → Except ReadError ByteArray) (paths : List String) :
    (lintFiles { o with format } read paths).log = (lintFiles o read paths).log ∧
      (lintFiles { o with format } read paths).value.failed =
        (lintFiles o read paths).value.failed := by
  induction paths with
  | nil => exact ⟨rfl, rfl⟩
  | cons path paths ih =>
    obtain ⟨hlog, hfailed⟩ := lintContent_format o format path (read path)
    simp only [lintFiles_cons, Logged.log_bind, Logged.value_bind, Logged.log_pure, Logged.value_pure,
      Report.append, hlog, hfailed, ih.1, ih.2, and_self]

theorem confidence_of_mem_foundProblems {o : Options}
    {read : String → Except ReadError ByteArray} {paths : List String} {found : String × Problem}
    (h : found ∈ foundProblems o read paths) : found.2.confidence = ⟨9, -1⟩ := by
  obtain ⟨path, -, h⟩ := List.mem_flatMap.mp h
  split at h
  · obtain ⟨p, hp, rfl⟩ := List.mem_map.mp h
    obtain ⟨r, -, hr⟩ := List.mem_flatMap.mp (List.mem_filter.mp hp).1
    obtain ⟨part, -, hpart⟩ := exists_complaint_of_mem_problems hr
    exact confidence_of_complaint? hpart
  · cases h

/-- The item of text that a line of JSON stands for, which has five members and no others. -/
def itemOf? : Json → Option String
  | .object [("path", .string path), ("position", .number false ⟨position, 0⟩),
      ("text", .string text), ("confidence", .number _ _), ("category", .string _)] =>
    some s!"{path}:{position} {text}"
  | _ => none

theorem itemOf?_reportObject (path : String) (p : Problem) :
    itemOf? (reportObject path p) = some (Format.text.line path p) := rfl

/-- Arguments behind `--format` are wrong in both formats or in none, and then set up runs that
differ in their format only.  Such runs report the same problems in the same order.  As JSON they
have a line each, without line breaks in it, which is an object with five members, and from these
the item of text is made up.  Exit status and log are the same. -/
theorem formats_agree :
    (∀ args : List String,
      (∃ e, ∀ format : Format, Options.ofArgs ("--format" :: format.word :: args) = .error e) ∨
        ∃ o : Options, ∀ format : Format,
          Options.ofArgs ("--format" :: format.word :: args) = .ok { o with format }) ∧
    ∀ (o : Options) (read : String → Except ReadError ByteArray),
      let text := run { o with format := .text } read
      let json := run { o with format := .json } read
      text.value.lines = (foundProblems o read o.files).map (fun (path, p) =>
          s!"{path}:{p.position} {p.text}") ∧
        json.value.lines.map Json.read? = (foundProblems o read o.files).map (fun (path, p) =>
          some (reportObject path p)) ∧
        json.value.lines.map (fun line => (Json.read? line).bind itemOf?) =
          text.value.lines.map some ∧
        json.value.output.toList.splitOnP isLineEnd = json.value.lines.map String.toList ++ [[]] ∧
        json.value.exitStatus = text.value.exitStatus ∧
        logText { o with format := .json } json = logText { o with format := .text } text := by
  refine ⟨ofArgs_format, fun o read => ?_⟩
  intro text json
  have htext : text.value.lines = (foundProblems o read o.files).map fun found =>
      Format.text.line found.1 found.2 :=
    (lintFiles_reports { o with format := .text } read o.files).1
  have hjson : json.value.lines = (foundProblems o read o.files).map fun found =>
      Format.json.line found.1 found.2 :=
    (lintFiles_reports { o with format := .json } read o.files).1
  have hsure : ∀ found ∈ foundProblems o read o.files, found.2.confidence = ⟨9, -1⟩ :=
    fun _ h => confidence_of_mem_foundProblems h
  have hread : ∀ found ∈ foundProblems o read o.files,
      Json.read? (Format.json.line found.1 found.2) = some (reportObject found.1 found.2) :=
    fun found h => read?_line found.1 (hsure found h)
  obtain ⟨hlog, hfailed⟩ := lintFiles_format o .text read o.files
  obtain ⟨hlog', hfailed'⟩ := lintFiles_format o .json read o.files
  refine ⟨htext, ?_, ?_, ?_, ?_, ?_⟩
  · rw [hjson, List.map_map]
    exact List.map_congr_left hread
  · rw [hjson, htext, List.map_map, List.map_map]
    refine List.map_congr_left fun found h => ?_
    simp only [Function.comp_apply, hread found h, Option.bind_some, itemOf?_reportObject]
  · refine splitOnP_join fun line hline => ?_
    rw [hjson] at hline
    obtain ⟨found, hfound, rfl⟩ := List.mem_map.mp hline
    exact singleLine_json found.1 (hsure found hfound)
  · exact congrArg (fun failed : Bool => if failed then 1 else 0) (hfailed'.trans hfailed.symm)
  · exact congrArg (fun log => String.join ((log.filter fun r => o.logLevel.shows r.level).map
      Record.text)) (hlog'.trans hlog.symm)

/-- A quote and a line break in the name of a file are escaped. -/
example :
    Format.json.line "a\"\n" ⟨16, "b", ⟨9, -1⟩, "naming"⟩ =
      "\x7b\"path\":\"a\\\"\\n\",\"position\":16,\"text\":\"b\"," ++
        "\"confidence\":0.9,\"category\":\"naming\"\x7d" := by
  decide +kernel

end ProtoSchema.Command
