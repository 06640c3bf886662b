import MailMarkup.CommandLine
import MailMarkup.Proofs.Runs
import Mathlib.Data.List.Basic

/-!
# Reports on several files

Arguments are read in one of three ways: they name files only, an option takes the path behind it,
or the option is cut off. The report on several files is made of the reports that each of them would
have if it were named alone, so no file has an influence on another; only the exit code is shared,
and it tells whether each file has markup.
-/
namespace MailMarkup.CommandLine

/-- The first option stands last, where no path can follow it. -/
def IsCutOff (arguments : List String) : Prop :=
  ∃ before, arguments = before ++ ["--config"] ∧ "--config" ∉ before

/-- The first option is taken out with the path behind it, and all other arguments are files in
their order, whatever they look like. -/
inductive Names : List String → Option String → List String → Prop where
  | files {paths : List String} (absent : "--config" ∉ paths) : Names paths none paths
  | option {before rest : List String} {path : String} (absent : "--config" ∉ before) :
    Names (before ++ "--config" :: path :: rest) (some path) (before ++ rest)

/-- The arguments that name one file under the same option. -/
def alone (option : Option String) (path : String) : List String :=
  match option with
  | none => [path]
  | some settings => ["--config", settings, path]

variable {arguments paths before rest : List String} {option : Option String} {path : String}

/-- Arguments of any kind are read in one of the three ways. -/
theorem isCutOff_or_names (arguments : List String) :
    IsCutOff arguments ∨ ∃ option paths, Names arguments option paths := by
  by_cases present : "--config" ∈ arguments
  · obtain ⟨before, rest, rfl, absent⟩ := List.eq_append_cons_of_mem present
    cases rest with
    | nil => exact .inl ⟨before, rfl, absent⟩
    | cons path rest => exact .inr ⟨some path, before ++ rest, .option absent⟩
  · exact .inr ⟨none, arguments, .files present⟩

private theorem ne_option_of_absent (absent : "--config" ∉ before) :
    ∀ a ∈ before, decide (a ≠ "--config") = true := by
  intro a member
  rw [decide_eq_true_iff]
  rintro rfl
  exact absent member

private theorem takeWhile_of_absent (absent : "--config" ∉ before) (rest : List String) :
    (before ++ "--config" :: rest).takeWhile (· ≠ "--config") = before := by
  have run : IsRun (fun a => decide (a ≠ "--config")) before ("--config" :: rest) :=
    ⟨ne_option_of_absent absent, by simp⟩
  exact run.takeWhile_eq

theorem IsCutOff.ofArguments? (cutOff : IsCutOff arguments) :
    Invocation.ofArguments? arguments = none := by
  obtain ⟨before, rfl, absent⟩ := cutOff
  simp only [Invocation.ofArguments?, takeWhile_of_absent absent, List.drop_left]

theorem Names.ofArguments? (names : Names arguments option paths) :
    Invocation.ofArguments? arguments = some ⟨option, paths⟩ := by
  cases names with
  | files absent =>
    have whole : arguments.takeWhile (· ≠ "--config") = arguments :=
      List.takeWhile_eq_self_iff.mpr (ne_option_of_absent absent)
    simp only [Invocation.ofArguments?, whole, List.drop_length]
  | option absent =>
    simp only [Invocation.ofArguments?, takeWhile_of_absent absent, List.drop_left]

example : Invocation.ofArguments? ["a", "--config", "c", "--config"] =
    some ⟨some "c", ["a", "--config"]⟩ := by decide

/-- A file that is named among others can be named alone. -/
theorem Names.alone (names : Names arguments option paths) (member : path ∈ paths) :
    Names (alone option path) option [path] := by
  cases names with
  | files absent =>
    refine .files fun same => ?_
    cases List.mem_singleton.mp same
    exact absent member
  | option absent => exact .option List.not_mem_nil

/-- The settings that hold under an option: those of its file, or the defaults without it. -/
inductive Settles (files : Files) : Option String → Config → Prop where
  | default : Settles files none {}
  | file {path text : String} {config : Config} (read : files path = .ok text)
    (accepted : Config.ofYaml text = .ok config) : Settles files (some path) config

variable {files : Files} {config : Config}

theorem settings_eq_ok_iff : settings files option = .ok config ↔ Settles files option config := by
  constructor
  · intro settled
    unfold settings at settled
    split at settled
    · cases settled
      exact .default
    · next path =>
      split at settled
      · next text read => exact .file read settled
      · cases settled
  · intro settles
    cases settles with
    | default => rfl
    | file read accepted => simp only [settings, read, accepted]

/-- The markup of a file, if it can be read and compiled. -/
def htmlOf? (files : Files) (config : Config) (path : String) : Option String :=
  (files path).toOption.bind fun text => (compileText text config).toOption.map (·.html)

private theorem compileFile_html (files : Files) (config : Config) (path : String) :
    (compileFile files config path).toOption.map (·.html) = htmlOf? files config path := by
  unfold compileFile htmlOf?
  cases files path <;> rfl

private theorem output_reportFile (files : Files) (config : Config) (path : String) :
    (reportFile files config path).output = (htmlOf? files config path).toList := by
  rw [← compileFile_html, reportFile]
  cases compileFile files config path <;> rfl

private theorem isFailure_reportFile (files : Files) (config : Config) (path : String) :
    (reportFile files config path).isFailure = (htmlOf? files config path).isNone := by
  rw [← compileFile_html, reportFile]
  cases compileFile files config path <;> rfl

namespace Report

private theorem foldl_append (r : Report) (rs : List Report) :
    rs.foldl (· ++ ·) r =
      ⟨r.output ++ rs.flatMap output, r.errors ++ rs.flatMap errors,
        r.isFailure || rs.any isFailure⟩ := by
  induction rs generalizing r with
  | nil => simp
  | cons first rest ih =>
    have step : r ++ first = ⟨r.output ++ first.output, r.errors ++ first.errors,
      r.isFailure || first.isFailure⟩ := rfl
    rw [List.foldl_cons, ih, step]
    simp only [List.flatMap_cons, List.any_cons, List.append_assoc, Bool.or_assoc]

private theorem written_append (lines others : List String) :
    written (lines ++ others) = written lines ++ written others := by
  rw [written, List.map_append, String.join_append]
  rfl

private theorem written_flatMap (parts : String → List String) (names : List String) :
    written (names.flatMap parts) = String.join (names.map fun name => written (parts name)) := by
  induction names with
  | nil => rfl
  | cons name rest ih =>
    rw [List.flatMap_cons, written_append, ih, List.map_cons, String.join_cons]

theorem exitCode_eq_one_iff (r : Report) : r.exitCode = 1 ↔ r.isFailure = true := by
  unfold exitCode
  cases r.isFailure <;> simp

/-- Nothing is written but why there is no markup. -/
def IsRefusal (r : Report) : Prop := written r.output = "" ∧ r.exitCode = 1

private theorem isRefusal_failure (errors : List String) : (failure errors).IsRefusal := ⟨rfl, rfl⟩

end Report

open Report

private theorem reportFiles_eq (files : Files) (config : Config) (paths : List String) :
    reportFiles files config paths =
      ⟨paths.flatMap fun path => (reportFile files config path).output,
        paths.flatMap fun path => (reportFile files config path).errors,
        paths.any fun path => (reportFile files config path).isFailure⟩ := by
  rw [reportFiles, foldl_append, List.flatMap_map, List.flatMap_map, List.any_map]
  rfl

private theorem reportFiles_singleton (files : Files) (config : Config) (path : String) :
    reportFiles files config [path] = reportFile files config path := by
  simp [reportFiles_eq]

/-- Diagnostics are found after the markup, so whether they are collected has no influence on it. -/
theorem htmlOf?_validation (files : Files) (config : Config) (validation : Validation)
    (path : String) :
    htmlOf? files { config with validation := validation } path = htmlOf? files config path := by
  have same (text : String) :
      (compileText text { config with validation := validation }).toOption.map (·.html) =
        (compileText text config).toOption.map (·.html) := by
    unfold compileText
    cases Document.ofMarkup text with
    | error problem => rfl
    | ok d =>
      have visited : visitBody Template.standard d { config with validation := validation } =
        visitBody Template.standard d config := rfl
      show (compile d _).toOption.map _ = (compile d config).toOption.map _
      simp only [compile, compileWith, visited]
      cases (visitBody Template.standard d config).outcome <;> rfl
  simp only [htmlOf?, same]

private theorem run_of_names (names : Names arguments option paths)
    (settles : Settles files option config)
    (nonempty : paths ≠ []) : run files arguments = reportFiles files config paths := by
  simp only [run, names.ofArguments?, settings_eq_ok_iff.mpr settles, if_neg nonempty]

private theorem run_alone (names : Names arguments option paths)
    (settles : Settles files option config)
    (member : path ∈ paths) : run files (alone option path) = reportFile files config path := by
  rw [run_of_names (names.alone member) settles (List.cons_ne_nil _ _), reportFiles_singleton]

private theorem isRefusal_of_cutOff (cutOff : IsCutOff arguments) :
    (run files arguments).IsRefusal := by
  simp only [run, cutOff.ofArguments?]
  exact isRefusal_failure _

private theorem isRefusal_of_unsettled (names : Names arguments option paths)
    (unsettled : ¬ ∃ config, Settles files option config) : (run files arguments).IsRefusal := by
  simp only [run, names.ofArguments?]
  cases settled : settings files option with
  | error problem => exact isRefusal_failure _
  | ok config => exact absurd ⟨config, settings_eq_ok_iff.mp settled⟩ unsettled

private theorem isRefusal_of_nameless (names : Names arguments option []) :
    (run files arguments).IsRefusal := by
  simp only [run, names.ofArguments?]
  cases settings files option <;> exact isRefusal_failure _

/-- What a report says on files: the markup of each that has any, and of each what it would be told
alone. -/
structure IsReportOn (files : Files) (option : Option String) (config : Config)
    (paths : List String) (r : Report) : Prop where
  /-- The markup stands in the order of the arguments, with a line end behind each. -/
  output_eq : written r.output =
    String.join ((paths.filterMap (htmlOf? files config)).map (· ++ "\n"))
  output_alone : written r.output =
    String.join (paths.map fun path => written (run files (alone option path)).output)
  errors_alone : written r.errors =
    String.join (paths.map fun path => written (run files (alone option path)).errors)
  exitCode_eq_one_iff : r.exitCode = 1 ↔ ∃ path ∈ paths, htmlOf? files config path = none
  exitCode_eq_zero_iff : r.exitCode = 0 ↔
    ∀ path ∈ paths, ∃ html, htmlOf? files config path = some html
  /-- Whether diagnostics are collected has no influence on markup and exit code. -/
  diagnostics_aside : ∀ validation,
    (reportFiles files { config with validation := validation } paths).output = r.output ∧
      (reportFiles files { config with validation := validation } paths).exitCode = r.exitCode

private theorem isReportOn_run (names : Names arguments option paths)
    (settles : Settles files option config) (nonempty : paths ≠ []) :
    IsReportOn files option config paths (run files arguments) := by
  have each : ∀ path ∈ paths, run files (alone option path) = reportFile files config path :=
    fun path member => run_alone names settles member
  have exitCode : (reportFiles files config paths).exitCode = 1 ↔
      ∃ path ∈ paths, htmlOf? files config path = none := by
    simp only [Report.exitCode_eq_one_iff, reportFiles_eq, List.any_eq_true, isFailure_reportFile,
      Option.isNone_iff_eq_none]
  rw [run_of_names names settles nonempty]
  refine { output_eq := ?_, output_alone := ?_, errors_alone := ?_, exitCode_eq_one_iff := exitCode,
           exitCode_eq_zero_iff := ?_, diagnostics_aside := fun validation => ?_ }
  · simp only [reportFiles_eq, output_reportFile, List.filterMap_eq_flatMap_toList]
    rfl
  · rw [reportFiles_eq, written_flatMap]
    exact congrArg String.join (List.map_congr_left fun path member => by rw [each path member])
  · rw [reportFiles_eq, written_flatMap]
    exact congrArg String.join (List.map_congr_left fun path member => by rw [each path member])
  · have zero : (reportFiles files config paths).exitCode = 0 ↔
        ¬ (reportFiles files config paths).exitCode = 1 := by
      unfold Report.exitCode
      split <;> simp
    rw [zero, exitCode]
    simp only [not_exists, not_and, ← ne_eq, Option.ne_none_iff_exists']
  · simp only [reportFiles_eq, Report.exitCode, output_reportFile, isFailure_reportFile,
      htmlOf?_validation, and_self]

/-- What becomes of a list of arguments, whatever the files are. -/
structure IsJudged (files : Files) (arguments : List String) (r : Report) : Prop where
  isCutOff_or_names : IsCutOff arguments ∨ ∃ option paths, Names arguments option paths
  cutOff : IsCutOff arguments → r.IsRefusal
  /-- Settings that cannot be read or are not accepted. -/
  unsettled : ∀ option paths, Names arguments option paths →
    (¬ ∃ config, Settles files option config) → r.IsRefusal
  nameless : ∀ option, Names arguments option [] → r.IsRefusal
  report : ∀ option paths config, Names arguments option paths → Settles files option config →
    paths ≠ [] → IsReportOn files option config paths r

/-- Files are reported on one by one. -/
theorem run_isJudged (files : Files) (arguments : List String) :
    IsJudged files arguments (run files arguments) where
  isCutOff_or_names := isCutOff_or_names arguments
  cutOff := isRefusal_of_cutOff
  unsettled _ _ := isRefusal_of_unsettled
  nameless _ := isRefusal_of_nameless
  report _ _ _ := isReportOn_run

end MailMarkup.CommandLine
