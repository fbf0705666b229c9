/-
What the program leaves behind when it ends: its exit code and what it
has put out.

The program comes to one of three ends. The arguments are refused; there
are no settings that it could run with; or the script is run, and ends
well or not. In the first two nothing is put out, no file is changed and
no line of a script is carried out (`RanNothing`). In the third the
output is the lines echoed on the way and the variables at the end
(`RanScript`), as complete after a failure as after a success.

The settings are a matter of the files as they are when the program
starts (`SettingsSource.resolve?`). They are missing in one case only, if
a file is asked for by its path and cannot be read.
-/
import LineScript.Host.Memory
import LineScript.Program.Run
import LineScript.Proofs.Notices

set_option autoImplicit false

namespace LineScript

variable {η : Type} [Host η]

-- ============================================================= settings

/-- The settings in a file of a host, if it can be read. -/
def settingsIn? (host : η) (path : Text) : Option Settings :=
  (Host.read host path).toOption.map fun text => (Settings.ofFile text).1

/-- The settings that an invocation comes to. A file that is searched for
and found may be unreadable; then the defaults are taken, as they are if
none is found. -/
def SettingsSource.resolve? (environment : Environment) (host : η) :
    SettingsSource → Option Settings
  | .skip => some {}
  | .explicit path => settingsIn? host path
  | .search =>
    some (((environment.candidates.find? (Host.isFile host)).bind
      (settingsIn? host)).getD {})

/-- A notice that is about no line of a script. -/
def Notice.Apart (notice : Notice) : Prop :=
  notice.echoed? = none ∧ ∀ index keyword arguments,
    notice ≠ .event (.command index keyword arguments)

namespace Program

theorem result_firstFile (paths : List Text) (host : η) :
    (firstFile paths).result host
      = (paths.find? (Host.isFile host), host) := by
  induction paths with
  | nil => rfl
  | cons path paths ih =>
      simp only [firstFile, Plan.bind_eq, Plan.result_bind,
        Plan.result_askIsFile, List.find?_cons]
      by_cases hfile : Host.isFile host path = true
      · simp only [hfile, if_true]
        rfl
      · simp only [hfile, Bool.false_eq_true, if_false]
        exact ih

theorem notices_firstFile (paths : List Text) (host : η) :
    (firstFile paths).notices host = [] := by
  induction paths with
  | nil => rfl
  | cons path paths ih =>
      simp only [firstFile, Plan.bind_eq, Plan.notices_bind,
        Plan.notices_askIsFile, Plan.result_askIsFile, List.nil_append]
      by_cases hfile : Host.isFile host path = true
      · simp only [hfile, if_true]
        rfl
      · simp only [hfile, Bool.false_eq_true, if_false]
        exact ih

theorem result_loadSettings (path : Text) (host : η) :
    (loadSettings path).result host = (settingsIn? host path, host) := by
  simp only [loadSettings, Plan.bind_eq, Plan.result_bind, Plan.result_askRead,
    settingsIn?]
  cases Host.read host path with
  | error fault => rfl
  | ok text =>
      simp only [Plan.result_bind, Plan.result_complainAll, Plan.result_log]
      rfl

theorem apart_complaint (line : String) : (Notice.complaint line).Apart :=
  ⟨rfl, fun _ _ _ h => by cases h⟩

/-- While settings are read there are complaints and a report of the
file, and nothing else. -/
theorem apart_of_loadSettings (path : Text) (host : η) :
    ∀ notice ∈ (loadSettings path).notices host, notice.Apart := by
  intro notice hnotice
  simp only [loadSettings, Plan.bind_eq, Plan.notices_bind,
    Plan.result_askRead, Plan.notices_askRead, List.nil_append] at hnotice
  cases hread : Host.read host path with
  | error fault =>
      rw [hread] at hnotice
      obtain rfl := List.mem_singleton.1 hnotice
      exact apart_complaint _
  | ok text =>
      rw [hread] at hnotice
      simp only [Plan.notices_bind, Plan.notices_complainAll, Plan.notices_log,
        Plan.pure_eq_done, Plan.notices_done, List.append_nil] at hnotice
      rcases List.mem_append.1 hnotice with hcomplaint | hloaded
      · obtain ⟨line, -, rfl⟩ := List.mem_map.1 hcomplaint
        exact apart_complaint _
      · obtain rfl := List.mem_singleton.1 hloaded
        exact ⟨rfl, fun _ _ _ h => by cases h⟩

/-- The settings chosen are those that the invocation comes to. -/
theorem result_chooseSettings (environment : Environment)
    (source : SettingsSource) (host : η) :
    (chooseSettings environment source).result host
      = (source.resolve? environment host, host) := by
  cases source with
  | skip => rfl
  | explicit path => exact result_loadSettings path host
  | search =>
      simp only [chooseSettings, Environment.locateSettings,
        SettingsSource.resolve?, Plan.bind_eq, Plan.result_bind,
        result_firstFile]
      cases environment.candidates.find? (Host.isFile host) with
      | none => rfl
      | some path =>
          simp only [Plan.result_bind, result_loadSettings]
          rfl

theorem apart_of_chooseSettings (environment : Environment)
    (source : SettingsSource) (host : η) :
    ∀ notice ∈ (chooseSettings environment source).notices host,
      notice.Apart := by
  cases source with
  | skip =>
      intro notice h
      cases h
  | explicit path => exact apart_of_loadSettings path host
  | search =>
      simp only [chooseSettings, Environment.locateSettings, Plan.bind_eq,
        Plan.notices_bind, notices_firstFile, result_firstFile,
        List.nil_append]
      cases environment.candidates.find? (Host.isFile host) with
      | none =>
          intro notice h
          cases h
      | some path =>
          simp only [Plan.notices_bind, Plan.pure_eq_done, Plan.notices_done,
            List.append_nil]
          exact apart_of_loadSettings path host

-- ============================================================= the script

/-- An interpreter after a run that ended, by the state that the run ended
in. -/
theorem after_eq_some_iff {interpreter after : Interpreter}
    {ended : Option (State Output × Verdict)} {verdict : Verdict} :
    interpreter.after ended = some (after, verdict)
      ↔ ended = some (after.state, verdict)
        ∧ after.engine = interpreter.engine := by
  unfold Interpreter.after
  rw [Option.map_eq_some_iff]
  constructor
  · rintro ⟨⟨final, verdict'⟩, rfl, heq⟩
    cases heq
    exact ⟨rfl, rfl⟩
  · rintro ⟨rfl, hengine⟩
    refine ⟨_, rfl, ?_⟩
    rw [← hengine]

/-- The interpreter after the script of an invocation holds what it held
and the lines echoed. -/
theorem output_of_runScript {settings : Settings}
    {interpreter after : Interpreter}
    (built : interpreter.BuiltFor settings) {fuel : Nat}
    {script : ScriptSource} {host : η}
    {verdict : Verdict}
    (h : ((runScript fuel interpreter script).result host).1
      = some (after, verdict)) :
    after.output
      = interpreter.output
        ++ echoedLines ((runScript fuel interpreter script).notices host) := by
  cases script with
  | file path =>
      simp only [runScript, Interpreter.runFile, Plan.bind_eq,
        Plan.result_bind, Plan.notices_bind, Plan.pure_eq_done,
        Plan.result_done, Plan.notices_done, List.append_nil] at h ⊢
      exact Engine.lines_of_runFile built.isScript (after_eq_some_iff.1 h).1
  | inline text =>
      simp only [runScript, Interpreter.runSource, Plan.bind_eq,
        Plan.result_bind, Plan.notices_bind, Plan.pure_eq_done,
        Plan.result_done, Plan.notices_done, List.append_nil] at h ⊢
      exact Engine.lines_of_runSource built.isScript (after_eq_some_iff.1 h).1

end Program

-- ============================================================== reports

/-- The text of standard output: a line feed ends each line. -/
def Report.stdout (report : Report) : Text :=
  report.output.flatMap (· ++ ['\n'])

/-- The program has ended with an exit code before it came to a script. -/
structure Report.RanNothing (report : Report) (code : Nat) (host host' : η)
    (notices : List Notice) : Prop where
  code : report.code = code
  stdout : report.stdout = []
  files : host' = host
  commands : ∀ index keyword arguments,
    Notice.event (.command index keyword arguments) ∉ notices

/-- The program has run a script, which left an interpreter behind and
ended with a verdict. -/
structure Report.RanScript (report : Report) (showVariables : Bool)
    (after : Interpreter) (verdict : Verdict) (notices : List Notice) :
    Prop where
  /-- The lines echoed come first, then the variables, each with its name
  and its value as it is displayed. -/
  stdout : report.stdout
    = (echoedLines notices ++ if showVariables then
          after.vars.toList.map fun (name, value) =>
            name ++ " = ".toList ++ Value.display value
        else []).flatMap (· ++ ['\n'])
  /-- Each variable is among them once, by ascending name. -/
  ascending : after.vars.names.Pairwise (· < ·)
  defined : ∀ name value, (name, value) ∈ after.vars.toList
    ↔ after.vars.get? name = some value
  success : report.code = 0 ↔ verdict = .ok ()
  failure : report.code = 1 ↔ verdict ≠ .ok ()

namespace Program

theorem not_command_of_apart {notices : List Notice}
    (h : ∀ notice ∈ notices, notice.Apart) (index : Nat) (keyword : Text)
    (arguments : List Text) :
    Notice.event (.command index keyword arguments) ∉ notices :=
  fun hmem => (h _ hmem).2 index keyword arguments rfl

theorem echoedLines_of_apart {notices : List Notice}
    (h : ∀ notice ∈ notices, notice.Apart) :
    echoedLines notices = [] :=
  List.filterMap_eq_nil_iff.2 fun notice hmem => (h notice hmem).1

/-- The report of a run that ended. -/
theorem ranScript_runReport (showVariables : Bool) (after : Interpreter)
    (verdict : Verdict) {notices : List Notice}
    (houtput : after.output = echoedLines notices) :
    (runReport showVariables after verdict).RanScript showVariables after
      verdict notices where
  stdout := by
    rw [← houtput, Report.stdout]
    cases verdict with
    | ok => rfl
    | error failure => rfl
  ascending := List.pairwise_map.2 after.vars.ascending
  defined name value := Table.mem_toList_iff
  success := by
    cases verdict with
    | ok => exact iff_of_true rfl rfl
    | error failure => exact iff_of_false Nat.one_ne_zero (by rintro ⟨⟩)
  failure := by
    cases verdict with
    | ok => exact iff_of_false Nat.zero_ne_one fun h => h rfl
    | error failure => exact iff_of_true rfl (by rintro ⟨⟩)

/-- Settings with a fault are refused. -/
theorem ofSettings_of_fault {settings : Settings} {fault : SettingsFault}
    (h : settings.fault? = some fault) :
    Interpreter.ofSettings settings
      = .error (.configuration (.settings fault)) := by
  unfold Interpreter.ofSettings Dialect.engine Dialect.fault?
  rw [h]
  rfl

/-- For all others there is an interpreter. -/
theorem ofSettings_of_valid {settings : Settings}
    (h : settings.fault? = none) :
    ∃ interpreter, Interpreter.ofSettings settings = .ok interpreter
      ∧ interpreter.BuiltFor settings ∧ interpreter.output = [] := by
  have hengine : scriptLanguage.engine settings
      = .ok ⟨settings, scriptLanguage.hook, scriptLanguage.bound⟩ :=
    Dialect.engine_eq_ok_iff.2 ⟨h, rfl, rfl, rfl⟩
  refine ⟨⟨⟨settings, scriptLanguage.hook, scriptLanguage.bound⟩,
    { own := .empty }⟩, ?_, hengine, rfl⟩
  unfold Interpreter.ofSettings
  rw [hengine]
  rfl

/-- The settings are missing only if they are asked for by path. -/
theorem resolve?_of_unreadable {environment : Environment} {host : η}
    {path : Text} (h : settingsIn? host path = none) :
    (SettingsSource.explicit path).resolve? environment host = none := h

/-- A settings file that is found but cannot be read counts for nothing. -/
theorem resolve?_of_found {environment : Environment} {host : η} {path : Text}
    (hfound : environment.candidates.find? (Host.isFile host) = some path)
    (h : settingsIn? host path = none) :
    SettingsSource.search.resolve? environment host = some {} := by
  rw [SettingsSource.resolve?, hfound, Option.bind_some, h, Option.getD_none]

section

variable {fuel : Nat} {environment : Environment} {invocation : Invocation}
  {host host' : η} {report : Report} {notices : List Notice}
  {settings : Settings}

/-- The script of an invocation is run with settings, and this is how the
program ends. -/
def RanWith (fuel : Nat) (invocation : Invocation) (settings : Settings)
    (host host' : η) (report : Report) (notices : List Notice) : Prop :=
  ∃ interpreter after verdict,
    Interpreter.ofSettings settings = .ok interpreter
    ∧ (runScript fuel interpreter invocation.script).result host
      = (some (after, verdict), host')
    ∧ report.RanScript invocation.showVariables after verdict notices

/-- Without settings no script is run. -/
theorem ranNothing_of_unresolved
    (h : (carryOut fuel environment invocation).resultNoted host
      = (some report, host', notices))
    (hsettings : invocation.settings.resolve? environment host = none) :
    report.RanNothing 1 host host' notices := by
  have hapart := apart_of_chooseSettings environment invocation.settings host
  simp only [Plan.resultNoted_eq, carryOut, Plan.bind_eq, Plan.result_bind,
    Plan.notices_bind, result_chooseSettings, hsettings, Plan.pure_eq_done,
    Plan.result_done, Plan.notices_done, List.append_nil] at h
  cases h
  exact ⟨rfl, rfl, rfl, not_command_of_apart hapart⟩

/-- Nor is it with settings that have a fault. -/
theorem ranNothing_of_fault
    (h : (carryOut fuel environment invocation).resultNoted host
      = (some report, host', notices))
    (hsettings : invocation.settings.resolve? environment host = some settings)
    (hfault : settings.fault? ≠ none) :
    report.RanNothing 1 host host' notices := by
  have hapart := apart_of_chooseSettings environment invocation.settings host
  obtain ⟨fault, hfault⟩ := Option.ne_none_iff_exists'.1 hfault
  simp only [Plan.resultNoted_eq, carryOut, Plan.bind_eq, Plan.result_bind,
    Plan.notices_bind, result_chooseSettings, hsettings,
    ofSettings_of_fault hfault, Plan.pure_eq_done, Plan.result_done,
    Plan.notices_done, List.append_nil] at h
  cases h
  exact ⟨rfl, rfl, rfl, not_command_of_apart hapart⟩

/-- With all others it is. -/
theorem ranWith_of_valid
    (h : (carryOut fuel environment invocation).resultNoted host
      = (some report, host', notices))
    (hsettings : invocation.settings.resolve? environment host = some settings)
    (hvalid : settings.fault? = none) :
    RanWith fuel invocation settings host host' report notices := by
  have hapart := apart_of_chooseSettings environment invocation.settings host
  obtain ⟨interpreter, hinterpreter, built, hempty⟩ :=
    ofSettings_of_valid hvalid
  simp only [Plan.resultNoted_eq, carryOut, Plan.bind_eq, Plan.result_bind,
    Plan.notices_bind, result_chooseSettings, hsettings, hinterpreter,
    Plan.pure_eq_done, Plan.result_done, Plan.notices_done,
    List.append_nil] at h
  rcases hended : (runScript fuel interpreter invocation.script).result
    host with ⟨ended, last⟩
  rw [hended] at h
  rcases ended with _ | ⟨after, verdict⟩
  · cases h
  · cases h
    have houtput := output_of_runScript built (congrArg Prod.fst hended)
    rw [hempty, List.nil_append] at houtput
    refine ⟨interpreter, after, verdict, hinterpreter, hended,
      ranScript_runReport _ _ _ ?_⟩
    rw [echoedLines_append, echoedLines_of_apart hapart, List.nil_append]
    exact houtput

/-- How the program ends, whenever it does.

- If the arguments are refused, the exit code is 2.
- If a settings file is asked for and cannot be read, or the settings
  have a fault, the exit code is 1. Up to then nothing has been done, nor
  is anything put out.
- Otherwise the script is run. A file that is only found may be
  unreadable; the settings are then the defaults. The lines echoed are put
  out, then the variables if they are asked for, whether the run fails or
  not, and the exit code says whether it fails. -/
theorem run_report {arguments : List Text}
    (h : (run fuel environment arguments).resultNoted host
      = (some report, host', notices)) :
    (∀ fault, Invocation.ofArguments arguments = .error fault →
        report.RanNothing 2 host host' notices)
      ∧ ∀ invocation, Invocation.ofArguments arguments = .ok invocation →
          (∀ path, invocation.settings = .explicit path →
            settingsIn? host path = none →
              report.RanNothing 1 host host' notices)
            ∧ (∀ path, invocation.settings = .search →
                environment.candidates.find? (Host.isFile host) = some path →
                settingsIn? host path = none →
                  RanWith fuel invocation {} host host' report notices)
            ∧ ∀ settings,
              invocation.settings.resolve? environment host = some settings →
                (settings.fault? ≠ none →
                  report.RanNothing 1 host host' notices)
                  ∧ (settings.fault? = none →
                      RanWith fuel invocation settings host host' report
                        notices) := by
  unfold run at h
  constructor
  · intro fault hrefused
    rw [hrefused, Plan.resultNoted_eq] at h
    cases h
    exact ⟨rfl, rfl, rfl, fun _ _ _ => List.not_mem_nil⟩
  · intro invocation hinvocation
    rw [hinvocation] at h
    refine ⟨fun path hexplicit hnone => ?_,
      fun path hsearch hfound hnone => ?_,
      fun settings hsettings =>
        ⟨ranNothing_of_fault h hsettings, ranWith_of_valid h hsettings⟩⟩
    · refine ranNothing_of_unresolved h ?_
      rw [hexplicit]
      exact resolve?_of_unreadable hnone
    · refine ranWith_of_valid h ?_ rfl
      rw [hsearch]
      exact resolve?_of_found hfound hnone

end

/-- For instance, a script that fails below a line that is put out. -/
theorem run_report_of_failing_script :
    ∃ report host' notices,
      (run 9 {} ["-v".toList, "-c".toList,
          "set b, 'y'\necho b\nset a, 'z'\nstop".toList]).resultNoted
            (⟨.empty⟩ : MemoryHost)
          = (some report, host', notices)
        ∧ report.stdout = "y\na = z\nb = y\n".toList
        ∧ RanWith 9 ⟨.search,
          .inline "set b, 'y'\necho b\nset a, 'z'\nstop".toList, true, false⟩
            {} (⟨.empty⟩ : MemoryHost) host' report notices := by
  generalize hended : (run 9 {} ["-v".toList, "-c".toList,
    "set b, 'y'\necho b\nset a, 'z'\nstop".toList]).resultNoted
      (⟨.empty⟩ : MemoryHost) = ended
  have hstdout : ended.1.map Report.stdout
      = some "y\na = z\nb = y\n".toList := by
    rw [← hended]
    decide +kernel
  obtain ⟨ended, host', notices⟩ := ended
  obtain ⟨report, rfl, houtput⟩ := Option.map_eq_some_iff.1 hstdout
  have hinvocation : Invocation.ofArguments ["-v".toList, "-c".toList,
      "set b, 'y'\necho b\nset a, 'z'\nstop".toList]
        = .ok ⟨.search, .inline "set b, 'y'\necho b\nset a, 'z'\nstop".toList,
          true, false⟩ := rfl
  obtain ⟨-, -, hsettings⟩ := (run_report hended).2 _ hinvocation
  exact ⟨report, host', notices, rfl, houtput, (hsettings {} rfl).2 rfl⟩

end Program

end LineScript
