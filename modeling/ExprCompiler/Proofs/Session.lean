import ExprCompiler.Proofs.CommandLine
import ExprCompiler.Session

/-!
# Sessions, program by program

A session shows its programs one after the other, each as if it were the only one:

* `Session.Source`, `Session.readPrograms_eq_mapM`: what a command line names programs by, and the
  first of them that cannot be read;
* `Session.block`, `Session.header`: what is written about a program if it is the only one, and the line
  in front of that where there are others;
* `Session.Ran`, `Session.exists_ran`: what the runtime writes for a program, and whether it fails;
* `Session.Shows`, `Session.exists_shows`: how programs are shown, up to the first run that fails;
* `Session.showAll_of_ran`, `Session.Shows.showAll_eq`: so does a session, which counts the programs with
  an error on the way;
* `Session.execute_of_sources`: how every session ends.
-/

namespace ExprCompiler

namespace Session

/-! ## What programs are named by -/

/-- What a command line names a program by. -/
inductive Source where
  | input (delimiter : String)
  | inline (text : String)
  | file (path : String)
deriving Repr, DecidableEq

/-- The sources of a command line, in order. -/
def sources (line : CommandLine) : List Source :=
  match line.setting? .stdin, line.value? .execute with
  | some delimiter, _ => [.input (delimiter.getD "")]
  | none, some text => [.inline text]
  | none, none => line.files.map .file

/-- The program of a source, or why it cannot be read. -/
def Source.load (host : Host) : Source → Except Failure Program
  | .input delimiter =>
    match Delimited.readText delimiter host.stdin.data.toList with
    | .ok text => .ok ⟨"<stdin>", text⟩
    | .error fault => .error (.unreadableInput fault)
  | .inline text => .ok ⟨"-e", text⟩
  | .file path =>
    match host.fileText path with
    | .ok text => .ok ⟨path, text⟩
    | .error fault => .error (.unreadableFile path fault)

theorem load_input (host : Host) (delimiter : String) :
    (Source.input delimiter).load host = readInput host delimiter := by
  rw [Source.load, readInput]
  cases Delimited.readText delimiter host.stdin.data.toList <;> rfl

theorem load_file (host : Host) (path : String) : (Source.file path).load host = readFile host path := by
  rw [Source.load, readFile]
  cases host.fileText path <;> rfl

theorem readPrograms_eq_mapM (host : Host) (line : CommandLine) :
    readPrograms host line = (sources line).mapM (Source.load host) := by
  cases input : line.setting? .stdin with
  | some delimiter =>
    simp only [readPrograms, sources, input, List.mapM_cons, List.mapM_nil, pure_bind, load_input]
  | none =>
    cases inline : line.value? .execute with
    | some text =>
      simp only [readPrograms, sources, input, inline]
      rfl
    | none =>
      simp only [readPrograms, sources, input, inline, List.mapM_map]
      congr 1
      exact funext fun path => (load_file host path).symm

/-- The same command line with a single program. -/
def only (line : CommandLine) : Source → CommandLine
  | .file path => { line with paths := [path] }
  | _ => line

theorem sources_only {line : CommandLine} {source : Source} (mem : source ∈ sources line) :
    sources (only line source) = [source] := by
  have setting (path : String) (flag : Flag) :
      (only line (.file path)).setting? flag = line.setting? flag := rfl
  have value (path : String) (flag : Flag) :
      (only line (.file path)).value? flag = line.value? flag := rfl
  cases input : line.setting? .stdin with
  | some delimiter =>
    simp only [sources, input, List.mem_singleton] at mem
    simp only [mem, only, sources, input]
  | none =>
    cases inline : line.value? .execute with
    | some text =>
      simp only [sources, input, inline, List.mem_singleton] at mem
      simp only [mem, only, sources, input, inline]
    | none =>
      simp only [sources, input, inline] at mem
      obtain ⟨path, -, rfl⟩ := List.mem_map.1 mem
      simp only [sources, setting, value, input, inline]
      rfl

/-! ## What is written about a program -/

/-- Texts on lines of their own. -/
def lines (texts : List String) : String :=
  String.join (texts.map (· ++ "\n"))

/-- The report of a program in a session. -/
def report (host : Host) (line : CommandLine) (program : Program) : Report :=
  process host line (config host line) program

/-- The lines of a report on the standard output: each section below its title. -/
def outputLines (report : Report) : List String :=
  report.sections.flatMap fun part => ["[" ++ part.title ++ "]", part.body]

/-- The lines of a report on the standard error: the warnings, then the error. -/
def errorLines (name : String) (report : Report) : List String :=
  report.warnings.map (fun warning => "\x1b[33mwarning\x1b[39m: " ++ name ++ ": " ++ warning) ++
    report.error.toList.map fun error => "\x1b[31merror\x1b[39m: " ++ name ++ ": " ++ error

/-- What is written about a program whose run writes `output`, if it is the only one. -/
def block (host : Host) (line : CommandLine) (program : Program) (output : String) : Transcript where
  stdout := lines (outputLines (report host line program)) ++ output
  stderr := lines (errorLines program.name (report host line program))

/-- What is written in front of that if it is one of several. -/
def header (several : Bool) (program : Program) : Transcript :=
  ⟨if several then lines ["==> " ++ program.name ++ " <=="] else "", ""⟩

theorem Transcript.append_eq (first second : Transcript) :
    first ++ second = ⟨first.stdout ++ second.stdout, first.stderr ++ second.stderr⟩ :=
  rfl

theorem Transcript.append_assoc (first second third : Transcript) :
    first ++ second ++ third = first ++ (second ++ third) := by
  simp only [append_eq, String.append_assoc]

theorem Transcript.empty_append (transcript : Transcript) : ⟨"", ""⟩ ++ transcript = transcript := by
  simp [append_eq]

theorem Transcript.append_empty (transcript : Transcript) : transcript ++ ⟨"", ""⟩ = transcript := by
  simp [append_eq]

theorem lines_append (texts more : List String) : lines (texts ++ more) = lines texts ++ lines more := by
  rw [lines, List.map_append, String.join_append]
  rfl

theorem join_sections (parts : List Section) :
    String.join (parts.map fun part => "[" ++ part.title ++ "]\n" ++ part.body ++ "\n") =
      lines (parts.flatMap fun part => ["[" ++ part.title ++ "]", part.body]) := by
  induction parts with
  | nil => rfl
  | cons part parts ih =>
    rw [List.flatMap_cons, lines_append, ← ih, List.map_cons, String.join_cons]
    simp [lines, String.append_assoc]

/-- The texts of a program come behind its header, in front of what its run writes. -/
theorem present_append (host : Host) (line : CommandLine) (several : Bool) (program : Program)
    (output : String) : present several program.name (report host line program) ++ ⟨output, ""⟩ =
      header several program ++ block host line program output := by
  have warnings (texts : List String) : String.join (texts.map (labelled "33" "warning" program.name)) =
      lines (texts.map fun warning => "\x1b[33mwarning\x1b[39m: " ++ program.name ++ ": " ++ warning) := by
    rw [lines, List.map_map]
    rfl
  have error (text : Option String) : text.elim "" (labelled "31" "error" program.name) =
      lines (text.toList.map fun error => "\x1b[31merror\x1b[39m: " ++ program.name ++ ": " ++ error) := by
    cases text with
    | none => rfl
    | some text => exact (String.empty_append ..).symm
  rw [Transcript.append_eq, Transcript.append_eq, Transcript.mk.injEq]
  constructor
  · simp only [present, header, block, outputLines, join_sections]
    cases several <;> simp [lines, String.append_assoc]
  · simp only [present, header, block, errorLines, warnings, error, lines_append]
    simp

/-! ## Runs -/

/-- The program has no error, and its compiled text is sent to the runtime. -/
def Sent (host : Host) (line : CommandLine) (program : Program) (text : String) : Prop :=
  (report host line program).error = none ∧ (report host line program).runnable = some text

/-- What the runtime writes for a program, and the failure if it fails. -/
inductive Ran (host : Host) (line : CommandLine) (program : Program) : String → Option Failure → Prop
  /-- Nothing is sent to it. -/
  | notSent : (∀ text, ¬ Sent host line program text) → Ran host line program "" none
  | succeeded {text output : String} : Sent host line program text →
      host.run (config host line).runtime text = .exited output 0 → Ran host line program output none
  | badStatus {text output : String} {status : Nat} : Sent host line program text →
      host.run (config host line).runtime text = .exited output status → status ≠ 0 →
      Ran host line program output (some (.badStatus (config host line).runtime status))
  | notStarted {text reason : String} : Sent host line program text →
      host.run (config host line).runtime text = .notStarted reason →
      Ran host line program "" (some (.notStarted (config host line).runtime reason))
  | notTaken {text reason : String} : Sent host line program text →
      host.run (config host line).runtime text = .notSent reason →
      Ran host line program "" (some (.notSent (config host line).runtime reason))

/-- What is written about programs, and the first failure of a run. Nothing is written behind that. -/
inductive Shows (host : Host) (line : CommandLine) (several : Bool) :
    List Program → Transcript → Option Failure → Prop
  | nil : Shows host line several [] ⟨"", ""⟩ none
  | cons {program : Program} {programs : List Program} {output : String} {shown : Transcript}
      {failure : Option Failure} : Ran host line program output none →
      Shows host line several programs shown failure →
      Shows host line several (program :: programs)
        (header several program ++ block host line program output ++ shown) failure
  | stop {program : Program} {programs : List Program} {output : String} {failure : Failure} :
      Ran host line program output (some failure) →
      Shows host line several (program :: programs)
        (header several program ++ block host line program output) (some failure)

section Execute

variable {host : Host} {line : CommandLine} {several : Bool} {program : Program} {programs : List Program}

theorem exists_ran (host : Host) (line : CommandLine) (program : Program) :
    ∃ output failure, Ran host line program output failure := by
  by_cases sent : ∃ text, Sent host line program text
  · obtain ⟨text, sent⟩ := sent
    cases result : host.run (config host line).runtime text with
    | exited output status =>
      by_cases zero : status = 0
      · subst zero
        exact ⟨output, none, .succeeded sent result⟩
      · exact ⟨output, _, .badStatus sent result zero⟩
    | notStarted reason => exact ⟨"", _, .notStarted sent result⟩
    | notSent reason => exact ⟨"", _, .notTaken sent result⟩
  · exact ⟨"", none, .notSent fun text isSent => sent ⟨text, isSent⟩⟩

/-- A run goes alike in another session with the same report, the same runtime, and the same result of
what is sent to it. -/
theorem Ran.transfer {output : String} {failure : Option Failure} {host' : Host} {line' : CommandLine}
    (h : Ran host line program output failure)
    (reports : report host' line' program = report host line program)
    (runtime : (config host' line').runtime = (config host line).runtime)
    (same : ∀ text, Sent host line program text →
      host'.run (config host line).runtime text = host.run (config host line).runtime text) :
    Ran host' line' program output failure := by
  have sends (text : String) : Sent host' line' program text ↔ Sent host line program text := by
    rw [Sent, Sent, reports]
  have runs {text : String} (sent : Sent host line program text) :
      host'.run (config host' line').runtime text = host.run (config host line).runtime text := by
    rw [runtime, same text sent]
  cases h with
  | notSent none => exact .notSent fun text sent => none text ((sends text).1 sent)
  | succeeded sent result => exact .succeeded ((sends _).2 sent) ((runs sent).trans result)
  | badStatus sent result bad =>
    rw [← runtime]
    exact .badStatus ((sends _).2 sent) ((runs sent).trans result) bad
  | notStarted sent result =>
    rw [← runtime]
    exact .notStarted ((sends _).2 sent) ((runs sent).trans result)
  | notTaken sent result =>
    rw [← runtime]
    exact .notTaken ((sends _).2 sent) ((runs sent).trans result)

theorem exists_shows (host : Host) (line : CommandLine) (several : Bool) (programs : List Program) :
    ∃ shown failure, Shows host line several programs shown failure := by
  induction programs with
  | nil => exact ⟨_, _, .nil⟩
  | cons program programs ih =>
    obtain ⟨output, failure, ran⟩ := exists_ran host line program
    cases failure with
    | some failure => exact ⟨_, _, .stop ran⟩
    | none =>
      obtain ⟨shown, failure, shows⟩ := ih
      exact ⟨_, _, .cons ran shows⟩

/-- Exactly a run that fails leaves a failure. -/
theorem Ran.failure_eq_none_iff {output : String} {failure : Option Failure}
    (h : Ran host line program output failure) : failure = none ↔ ∀ text, Sent host line program text →
      ∃ output, host.run (config host line).runtime text = .exited output 0 := by
  have unique {text other : String} (sent : Sent host line program text)
      (sent' : Sent host line program other) : other = text :=
    Option.some.inj (sent'.2.symm.trans sent.2)
  cases h with
  | notSent none => exact ⟨fun _ text sent => (none text sent).elim, fun _ => rfl⟩
  | @succeeded text output sent result =>
    exact ⟨fun _ other sent' => ⟨output, unique sent sent' ▸ result⟩, fun _ => rfl⟩
  | badStatus sent result bad =>
    refine ⟨nofun, fun all => ?_⟩
    obtain ⟨output, result'⟩ := all _ sent
    rw [result] at result'
    cases result'
    exact (bad rfl).elim
  | notStarted sent result | notTaken sent result =>
    refine ⟨nofun, fun all => ?_⟩
    obtain ⟨output, result'⟩ := all _ sent
    rw [result] at result'
    cases result'

theorem Shows.failure_eq_none_iff {shown : Transcript} {failure : Option Failure}
    (h : Shows host line several programs shown failure) :
    failure = none ↔ ∀ program ∈ programs, ∀ text, Sent host line program text →
      ∃ output, host.run (config host line).runtime text = .exited output 0 := by
  induction h with
  | nil => exact ⟨fun _ => nofun, fun _ => rfl⟩
  | cons ran _ ih =>
    rw [List.forall_mem_cons, ih]
    exact (and_iff_right (ran.failure_eq_none_iff.1 rfl)).symm
  | stop ran =>
    refine ⟨nofun, fun all => ?_⟩
    exact ran.failure_eq_none_iff.2 (List.forall_mem_cons.1 all).1

/-- The number of programs with an error. -/
def failedCount (host : Host) (line : CommandLine) (programs : List Program) : Nat :=
  programs.countP fun program => (report host line program).error.isSome

/-- A session shows a program as its run goes, and counts it if it has an error. -/
theorem showAll_of_ran {output : String} {failure : Option Failure}
    (h : Ran host line program output failure) (transcript : Transcript) (failed : Nat)
    (rest : List (Program × Report)) :
    showAll host (config host line).runtime several transcript failed
        ((program, report host line program) :: rest) =
      let shown := transcript ++ (header several program ++ block host line program output)
      match failure with
      | some _ => ⟨shown, failure⟩
      | none => showAll host (config host line).runtime several shown
          (failed + failedCount host line [program]) rest := by
  have written := present_append host line several program output
  have count (none : (report host line program).error = none) : failedCount host line [program] = 0 := by
    simp [failedCount, none]
  cases h with
  | notSent notSent =>
    rw [Transcript.append_empty] at written
    cases error : (report host line program).error with
    | some reason =>
      have one : failedCount host line [program] = 1 := by simp [failedCount, error]
      simp only [showAll, error, written, one]
    | none =>
      have runnable : (report host line program).runnable = none :=
        Option.eq_none_iff_forall_ne_some.2 fun text runnable => notSent text ⟨error, runnable⟩
      simp only [showAll, error, runnable, written, count error, Nat.add_zero]
  | succeeded sent result =>
    simp only [showAll, sent.1, sent.2, runProgram, result, Transcript.append_assoc, written,
      count sent.1, Nat.add_zero]
  | @badStatus text output status sent result bad =>
    have run : runProgram host (config host line).runtime text =
        (output, some (.badStatus (config host line).runtime status)) := by
      rw [runProgram, result]
      cases status with
      | zero => exact (bad rfl).elim
      | succ => rfl
    simp only [showAll, sent.1, sent.2, run, Transcript.append_assoc, written]
  | notStarted sent result | notTaken sent result =>
    simp only [showAll, sent.1, sent.2, runProgram, result, Transcript.append_assoc, written]

theorem Shows.showAll_eq {shown : Transcript} {failure : Option Failure}
    (h : Shows host line several programs shown failure) (transcript : Transcript) (failed : Nat) :
    showAll host (config host line).runtime several transcript failed
        (programs.map fun program => (program, report host line program)) =
      ⟨transcript ++ shown, failure.or (if failed + failedCount host line programs = 0 then none
        else some (.failedPrograms (failed + failedCount host line programs)))⟩ := by
  induction h generalizing transcript failed with
  | nil =>
    rw [Transcript.append_empty]
    rfl
  | @cons program programs output shown failure ran _ ih =>
    have count : failedCount host line (program :: programs) =
        failedCount host line [program] + failedCount host line programs := by
      rw [failedCount, failedCount, failedCount, ← List.countP_append]
      rfl
    rw [List.map_cons, showAll_of_ran ran]
    simp only
    rw [ih, count, Transcript.append_assoc, Nat.add_assoc]
  | stop ran =>
    rw [List.map_cons, showAll_of_ran ran]
    rfl

/-- A session that has read its programs shows them, and then counts those with an error. -/
theorem execute_of_shows {shown : Transcript} {failure : Option Failure}
    (loaded : (sources line).map (Source.load host) = programs.map .ok)
    (h : Shows host line (1 < programs.length) programs shown failure) :
    execute host line = ⟨shown, failure.or (if failedCount host line programs = 0 then none
      else some (.failedPrograms (failedCount host line programs)))⟩ := by
  have shows := h.showAll_eq ⟨"", ""⟩ 0
  rw [Transcript.empty_append, Nat.zero_add] at shows
  rw [execute, readPrograms_eq_mapM, Run.mapM_eq_ok_iff.2 loaded]
  exact shows

theorem failedCount_eq_zero_iff : failedCount host line programs = 0 ↔
    ∀ program ∈ programs, (report host line program).error = none := by
  simp [failedCount, List.countP_eq_zero]

/-- What the runtime makes of texts that are not sent to it does not matter. -/
theorem Shows.with_run {shown : Transcript} {failure : Option Failure}
    (h : Shows host line several programs shown failure) {run : (command program : String) → RunResult}
    (same : ∀ program ∈ programs, ∀ text, Sent host line program text →
      run (config host line).runtime text = host.run (config host line).runtime text) :
    Shows { host with run } line several programs shown failure := by
  induction h with
  | nil => exact .nil
  | cons first _ ih =>
    obtain ⟨head, tail⟩ := List.forall_mem_cons.1 same
    exact .cons (first.transfer rfl rfl head) (ih tail)
  | stop first => exact .stop (first.transfer rfl rfl (List.forall_mem_cons.1 same).1)

/-- A program alone is shown by its block. -/
theorem execute_only {source : Source} {output : String} {failure : Option Failure}
    (mem : source ∈ sources line) (loaded : source.load host = .ok program)
    (ran : Ran host line program output failure) :
    execute host (only line source) = ⟨block host line program output,
      failure.or (if (report host line program).error = none then none
        else some (.failedPrograms 1))⟩ := by
  have alone : (sources (only line source)).map (Source.load host) = [program].map .ok := by
    rw [sources_only mem, List.map_singleton, loaded]
    rfl
  have reports : report host (only line source) program = report host line program := by
    cases source <;> rfl
  have runs : Ran host (only line source) program output failure :=
    ran.transfer reports (by cases source <;> rfl) fun _ _ => rfl
  have written : header false program ++ block host (only line source) program output =
      block host line program output := by
    rw [block, reports]
    exact Transcript.empty_append _
  have shows : Shows host (only line source) false [program] (block host line program output) failure := by
    rw [← written]
    cases failure with
    | none =>
      rw [← Transcript.append_empty (header false program ++ _)]
      exact .cons runs .nil
    | some failure => exact .stop runs
  have count : failedCount host (only line source) [program] =
      if (report host line program).error = none then 0 else 1 := by
    rw [failedCount, List.countP_singleton, reports]
    cases (report host line program).error <;> rfl
  rw [execute_of_shows alone shows, count]
  cases (report host line program).error <;> rfl

theorem load_with_run {run : (command program : String) → RunResult} (source : Source) :
    source.load { host with run } = source.load host := by
  cases source <;> rfl

end Execute

theorem Ending.status_eq_zero_iff (ending : Ending) :
    ending.outcome.status = 0 ↔ ending.failure = none := by
  obtain ⟨transcript, failure⟩ := ending
  cases failure with
  | none => exact ⟨fun _ => rfl, fun _ => rfl⟩
  | some failure => exact ⟨nofun, nofun⟩

/-- A session processes the programs of its command line one by one. Files are the arguments that are no
options and no values of options, in their order. If a program cannot be read, the session fails as the
first such does and writes nothing. Otherwise it shows its programs, each behind its name where there are
several, up to the first run that fails. If no run fails, it fails exactly when there are programs with an
error, whose number it tells. What is sent to the runtime comes from programs without an error. Alone a
program is shown as it is among others, without its name. -/
theorem execute_of_sources (host : Host) (line : CommandLine) :
    (∀ arguments, CommandLine.parse arguments = .ok line →
      line.files = CommandLine.operands arguments ∧
      Session.run host arguments = some (execute host line).outcome) ∧
    (∀ before source after failure, sources line = before ++ source :: after →
      (∀ earlier ∈ before, ∃ program, earlier.load host = .ok program) →
      source.load host = .error failure → execute host line = ⟨⟨"", ""⟩, some failure⟩) ∧
    (∀ programs : List Program, (sources line).map (Source.load host) = programs.map .ok →
      (∃ shown failure, Shows host line (1 < programs.length) programs shown failure ∧
        execute host line = ⟨shown, failure.or (if failedCount host line programs = 0 then none
          else some (.failedPrograms (failedCount host line programs)))⟩) ∧
      ((execute host line).outcome.status = 0 ↔ ∀ program ∈ programs,
        (report host line program).error = none ∧ ∀ text, Sent host line program text →
          ∃ output, host.run (config host line).runtime text = .exited output 0) ∧
      ∀ run : (command program : String) → RunResult,
        (∀ program ∈ programs, ∀ text, Sent host line program text →
          run (config host line).runtime text = host.run (config host line).runtime text) →
        execute { host with run } line = execute host line) ∧
    ∀ source ∈ sources line, ∀ program, source.load host = .ok program →
      ∀ output failure, Ran host line program output failure →
        execute host (only line source) = ⟨block host line program output,
          failure.or (if (report host line program).error = none then none
            else some (.failedPrograms 1))⟩ := by
  refine ⟨fun arguments parsed => ⟨CommandLine.files_of_parse parsed, by rw [Session.run, parsed]⟩,
    fun before source after failure split read failed => ?_, fun programs loaded => ?_,
    fun source mem program loaded output failure ran => ?_⟩
  · rw [execute, readPrograms_eq_mapM, split, Run.mapM_eq_error read failed]
  · obtain ⟨shown, failure, shows⟩ := exists_shows host line (1 < programs.length) programs
    have ends := execute_of_shows loaded shows
    refine ⟨⟨shown, failure, shows, ends⟩, ?_, fun run same => ?_⟩
    · have counted : (if failedCount host line programs = 0 then none
          else some (Failure.failedPrograms (failedCount host line programs))) = none ↔
            ∀ program ∈ programs, (report host line program).error = none := by
        rw [← failedCount_eq_zero_iff]
        simp
      rw [Ending.status_eq_zero_iff, ends, Option.or_eq_none_iff, shows.failure_eq_none_iff, counted,
        and_comm]
      exact forall₂_and.symm
    · have loads : (sources line).map (Source.load { host with run }) = programs.map .ok := by
        rw [← loaded]
        exact List.map_congr_left fun source _ => load_with_run source
      rw [ends, execute_of_shows loads (shows.with_run same)]
      rfl
  · exact execute_only mem loaded ran

/-- In the file `a` a parenthesis is not closed, in `b` a character is not known, and `c` is not there.
Both programs are shown and one of them is counted. If they are run, the run of `b` ends the session, also
where `b` is the only file, and `a` is not sent to the runtime. If `c` is one of the files, nothing is
shown. -/
theorem execute_of_sources_three_files :
    let host : Host := ⟨fun _ => none, .empty, fun path =>
      if path = "a" then .ok "(".toUTF8 else if path = "b" then .ok "@1".toUTF8 else .error .missing,
      fun _ _ => .exited "1\n" 3⟩
    let line (flag : Flag) (paths : List String) : CommandLine := ⟨[⟨flag, none⟩], paths.reverse⟩
    let other (_command _program : String) : RunResult := .notSent "Broken pipe (os error 32)"
    Session.run host ["-s", "a", "b"] = some ⟨⟨"==> a <==\n==> b <==\n[shunting]\n" ++
        "MSE(Token(number, \"1\", 1))\n", "\x1b[31merror\x1b[39m: a: syntax error: Expected matching `)` " ++
        "@ 1,1\n\x1b[33mwarning\x1b[39m: b: [SHUNT] Unhandled token type other (\"@\") @ 1,1\n" ++
        "Error: 1 program(s) failed to compile\n"⟩, 1⟩ ∧
      Session.run host ["-r", "b", "a"] = some ⟨⟨"==> b <==\n1\n",
        "\x1b[33mwarning\x1b[39m: b: [SHUNT] Unhandled token type other (\"@\") @ 2,1\n" ++
        "Error: `ruby` exited with exit status: 3\n"⟩, 1⟩ ∧
      execute host (line .run ["b"]) = ⟨block host (line .run ["b", "a"]) ⟨"b", "@1"⟩ "1\n",
        some (.badStatus "ruby" 3)⟩ ∧
      execute { host with run := other } (line .run ["a"]) = execute host (line .run ["a"]) ∧
      Session.run host ["-s", "a", "c", "b"] = some ⟨⟨"",
        "Error: Unable to read c.\n\nCaused by:\n    No such file or directory (os error 2)\n"⟩, 1⟩ := by
  intro host line other
  refine ⟨?_, ?_, ?_, ?_, ?_⟩
  · have shown := (execute_of_sources host (line .shunt ["a", "b"])).1
    refine (shown ["-s", "a", "b"] (by decide +kernel)).2.trans (congrArg some ?_)
    decide +kernel
  · have ran := (execute_of_sources host (line .run ["b", "a"])).1
    refine (ran ["-r", "b", "a"] (by decide +kernel)).2.trans (congrArg some ?_)
    decide +kernel
  · have alone := (execute_of_sources host (line .run ["b", "a"])).2.2.2 (.file "b") List.mem_cons_self
      ⟨"b", "@1"⟩ rfl "1\n" (some (.badStatus "ruby" 3))
    have error : (report host (line .run ["b", "a"]) ⟨"b", "@1"⟩).error = none := by decide +kernel
    have compiled : (report host (line .run ["b", "a"]) ⟨"b", "@1"⟩).runnable.isSome = true := by
      decide +kernel
    obtain ⟨text, runnable⟩ := Option.isSome_iff_exists.1 compiled
    exact alone (.badStatus ⟨error, runnable⟩ rfl (by decide))
  · have loaded := (execute_of_sources host (line .run ["a"])).2.2.1 [⟨"a", "("⟩] rfl
    have error : (report host (line .run ["a"]) ⟨"a", "("⟩).error ≠ none := by decide +kernel
    refine loaded.2.2 other fun program mem text sent => ?_
    rw [List.mem_singleton.1 mem] at sent
    exact (error sent.1).elim
  · have missing := execute_of_sources host (line .shunt ["a", "c", "b"])
    refine (missing.1 ["-s", "a", "c", "b"] (by decide +kernel)).2.trans (congrArg some ?_)
    rw [missing.2.1 [.file "a"] (.file "c") [.file "b"] _ rfl ?_ rfl]
    · decide +kernel
    · rintro _ mem
      rw [List.mem_singleton.1 mem]
      exact ⟨⟨"a", "("⟩, rfl⟩

end Session

end ExprCompiler
