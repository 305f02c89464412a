import ExprCompiler.Proofs.Compilation
import ExprCompiler.Session

/-!
# Reports, task by task

A report is put together of what its tasks make of the source text alone, and so of what the stage flags
of a command line report one by one:

* `Report.alone`: the report of a single task;
* `Report.extend_sections`, `Report.extend_error`, `Report.extend_warnings`: a report that is carried on,
  from the reports of the tasks alone;
* `Report.perform_ast_of_shunt`, `Report.perform_compile_of_ast`: a task fails when an earlier stage does,
  with the same error;
* `Report.warnings_shunt_ast`, `Report.warnings_ast_compile`: it tells first what the earlier stage tells;
* `Report.Leads`, `Report.pairwise_leads`: so the last task that succeeds tells all that is told;
* `CommandLine.stageOnly`, `Session.process_stageOnly`: a command line with a single stage flag, which
  reports what its task makes alone;
* `Session.process_stages`: the report of every command line that runs nothing.
-/

namespace ExprCompiler

/-- Tasks that replace the warnings of those before them. -/
def Task.warns : Task → Bool
  | tokenize => false
  | _ => true

/-- The titles of what a task shows. -/
def Task.titles : Task → List String
  | shunt => ["shunting"]
  | tokenize => ["tokenizing"]
  | ast => ["ast"]
  | compile => ["compiled"]
  | run => []

namespace Report

/-- The report of a single task. -/
def alone (settings : Settings) (source : String) (task : Task) : Report :=
  make settings [task] source

/-- The task alone has no error. -/
def succeeds (settings : Settings) (source : String) (task : Task) : Bool :=
  (alone settings source task).error.isNone

section Extend

variable {settings : Settings} {source : String} {task : Task}

theorem alone_of_ok {part : Part} (h : perform settings source task = .ok part) :
    alone settings source task = ({} : Report).add part := by
  simp only [alone, make, extend, h]

theorem alone_of_error {error : String} (h : perform settings source task = .error error) :
    alone settings source task = { error := some error } := by
  simp only [alone, make, extend, h]

theorem succeeds_iff : succeeds settings source task = true ↔
    ∃ part, perform settings source task = .ok part := by
  cases h : perform settings source task with
  | ok part => simp [succeeds, alone_of_ok h, add]
  | error error => simp [succeeds, alone_of_error h]

theorem not_succeeds_iff : succeeds settings source task = false ↔
    ∃ error, perform settings source task = .error error := by
  cases h : perform settings source task with
  | ok part => simp [succeeds, alone_of_ok h, add]
  | error error => simp [succeeds, alone_of_error h]

theorem alone_error_iff {error : String} : (alone settings source task).error = some error ↔
    perform settings source task = .error error := by
  cases h : perform settings source task with
  | ok part => simp [alone_of_ok h, add]
  | error error => simp [alone_of_error h]

/-- A task that succeeds shows what it is named for. It has warnings to tell, if only that there are none,
or leaves them as they are. -/
theorem of_perform_eq_ok {part : Part} (h : perform settings source task = .ok part) :
    part.sections.map Section.title = task.titles ∧ part.warnings.isSome = task.warns := by
  cases task with
  | tokenize =>
    cases h
    exact ⟨rfl, rfl⟩
  | _ =>
    obtain ⟨_, -, made⟩ := Run.bind_eq_ok_iff.1 h
    cases made
    exact ⟨rfl, rfl⟩

theorem alone_titles (done : succeeds settings source task = true) :
    (alone settings source task).sections.map Section.title = task.titles := by
  obtain ⟨part, h⟩ := succeeds_iff.1 done
  rw [alone_of_ok h]
  exact (of_perform_eq_ok h).1

/-- What is told about a report that a task is added to. -/
theorem add_warnings {part : Part} (h : perform settings source task = .ok part) (report : Report) :
    (report.add part).warnings =
      if task.warns then (alone settings source task).warnings else report.warnings := by
  rw [alone_of_ok h, ← (of_perform_eq_ok h).2]
  cases told : part.warnings <;> simp [add, told]

/-- Carries a report on as long as its tasks succeed. -/
theorem extend_cons (report : Report) (tasks : List Task) :
    extend settings source report (task :: tasks) =
      match perform settings source task with
      | .ok part => extend settings source (report.add part) tasks
      | .error error => { report with error := some error } :=
  rfl

theorem extend_sections (report : Report) (tasks : List Task) :
    (extend settings source report tasks).sections =
      report.sections ++ (tasks.takeWhile (succeeds settings source)).flatMap fun task =>
        (alone settings source task).sections := by
  induction tasks generalizing report with
  | nil => exact (List.append_nil _).symm
  | cons task tasks ih =>
    rw [extend_cons]
    cases h : perform settings source task with
    | ok part =>
      rw [List.takeWhile_cons_of_pos (succeeds_iff.2 ⟨part, h⟩), List.flatMap_cons, alone_of_ok h]
      show (extend settings source (report.add part) tasks).sections = _
      rw [ih]
      exact List.append_assoc ..
    | error error =>
      rw [List.takeWhile_cons_of_neg (by rw [not_succeeds_iff.2 ⟨error, h⟩]; decide)]
      exact (List.append_nil _).symm

theorem extend_error {report : Report} (none : report.error = none) (tasks : List Task) :
    (extend settings source report tasks).error =
      tasks.findSome? fun task => (alone settings source task).error := by
  induction tasks generalizing report with
  | nil => exact none
  | cons task tasks ih =>
    rw [extend_cons, List.findSome?_cons]
    cases h : perform settings source task with
    | ok part =>
      rw [alone_of_ok h]
      exact ih none
    | error error => rw [alone_of_error h]

theorem extend_warnings (report : Report) (tasks : List Task) :
    (extend settings source report tasks).warnings =
      (((tasks.takeWhile (succeeds settings source)).filter Task.warns).getLast?).elim report.warnings
        fun task => (alone settings source task).warnings := by
  induction tasks generalizing report with
  | nil => rfl
  | cons task tasks ih =>
    rw [extend_cons]
    cases h : perform settings source task with
    | ok part =>
      rw [List.takeWhile_cons_of_pos (succeeds_iff.2 ⟨part, h⟩)]
      show (extend settings source (report.add part) tasks).warnings = _
      rw [ih, add_warnings h]
      -- Behind a task that tells something, the last one that does so is the last of the others, or itself.
      cases told : task.warns with
      | false => rw [List.filter_cons_of_neg (by simp [told])]; rfl
      | true =>
        rw [List.filter_cons_of_pos told, List.getLast?_cons]
        cases ((tasks.takeWhile (succeeds settings source)).filter Task.warns).getLast? <;> rfl
    | error error =>
      rw [List.takeWhile_cons_of_neg (by rw [not_succeeds_iff.2 ⟨error, h⟩]; decide)]
      rfl

end Extend

/-! ## Stages behind each other -/

section Stages

variable {settings : Settings} {source : String}

/-- Without a postfix form there are no trees, for the same reason. -/
theorem perform_ast_of_shunt {error : String} (h : perform settings source .shunt = .error error) :
    perform settings source .ast = .error error := by
  cases shunts : Postfix.ofSource source with
  | ok shunted =>
    rw [perform, shunts] at h
    cases h
  | error cause =>
    have builds : Forest.ofSource source = .error cause := by
      rw [Forest.ofSource, shunts]
      rfl
    rw [perform, shunts] at h
    rw [perform, builds]
    exact h

/-- Without trees there is no text of a target, for the same reason if the target is known. -/
theorem perform_compile_of_ast {error : String} (h : perform settings source .ast = .error error) :
    (∃ reason, perform settings source .compile = .error reason) ∧
      ∀ target, Target.find? settings.target = some target →
        perform settings source .compile = .error error := by
  cases builds : Forest.ofSource source with
  | ok forest =>
    rw [perform, builds] at h
    cases h
  | error cause =>
    rw [perform, builds] at h
    have fails (target : Target) (known : Target.find? settings.target = some target) :
        perform settings source .compile = .error error := by
      have compiles : compile settings.target source = .error (.malformed cause) := by
        rw [compile, Target.resolve, known]
        show compileTo target source = _
        rw [compileTo, builds]
        rfl
      rw [perform, compiles]
      exact h
    refine ⟨?_, fails⟩
    cases known : Target.find? settings.target with
    | some target => exact ⟨error, fails target known⟩
    | none =>
      have unknown : compile settings.target source =
          .error (.unknownTarget settings.target (Target.all.map Target.name)) := by
        rw [compile, Target.resolve, known]
        rfl
      exact ⟨_, by rw [perform, unknown]; rfl⟩

theorem alone_shunt_warnings {shunted : Postfix} (h : Postfix.ofSource source = .ok shunted) :
    (alone settings source .shunt).warnings = warningsOf shunted.diagnostics source := by
  rw [alone, make, extend, perform, h]
  rfl

theorem alone_ast_warnings {forest : Forest} (h : Forest.ofSource source = .ok forest) :
    (alone settings source .ast).warnings = warningsOf forest.diagnostics source := by
  rw [alone, make, extend, perform, h]
  rfl

theorem alone_compile_warnings {compiled : Compiled} (h : compile settings.target source = .ok compiled) :
    (alone settings source .compile).warnings = warningsOf compiled.diagnostics source := by
  rw [alone, make, extend, perform, h]
  rfl

theorem warningsOf_append (xs ys : List Diagnostic) :
    warningsOf xs source <+: warningsOf (xs ++ ys) source := by
  rw [warningsOf, warningsOf, List.map_append]
  exact List.prefix_append _ _

/-- What is reported about the postfix form is reported first about the trees. -/
theorem warnings_shunt_ast (h : succeeds settings source .ast = true) :
    (alone settings source .shunt).warnings <+: (alone settings source .ast).warnings := by
  obtain ⟨part, made⟩ := succeeds_iff.1 h
  cases builds : Forest.ofSource source with
  | error cause =>
    rw [perform, builds] at made
    cases made
  | ok forest =>
    obtain ⟨shunted, built, shunts, -, rfl⟩ := Forest.ofSource_eq_ok_iff.1 builds
    rw [alone_shunt_warnings shunts, alone_ast_warnings builds]
    exact warningsOf_append _ _

/-- What is reported about the trees is reported first about the text of a target. -/
theorem warnings_ast_compile (h : succeeds settings source .compile = true) :
    (alone settings source .ast).warnings <+: (alone settings source .compile).warnings := by
  obtain ⟨part, made⟩ := succeeds_iff.1 h
  cases compiles : compile settings.target source with
  | error cause =>
    rw [perform, compiles] at made
    cases made
  | ok compiled =>
    obtain ⟨target, -, compilesTo⟩ := Run.bind_eq_ok_iff.1 compiles
    obtain ⟨forest, builds, -, diagnostics⟩ := compileTo_eq_ok_iff.1 compilesTo
    rw [alone_ast_warnings builds, alone_compile_warnings compiles, diagnostics]
    exact warningsOf_append _ _

/-- A task behind another one tells nothing, or fails when the other fails and tells first what the
other tells. -/
structure Leads (settings : Settings) (source : String) (earlier later : Task) : Prop where
  fails : later.warns = true → succeeds settings source earlier = false →
    succeeds settings source later = false
  keeps : later.warns = true → succeeds settings source later = true →
    (alone settings source earlier).warnings <+: (alone settings source later).warnings

theorem leads_tokenize (earlier : Task) : Leads settings source earlier .tokenize :=
  ⟨nofun, nofun⟩

/-- Reading tokens does not fail, and tells nothing. -/
theorem tokenize_leads (later : Task) : Leads settings source .tokenize later :=
  ⟨fun _ fails => (nomatch fails), fun _ _ => List.nil_prefix⟩

theorem shunt_leads_ast : Leads settings source .shunt .ast := by
  refine ⟨fun _ fails => ?_, fun _ => warnings_shunt_ast⟩
  obtain ⟨error, failed⟩ := not_succeeds_iff.1 fails
  exact not_succeeds_iff.2 ⟨error, perform_ast_of_shunt failed⟩

theorem ast_leads_compile : Leads settings source .ast .compile := by
  refine ⟨fun _ fails => ?_, fun _ => warnings_ast_compile⟩
  obtain ⟨error, failed⟩ := not_succeeds_iff.1 fails
  exact not_succeeds_iff.2 (perform_compile_of_ast failed).1

theorem Leads.trans {first second third : Task} (told : second.warns = true)
    (h : Leads settings source first second) (h' : Leads settings source second third) :
    Leads settings source first third := by
  refine ⟨fun tells fails => h'.fails tells (h.fails told fails), fun tells done => ?_⟩
  have between : succeeds settings source second = true := by
    rw [← Bool.not_eq_false]
    intro fails
    rw [h'.fails tells fails] at done
    cases done
  exact (h.keeps told between).trans (h'.keeps tells done)

/-- The tasks that run nothing, in the order of a report. -/
theorem pairwise_leads :
    [Task.shunt, .tokenize, .ast, .compile].Pairwise (Leads settings source) := by
  have compile : Leads settings source .shunt .compile := shunt_leads_ast.trans rfl ast_leads_compile
  refine .cons ?_ (.cons ?_ (.cons ?_ (.cons nofun .nil)))
  · simp only [List.forall_mem_cons]
    exact ⟨leads_tokenize _, shunt_leads_ast, compile, nofun⟩
  · exact fun later _ => tokenize_leads later
  · exact List.forall_mem_singleton.2 ast_leads_compile

/-- Behind a task that fails no task succeeds that tells something. -/
theorem filter_takeWhile_succeeds {tasks : List Task} (h : tasks.Pairwise (Leads settings source)) :
    (tasks.takeWhile (succeeds settings source)).filter Task.warns =
      tasks.filter fun task => task.warns && succeeds settings source task := by
  induction h with
  | nil => rfl
  | @cons task tasks leads _ ih =>
    cases done : succeeds settings source task with
    | true =>
      rw [List.takeWhile_cons_of_pos done, List.filter_cons, List.filter_cons, ih, done, Bool.and_true]
    | false =>
      -- Those behind it that tell something fail too.
      have none : ∀ later ∈ task :: tasks, ¬ (later.warns && succeeds settings source later) = true := by
        refine List.forall_mem_cons.2 ⟨by simp [done], fun later mem both => ?_⟩
        obtain ⟨tells, succeeded⟩ := Bool.and_eq_true_iff.1 both
        rw [(leads later mem).fails tells done] at succeeded
        cases succeeded
      rw [List.takeWhile_cons_of_neg (by rw [done]; decide), List.filter_nil, List.filter_eq_nil_iff.2 none]

/-- What a task tells that succeeds is told first by the last one that succeeds. -/
theorem warnings_of_mem {tasks : List Task} (h : tasks.Pairwise (Leads settings source)) {task : Task}
    (mem : task ∈ tasks) (done : succeeds settings source task = true) :
    (alone settings source task).warnings <+:
      ((tasks.filter fun task => task.warns && succeeds settings source task).getLast?).elim []
        fun task => (alone settings source task).warnings := by
  cases tells : task.warns with
  | false =>
    obtain ⟨part, made⟩ := succeeds_iff.1 done
    have none : part.warnings = none := by
      rw [← (of_perform_eq_ok made).2] at tells
      exact Option.not_isSome_iff_eq_none.1 (by rw [tells]; decide)
    rw [alone_of_ok made, add, none]
    exact List.nil_prefix
  | true =>
    have mem' : task ∈ tasks.filter fun task => task.warns && succeeds settings source task :=
      List.mem_filter.2 ⟨mem, by rw [tells, done]; rfl⟩
    obtain ⟨others, last, split⟩ := (List.eq_nil_or_concat _).resolve_left (List.ne_nil_of_mem mem')
    rw [List.concat_eq_append] at split
    have pairwise := h.filter fun task => task.warns && succeeds settings source task
    have told : last ∈ tasks.filter fun task => task.warns && succeeds settings source task := by
      rw [split]
      exact List.mem_append_right _ List.mem_cons_self
    obtain ⟨tellsLast, doneLast⟩ := Bool.and_eq_true_iff.1 (List.mem_filter.1 told).2
    rw [split] at mem' pairwise ⊢
    rw [List.getLast?_concat]
    -- The task is the last one, or stands before it and leads it.
    rcases List.mem_append.1 mem' with before | itself
    · have leads := (List.pairwise_append.1 pairwise).2.2 task before last List.mem_cons_self
      exact leads.keeps tellsLast doneLast
    · rw [List.mem_singleton.1 itself]
      exact List.prefix_rfl

end Stages

end Report

/-! ## Stage flags -/

/-- The flags that ask for a form of the program, in the order of the forms. -/
def Flag.stages : List Flag := [shunt, tokenize, ast, compile]

/-- The title of the form that a stage flag asks for. -/
def Flag.title : Flag → String
  | shunt => "shunting"
  | tokenize => "tokenizing"
  | ast => "ast"
  | _ => "compiled"

/-- The command line with the flag as its only stage, and all else as it is. -/
def CommandLine.stageOnly (line : CommandLine) (flag : Flag) : CommandLine :=
  { line with settings := ⟨flag, none⟩ :: line.settings.filter fun setting => setting.flag ∉ Flag.stages }

theorem CommandLine.has_stageOnly (line : CommandLine) (flag other : Flag) :
    (line.stageOnly flag).has other = true ↔ other = flag ∨ other ∉ Flag.stages ∧ line.has other = true := by
  simp only [has, stageOnly, List.any_cons, List.any_filter, Bool.or_eq_true, List.any_eq_true,
    Bool.and_eq_true, decide_eq_true_eq, beq_iff_eq]
  constructor
  · rintro (same | ⟨setting, mem, other, rfl⟩)
    · exact .inl same.symm
    · exact .inr ⟨other, setting, mem, rfl⟩
  · rintro (same | ⟨other, setting, mem, rfl⟩)
    · exact .inl same.symm
    · exact .inr ⟨setting, mem, other, rfl⟩

namespace Session

variable {line : CommandLine}

/-- The stages of a command line, by their flags. -/
theorem map_flag_tasks (noRun : line.has .run = false) :
    (tasks line).map Task.flag = Flag.stages.filter line.has := by
  have flags : Task.all.map Task.flag = Flag.stages ++ [.run] := rfl
  have run : [Flag.run].filter line.has = [] := by simp [noRun]
  have mapped : (Task.all.map Task.flag).filter line.has = (tasks line).map Task.flag := List.filter_map
  rw [← mapped, flags, List.filter_append, run, List.append_nil]

theorem tasks_sublist (noRun : line.has .run = false) :
    (tasks line).Sublist [.shunt, .tokenize, .ast, .compile] := by
  have none : [Task.run].filter (fun task => line.has task.flag) = [] := by simp [Task.flag, noRun]
  show (([Task.shunt, .tokenize, .ast, .compile] ++ [Task.run]).filter _).Sublist _
  rw [List.filter_append, none, List.append_nil]
  exact List.filter_sublist

/-- The report of a flag alone is that of its task alone. -/
theorem process_stageOnly (host : Host) (config : Config) (program : Program)
    (noRun : line.has .run = false) (task : Task) :
    process host (line.stageOnly task.flag) config program =
      Report.alone (reportSettings host line config) program.source task := by
  have json : (line.stageOnly task.flag).has .json = line.has .json := by
    rw [Bool.eq_iff_iff, CommandLine.has_stageOnly]
    cases task <;> simp [Task.flag, Flag.stages]
  have only (other : Task) : (line.stageOnly task.flag).has other.flag = decide (other = task) := by
    rw [Bool.eq_iff_iff, CommandLine.has_stageOnly, decide_eq_true_eq]
    cases other <;> cases task <;> simp [Task.flag, Flag.stages, noRun]
  have asked : tasks (line.stageOnly task.flag) = [task] := by
    rw [tasks, List.filter_congr fun other _ => only other]
    cases task <;> rfl
  rw [process, asked, reportSettings, json]
  rfl

open Report in
/-- The report of a command line that runs nothing is put together of what each of its stage flags reports
alone, all else being as it is. It has the sections of the flags before the first that fails, in the order
of the stages, and the error of that one. Its warnings are those of the last flag that succeeds and has any
to tell, which begin with the warnings of every other flag that succeeds. Where there is no postfix form,
there are no trees and, if the target is known, no text, for the same reason. -/
theorem process_stages (host : Host) (line : CommandLine) (config : Config) (program : Program)
    (noRun : line.has .run = false) :
    let alone (flag : Flag) := process host (line.stageOnly flag) config program
    let succeeds (flag : Flag) := (alone flag).error.isNone
    let asked := Flag.stages.filter line.has
    let report := process host line config program
    (∀ flag other, (line.stageOnly flag).has other = true ↔
      other = flag ∨ other ∉ Flag.stages ∧ line.has other = true) ∧
    report.sections = (asked.takeWhile succeeds).flatMap (fun flag => (alone flag).sections) ∧
    report.sections.map Section.title = (asked.takeWhile succeeds).map Flag.title ∧
    report.error = asked.findSome? (fun flag => (alone flag).error) ∧
    report.warnings = ((asked.filter fun flag => flag ≠ .tokenize && succeeds flag).getLast?).elim []
      (fun flag => (alone flag).warnings) ∧
    (∀ flag ∈ asked, succeeds flag = true → (alone flag).warnings <+: report.warnings) ∧
    ∀ error, (alone .shunt).error = some error → (alone .ast).error = some error ∧
      ∀ target, Target.find? config.target = some target → (alone .compile).error = some error := by
  intro alone succeeds asked report
  have sublist := tasks_sublist noRun
  have leads : (tasks line).Pairwise (Leads (reportSettings host line config) program.source) :=
    pairwise_leads.sublist sublist
  have same (task : Task) : alone task.flag =
      Report.alone (reportSettings host line config) program.source task :=
    process_stageOnly host config program noRun task
  have done (task : Task) : succeeds task.flag =
      Report.succeeds (reportSettings host line config) program.source task :=
    congrArg (fun report : Report => report.error.isNone) (same task)
  have flags : asked = (tasks line).map Task.flag := (map_flag_tasks noRun).symm
  have shown : asked.takeWhile succeeds = ((tasks line).takeWhile
      (Report.succeeds (reportSettings host line config) program.source)).map Task.flag := by
    rw [flags, List.takeWhile_map]
    exact congrArg _ (congrArg (List.takeWhile · _) (funext done))
  have sections : report.sections = _ := extend_sections {} (tasks line)
  have warnings : report.warnings = _ := extend_warnings {} (tasks line)
  have error : report.error = _ := extend_error rfl (tasks line)
  have told : ((asked.filter fun flag => flag ≠ .tokenize && succeeds flag).getLast?).elim []
      (fun flag => (alone flag).warnings) = report.warnings := by
    have warns (task : Task) : (decide (task.flag ≠ .tokenize) && succeeds task.flag) =
        (task.warns && Report.succeeds (reportSettings host line config) program.source task) := by
      rw [done]
      cases task <;> rfl
    rw [warnings, filter_takeWhile_succeeds leads, flags, List.filter_map, List.getLast?_map,
      Option.elim_map]
    simp only [Function.comp_def, warns, same]
  refine ⟨line.has_stageOnly, ?_, ?_, ?_, told.symm, ?_, fun error failed => ?_⟩
  · rw [sections, shown, List.flatMap_map]
    simp only [same, List.nil_append]
  · rw [sections, shown, List.nil_append, List.map_flatMap, List.map_map, List.map_eq_flatMap]
    refine congrArg List.flatten (List.map_congr_left fun task mem => ?_)
    have stage := sublist.subset ((List.takeWhile_sublist _).subset mem)
    rw [alone_titles (List.all_eq_true.1 List.all_takeWhile task mem)]
    simp only [List.mem_cons, List.not_mem_nil, or_false] at stage
    obtain rfl | rfl | rfl | rfl := stage <;> rfl
  · rw [error, flags, List.findSome?_map]
    simp only [Function.comp_def, same]
  · rw [flags, List.forall_mem_map, warnings, filter_takeWhile_succeeds leads]
    intro task mem succeeded
    rw [same]
    exact warnings_of_mem leads mem ((done task).symm.trans succeeded)
  · rw [show alone .shunt = _ from same .shunt] at failed
    have failed := perform_ast_of_shunt (alone_error_iff.1 failed)
    rw [show alone .ast = _ from same .ast, show alone .compile = _ from same .compile]
    exact ⟨alone_error_iff.2 failed, fun target known =>
      alone_error_iff.2 ((perform_compile_of_ast failed).2 target known)⟩

/-- There is a postfix form of `@+`, with a warning about the first character, but nothing that the
operator could be applied to. The report has the postfix form with its warning and the tokens, but the error
of the trees. -/
theorem process_stages_without_trees :
    let host : Host := ⟨fun _ => none, .empty, fun _ => .error .missing, fun _ program => .exited program 0⟩
    let line : CommandLine := ⟨[⟨.ast, none⟩, ⟨.tokenize, none⟩, ⟨.shunt, none⟩], []⟩
    let alone (flag : Flag) := process host (line.stageOnly flag) ⟨"ruby", "", ""⟩ ⟨"-e", "@+"⟩
    let report := process host line ⟨"ruby", "", ""⟩ ⟨"-e", "@+"⟩
    line.has .run = false ∧ report.sections = (alone .shunt).sections ++ (alone .tokenize).sections ∧
      report.sections.map Section.title = ["shunting", "tokenizing"] ∧
      report.error = (alone .ast).error ∧ report.error.isSome = true ∧
      report.warnings = (alone .shunt).warnings := by
  intro host line alone report
  have shunts : (alone .shunt).error = none := by decide +kernel
  have reads : (alone .tokenize).error = none := by decide +kernel
  have fails : (alone .ast).error.isNone = false := by decide +kernel
  have asked : Flag.stages.filter line.has = [.shunt, .tokenize, .ast] := rfl
  have shown : [Flag.shunt, .tokenize, .ast].takeWhile (fun flag => (alone flag).error.isNone) =
      [.shunt, .tokenize] := by
    simp [shunts, reads, fails]
  obtain ⟨-, sections, titles, error, warnings, -⟩ :=
    process_stages host line ⟨"ruby", "", ""⟩ ⟨"-e", "@+"⟩ rfl
  rw [asked] at sections titles error warnings
  rw [shown] at sections titles
  have last : report.error = (alone .ast).error := by
    refine error.trans ?_
    show [Flag.shunt, .tokenize, .ast].findSome? (fun flag => (alone flag).error) = _
    simp [shunts, reads]
  refine ⟨rfl, sections.trans ?_, titles, last, ?_, warnings.trans ?_⟩
  · exact congrArg _ (List.append_nil _)
  · rw [last, ← Option.not_isNone, fails]
    rfl
  · show (([Flag.shunt, .tokenize, .ast].filter fun flag =>
      flag ≠ .tokenize && (alone flag).error.isNone).getLast?).elim [] (fun flag => (alone flag).warnings) = _
    simp [shunts, fails]

end Session

end ExprCompiler
