import ExprCompiler.CommandLine
import ExprCompiler.Proofs.Run
import Mathlib.Data.List.TakeWhile

/-!
# Files on the command line

Which arguments of a command line are its files:

* `CommandLine.awaitsValue`: arguments that end with the name of an option, so that its value may follow;
* `CommandLine.operands`: the arguments that are no options and no values of options;
* `CommandLine.files_of_parse`: these are the files, in the order of the arguments.
-/

namespace ExprCompiler.CommandLine

/-- The option may have a value. -/
def takesValue (flag : Flag) : Bool :=
  flag.valueRule ≠ .none

/-- The letter is the name of an option without a value. -/
def isSwitch (letter : Char) : Bool :=
  (Flag.ofShort? letter).any fun flag => !takesValue flag

/-- The argument ends with the name of an option that may have a value. -/
def awaitsValue (argument : String) : Bool :=
  match argument.toList with
  | '-' :: '-' :: name => '=' ∉ name && (Flag.ofLong? (String.ofList name)).any takesValue
  | _ :: letters =>
    match letters.dropWhile isSwitch with
    | [letter] => (Flag.ofShort? letter).any takesValue
    | _ => false
  | [] => false

/-- The arguments that are no options and no values of options. An option may await its value in front
of the first of them. Behind a double dash there are no more options. -/
def operandsFrom (awaited : Bool) : List String → List String
  | [] => []
  | argument :: rest =>
    if argument = "--" then rest
    else if isOption argument then operandsFrom (awaitsValue argument) rest
    else if awaited then operandsFrom false rest
    else argument :: operandsFrom false rest

/-- The arguments of a command that are no options and no values of options. -/
def operands (arguments : List String) : List String :=
  operandsFrom false arguments

variable {line next : CommandLine}

/-! ## Options add no files -/

theorem addSetting_paths {flag : Flag} {value : Option String}
    (h : line.addSetting flag value = .ok next) : next.paths = line.paths := by
  unfold addSetting at h
  split at h
  · cases h
  · split at h <;> cases h
    rfl

theorem addPending_paths {pending : Option Flag} (h : line.addPending pending = .ok next) :
    next.paths = line.paths := by
  unfold addPending at h
  split at h
  · cases h
    rfl
  · split at h
    · cases h
    · exact addSetting_paths h

/-- An option without an attached value adds no file, and awaits the value that it may have. -/
theorem addBare_adds {flag : Flag} {pending : Option Flag}
    (h : line.addBare flag = .ok (next, pending)) :
    next.paths = line.paths ∧ pending.isSome = takesValue flag := by
  unfold addBare at h
  split at h
  · rename_i none
    obtain ⟨added, adds, same⟩ := Run.bind_eq_ok_iff.1 h
    cases same
    exact ⟨addSetting_paths adds, by simp [takesValue, none]⟩
  · rename_i some
    cases h
    exact ⟨rfl, by simpa [takesValue] using some⟩

theorem addLong_adds {name : String} {value : Option String} {pending : Option Flag}
    (h : line.addLong name value = .ok (next, pending)) :
    next.paths = line.paths ∧
      pending.isSome = (value.isNone && (Flag.ofLong? name).any takesValue) := by
  unfold addLong at h
  split at h
  · cases h
  · rename_i flag found
    rw [found]
    exact addBare_adds h
  · split at h
    · cases h
    · obtain ⟨added, adds, same⟩ := Run.bind_eq_ok_iff.1 h
      cases same
      exact ⟨addSetting_paths adds, rfl⟩

/-- A group of one-letter names adds no file. It awaits a value if the last name may have one and all
others have none. -/
theorem addShort_adds {letters : List Char} {pending : Option Flag}
    (h : line.addShort letters = .ok (next, pending)) :
    next.paths = line.paths ∧ pending.isSome =
      match letters.dropWhile isSwitch with
      | [letter] => (Flag.ofShort? letter).any takesValue
      | _ => false := by
  induction letters generalizing line with
  | nil =>
    cases h
    exact ⟨rfl, rfl⟩
  | cons letter rest ih =>
    rw [addShort] at h
    split at h
    · cases h
    rename_i flag found
    cases rule : takesValue flag with
    | false =>
      have none : flag.valueRule = .none := by simpa [takesValue] using rule
      have plain : isSwitch letter = true := by simp [isSwitch, found, rule]
      rw [List.dropWhile_cons_of_pos plain]
      split at h
      · obtain ⟨added, adds, more⟩ := Run.bind_eq_ok_iff.1 h
        obtain ⟨paths, awaits⟩ := ih more
        exact ⟨paths.trans (addSetting_paths adds), awaits⟩
      all_goals contradiction
    | true =>
      have some : flag.valueRule ≠ .none := by simpa [takesValue] using rule
      have valued : ¬ isSwitch letter = true := by simp [isSwitch, found, rule]
      rw [List.dropWhile_cons_of_neg valued]
      cases rest with
      | nil =>
        cases named : flag.valueRule with
        | none => contradiction
        | optional | required =>
          rw [named] at h
          cases h
          simp [found, rule]
      | cons first others =>
        -- What stands behind the name is its value, with or without an equals sign.
        split at h
        · contradiction
        · contradiction
        all_goals
          obtain ⟨added, adds, same⟩ := Run.bind_eq_ok_iff.1 h
          cases same
          exact ⟨addSetting_paths adds, rfl⟩

/-! ## Files -/

theorem addFile_paths {path : String} (h : line.addFile path = .ok next) :
    next.paths = path :: line.paths := by
  unfold addFile at h
  split at h <;> cases h
  rfl

theorem foldlM_addFile_paths {paths : List String} (h : paths.foldlM addFile line = .ok next) :
    next.paths = paths.reverse ++ line.paths := by
  induction paths generalizing line with
  | nil => rw [← Run.nil_eq_ok_iff.1 h]; rfl
  | cons path paths ih =>
    obtain ⟨added, adds, more⟩ := Run.cons_eq_ok_iff.1 h
    rw [ih more, addFile_paths adds, List.reverse_cons, List.append_assoc]
    rfl

/-- A long name awaits a value if it is all of the argument. -/
theorem awaitsValue_of_long {argument : String} {long : List Char}
    (dashes : argument.toList = '-' :: '-' :: long) : awaitsValue argument =
      ((splitLong long).2.isNone && (Flag.ofLong? (splitLong long).1).any takesValue) := by
  simp only [awaitsValue, dashes]
  by_cases attached : '=' ∈ long
  · have value : (splitLong long).2.isNone = false := by
      cases rest : long.dropWhile (· ≠ '=') with
      | nil => exact absurd (List.dropWhile_eq_nil_iff.1 rest '=' attached) (by decide)
      | cons => simp only [splitLong, rest]; rfl
    rw [value]
    simp [attached]
  · have all : ∀ c ∈ long, (decide (c ≠ '=')) = true := by
      intro c mem
      rw [decide_eq_true_eq]
      rintro rfl
      exact attached mem
    have none : long.dropWhile (· ≠ '=') = [] := List.dropWhile_eq_nil_iff.2 all
    have whole : long.takeWhile (· ≠ '=') = long := List.takeWhile_eq_self_iff.2 all
    simp only [splitLong, none, whole]
    simp [attached]

/-- One-letter names await a value as a group. -/
theorem awaitsValue_of_short {argument : String}
    (notLong : ∀ long, argument.toList = '-' :: '-' :: long → False) : awaitsValue argument =
      match argument.toList.tail.dropWhile isSwitch with
      | [letter] => (Flag.ofShort? letter).any takesValue
      | _ => false := by
  unfold awaitsValue
  split
  · rename_i long dashes
    exact (notLong long dashes).elim
  · rename_i dashes
    rw [dashes, List.tail_cons]
  · rename_i empty
    rw [empty]
    rfl

/-- Reading adds the arguments that are no options and no values of options. -/
theorem read_paths {arguments : List String} {pending : Option Flag}
    (h : line.read pending arguments = .ok next) :
    next.paths = (operandsFrom pending.isSome arguments).reverse ++ line.paths := by
  induction arguments generalizing line pending with
  | nil => exact addPending_paths h
  | cons argument rest ih =>
    unfold CommandLine.read at h
    rw [operandsFrom]
    split at h
    · rename_i option
      obtain ⟨settled, settles, h⟩ := Run.bind_eq_ok_iff.1 h
      have same := addPending_paths settles
      split at h
      · rename_i dashes
        have whole : argument = "--" := String.toList_injective dashes
        rw [if_pos whole, foldlM_addFile_paths h, same]
      · rename_i long more dashes
        have other : ¬ argument = "--" := by
          rintro rfl
          cases dashes
          exact more rfl
        obtain ⟨⟨added, pending⟩, adds, more⟩ := Run.bind_eq_ok_iff.1 h
        obtain ⟨paths, awaits⟩ := addLong_adds adds
        rw [if_neg other, if_pos option, ih more, paths, same, awaits, awaitsValue_of_long dashes]
        rfl
      · rename_i notDashes notLong
        have other : ¬ argument = "--" := by
          rintro rfl
          exact notDashes rfl
        obtain ⟨⟨added, pending⟩, adds, more⟩ := Run.bind_eq_ok_iff.1 h
        obtain ⟨paths, awaits⟩ := addShort_adds adds
        rw [if_neg other, if_pos option, ih more, paths, same, awaits, awaitsValue_of_short notLong]
    · rename_i option
      have other : ¬ argument = "--" := by
        rintro rfl
        exact option (by decide)
      rw [if_neg other, if_neg option]
      split at h
      · obtain ⟨added, adds, more⟩ := Run.bind_eq_ok_iff.1 h
        rw [ih more, addSetting_paths adds]
        rfl
      · obtain ⟨added, adds, more⟩ := Run.bind_eq_ok_iff.1 h
        rw [ih more, addFile_paths adds]
        simp

/-- The files of a command line are those of its arguments that are no options and no values of options,
in their order. -/
theorem files_of_parse {arguments : List String} (h : parse arguments = .ok line) :
    line.files = operands arguments := by
  obtain ⟨read, reads, same⟩ := Run.bind_eq_ok_iff.1 h
  have paths := read_paths reads
  split at same <;> cases same
  rw [CommandLine.files, paths, empty, List.append_nil, List.reverse_reverse]
  rfl

example : operands ["a", "-sb", "ruby", "--prelude=p", "b", "-rbruby", "c", "--", "-t"] =
    ["a", "b", "c", "-t"] := by
  decide +kernel

end ExprCompiler.CommandLine
