import ExprCompiler.Text.Location
import Mathlib.Data.List.Induction

/-!
# Exact locations

What the location of a byte offset counts, and that it tells the places of a text apart:

* `Location.charStarts`, `Location.before`: the characters of a text with the bytes they start at, and
  those that start before an offset;
* `Location.walk_eq_foldl`: a location counts the characters before its offset, one after the other;
* `Location.foldl_next`: so it counts the newlines, and the characters behind the last of them, as long
  as the words that it counts with do not overflow;
* `Location.foldl_next_precedes`: more characters lead to a later location;
* `Location.before_append`, `Location.exists_next_boundary`: the characters before a boundary between two
  characters, and before an offset that may be no boundary;
* `ofOffset_exact`: the locations of all offsets of a text.
-/

namespace ExprCompiler

namespace Location

/-- The characters with the byte that each starts at, the first of them at `position`. -/
def charStarts (position : Nat) : List Char → List (Nat × Char)
  | [] => []
  | c :: cs => (position, c) :: charStarts (position + c.utf8Size) cs

/-- The characters that start before an offset, when the first of all starts at `position`. -/
def startingBefore (offset position : Nat) (cs : List Char) : List Char :=
  ((charStarts position cs).filter fun start => start.1 < offset).map Prod.snd

/-- The characters of a text that start before an offset. -/
def before (source : String) (offset : Nat) : List Char :=
  startingBefore offset 0 source.toList

/-- The first boundary between characters that is not before an offset. -/
structure IsNextBoundary (source : String) (offset boundary : Nat) : Prop where
  valid : String.Pos.Raw.IsValid source ⟨boundary⟩
  le : offset ≤ boundary
  least : ∀ other, String.Pos.Raw.IsValid source ⟨other⟩ → offset ≤ other → boundary ≤ other

/-- The lexicographic order: an earlier line, or the same line and an earlier column. -/
def Precedes (location later : Location) : Prop :=
  location.line < later.line ∨ location.line = later.line ∧ location.column < later.column

theorem not_precedes_self (location : Location) : ¬ location.Precedes location := by
  rintro (line | ⟨-, column⟩)
  · exact UInt32.lt_irrefl _ line
  · exact UInt32.lt_irrefl _ column

/-! ## Characters before an offset -/

section StartingBefore

variable {offset position : Nat}

theorem position_le_of_mem_charStarts {start : Nat × Char} {cs : List Char}
    (mem : start ∈ charStarts position cs) : position ≤ start.1 := by
  induction cs generalizing position with
  | nil => cases mem
  | cons c cs ih =>
    obtain rfl | later := List.mem_cons.1 mem
    · exact Nat.le_refl _
    · have le := ih later
      omega

theorem startingBefore_of_le (le : offset ≤ position) (cs : List Char) :
    startingBefore offset position cs = [] := by
  rw [startingBefore, List.map_eq_nil_iff, List.filter_eq_nil_iff]
  intro start mem
  have le' := position_le_of_mem_charStarts mem
  simp only [decide_eq_true_eq]
  omega

theorem startingBefore_cons (lt : position < offset) (c : Char) (cs : List Char) :
    startingBefore offset position (c :: cs) = c :: startingBefore offset (position + c.utf8Size) cs := by
  rw [startingBefore, charStarts, List.filter_cons_of_pos (by simpa using lt), List.map_cons]
  rfl

theorem startingBefore_isPrefix (offset position : Nat) (cs : List Char) :
    startingBefore offset position cs <+: cs := by
  induction cs generalizing position with
  | nil => exact List.prefix_rfl
  | cons c cs ih =>
    obtain lt | stop := Nat.lt_or_ge position offset
    · rw [startingBefore_cons lt, List.prefix_cons_inj]
      exact ih _
    · rw [startingBefore_of_le stop]
      exact List.nil_prefix

theorem startingBefore_mono {first second : Nat} (le : first ≤ second) (position : Nat)
    (cs : List Char) : startingBefore first position cs <+: startingBefore second position cs := by
  induction cs generalizing position with
  | nil => exact List.prefix_rfl
  | cons c cs ih =>
    obtain lt | stop := Nat.lt_or_ge position first
    · rw [startingBefore_cons lt, startingBefore_cons (Nat.lt_of_lt_of_le lt le), List.prefix_cons_inj]
      exact ih _
    · rw [startingBefore_of_le stop]
      exact List.nil_prefix

theorem utf8ByteSize_cons (c : Char) (cs : List Char) :
    (String.ofList (c :: cs)).utf8ByteSize = c.utf8Size + (String.ofList cs).utf8ByteSize := by
  rw [String.ofList_cons, String.utf8ByteSize_append, String.utf8ByteSize_singleton]

theorem startingBefore_append (position : Nat) (xs ys : List Char) :
    startingBefore (position + (String.ofList xs).utf8ByteSize) position (xs ++ ys) = xs := by
  induction xs generalizing position with
  | nil => exact startingBefore_of_le (Nat.le_refl _) ys
  | cons c xs ih =>
    have size := c.utf8Size_pos
    rw [List.cons_append, utf8ByteSize_cons, startingBefore_cons (by omega), ← Nat.add_assoc, ih]

/-- The characters before an offset reach up to it, if the text does. -/
theorem le_size_startingBefore {cs : List Char}
    (le : offset ≤ position + (String.ofList cs).utf8ByteSize) :
    offset ≤ position + (String.ofList (startingBefore offset position cs)).utf8ByteSize := by
  induction cs generalizing position with
  | nil => exact le
  | cons c cs ih =>
    obtain lt | stop := Nat.lt_or_ge position offset
    · rw [utf8ByteSize_cons, ← Nat.add_assoc] at le
      rw [startingBefore_cons lt, utf8ByteSize_cons, ← Nat.add_assoc]
      exact ih le
    · omega

/-- A walk goes over the characters before the offset. -/
theorem walk_eq_foldl (offset position : Nat) (location : Location) (cs : List Char) :
    walk offset position location cs = (startingBefore offset position cs).foldl next location := by
  induction cs generalizing position location with
  | nil => rfl
  | cons c cs ih =>
    rw [walk]
    split
    · rename_i stop
      rw [startingBefore_of_le stop]
      rfl
    · rename_i go
      rw [startingBefore_cons (Nat.lt_of_not_le go), ih]
      rfl

end StartingBefore

theorem ofOffset_eq_foldl (source : String) (offset : Nat) :
    ofOffset source offset = (before source offset).foldl next start :=
  walk_eq_foldl offset 0 start source.toList

/-! ## What a location counts -/

/-- The number of characters behind the last newline. -/
def sinceNewline (cs : List Char) : Nat :=
  (cs.reverse.takeWhile (· ≠ '\n')).length

theorem sinceNewline_le (cs : List Char) : sinceNewline cs ≤ cs.length := by
  have le := (List.takeWhile_prefix (p := fun c => decide (c ≠ '\n')) (l := cs.reverse)).length_le
  rwa [List.length_reverse] at le

/-- Characters that are no newlines lengthen the last line. -/
theorem sinceNewline_append {more : List Char} (none : '\n' ∉ more) (cs : List Char) :
    sinceNewline (cs ++ more) = more.length + sinceNewline cs := by
  have all : ∀ c ∈ more.reverse, decide (c ≠ '\n') = true := by
    intro c mem
    rw [decide_eq_true_eq]
    rintro rfl
    exact none (List.mem_reverse.1 mem)
  rw [sinceNewline, List.reverse_append, List.takeWhile_append_of_pos all, List.length_append,
    List.length_reverse]
  rfl

theorem sinceNewline_concat_newline (cs : List Char) : sinceNewline (cs ++ ['\n']) = 0 := by
  rw [sinceNewline, List.reverse_append]
  rfl

theorem toNat_add_one {word : UInt32} (small : word.toNat + 1 < UInt32.size) :
    (word + 1).toNat = word.toNat + 1 := by
  rw [UInt32.toNat_add]
  exact Nat.mod_eq_of_lt small

/-- Lines are the newlines counted, and columns the characters behind the last of them. -/
theorem foldl_next {cs : List Char} (short : cs.length < UInt32.size - 1) :
    (cs.foldl next start).line.toNat = 1 + cs.count '\n' ∧
      (cs.foldl next start).column.toNat = 1 + sinceNewline cs := by
  induction cs using List.reverseRecOn with
  | nil => exact ⟨rfl, rfl⟩
  | append_singleton cs c ih =>
    rw [List.length_append, List.length_singleton] at short
    obtain ⟨line, column⟩ := ih (by omega)
    have newlines := List.count_le_length (a := '\n') (l := cs)
    have width := sinceNewline_le cs
    rw [List.foldl_append, List.foldl_cons, List.foldl_nil, List.count_append, next]
    split
    · rename_i newline
      rw [newline, sinceNewline_concat_newline, toNat_add_one (by omega), line]
      exact ⟨rfl, rfl⟩
    · rename_i other
      have none : '\n' ∉ [c] := fun mem => other (List.mem_singleton.1 mem).symm
      rw [List.count_eq_zero.2 none, sinceNewline_append none, toNat_add_one (by omega), line, column,
        List.length_singleton]
      exact ⟨rfl, by omega⟩

/-- More characters lead to a later location. -/
theorem foldl_next_precedes {cs more : List Char} (short : (cs ++ more).length < UInt32.size - 1)
    (some : more ≠ []) : Precedes (cs.foldl next start) ((cs ++ more).foldl next start) := by
  have short' : cs.length < UInt32.size - 1 := by
    rw [List.length_append] at short
    omega
  obtain ⟨line, column⟩ := foldl_next short'
  obtain ⟨line', column'⟩ := foldl_next short
  rw [List.count_append] at line'
  rw [Precedes, UInt32.lt_iff_toNat_lt, UInt32.lt_iff_toNat_lt, ← UInt32.toNat_inj]
  by_cases newline : '\n' ∈ more
  · have lines := List.count_pos_iff.2 newline
    omega
  · rw [List.count_eq_zero.2 newline] at line'
    rw [sinceNewline_append newline] at column'
    have length := List.length_pos_iff.2 some
    omega

/-! ## Boundaries between characters -/

theorem before_isPrefix (source : String) (offset : Nat) : before source offset <+: source.toList :=
  startingBefore_isPrefix _ _ _

/-- Before a boundary there is all of the text in front of it. -/
theorem before_append (front back : String) :
    before (front ++ back) front.utf8ByteSize = front.toList := by
  have split := startingBefore_append 0 front.toList back.toList
  rw [String.ofList_toList, Nat.zero_add] at split
  rw [before, String.toList_append, split]

/-- A boundary stands where the characters before it end. -/
theorem size_before {source : String} {boundary : Nat}
    (valid : String.Pos.Raw.IsValid source ⟨boundary⟩) :
    (String.ofList (before source boundary)).utf8ByteSize = boundary := by
  obtain ⟨front, back, rfl, eq⟩ := String.Pos.Raw.isValid_iff_exists_append.1 valid
  have size : boundary = front.utf8ByteSize := congrArg String.Pos.Raw.byteIdx eq
  rw [size, before_append, String.ofList_toList]

/-- The characters before an offset end at the next boundary, before which there are no others. -/
theorem exists_next_boundary {source : String} {offset : Nat} (le : offset ≤ source.utf8ByteSize) :
    ∃ boundary, IsNextBoundary source offset boundary ∧ before source offset = before source boundary := by
  obtain ⟨back, split⟩ := before_isPrefix source offset
  have whole : source = String.ofList (before source offset) ++ String.ofList back := by
    rw [← String.ofList_append, split, String.ofList_toList]
  have same := before_append (String.ofList (before source offset)) (String.ofList back)
  rw [← whole, String.toList_ofList] at same
  refine ⟨_, ⟨?_, ?_, ?_⟩, same.symm⟩
  · exact String.Pos.Raw.isValid_iff_exists_append.2 ⟨_, _, whole, rfl⟩
  · have reach : offset ≤ 0 + (String.ofList source.toList).utf8ByteSize := by
      rwa [String.ofList_toList, Nat.zero_add]
    have reach' := le_size_startingBefore reach
    rwa [Nat.zero_add] at reach'
  · intro other valid le'
    obtain ⟨more, longer⟩ := startingBefore_mono le' 0 source.toList
    rw [← size_before valid, before, before, ← longer, String.ofList_append, String.utf8ByteSize_append]
    exact Nat.le_add_right _ _

/-- All of a text is before an offset behind its end. -/
theorem before_of_size_le {source : String} {offset : Nat} (le : source.utf8ByteSize ≤ offset) :
    before source offset = before source source.utf8ByteSize := by
  have all := before_append source ""
  rw [String.append_empty] at all
  have longer : before source source.utf8ByteSize <+: before source offset :=
    startingBefore_mono le 0 source.toList
  rw [all] at longer ⊢
  exact (before_isPrefix source offset).eq_of_length_le longer.length_le

/-- Of two boundaries, there are more characters before the later one. -/
theorem exists_before_append {source : String} {first second : Nat}
    (valid : String.Pos.Raw.IsValid source ⟨first⟩) (valid' : String.Pos.Raw.IsValid source ⟨second⟩)
    (lt : first < second) :
    ∃ more, more ≠ [] ∧ before source second = before source first ++ more := by
  obtain ⟨more, longer⟩ := startingBefore_mono (Nat.le_of_lt lt) 0 source.toList
  refine ⟨more, ?_, longer.symm⟩
  rintro rfl
  have same : before source first = before source second := by rwa [List.append_nil] at longer
  rw [← size_before valid, ← size_before valid', same] at lt
  exact Nat.lt_irrefl _ lt

end Location

/-- A location counts the newlines before its offset, and the characters behind the last of these.
Boundaries between characters have different locations, which come in the order of the boundaries. Any
other offset has the location of the next boundary, or that of the end if it is behind the end. -/
theorem ofOffset_exact {source : String} (short : source.length < UInt32.size - 1) :
    (∀ offset, (Location.ofOffset source offset).line.toNat =
        1 + (Location.before source offset).count '\n' ∧
      (Location.ofOffset source offset).column.toNat =
        1 + Location.sinceNewline (Location.before source offset)) ∧
      (∀ first second, String.Pos.Raw.IsValid source ⟨first⟩ → String.Pos.Raw.IsValid source ⟨second⟩ →
        first < second → (Location.ofOffset source first).Precedes (Location.ofOffset source second)) ∧
      (∀ first second, String.Pos.Raw.IsValid source ⟨first⟩ → String.Pos.Raw.IsValid source ⟨second⟩ →
        Location.ofOffset source first = Location.ofOffset source second → first = second) ∧
      (∀ offset ≤ source.utf8ByteSize, ∃ boundary, Location.IsNextBoundary source offset boundary ∧
        Location.ofOffset source offset = Location.ofOffset source boundary) ∧
      ∀ offset, source.utf8ByteSize ≤ offset →
        Location.ofOffset source offset = Location.ofOffset source source.utf8ByteSize := by
  have bound (offset : Nat) : (Location.before source offset).length < UInt32.size - 1 := by
    have le := (Location.before_isPrefix source offset).length_le
    rw [String.length_toList] at le
    omega
  have increasing : ∀ first second, String.Pos.Raw.IsValid source ⟨first⟩ →
      String.Pos.Raw.IsValid source ⟨second⟩ → first < second →
      (Location.ofOffset source first).Precedes (Location.ofOffset source second) := by
    intro first second valid valid' lt
    obtain ⟨more, some, longer⟩ := Location.exists_before_append valid valid' lt
    have bound' := bound second
    rw [longer] at bound'
    rw [Location.ofOffset_eq_foldl, Location.ofOffset_eq_foldl, longer]
    exact Location.foldl_next_precedes bound' some
  refine ⟨fun offset => ?_, increasing, fun first second valid valid' same => ?_,
    fun offset le => ?_, fun offset le => ?_⟩
  · rw [Location.ofOffset_eq_foldl]
    exact Location.foldl_next (bound offset)
  · obtain lt | eq | gt := Nat.lt_trichotomy first second
    · exact absurd (increasing first second valid valid' lt) (same ▸ Location.not_precedes_self _)
    · exact eq
    · exact absurd (increasing second first valid' valid gt) (same ▸ Location.not_precedes_self _)
  · obtain ⟨boundary, next, same⟩ := Location.exists_next_boundary le
    exact ⟨boundary, next, by rw [Location.ofOffset_eq_foldl, Location.ofOffset_eq_foldl, same]⟩
  · rw [Location.ofOffset_eq_foldl, Location.ofOffset_eq_foldl, Location.before_of_size_le le]

/-- In `éb`, a newline and `c`, the newline is at byte 3 and `c` at byte 4, which is the first column of
the second line. -/
theorem ofOffset_exact_second_line : "éb\nc".length < UInt32.size - 1 ∧
    (Location.ofOffset "éb\nc" 4).line.toNat = 2 ∧ (Location.ofOffset "éb\nc" 4).column.toNat = 1 ∧
      (Location.ofOffset "éb\nc" 3).Precedes (Location.ofOffset "éb\nc" 4) := by
  have short : "éb\nc".length < UInt32.size - 1 := by decide
  obtain ⟨counts, increasing, -⟩ := ofOffset_exact short
  have newline : String.Pos.Raw.IsValid "éb\nc" ⟨3⟩ :=
    String.Pos.Raw.isValid_iff_exists_append.2 ⟨"éb", "\nc", rfl, rfl⟩
  have second : String.Pos.Raw.IsValid "éb\nc" ⟨4⟩ :=
    String.Pos.Raw.isValid_iff_exists_append.2 ⟨"éb\n", "c", rfl, rfl⟩
  exact ⟨short, (counts 4).1, (counts 4).2, increasing 3 4 newline second (by decide)⟩

end ExprCompiler
