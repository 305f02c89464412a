import ExprCompiler.Text.Delimited

/-!
# The first delimiter

A stream is read up to its first delimiter, though the loop looks for the last byte of the delimiter
only:

* `Delimited.IsFirst`: the shortest part of a stream, from its beginning, that ends with the delimiter;
* `Delimited.readThrough_spec`: a piece that is read brings no delimiter but at its end;
* `Delimited.Turns`, `Delimited.exists_turns`: the loop ends;
* `Delimited.readUntil_spec`: the loop stops at the first delimiter, or has found that there is none;
* `Utf8.isValidUTF8_append_bytes`: a text that is cut behind a part of it that is text is still text;
* `readText_stops_at_delimiter`: the bytes that are read, and the text made of them.
-/

namespace ExprCompiler

namespace Delimited

/-- The shortest part of a stream, from its beginning, that ends with the delimiter. -/
structure IsFirst (delimiter stream part : List UInt8) : Prop where
  isPrefix : part <+: stream
  ends : delimiter <:+ part
  shortest : ∀ other, other <+: stream → delimiter <:+ other → part.length ≤ other.length

/-! ## Pieces -/

/-- A byte that the delimiter does not end with completes no delimiter. -/
theorem not_isInfix_concat {delimiter bytes : List UInt8} {last byte : UInt8}
    (ends : delimiter.getLast? = some last) (none : ¬ delimiter <:+: bytes) (other : byte ≠ last) :
    ¬ delimiter <:+: bytes ++ [byte] := by
  intro occurs
  obtain atEnd | before := List.infix_concat_iff.1 occurs
  · obtain rfl | ⟨front, rfl, -⟩ := List.suffix_concat_iff.1 atEnd
    · cases ends
    · rw [List.getLast?_concat] at ends
      exact other (Option.some.inj ends)
  · exact none before

/-- A piece is what stands next in the stream. It brings no delimiter if it is the rest of the stream,
and else none before its last byte. -/
theorem readThrough_spec {delimiter : List UInt8} {last : UInt8} (ends : delimiter.getLast? = some last)
    {read : List UInt8} (none : ¬ delimiter <:+: read.reverse) (stream : List UInt8) :
    ∃ read' left, readThrough last read stream = (read', left) ∧
      read'.reverse ++ left = read.reverse ++ stream ∧
      (¬ delimiter <:+: read'.reverse ∧ left = [] ∨
        ∃ front, read' = last :: front ∧ ¬ delimiter <:+: front.reverse) := by
  induction stream generalizing read with
  | nil => exact ⟨read, [], rfl, rfl, .inl ⟨none, rfl⟩⟩
  | cons byte bytes ih =>
    rw [readThrough]
    split
    · rename_i found
      refine ⟨byte :: read, bytes, rfl, ?_, .inr ⟨read, by rw [found], none⟩⟩
      rw [List.reverse_cons, List.append_assoc, List.singleton_append]
    · rename_i other
      have none' : ¬ delimiter <:+: (byte :: read).reverse := by
        rw [List.reverse_cons]
        exact not_isInfix_concat ends none other
      obtain ⟨read', left, eq, whole, stop⟩ := ih none'
      rw [List.reverse_cons, List.append_assoc, List.singleton_append] at whole
      exact ⟨read', left, eq, whole, stop⟩

/-! ## The loop -/

/-- The loop ends after the given number of turns. Each turn reads a piece, and is the last one if there
is nothing to read or if the bytes read then end with the delimiter. -/
inductive Turns (delimiter : List UInt8) (last : UInt8) : List UInt8 → List UInt8 → Nat → Prop
  | atEnd {read : List UInt8} : Turns delimiter last read [] 1
  | found {read stream : List UInt8} : stream ≠ [] →
      delimiter.isPrefixOf (readThrough last read stream).1 = true → Turns delimiter last read stream 1
  | again {read stream : List UInt8} {turns : Nat} : stream ≠ [] →
      delimiter.isPrefixOf (readThrough last read stream).1 = false →
      Turns delimiter last (readThrough last read stream).1 (readThrough last read stream).2 turns →
      Turns delimiter last read stream (turns + 1)

/-- The loop ends, after at most one turn for each byte and one more. -/
theorem exists_turns (delimiter : List UInt8) (last : UInt8) (read stream : List UInt8) :
    ∃ turns ≤ stream.length + 1, Turns delimiter last read stream turns := by
  fun_induction readUntil delimiter last read stream with
  | case1 read => exact ⟨1, Nat.le_refl _, .atEnd⟩
  | case2 read byte bytes piece found =>
    exact ⟨1, by omega, .found (List.cons_ne_nil _ _) found⟩
  | case3 read byte bytes piece other ih =>
    obtain ⟨turns, le, ends⟩ := ih
    have shorter := length_readThrough_lt last byte read bytes
    refine ⟨turns + 1, ?_, .again (List.cons_ne_nil _ _) (Bool.eq_false_iff.2 other) ends⟩
    have le' : turns ≤ (readThrough last read (byte :: bytes)).2.length + 1 := le
    omega

/-- The bytes read end with the delimiter. -/
theorem isPrefixOf_reverse_iff {delimiter read : List UInt8} :
    delimiter.reverse.isPrefixOf read = true ↔ delimiter <:+ read.reverse := by
  rw [List.isPrefixOf_iff_prefix, ← List.reverse_suffix, List.reverse_reverse]

/-- Bytes that end with the delimiter, and have none before their last byte, are the first to do so. -/
theorem isFirst_of_concat {delimiter stream front left : List UInt8} {last : UInt8}
    (whole : stream = front ++ [last] ++ left) (none : ¬ delimiter <:+: front)
    (ends : delimiter <:+ front ++ [last]) : IsFirst delimiter stream (front ++ [last]) where
  isPrefix := ⟨left, whole.symm⟩
  ends := ends
  shortest := by
    intro other isPrefix ends'
    obtain before | behind := List.prefix_or_prefix_of_prefix isPrefix ⟨left, whole.symm⟩
    · obtain rfl | inside := List.prefix_concat_iff.1 before
      · exact Nat.le_refl _
      · exact absurd (ends'.isInfix.trans inside.isInfix) none
    · exact behind.length_le

/-- The loop stops at the first delimiter of the stream, or at its end if there is none. -/
theorem readUntil_spec {delimiter : List UInt8} {last : UInt8} (ends : delimiter.getLast? = some last)
    {read : List UInt8} (none : ¬ delimiter <:+: read.reverse) (stream : List UInt8) :
    ∃ read' left, readUntil delimiter.reverse last read stream = (read', left) ∧
      read'.reverse ++ left = read.reverse ++ stream ∧
      (¬ delimiter <:+: read'.reverse ∧ left = [] ∨
        IsFirst delimiter (read.reverse ++ stream) read'.reverse) := by
  induction h : stream.length using Nat.strongRecOn generalizing read stream with
  | ind n ih =>
    cases stream with
    | nil =>
      rw [readUntil]
      exact ⟨read, [], rfl, rfl, .inl ⟨none, rfl⟩⟩
    | cons byte bytes =>
      have shorter := length_readThrough_lt last byte read bytes
      obtain ⟨read', left, eq, whole, stop⟩ := readThrough_spec ends none (byte :: bytes)
      rw [readUntil]
      simp only [eq] at shorter ⊢
      split
      · rename_i found
        have ends' := isPrefixOf_reverse_iff.1 found
        refine ⟨read', left, rfl, whole, .inr ?_⟩
        obtain ⟨none', -⟩ | ⟨front, rfl, none'⟩ := stop
        · exact absurd ends'.isInfix none'
        · rw [List.reverse_cons] at ends' whole ⊢
          exact isFirst_of_concat whole.symm none' ends'
      · rename_i other
        rw [isPrefixOf_reverse_iff] at other
        have none' : ¬ delimiter <:+: read'.reverse := by
          obtain ⟨none', -⟩ | ⟨front, rfl, none'⟩ := stop
          · exact none'
          · rw [List.reverse_cons] at other ⊢
            rw [List.infix_concat_iff, not_or]
            exact ⟨other, none'⟩
        rw [← h] at ih
        obtain ⟨read'', left', eq', whole', stop'⟩ := ih left.length shorter none' left rfl
        rw [whole] at whole' stop'
        exact ⟨read'', left', eq', whole', stop'⟩

/-- What is read of a stream, and what is left of it. -/
theorem read_spec (delimiter stream : List UInt8) :
    ∃ consumed left, read delimiter stream = (consumed, left) ∧ consumed ++ left = stream ∧
      ((delimiter = [] ∨ ¬ delimiter <:+: stream) ∧ consumed = stream ∨
        delimiter ≠ [] ∧ IsFirst delimiter stream consumed) := by
  rw [read]
  split
  · rename_i none
    exact ⟨stream, [], rfl, List.append_nil _, .inl ⟨.inl (List.getLast?_eq_none_iff.1 none), rfl⟩⟩
  · rename_i last ends
    have some : delimiter ≠ [] := by
      rintro rfl
      cases ends
    have none : ¬ delimiter <:+: ([] : List UInt8).reverse := fun occurs => some (List.infix_nil.1 occurs)
    obtain ⟨read', left, eq, whole, stop⟩ := readUntil_spec ends none stream
    simp only [eq]
    rw [List.reverse_nil, List.nil_append] at whole stop
    refine ⟨_, _, rfl, whole, ?_⟩
    obtain ⟨absent, rfl⟩ | first := stop
    · rw [List.append_nil] at whole
      exact .inl ⟨.inr (whole ▸ absent), whole⟩
    · exact .inr ⟨some, first⟩

/-- Bytes behind the first delimiter are not read. -/
theorem IsFirst.read_append {delimiter stream part : List UInt8} (h : IsFirst delimiter stream part)
    (some : delimiter ≠ []) (more : List UInt8) : read delimiter (part ++ more) = (part, more) := by
  obtain ⟨consumed, left, eq, whole, stop⟩ := read_spec delimiter (part ++ more)
  obtain ⟨none | none, -⟩ | ⟨-, first⟩ := stop
  · exact absurd none some
  · exact absurd (h.ends.isInfix.trans ⟨[], more, rfl⟩) none
  -- Each of the two is the shortest of a stream that the other one begins.
  have le := first.shortest part ⟨more, rfl⟩ h.ends
  have inside : consumed <+: part := List.prefix_of_prefix_length_le first.isPrefix ⟨more, rfl⟩ le
  have same : consumed = part :=
    inside.eq_of_length_le (h.shortest consumed (inside.trans h.isPrefix) first.ends)
  subst same
  rw [eq, List.append_cancel_left whole]

end Delimited

/-! ## Text -/

namespace Utf8

theorem toByteArray_bytes (text : String) : (bytes text).toByteArray = text.toByteArray := by
  refine ByteArray.ext ?_
  rw [List.data_toByteArray, bytes, Array.toArray_toList, String.toUTF8_eq_toByteArray]

theorem bytes_eq_nil_iff {text : String} : bytes text = [] ↔ text = "" := by
  rw [← String.toByteArray_eq_empty_iff, ← toByteArray_bytes, ByteArray.toByteArray_eq_empty]

/-- Bytes are read as the text that they encode. -/
theorem decode_eq_ok_iff {encoded : ByteArray} {text : String} :
    decode encoded = .ok text ↔ text.toByteArray = encoded := by
  unfold decode String.fromUTF8?
  by_cases valid : encoded.IsValidUTF8
  · rw [dif_pos valid]
    simp only [Except.ok.injEq]
    constructor
    · rintro rfl
      rfl
    · rintro rfl
      rfl
  · rw [dif_neg valid]
    refine ⟨nofun, fun same => absurd ?_ valid⟩
    rw [← same]
    exact text.isValidUTF8

/-- Bytes are refused exactly when they are no text. -/
theorem decode_eq_error_iff {encoded : ByteArray} :
    (∃ fault, decode encoded = .error fault) ↔ ¬ encoded.IsValidUTF8 := by
  unfold decode String.fromUTF8?
  by_cases valid : encoded.IsValidUTF8
  · rw [dif_pos valid]
    refine ⟨?_, fun no => absurd valid no⟩
    rintro ⟨_, ⟨⟩⟩
  · rw [dif_neg valid]
    exact ⟨fun _ => valid, fun _ => ⟨_, rfl⟩⟩

/-- Text that is cut behind a text within it is text: the text within it begins with the first byte of
a character, so that it begins between two characters of the whole. -/
theorem isValidUTF8_append_bytes {front back : List UInt8} {text : String} (some : bytes text ≠ [])
    (valid : (front ++ bytes text ++ back).toByteArray.IsValidUTF8) :
    (front ++ bytes text).toByteArray.IsValidUTF8 := by
  simp only [List.toByteArray_append, toByteArray_bytes] at valid ⊢
  have size : 0 < text.toByteArray.size := by
    rw [Nat.pos_iff_ne_zero]
    intro zero
    exact some (List.eq_nil_of_length_eq_zero zero)
  rw [ByteArray.append_assoc] at valid
  let whole : String := ⟨_, valid⟩
  have boundary : String.Pos.Raw.IsValid whole ⟨front.length⟩ := by
    have inside : front.length < whole.toByteArray.size := by
      simp only [whole, ByteArray.size_append, List.size_toByteArray]
      omega
    refine String.Pos.Raw.isValid_iff_isUTF8FirstByte.2 (.inr ⟨inside, ?_⟩)
    have first := text.isValidUTF8.isUTF8FirstByte_getElem_zero size
    simp only [String.getUTF8Byte, whole]
    rw [ByteArray.getElem_append_right (Nat.le_of_eq List.size_toByteArray)]
    simp only [List.size_toByteArray, Nat.sub_self]
    rw [ByteArray.getElem_append_left size]
    exact first
  have cut := boundary.isValidUTF8_extract_zero
  rw [ByteArray.extract_append_eq_left List.size_toByteArray.symm] at cut
  exact cut.append text.isValidUTF8

end Utf8

namespace Delimited

variable {delimiter : String} {stream consumed left : List UInt8}

/-- The text that is read is what the bytes read encode. -/
theorem readText_eq_ok_iff (eq : read (Utf8.bytes delimiter) stream = (consumed, left)) {text : String} :
    readText delimiter stream = .ok text ↔ Utf8.bytes text = consumed := by
  rw [readText, eq, Utf8.decode_eq_ok_iff, ← Utf8.toByteArray_bytes, List.toByteArray_inj]

/-- The part of a text up to its first delimiter is text. -/
theorem IsFirst.isValidUTF8 (h : IsFirst (Utf8.bytes delimiter) stream consumed)
    (some : Utf8.bytes delimiter ≠ []) (valid : stream.toByteArray.IsValidUTF8) :
    consumed.toByteArray.IsValidUTF8 := by
  obtain ⟨front, rfl⟩ := h.ends
  obtain ⟨left, rfl⟩ := h.isPrefix
  exact Utf8.isValidUTF8_append_bytes some valid

end Delimited

/-- A stream is read up to and with its first delimiter, or to its end if the delimiter is empty or does
not occur. Reading ends, what is behind the delimiter does not matter, and it fails exactly when the bytes
read are no text; of a stream that is text they always are. -/
theorem readText_stops_at_delimiter (delimiter : String) (stream : List UInt8) :
    ∃ consumed left, Delimited.read (Utf8.bytes delimiter) stream = (consumed, left) ∧
      consumed ++ left = stream ∧
      (∀ last ∈ (Utf8.bytes delimiter).getLast?, ∃ turns ≤ stream.length + 1,
        Delimited.Turns (Utf8.bytes delimiter).reverse last [] stream turns) ∧
      (delimiter ≠ "" → Utf8.bytes delimiter <:+: stream →
        Delimited.IsFirst (Utf8.bytes delimiter) stream consumed ∧
          ∀ more, Delimited.read (Utf8.bytes delimiter) (consumed ++ more) = (consumed, more) ∧
            Delimited.readText delimiter (consumed ++ more) = Delimited.readText delimiter stream) ∧
      (delimiter = "" ∨ ¬ Utf8.bytes delimiter <:+: stream → consumed = stream) ∧
      (∀ text, Delimited.readText delimiter stream = .ok text ↔ Utf8.bytes text = consumed) ∧
      ((∃ fault, Delimited.readText delimiter stream = .error fault) ↔
        ¬ consumed.toByteArray.IsValidUTF8) ∧
      (stream.toByteArray.IsValidUTF8 → ∃ text, Delimited.readText delimiter stream = .ok text) := by
  obtain ⟨consumed, left, eq, whole, stop⟩ := Delimited.read_spec (Utf8.bytes delimiter) stream
  have refuses : (∃ fault, Delimited.readText delimiter stream = .error fault) ↔
      ¬ consumed.toByteArray.IsValidUTF8 := by
    rw [Delimited.readText, eq]
    exact Utf8.decode_eq_error_iff
  rw [← Utf8.bytes_eq_nil_iff, ne_eq, ← Utf8.bytes_eq_nil_iff]
  refine ⟨consumed, left, eq, whole, fun last _ => Delimited.exists_turns _ last [] stream, ?_, ?_,
    fun text => Delimited.readText_eq_ok_iff eq, refuses, ?_⟩
  · intro some occurs
    obtain ⟨none | none, -⟩ | ⟨-, first⟩ := stop
    · exact absurd none some
    · exact absurd occurs none
    · refine ⟨first, fun more => ⟨first.read_append some more, ?_⟩⟩
      rw [Delimited.readText, first.read_append some more, Delimited.readText, eq]
  · intro none
    obtain ⟨-, all⟩ | ⟨some, first⟩ := stop
    · exact all
    · have occurs := first.ends.isInfix.trans first.isPrefix.isInfix
      exact none.elim (fun none => absurd none some) (fun none => absurd occurs none)
  · intro valid
    have valid' : consumed.toByteArray.IsValidUTF8 := by
      obtain ⟨-, rfl⟩ | ⟨some, first⟩ := stop
      · exact valid
      · exact first.isValidUTF8 some valid
    cases found : Delimited.readText delimiter stream with
    | ok text => exact ⟨text, rfl⟩
    | error fault => exact absurd valid' (refuses.1 ⟨fault, found⟩)

/-- The last byte of `é` is also that of `©`, where reading up to `é` goes on. -/
theorem readText_stops_at_delimiter_shared_byte :
    Utf8.bytes "é" <:+: Utf8.bytes "©é;" ∧
      Delimited.IsFirst (Utf8.bytes "é") (Utf8.bytes "©é;") (Utf8.bytes "©é") ∧
      Delimited.readText "é" (Utf8.bytes "©é;") = .ok "©é" := by
  have occurs : Utf8.bytes "é" <:+: Utf8.bytes "©é;" := ⟨Utf8.bytes "©", Utf8.bytes ";", by decide⟩
  have reads : Delimited.read (Utf8.bytes "é") (Utf8.bytes "©é;") = (Utf8.bytes "©é", Utf8.bytes ";") := by
    decide +kernel
  obtain ⟨consumed, left, eq, -, -, found, -, accepts, -⟩ :=
    readText_stops_at_delimiter "é" (Utf8.bytes "©é;")
  rw [reads] at eq
  cases eq
  exact ⟨occurs, (found (by decide) occurs).1, (accepts "©é").2 rfl⟩

end ExprCompiler
