import ExprCompiler.Text.Utf8

/-!
# Delimited input

A program that arrives as a stream of bytes may end at a delimiter. The stream is read piece by piece,
each piece up to a byte that the delimiter ends with, until all the bytes read end with the delimiter;
what follows is left in the stream. Without a delimiter the program is the whole stream.
-/

namespace ExprCompiler.Delimited

/-- Reads bytes up to and with the next `last`, or all of them. The bytes read, from the last to the
first, come in front of those read before, and the bytes left come with them. -/
def readThrough (last : UInt8) (read : List UInt8) : List UInt8 → List UInt8 × List UInt8
  | [] => (read, [])
  | byte :: bytes =>
    if byte = last then (byte :: read, bytes) else readThrough last (byte :: read) bytes

theorem length_readThrough_le (last : UInt8) (read stream : List UInt8) :
    (readThrough last read stream).2.length ≤ stream.length := by
  induction stream generalizing read with
  | nil => exact Nat.le_refl _
  | cons byte bytes ih =>
    rw [readThrough]
    split
    · exact Nat.le_succ _
    · exact Nat.le_succ_of_le (ih _)

/-- Where there are bytes, one of them is read. -/
theorem length_readThrough_lt (last byte : UInt8) (read bytes : List UInt8) :
    (readThrough last read (byte :: bytes)).2.length < (byte :: bytes).length := by
  rw [readThrough]
  split
  · exact Nat.lt_succ_self _
  · exact Nat.lt_succ_of_le (length_readThrough_le _ _ _)

/-- Reads up to the next `last`, again and again, until the bytes read end with the delimiter or there
are no more. The delimiter and the bytes read are given from the last to the first. -/
def readUntil (delimiter : List UInt8) (last : UInt8) (read : List UInt8) :
    List UInt8 → List UInt8 × List UInt8
  | [] => (read, [])
  | byte :: bytes =>
    let piece := readThrough last read (byte :: bytes)
    if delimiter.isPrefixOf piece.1 then piece else readUntil delimiter last piece.1 piece.2
termination_by stream => stream.length
decreasing_by exact length_readThrough_lt ..

/-- The bytes of a stream up to and with the first occurrence of the delimiter, and those left. -/
def read (delimiter stream : List UInt8) : List UInt8 × List UInt8 :=
  match delimiter.getLast? with
  | none => (stream, [])
  | some last =>
    let (read, left) := readUntil delimiter.reverse last [] stream
    (read.reverse, left)

/-- The delimiter occurs in the bytes, so that no more of the stream is needed. -/
def isComplete (delimiter stream : List UInt8) : Bool :=
  !delimiter.isEmpty && delimiter.isSuffixOf (read delimiter stream).1

/-- The text of a stream up to and with the first occurrence of the delimiter. -/
def readText (delimiter : String) (stream : List UInt8) : Except Utf8.Fault String :=
  Utf8.decode (read (Utf8.bytes delimiter) stream).1.toByteArray

end ExprCompiler.Delimited
