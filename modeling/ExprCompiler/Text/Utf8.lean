/-!
# Reading bytes as text

Text arrives as bytes in UTF-8. Bytes that are not UTF-8 have a first fault: the index where the
first broken character begins, and how many bytes of it were in order before the byte that breaks
it. A character that the bytes end in the middle of is incomplete.
-/

namespace ExprCompiler.Utf8

/-- Where bytes stop being UTF-8. -/
inductive Fault where
  /-- A character that begins at `index` is broken after `length` bytes. -/
  | invalid (index length : Nat)
  /-- The bytes end inside the character that begins at `index`. -/
  | incomplete (index : Nat)
deriving Repr, DecidableEq

/-- The wording of a fault. -/
def Fault.message : Fault → String
  | invalid index length =>
    "invalid utf-8 sequence of " ++ length.repr ++ " bytes from index " ++ index.repr
  | incomplete index => "incomplete utf-8 byte sequence from index " ++ index.repr

/-- What a character needs after a byte: how many more bytes, and the bounds of the next one. -/
structure Owed where
  count : Nat
  low : UInt8
  high : UInt8
deriving Repr, DecidableEq

/-- What a character needs after its first byte, if a character can begin with that byte. The bounds
rule out long forms, surrogates and code points above `0x10FFFF`. -/
def owedAfter (byte : UInt8) : Option Owed :=
  if byte ≤ 0x7F then some ⟨0, 0x80, 0xBF⟩
  else if 0xC2 ≤ byte && byte ≤ 0xDF then some ⟨1, 0x80, 0xBF⟩
  else if byte = 0xE0 then some ⟨2, 0xA0, 0xBF⟩
  else if byte = 0xED then some ⟨2, 0x80, 0x9F⟩
  else if 0xE1 ≤ byte && byte ≤ 0xEF then some ⟨2, 0x80, 0xBF⟩
  else if byte = 0xF0 then some ⟨3, 0x90, 0xBF⟩
  else if 0xF1 ≤ byte && byte ≤ 0xF3 then some ⟨3, 0x80, 0xBF⟩
  else if byte = 0xF4 then some ⟨3, 0x80, 0x8F⟩
  else none

/-- The first fault of the bytes left, inside a character that began at `index`, of which `length`
bytes are read and `owed` is missing. -/
def faultFrom (index length : Nat) (owed : Owed) : List UInt8 → Option Fault
  | [] => if owed.count = 0 then none else some (.incomplete index)
  | byte :: bytes =>
    if owed.count = 0 then
      match owedAfter byte with
      | some owed => faultFrom (index + length) 1 owed bytes
      | none => some (.invalid (index + length) 1)
    else if owed.low ≤ byte && byte ≤ owed.high then
      faultFrom index (length + 1) ⟨owed.count - 1, 0x80, 0xBF⟩ bytes
    else some (.invalid index length)

/-- The first fault of the bytes. -/
def fault? (bytes : List UInt8) : Option Fault :=
  faultFrom 0 0 ⟨0, 0x80, 0xBF⟩ bytes

/-- The bytes that encode a text. -/
def bytes (text : String) : List UInt8 :=
  text.toUTF8.data.toList

/-- The text that the bytes encode, or their first fault. -/
def decode (bytes : ByteArray) : Except Fault String :=
  match String.fromUTF8? bytes with
  | some text => .ok text
  | none => .error ((fault? bytes.toList).getD (.incomplete bytes.size))

end ExprCompiler.Utf8
