/-!
# Locations

A position in a source text is a byte offset; people are shown a line and a column. Both count from
one in words of 32 bits, and a column counts characters.
-/

namespace ExprCompiler

/-- A line and a column, both counted from one. -/
structure Location where
  line : UInt32
  column : UInt32
deriving Repr, DecidableEq

namespace Location

/-- Where a text begins. -/
def start : Location := ⟨1, 1⟩

/-- The location after one more character: a newline starts the next line. -/
def next (location : Location) (c : Char) : Location :=
  if c = '\n' then ⟨location.line + 1, 1⟩ else ⟨location.line, location.column + 1⟩

/-- Walks over the characters that start before `offset`. `position` is the byte position of the
first character left, and `location` is its location. -/
def walk (offset : Nat) : Nat → Location → List Char → Location
  | _, location, [] => location
  | position, location, c :: cs =>
    if offset ≤ position then location
    else walk offset (position + c.utf8Size) (location.next c) cs

/-- The location of a byte offset. An offset inside a character belongs to the character after it,
and one past the end belongs to the end. -/
def ofOffset (source : String) (offset : Nat) : Location :=
  walk offset 0 start source.toList

/-- A location as `line,column`. -/
def text (location : Location) : String :=
  location.line.toNat.repr ++ "," ++ location.column.toNat.repr

/-- A message about a place in the source, followed by its location when the place is known. -/
def mark (source message : String) : Option Nat → String
  | some offset => message ++ " @ " ++ (ofOffset source offset).text
  | none => message

end Location

end ExprCompiler
