/-!
# JSON text

Structured output is JSON on several lines: two spaces of indentation for each level, one element or
field on a line, fields in the order in which they are given.
-/

namespace ExprCompiler

/-- A JSON value. -/
inductive Json where
  | null
  | number (n : Nat)
  | string (text : String)
  | list (items : List Json)
  | record (fields : List (String × Json))
deriving Inhabited

namespace Json

/-- A digit of the hexadecimal system. -/
def hexDigit (n : Nat) : Char :=
  Nat.digitChar (n % 16)

/-- How a string writes one character. Only quotes, backslashes and controls are escaped. -/
def escape : Char → List Char
  | '"' => ['\\', '"']
  | '\\' => ['\\', '\\']
  | '\x08' => ['\\', 'b']
  | '\x0c' => ['\\', 'f']
  | '\n' => ['\\', 'n']
  | '\r' => ['\\', 'r']
  | '\t' => ['\\', 't']
  | c =>
    if c.toNat < 0x20 then ['\\', 'u', '0', '0', hexDigit (c.toNat / 16), hexDigit c.toNat]
    else [c]

/-- A string between double quotes, each character escaped. -/
def quoted (text : String) : String :=
  String.ofList ('"' :: (text.toList.flatMap escape ++ ['"']))

/-- A new line at a level. -/
def newline (level : Nat) : String :=
  String.ofList ('\n' :: List.replicate (2 * level) ' ')

/-- Lines inside a pair of delimiters at a level. Without lines the pair stays on one line. -/
def enclosed (opening closing : String) (level : Nat) : List String → String
  | [] => opening ++ closing
  | lines =>
    opening ++ newline (level + 1) ++ ("," ++ newline (level + 1)).intercalate lines
      ++ newline level ++ closing

mutual

/-- The text of a value at a level. -/
def textAt (level : Nat) : Json → String
  | null => "null"
  | number n => n.repr
  | string text => quoted text
  | list items => enclosed "[" "]" level (itemsAt (level + 1) items)
  | record fields => enclosed "\x7b" "\x7d" level (fieldsAt (level + 1) fields)

/-- The texts of list elements at a level. -/
def itemsAt (level : Nat) : List Json → List String
  | [] => []
  | item :: items => textAt level item :: itemsAt level items

/-- The texts of fields at a level. -/
def fieldsAt (level : Nat) : List (String × Json) → List String
  | [] => []
  | (name, value) :: fields => (quoted name ++ ": " ++ textAt level value) :: fieldsAt level fields

end

/-- The text of a value. -/
def text (value : Json) : String :=
  value.textAt 0

end Json

end ExprCompiler
