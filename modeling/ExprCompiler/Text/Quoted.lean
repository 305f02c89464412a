import ExprCompiler.Text.Printable

/-!
# Quoted text

A text in messages and dumps stands between double quotes. Quotes, backslashes and the common
control characters have a letter of their own after a backslash; any other character that is not
printable is written by its code point in hexadecimal.
-/

namespace ExprCompiler.Text

/-- How quoted text writes one character. -/
def escape : Char → List Char
  | '"' => ['\\', '"']
  | '\\' => ['\\', '\\']
  | '\n' => ['\\', 'n']
  | '\r' => ['\\', 'r']
  | '\t' => ['\\', 't']
  | '\x00' => ['\\', '0']
  | c =>
    if isPrintable c then [c]
    else ['\\', 'u', '\x7b'] ++ Nat.toDigits 16 c.toNat ++ ['\x7d']

/-- The text between double quotes, each character escaped. -/
def quoted (text : String) : String :=
  String.ofList ('"' :: (text.toList.flatMap escape ++ ['"']))

end ExprCompiler.Text
