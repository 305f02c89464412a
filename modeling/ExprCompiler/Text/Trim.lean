/-!
# Trimming

Text is trimmed of the white space at its ends: every character that separates words or lines, in any
script.
-/

namespace ExprCompiler.Text

/-- The characters of white space. -/
def isSpace (c : Char) : Bool :=
  ('\t' ≤ c && c ≤ '\r') || c = ' ' || c = '\u0085' || c = '\u00a0' || c = '\u1680' ||
    ('\u2000' ≤ c && c ≤ '\u200a') || c = '\u2028' || c = '\u2029' || c = '\u202f' ||
    c = '\u205f' || c = '\u3000'

/-- The text without the white space it begins with. -/
def trimStart (text : String) : String :=
  String.ofList (text.toList.dropWhile isSpace)

/-- The text without the white space it ends with. -/
def trimEnd (text : String) : String :=
  String.ofList (text.toList.reverse.dropWhile isSpace).reverse

/-- The text without the white space at its ends. -/
def trim (text : String) : String :=
  trimEnd (trimStart text)

end ExprCompiler.Text
