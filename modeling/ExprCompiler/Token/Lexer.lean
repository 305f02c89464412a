import ExprCompiler.Token

/-!
# Reading tokens

`tokenize` cuts a source text into tokens and never fails: a character that begins nothing else is a
token of its own. What the text so far decides is kept in a `Lexer.Context`: the kind of the last
significant token, which tells infix from prefix operators and calls from arrays, and what each
square bracket still open turned out to be, so that its closing side is of the same pair.

For each kind there is a recogniser, `Lexer.recognize`, which counts the bytes of a token of that kind.
The first kind of `Lexer.order` that recognises something makes the next token, and the text is cut
behind that many bytes. Nothing in the loop itself keeps such a count from being zero, or from ending
inside of a character: `Lexer.Fault` says what would go wrong then.
-/

namespace ExprCompiler

namespace Lexer

/-- What an open square bracket turned out to be. -/
inductive Bracket where
  | call
  | array
deriving Repr, DecidableEq

/-- What the tokens read so far say about the next one. -/
structure Context where
  /-- The kind of the last significant token. -/
  last : Option Kind
  /-- The square brackets still open, the innermost first. -/
  brackets : List Bracket
deriving Repr, DecidableEq

namespace Context

/-- The context before any token. -/
def initial : Context := ⟨none, []⟩

/-- The last significant token can end an operand. -/
def followsData (context : Context) : Bool :=
  context.last.any Kind.isDataSignifier

/-- The square brackets open after a token of the kind. -/
def bracketsAfter (context : Context) : Kind → List Bracket
  | .callOpen => .call :: context.brackets
  | .arrayOpen => .array :: context.brackets
  | .callClose | .arrayClose => context.brackets.tail
  | _ => context.brackets

/-- The context after a token of the kind. -/
def next (context : Context) (kind : Kind) : Context where
  last := if kind.isSignificant then some kind else context.last
  brackets := context.bracketsAfter kind

end Context

/-- The characters of whitespace. -/
def isBlank (c : Char) : Bool :=
  c = ' ' || c = '\t' || c = '\n' || c = '\r' || c = '\x0b' || c = '\x0c'

/-- The characters of a number after its first digit. -/
def isNumberPart (c : Char) : Bool :=
  c.isDigit || c = '.'

/-- The characters of a word after its first letter. -/
def isWordPart (c : Char) : Bool :=
  c.isAlphanum || c = '_'

/-! ## Bytes -/

/-- Why reading could break off. -/
inductive Fault where
  /-- The text would be cut inside of a character, or behind its end. -/
  | notBoundary
  /-- A turn takes nothing, so that the loop would not end. -/
  | stuck
deriving Repr, DecidableEq

/-- Cuts the characters behind the given number of bytes. The characters in front of the cut come
behind those of `front`, which is given from the last to the first. -/
def cut (front : List Char) : Nat → List Char → Except Fault (List Char × List Char)
  | 0, cs => .ok (front.reverse, cs)
  | _ + 1, [] => .error .notBoundary
  | size + 1, c :: cs =>
    if c.utf8Size ≤ size + 1 then cut (c :: front) (size + 1 - c.utf8Size) cs
    else .error .notBoundary

/-- The bytes of the characters up to the first that `takes` refuses, in addition to `size`. -/
def spanBytes (takes : Char → Bool) (size : Nat) : List Char → Nat
  | [] => size
  | c :: cs => if takes c then spanBytes takes (size + c.utf8Size) cs else size

/-- The byte behind the closing quote, or behind all characters if there is none. A backslash skips the
character behind it. The first of the characters stands at byte `position`. -/
def stringEnd (position : Nat) : List Char → Nat
  | [] => position
  | '"' :: _ => position + 1
  | ['\\'] => position + 1
  | '\\' :: c :: cs => stringEnd (position + 1 + c.utf8Size) cs
  | c :: cs => stringEnd (position + c.utf8Size) cs

/-! ## Recognisers -/

/-- The order in which the kinds are tried. -/
def order : List Kind :=
  [.operator, .unaryOperator, .whitespace, .number, .string, .word, .placeholder, .separator, .callOpen,
   .arrayOpen, .callClose, .arrayClose, .parenOpen, .parenClose, .comma, .lambdaOpen, .lambdaClose, .other]

/-- The characters begin with one that `p` accepts. -/
def startsWith (p : Char → Bool) (cs : List Char) : Bool :=
  cs.head?.any p

/-- The length of a token that is a certain character. -/
def singleSize (c : Char) (cs : List Char) : Option Nat :=
  if startsWith (· = c) cs then some 1 else none

/-- The length of the operator that the characters begin with. -/
def operatorSize (cs : List Char) : Option Nat :=
  (Operator.leading? cs).map fun op => op.symbol.utf8ByteSize

/-- The length of the blanks that the characters begin with. -/
def blankSize (cs : List Char) : Option Nat :=
  let size := spanBytes isBlank 0 cs
  if 0 < size then some size else none

/-- The length of the number that the characters begin with. -/
def numberSize (cs : List Char) : Option Nat :=
  if startsWith Char.isDigit cs then some (spanBytes isNumberPart 0 cs) else none

/-- The length of the string that the characters begin with. -/
def stringSize (cs : List Char) : Option Nat :=
  if startsWith (· = '"') cs then some (stringEnd 1 cs.tail) else none

/-- The length of the word that the characters begin with. -/
def wordSize (cs : List Char) : Option Nat :=
  if startsWith Char.isAlpha cs then some (spanBytes isWordPart 0 cs) else none

/-- The length of the placeholder that the characters begin with. Its digits are looked for behind as
many bytes as it has of underscores. -/
def placeholderSize (cs : List Char) : Except Fault (Option Nat) :=
  if startsWith (· = '_') cs then do
    let underscores := spanBytes (· = '_') 0 cs
    let (_, digits) ← cut [] underscores cs
    return some (underscores + spanBytes Char.isDigit 0 digits)
  else return none

/-- The length of a token of the kind that the characters begin with, in bytes. -/
def recognize (context : Context) (cs : List Char) : Kind → Except Fault (Option Nat)
  | .operator => .ok (if context.followsData then operatorSize cs else none)
  | .unaryOperator => .ok (operatorSize cs)
  | .whitespace => .ok (blankSize cs)
  | .number => .ok (numberSize cs)
  | .string => .ok (stringSize cs)
  | .word => .ok (wordSize cs)
  | .placeholder => placeholderSize cs
  | .separator => .ok (singleSize ';' cs)
  | .callOpen => .ok (if context.followsData then singleSize '[' cs else none)
  | .arrayOpen => .ok (singleSize '[' cs)
  | .callClose => .ok (if context.brackets.head? = some .call then singleSize ']' cs else none)
  | .arrayClose => .ok (singleSize ']' cs)
  | .parenOpen => .ok (singleSize '(' cs)
  | .parenClose => .ok (singleSize ')' cs)
  | .comma => .ok (singleSize ',' cs)
  | .lambdaOpen => .ok (singleSize '\x7b' cs)
  | .lambdaClose => .ok (singleSize '\x7d' cs)
  | .other => .ok (cs.head?.map Char.utf8Size)

/-- The first of the kinds that recognises something, with the length of that. -/
def firstOf (context : Context) (cs : List Char) : List Kind → Except Fault (Option (Kind × Nat))
  | [] => .ok none
  | kind :: kinds => do
    match ← recognize context cs kind with
    | some size => return some (kind, size)
    | none => firstOf context cs kinds

/-! ## The loop -/

/-- What is known in front of the next token. -/
structure State where
  context : Context
  /-- The byte that the next token begins at. -/
  offset : Nat
  /-- The characters from there on. -/
  rest : List Char
  /-- The tokens read. -/
  tokens : Array Token
deriving Repr, DecidableEq

/-- The state in front of a text, which is read from the context. -/
def State.start (context : Context) (source : String) : State :=
  ⟨context, 0, source.toList, #[]⟩

/-- Reads a token. Where no kind recognises anything, nothing is read. -/
def step (state : State) : Except Fault State := do
  match ← firstOf state.context state.rest order with
  | none => return state
  | some (kind, size) =>
    let (text, rest) ← cut [] size state.rest
    let token : Token := ⟨kind, String.ofList text, state.offset⟩
    return ⟨state.context.next kind, state.offset + size, rest, state.tokens.push token⟩

/-- Reads tokens up to the byte `size`. -/
def run (size : Nat) (state : State) : Except Fault State :=
  if state.offset < size then
    match step state with
    | .error fault => .error fault
    | .ok next => if state.offset < next.offset then run size next else .error .stuck
  else .ok state
termination_by size - state.offset

/-- The state behind a text, which is read from the context. -/
def readFrom (context : Context) (source : String) : Except Fault State :=
  run source.utf8ByteSize (.start context source)

end Lexer

/-- The tokens of a text that is read from the context. -/
def tokenizeFrom (context : Lexer.Context) (source : String) : List Token :=
  match Lexer.readFrom context source with
  | .ok last => last.tokens.toList
  | .error _ => []

/-- The tokens of a source text, in order and without gaps. -/
def tokenize (source : String) : List Token :=
  tokenizeFrom .initial source

end ExprCompiler
