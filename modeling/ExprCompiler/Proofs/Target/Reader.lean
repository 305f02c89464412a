import ExprCompiler.Proofs.Target.Lowering

/-!
# A reader of Ruby texts

Reads the trees of a program from the text that it is compiled to, up to what the text does not show:
where the tokens stood, and how many underscores a placeholder has. It looks at no more than the next
characters, so what it does with a text depends on what may follow:

* `Tree.skeleton`: a tree without what the text does not show;
* `Target.Ruby.Readback.expression`, `Target.Ruby.Readback.program`: read an expression and the trees
  of a program, with fuel for how deep it is and how long its rows are;
* `Target.Ruby.Readback.Follows`: what the rest begins with, which decides where an operand ends;
* `Target.Ruby.Readback.operand_lexeme`, `Target.Ruby.Readback.operand_placeholder`: an operand that
  is a token is read as far as it goes.
-/

namespace ExprCompiler

/-! ## Skeletons -/

/-- A token without its place; of a placeholder, one underscore stays. -/
def Token.skeleton (token : Token) : Token where
  kind := token.kind
  text :=
    if token.kind = .placeholder then
      String.ofList ('_' :: token.text.toList.dropWhile (· = '_'))
    else token.text
  offset := 0

namespace Tree

mutual

/-- A tree with the skeletons of its tokens. -/
def skeleton : Tree → Tree
  | .leaf token => .leaf token.skeleton
  | .operator op operands => .operator op.skeleton (skeletons operands)
  | .unary op operands => .unary op.skeleton (skeletons operands)
  | .lambda body => .lambda (skeletons body)
  | .array elements => .array (skeletons elements)
  | .call callee arguments => .call (skeleton callee) (skeletons arguments)

/-- The skeletons of a list of trees. -/
def skeletons : List Tree → List Tree
  | [] => []
  | tree :: trees => skeleton tree :: skeletons trees

end

end Tree

namespace Target.Ruby.Readback

/-! ## Reading -/

/-- What stands behind the text, if the characters begin with it. -/
@[irreducible]
def literal (text : String) (cs : List Char) : Option (List Char) :=
  if text.toList.isPrefixOf cs then some (cs.drop text.toList.length) else none

/-- Reads an operand that is a token by itself. -/
@[irreducible]
def lexeme : List Char → Option (Token × List Char)
  | [] => none
  | c :: cs =>
    let (kind, length) := Lexer.scan .initial c cs
    if kind.isData then
      some (Token.skeleton ⟨kind, String.ofList (c :: cs.take length), 0⟩, cs.drop length)
    else none

/-- Reads what stands between the operands of an operator, and gives the operator. -/
def connective : List Char → Option (Token × List Char)
  | '=' :: '=' :: cs => some (⟨.operator, "=", 0⟩, cs)
  | '+' :: cs => some (⟨.operator, "+", 0⟩, cs)
  | '-' :: cs => some (⟨.operator, "-", 0⟩, cs)
  | '/' :: cs => some (⟨.operator, "/", 0⟩, cs)
  | '*' :: cs => some (⟨.operator, "*", 0⟩, cs)
  | _ => none

/-- Reads something from the characters and gives those behind it. -/
abbrev Reader (α : Type) := List Char → Option (α × List Char)

section

-- How expressions inside are read, and how many of them are read in a row at most.
variable (inner : Reader Tree) (bound : Nat)

/-- Reads a row of at least one expression, with what closes it. -/
def members (series : Series) : Nat → Reader (List Tree)
  | 0, _ => none
  | bound + 1, cs => do
    let (x, rest) ← inner cs
    match literal series.closing rest with
    | some rest => return ([x], rest)
    | none => do
      let rest ← literal series.separator rest
      let (xs, rest) ← members series bound rest
      return (x :: xs, rest)

/-- Reads a row of expressions, with what closes it. -/
def row (series : Series) : Reader (List Tree) := fun cs =>
  match literal series.closing cs with
  | some rest => some ([], rest)
  | none => members inner series bound cs

/-- Reads the arguments of a call, if there are any. -/
def applied (callee : Tree) : Reader Tree
  | '[' :: rest => do
    let (arguments, rest) ← row inner bound .elements rest
    return (.call callee arguments, rest)
  | cs => some (callee, cs)

/-- Reads the alternatives of a condition behind an expression in parentheses, if there are any. -/
def grouped (x : Tree) : Reader Tree := fun cs =>
  match literal " ? (" cs with
  | some rest => do
    let (y, rest) ← inner rest
    let rest ← literal ") : (" rest
    let (z, rest) ← inner rest
    let rest ← literal ")" rest
    return (.call (.leaf ⟨.word, "If", 0⟩) [x, y, z], rest)
  | none => applied inner bound x cs

/-- Reads an operand. -/
def operand : Reader Tree
  | '[' :: rest => do
    let (elements, rest) ← row inner bound .elements rest
    return (.array elements, rest)
  | '(' :: rest => do
    let (x, rest) ← inner rest
    let rest ← literal ")" rest
    grouped inner bound x rest
  | cs => do
    let (token, rest) ← lexeme cs
    match literal header rest with
    | some rest => do
      let (body, rest) ← row inner bound .statements rest
      return (.lambda body, rest)
    | none =>
      match literal "abstract[" rest with
      | some rest => do
        let index := String.ofList ('_' :: rest.takeWhile Char.isDigit)
        let rest ← literal "]" (rest.dropWhile Char.isDigit)
        applied inner bound (.leaf ⟨.placeholder, index, 0⟩) rest
      | none => applied inner bound (.leaf token) rest

/-- Reads an operator and its second operand behind the first one, if there are any. -/
def continued (x : Tree) : Reader Tree := fun cs =>
  match literal " = " cs with
  | some rest => do
    let (y, rest) ← inner rest
    return (.operator ⟨.operator, ":=", 0⟩ [x, y], rest)
  | none =>
    match connective cs with
    | some (op, rest) => do
      let (y, rest) ← operand inner bound rest
      return (.operator op [x, y], rest)
    | none => return (x, cs)

/-- Reads the statements of a program, each behind an empty line. -/
def statements : Nat → List Char → Option (List Tree)
  | _, [] => some []
  | 0, _ => none
  | bound + 1, cs => do
    let rest ← literal "\n\n" cs
    let (x, rest) ← inner rest
    let xs ← statements bound rest
    return x :: xs

end

/-- Reads an expression that is no deeper than the fuel, with no longer rows. -/
def expression : Nat → Reader Tree
  | 0, _ | _, [] => none
  | fuel + 1, c :: rest =>
    if c ∈ ['-', '~', '*'] then do
      let (x, rest) ← operand (expression fuel) fuel rest
      return (.unary ⟨.unaryOperator, String.singleton c, 0⟩ [x], rest)
    else do
      let (x, rest) ← operand (expression fuel) fuel (c :: rest)
      continued (expression fuel) fuel x rest

/-- Reads the trees of a program. -/
def program (fuel : Nat) (output : String) : Option (List Tree) := do
  let rest ← literal preamble output.toList
  statements (expression fuel) fuel rest

/-! ## What may follow -/

theorem literal_append (text : String) (rest : List Char) :
    literal text (text.toList ++ rest) = some rest := by
  have begins : text.toList.isPrefixOf (text.toList ++ rest) = true :=
    List.isPrefixOf_iff_prefix.2 (List.prefix_append _ _)
  rw [literal, if_pos begins, List.drop_left]

/-- The characters that can stand behind an expression. -/
def stops : List Char := [',', ']', ')', ';', '\n']

/-- The characters that can stand behind an operand. -/
def ends : List Char := ['=', '+', '-', '/', '*'] ++ stops

/-- The rest is empty or begins with one of the characters. -/
def Follows (among rest : List Char) : Prop :=
  ∀ c ∈ rest.head?, c ∈ among

theorem Follows.mono {among more rest : List Char} (h : Follows among rest)
    (subset : among.all (· ∈ more) = true) : Follows more rest :=
  fun c mem => of_decide_eq_true (List.all_eq_true.1 subset c (h c mem))

theorem follows_cons {among : List Char} {c : Char} (rest : List Char) (h : c ∈ among) :
    Follows among (c :: rest) := by
  rintro _ ⟨⟩
  exact h

theorem follows_literal {among : List Char} (text : String) (rest : List Char)
    (h : text.toList.head?.any (· ∈ among) = true) :
    Follows among (text.toList ++ rest) := by
  intro c mem
  cases chars : text.toList with
  | nil => simp [chars] at h
  | cons d ds =>
    rw [chars] at h mem
    cases mem
    simpa using h

theorem Follows.of_stops {rest : List Char} (h : Follows stops rest) : Follows ends rest :=
  h.mono (by decide)

theorem Follows.apart {rest : List Char} (h : Follows ('[' :: ends) rest) : Lexer.Apart rest := by
  have all : ('[' :: ends).all (fun c => !Lexer.isWordPart c && c != '.') = true := by decide
  intro c mem
  simpa using List.all_eq_true.1 all c (h c mem)

/-- A text that begins otherwise does not follow. -/
theorem Follows.literal_eq_none {among rest : List Char} (h : Follows among rest) (text : String)
    (other : text.toList.head?.any (fun c => c ∉ among) = true) :
    literal text rest = none := by
  rw [literal, if_neg]
  intro begins
  obtain ⟨behind, rfl⟩ := List.isPrefixOf_iff_prefix.1 begins
  cases chars : text.toList with
  | nil => simp [chars] at other
  | cons c cs =>
    have mem := h c (by simp [chars])
    simp [chars, mem] at other

theorem applied_of_ends (inner : Reader Tree) (bound : Nat) {callee : Tree} {rest : List Char}
    (h : Follows ends rest) : applied inner bound callee rest = some (callee, rest) := by
  rw [applied]
  rintro _ rfl
  exact absurd (h '[' rfl) (by decide)

theorem connective_of_stops {rest : List Char} (h : Follows stops rest) : connective rest = none := by
  unfold connective
  split <;> first | rfl | exact absurd (h _ rfl) (by decide)

/-! ## Operands that are tokens -/

theorem lexeme_append {token : Token} {c : Char} {cs rest : List Char}
    (rereads : token.Rereads c cs) (apart : Lexer.Apart rest) :
    lexeme (c :: (cs ++ rest)) = some (token.skeleton, rest) := by
  simp only [lexeme, rereads.begins.scan_eq, rereads.length apart, rereads.begins.isData, if_true,
    List.take_left, List.drop_left, ← rereads.text, String.ofList_toList]
  rfl

/-- A token by itself is read as far as it goes. -/
theorem operand_lexeme {token : Token} {c : Char} {cs rest : List Char}
    (rereads : token.Rereads c cs) (apart : Lexer.Apart rest) (lambda : literal header rest = none)
    (placeholder : literal "abstract[" rest = none) (inner : Reader Tree) (bound : Nat) :
    operand inner bound (token.text.toList ++ rest) =
      applied inner bound (.leaf token.skeleton) rest := by
  have start := rereads.begins.isOperandStart
  rw [rereads.text, List.cons_append, operand]
  · simp [lexeme_append rereads apart, lambda, placeholder]
  all_goals
    rintro _ ⟨⟩
    exact absurd start (by decide)

/-- The index of a placeholder is a number. -/
theorem isDigit_of_mem_index {token : Token} {c : Char} {cs : List Char}
    (rereads : token.Rereads c cs) (kind : token.kind = .placeholder) :
    ∀ d ∈ token.text.toList.dropWhile (· = '_'), d.isDigit = true := by
  obtain rfl : c = '_' := by
    have begins := rereads.begins
    rw [kind] at begins
    cases begins
    rfl
  have length : Lexer.operandLength token.kind (cs ++ []) = cs.length := rereads.length nofun
  rw [kind, List.append_nil] at length
  have taken := Lexer.take_placeholderLength cs
  rw [show Lexer.placeholderLength cs = cs.length from length, List.take_length] at taken
  have split : cs.takeWhile (· = '_') ++ cs.dropWhile (· = '_') = cs := List.takeWhile_append_dropWhile
  have index : cs.dropWhile (· = '_') = (cs.dropWhile (· = '_')).takeWhile Char.isDigit :=
    List.append_cancel_left (split.trans taken)
  rw [rereads.text, List.dropWhile_cons_of_pos (by rfl), index]
  exact List.all_eq_true.1 List.all_takeWhile

/-- A placeholder is read whatever follows. -/
theorem operand_placeholder {token : Token} {c : Char} {cs : List Char}
    (rereads : token.Rereads c cs) (kind : token.kind = .placeholder) (inner : Reader Tree)
    (bound : Nat) (rest : List Char) :
    operand inner bound ('_' :: ("abstract[".toList ++ (token.text.toList.dropWhile (· = '_') ++
      ("]".toList ++ rest)))) = applied inner bound (.leaf token.skeleton) rest := by
  have digits := isDigit_of_mem_index rereads kind
  have stop : ∀ c ∈ ("]".toList ++ rest).head?, ¬ c.isDigit = true := by
    rintro _ ⟨⟩
    decide
  obtain ⟨index, behind⟩ := Run.span_append digits stop
  -- No digit follows the underscore directly, so it is scanned by itself.
  have first (cs : List Char) : lexeme ('_' :: ("abstract[".toList ++ cs)) =
      some (⟨.placeholder, "_", 0⟩, "abstract[".toList ++ cs) := by
    simp [lexeme, Lexer.Begins.placeholder.scan_eq, Lexer.operandLength, Lexer.placeholderLength]
    decide
  have lambda (cs : List Char) : literal header ("abstract[".toList ++ cs) = none := by
    have follows : Follows ['a'] ("abstract[".toList ++ cs) := by
      rintro _ ⟨⟩
      decide
    exact follows.literal_eq_none header (by decide)
  have skeleton : token.skeleton =
      ⟨.placeholder, String.ofList ('_' :: token.text.toList.dropWhile (· = '_')), 0⟩ := by
    rw [Token.skeleton, if_pos kind, kind]
  rw [operand]
  · simp only [first, Option.bind_eq_bind, Option.bind_some, lambda, literal_append, index, behind,
      skeleton]
  all_goals
    rintro _ ⟨⟩

end Target.Ruby.Readback

end ExprCompiler
