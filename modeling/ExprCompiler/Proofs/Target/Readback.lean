import ExprCompiler.Proofs.Compilation
import ExprCompiler.Proofs.Origin
import ExprCompiler.Proofs.Target.Reader

/-!
# Reading the trees back

A program that is compiled to Ruby without a report is read back from its text by every reader with
enough fuel:

* `Target.Ruby.Readback.Enough`: a property of every fuel from some amount on;
* `Target.Ruby.Readback.Recovers`: what reading does with the text of each form, by what may follow;
* `Target.Ruby.Lowers.recovers`: it does so for everything that trees are lowered to;
* `program_of_compile`: a program that compiles without a report is read as its skeletons;
* `skeleton_eq_of_output_eq`: programs with the same text have the same skeletons.
-/

namespace ExprCompiler

namespace Target.Ruby.Readback

/-! ## What texts begin with -/

/-- The characters that an operand begins with. -/
def isOperandStart (c : Char) : Bool :=
  Lexer.isOperandStart c || c = '(' || c = '['

/-- The characters that an expression begins with. -/
def isStart (c : Char) : Bool :=
  isOperandStart c || c ∈ ['-', '~', '*']

/-- The text begins with a character of the class. -/
def Starts (p : Char → Bool) (text : String) : Prop :=
  ∃ c cs, text.toList = c :: cs ∧ p c = true

theorem starts_literal {p : Char → Bool} (text : String)
    (h : text.toList.head?.any p = true) : Starts p text := by
  cases chars : text.toList with
  | nil => simp [chars] at h
  | cons c cs => exact ⟨c, cs, chars, by simpa [chars] using h⟩

theorem Starts.append {p : Char → Bool} {text : String} (h : Starts p text) (more : String) :
    Starts p (text ++ more) := by
  obtain ⟨c, cs, chars, start⟩ := h
  exact ⟨c, cs ++ more.toList, by rw [String.toList_append, chars, List.cons_append], start⟩

theorem Starts.isStart {text : String} (h : Starts isOperandStart text) : Starts isStart text := by
  obtain ⟨c, cs, chars, start⟩ := h
  exact ⟨c, cs, chars, by simp [Readback.isStart, start]⟩

theorem starts_of_rereads {token : Token} {c : Char} {cs : List Char}
    (rereads : token.Rereads c cs) : Starts isOperandStart token.text :=
  ⟨c, cs, rereads.text, by simp [isOperandStart, rereads.begins.isOperandStart]⟩

theorem starts_parenthesized (text : String) : Starts isOperandStart (parenthesized text) :=
  ((starts_literal "(" (by decide)).append _).append _

/-- What the text of a form begins with. -/
def Begins : Form → List Tree → String → Prop
  | .primary, _, text | .callee, _, text | .operand, _, text => Starts isOperandStart text
  | .expression, _, text => Starts isStart text
  | .row _, trees, text => trees ≠ [] → Starts isStart text

theorem begins_of_lowers {form : Form} {trees : List Tree} {text : String}
    (h : Lowers form trees text) : Begins form trees text := by
  induction h with
  | leaf rereads _ => exact starts_of_rereads rereads
  | placeholder => exact ((starts_literal "_abstract[" (by decide)).append _).append _
  | array => exact ((starts_literal "[" (by decide)).append _).append _
  | lambda => exact (((starts_literal "lambda" (by decide)).append _).append _).append _
  | conditional | called | group => exact starts_parenthesized _
  | call _ _ _ ih => exact ((ih.append _).append _).append _
  | unary _ sign _ =>
    have all : ∀ text ∈ ["-", "~", "*"], text.toList.head?.any isStart = true := by decide
    exact (starts_literal _ (all _ sign)).append _
  | operator _ _ _ _ ih => exact ((ih.append _).append _).isStart
  | assignment _ _ rereads => exact (((starts_of_rereads rereads).append _).append _).isStart
  | named _ ih | single _ ih => exact ih
  | expression _ ih => exact ih.isStart
  | none => exact fun h => absurd rfl h
  | last _ ih => exact fun _ => ih
  | more _ _ ih => exact fun _ => (ih.append _).append _

/-! ## One form after the other -/

/-- The property holds of every fuel from some amount on. -/
def Enough (p : Nat → Prop) : Prop :=
  ∃ least, ∀ fuel, least ≤ fuel → p fuel

namespace Enough

variable {p q : Nat → Prop}

theorem of_forall (h : ∀ fuel, p fuel) : Enough p :=
  ⟨0, fun fuel _ => h fuel⟩

theorem ge (least : Nat) : Enough (least ≤ ·) :=
  ⟨least, fun _ => id⟩

theorem imp (h : Enough p) (next : ∀ fuel, p fuel → q fuel) : Enough q := by
  obtain ⟨least, h⟩ := h
  exact ⟨least, fun fuel le => next fuel (h fuel le)⟩

theorem and (hp : Enough p) (hq : Enough q) : Enough fun fuel => p fuel ∧ q fuel := by
  obtain ⟨least, hp⟩ := hp
  obtain ⟨least', hq⟩ := hq
  exact ⟨max least least', fun fuel le => ⟨hp fuel (by omega), hq fuel (by omega)⟩⟩

/-- A step that uses up one unit. -/
theorem step (h : Enough p) (next : ∀ fuel, p fuel → q (fuel + 1)) : Enough q := by
  obtain ⟨least, h⟩ := h
  refine ⟨least + 1, fun fuel le => ?_⟩
  obtain ⟨fuel, rfl⟩ := Nat.exists_eq_add_one.2 (Nat.lt_of_lt_of_le (Nat.succ_pos least) le)
  exact next fuel (h fuel (Nat.le_of_succ_le_succ le))

end Enough

/-- What reading does with the text of a form, with enough fuel. -/
def Recovers : Form → List Tree → String → Prop
  | .primary, [tree], text | .operand, [tree], text =>
    ∀ rest, Follows ends rest → Enough fun fuel =>
      operand (expression fuel) fuel (text.toList ++ rest) = some (tree.skeleton, rest)
  | .callee, [tree], text =>
    ∀ rest, Enough fun fuel => operand (expression fuel) fuel (text.toList ++ '[' :: rest) =
      applied (expression fuel) fuel tree.skeleton ('[' :: rest)
  | .expression, [tree], text =>
    ∀ rest, Follows stops rest → Enough fun fuel =>
      expression fuel (text.toList ++ rest) = some (tree.skeleton, rest)
  | .row series, trees, text =>
    ∀ rest, Enough fun fuel => ∀ bound, trees.length ≤ bound →
      row (expression fuel) bound series (text.toList ++ (series.closing.toList ++ rest)) =
        some (Tree.skeletons trees, rest)
  | _, _, _ => True

/-- A row is read by itself with as much fuel. -/
theorem Recovers.enough {series : Series} {trees : List Tree} {text : String}
    (h : Recovers (.row series) trees text) (rest : List Char) :
    Enough fun fuel => row (expression fuel) fuel series
      (text.toList ++ (series.closing.toList ++ rest)) = some (Tree.skeletons trees, rest) :=
  ((h rest).and (.ge trees.length)).imp fun fuel h => h.1 fuel h.2

theorem recovers_leaf {token : Token} {c : Char} {cs : List Char} (rereads : token.Rereads c cs) :
    Recovers .primary [.leaf token] token.text := by
  intro rest follows
  have wide : Follows ('[' :: ends) rest := follows.mono (by decide)
  refine .of_forall fun fuel => ?_
  rw [operand_lexeme rereads wide.apart (wide.literal_eq_none _ (by decide))
    (wide.literal_eq_none _ (by decide)), applied_of_ends _ _ follows, Tree.skeleton]

theorem toList_placeholder (index rest : List Char) :
    ("_abstract[" ++ String.ofList index ++ "]").toList ++ rest =
      '_' :: ("abstract[".toList ++ (index ++ ("]".toList ++ rest))) := by
  simp

theorem recovers_placeholder {token : Token} {c : Char} {cs : List Char}
    (rereads : token.Rereads c cs) (kind : token.kind = .placeholder) :
    Recovers .primary [.leaf token]
      ("_abstract[" ++ String.ofList (token.text.toList.dropWhile (· = '_')) ++ "]") := by
  intro rest follows
  refine .of_forall fun fuel => ?_
  rw [toList_placeholder, operand_placeholder rereads kind, applied_of_ends _ _ follows,
    Tree.skeleton]

theorem recovers_array {elements : List Tree} {text : String}
    (h : Recovers (.row .elements) elements text) :
    Recovers .primary [.array elements] ("[" ++ text ++ "]") := by
  intro rest _
  have chars : ("[" ++ text ++ "]").toList ++ rest =
      '[' :: (text.toList ++ (Series.elements.closing.toList ++ rest)) := by
    simp [Series.closing]
  refine (h.enough rest).imp fun fuel read => ?_
  rw [chars, operand, read, Tree.skeleton]
  rfl

/-- The first word of a lambda is read again. -/
theorem rereads_lambda : Token.Rereads ⟨.word, "lambda", 0⟩ 'l' "ambda".toList where
  text := by decide
  begins := .word (by decide) (by decide)
  length apart := by
    have all : "ambda".toList.all Lexer.isWordPart = true := by decide
    exact congrArg List.length (Run.span_append (List.all_eq_true.1 all)
      fun c mem => Bool.eq_false_iff.1 (apart c mem).1).1

theorem recovers_lambda {body : List Tree} {text : String}
    (h : Recovers (.row .statements) body text) :
    Recovers .primary [.lambda body] ("lambda" ++ header ++ text ++ "\n\x7d") := by
  intro rest _
  have chars : ("lambda" ++ header ++ text ++ "\n\x7d").toList ++ rest = 'l' :: ("ambda".toList ++
      (header.toList ++ (text.toList ++ (Series.statements.closing.toList ++ rest)))) := by
    simp [Series.closing]
  have apart (cs : List Char) : Lexer.Apart (header.toList ++ cs) := by
    rintro _ ⟨⟩
    decide
  refine (h.enough rest).imp fun fuel read => ?_
  rw [chars, operand]
  · simp only [lexeme_append rereads_lambda (apart _), Option.bind_eq_bind, Option.bind_some,
      literal_append, read, Tree.skeleton]
    rfl
  all_goals
    rintro _ ⟨⟩

/-- An expression that begins with an operand goes on behind it. -/
theorem expression_of_operand {fuel : Nat} {text : String} {cs rest : List Char} {x : Tree}
    (starts : Starts isOperandStart text)
    (h : operand (expression fuel) fuel (text.toList ++ cs) = some (x, rest)) :
    expression (fuel + 1) (text.toList ++ cs) = continued (expression fuel) fuel x rest := by
  obtain ⟨c, behind, chars, start⟩ := starts
  have sign : c ∉ ['-', '~', '*'] := by
    have all : ['-', '~', '*'].all (fun c => !isOperandStart c) = true := by decide
    intro mem
    simpa [start] using List.all_eq_true.1 all c mem
  rw [chars, List.cons_append] at h ⊢
  rw [expression, if_neg sign, h]
  rfl

theorem continued_of_stops (inner : Reader Tree) (bound : Nat) {x : Tree} {rest : List Char}
    (h : Follows stops rest) : continued inner bound x rest = some (x, rest) := by
  rw [continued, h.literal_eq_none " = " (by decide), connective_of_stops h]
  rfl

theorem recovers_expression {tree : Tree} {text : String} (starts : Starts isOperandStart text)
    (h : Recovers .primary [tree] text) : Recovers .expression [tree] text := by
  intro rest follows
  refine (h rest follows.of_stops).step fun fuel read => ?_
  rw [expression_of_operand starts read, continued_of_stops _ _ follows]

/-- An expression in parentheses is read to the closing one. -/
theorem operand_parenthesized {tree : Tree} {text : String} (h : Recovers .expression [tree] text)
    (rest : List Char) :
    Enough fun fuel => operand (expression fuel) fuel ((parenthesized text).toList ++ rest) =
      grouped (expression fuel) fuel tree.skeleton rest := by
  have chars : (parenthesized text).toList ++ rest = '(' :: (text.toList ++ (")".toList ++ rest)) := by
    simp [parenthesized]
  refine (h _ (follows_literal ")" rest (by decide))).imp fun fuel read => ?_
  rw [chars, operand, read]
  simp only [Option.bind_eq_bind, Option.bind_some, literal_append]

theorem recovers_group {tree : Tree} {text : String} (h : Recovers .expression [tree] text) :
    Recovers .operand [tree] (parenthesized text) := by
  intro rest follows
  refine (operand_parenthesized h rest).imp fun fuel read => ?_
  rw [read, grouped, follows.literal_eq_none " ? (" (by decide), applied_of_ends _ _ follows]

theorem recovers_called {tree : Tree} {text : String} (h : Recovers .expression [tree] text) :
    Recovers .callee [tree] (parenthesized text) := by
  intro rest
  have follows : Follows ['['] ('[' :: rest) := follows_cons rest (by decide)
  refine (operand_parenthesized h ('[' :: rest)).imp fun fuel read => ?_
  rw [read, grouped, follows.literal_eq_none " ? (" (by decide)]

theorem recovers_named {token : Token} {text : String} (h : Lowers .primary [.leaf token] text) :
    Recovers .callee [.leaf token] text := by
  intro rest
  refine .of_forall fun fuel => ?_
  cases h with
  | leaf rereads =>
    have follows : Follows ('[' :: ends) ('[' :: rest) := follows_cons rest (by decide)
    rw [operand_lexeme rereads follows.apart (follows.literal_eq_none _ (by decide))
      (follows.literal_eq_none _ (by decide)), Tree.skeleton]
  | placeholder rereads kind index =>
    subst index
    rw [toList_placeholder, operand_placeholder rereads kind, Tree.skeleton]

theorem recovers_call {callee : Tree} {arguments : List Tree} {name text : String}
    (hc : Recovers .callee [callee] name) (h : Recovers (.row .elements) arguments text) :
    Recovers .primary [.call callee arguments] (name ++ "[" ++ text ++ "]") := by
  intro rest _
  have chars : (name ++ "[" ++ text ++ "]").toList ++ rest =
      name.toList ++ '[' :: (text.toList ++ (Series.elements.closing.toList ++ rest)) := by
    simp [Series.closing]
  have both := (hc (text.toList ++ (Series.elements.closing.toList ++ rest))).and (h.enough rest)
  refine both.imp fun fuel reads => ?_
  obtain ⟨readName, readRow⟩ := reads
  rw [chars, readName, applied, readRow, Tree.skeleton]
  rfl

/-- Only a word is written like the name of conditionals. -/
theorem skeleton_of_if {token : Token} {c : Char} {cs : List Char} (rereads : token.Rereads c cs)
    (name : token.text = "If") : token.skeleton = ⟨.word, "If", 0⟩ := by
  have chars : 'I' :: ['f'] = c :: cs := by
    rw [← rereads.text, name]
    decide
  have kind : token.kind = .word := by
    have begins := rereads.begins
    rw [← (List.cons.inj chars).1] at begins
    generalize token.kind = kind at begins
    cases begins with
    | number digit => cases digit
    | word => rfl
  simp [Token.skeleton, kind, name]

theorem recovers_conditional {token : Token} {c : Char} {cs : List Char} {x y z : Tree}
    {condition positive negative : String} (rereads : token.Rereads c cs) (name : token.text = "If")
    (hx : Recovers .expression [x] condition) (hy : Recovers .expression [y] positive)
    (hz : Recovers .expression [z] negative) :
    Recovers .primary [.call (.leaf token) [x, y, z]]
      (conditional condition positive negative) := by
  -- The condition is the first operand inside of the parentheses around the whole.
  refine recovers_group ?_
  intro rest follows
  have chars : (parenthesized condition ++ " ? " ++ parenthesized positive ++ " : " ++
      parenthesized negative).toList ++ rest = (parenthesized condition).toList ++ (" ? (".toList ++
        (positive.toList ++ (") : (".toList ++ (negative.toList ++ (")".toList ++ rest))))) := by
    simp [parenthesized]
  have all := (operand_parenthesized hx (" ? (".toList ++ (positive.toList ++ (") : (".toList ++
    (negative.toList ++ (")".toList ++ rest)))))).and
      ((hy _ (follows_literal ") : (" (negative.toList ++ (")".toList ++ rest)) (by decide))).and
        (hz _ (follows_literal ")" rest (by decide))))
  refine all.step fun fuel reads => ?_
  obtain ⟨readX, readY, readZ⟩ := reads
  have choice : grouped (expression fuel) fuel x.skeleton (" ? (".toList ++ (positive.toList ++
      (") : (".toList ++ (negative.toList ++ (")".toList ++ rest))))) =
      some ((Tree.call (.leaf token) [x, y, z]).skeleton, rest) := by
    rw [grouped, literal_append]
    simp only [readY, readZ, Option.bind_eq_bind, Option.bind_some, literal_append, Tree.skeleton,
      Tree.skeletons, skeleton_of_if rereads name]
    rfl
  rw [chars, expression_of_operand (starts_parenthesized condition) (readX.trans choice),
    continued_of_stops _ _ follows]

theorem recovers_unary {op : Token} {tree : Tree} {text : String} (kind : op.kind = .unaryOperator)
    (sign : op.text ∈ ["-", "~", "*"]) (h : Recovers .operand [tree] text) :
    Recovers .expression [.unary op [tree]] (op.text ++ text) := by
  intro rest follows
  obtain ⟨c, mem, eq⟩ : ∃ c, c ∈ ['-', '~', '*'] ∧ op.text = String.singleton c := by
    simp only [List.mem_cons, List.not_mem_nil, or_false] at sign
    obtain eq | eq | eq := sign
    · exact ⟨'-', by decide, eq⟩
    · exact ⟨'~', by decide, eq⟩
    · exact ⟨'*', by decide, eq⟩
  have chars : (op.text ++ text).toList ++ rest = c :: (text.toList ++ rest) := by
    simp [eq]
  have skeleton : op.skeleton = ⟨.unaryOperator, String.singleton c, 0⟩ := by
    simp [Token.skeleton, kind, eq]
  refine (h rest follows.of_stops).step fun fuel read => ?_
  rw [chars, expression, if_pos mem, read]
  simp only [Option.bind_eq_bind, Option.bind_some, Tree.skeleton, Tree.skeletons, skeleton]
  rfl

/-- What stands between operands gives the operator back. -/
theorem connective_append {op : Token} {symbol : String} (kind : op.kind = .operator)
    (h : connective? op.text = some symbol) (cs : List Char) :
    connective (symbol.toList ++ cs) = some (op.skeleton, cs) ∧
      Follows ['=', '+', '-', '/', '*'] (symbol.toList ++ cs) := by
  have skeleton : op.skeleton = ⟨.operator, op.text, 0⟩ := by
    simp [Token.skeleton, kind]
  rw [skeleton]
  unfold connective? at h
  split at h
  · rename_i eq
    cases h
    rw [eq]
    exact ⟨rfl, follows_literal "==" cs (by decide)⟩
  split at h
  · rename_i mem
    cases h
    simp only [List.mem_cons, List.not_mem_nil, or_false] at mem
    obtain eq | eq | eq | eq := mem <;> rw [eq] <;> exact ⟨rfl, follows_literal _ cs (by decide)⟩
  · cases h

theorem recovers_operator {op : Token} {symbol left right : String} {x y : Tree}
    (kind : op.kind = .operator) (h : connective? op.text = some symbol)
    (starts : Starts isOperandStart left) (hx : Recovers .operand [x] left)
    (hy : Recovers .operand [y] right) :
    Recovers .expression [.operator op [x, y]] (left ++ symbol ++ right) := by
  intro rest follows
  obtain ⟨between, first⟩ := connective_append kind h (right.toList ++ rest)
  have chars : (left ++ symbol ++ right).toList ++ rest =
      left.toList ++ (symbol.toList ++ (right.toList ++ rest)) := by
    simp
  have both := (hx _ (first.mono (by decide))).and (hy rest follows.of_stops)
  refine both.step fun fuel reads => ?_
  obtain ⟨readX, readY⟩ := reads
  rw [chars, expression_of_operand starts readX, continued,
    first.literal_eq_none " = " (by decide), between]
  simp only [readY, Option.bind_eq_bind, Option.bind_some, Tree.skeleton, Tree.skeletons]
  rfl

theorem recovers_assignment {op token : Token} {c : Char} {cs : List Char} {tree : Tree}
    {text : String} (kind : op.kind = .operator) (assigns : op.text = ":=")
    (rereads : token.Rereads c cs) (h : Recovers .expression [tree] text) :
    Recovers .expression [.operator op [.leaf token, tree]] (token.text ++ " = " ++ text) := by
  intro rest follows
  have chars : (token.text ++ " = " ++ text).toList ++ rest =
      token.text.toList ++ (" = ".toList ++ (text.toList ++ rest)) := by
    simp
  have target (inner : Reader Tree) (bound : Nat) (cs : List Char) :
      operand inner bound (token.text.toList ++ (" = ".toList ++ cs)) =
        some (.leaf token.skeleton, " = ".toList ++ cs) := by
    have apart : Lexer.Apart (" = ".toList ++ cs) := by
      rintro _ ⟨⟩
      decide
    rw [operand_lexeme rereads apart (by simp [literal, header]) (by simp [literal]), applied]
    rintro _ ⟨⟩
  have skeleton : op.skeleton = ⟨.operator, ":=", 0⟩ := by
    simp [Token.skeleton, kind, assigns]
  refine (h rest follows).step fun fuel read => ?_
  rw [chars, expression_of_operand (starts_of_rereads rereads) (target _ _ _), continued,
    literal_append]
  simp only [read, Option.bind_eq_bind, Option.bind_some, Tree.skeleton, Tree.skeletons, skeleton]
  rfl

/-- A row that begins like an expression has a first one. -/
theorem row_eq_members (inner : Reader Tree) (bound : Nat) (series : Series) {text : String}
    (starts : Starts isStart text) (cs : List Char) :
    row inner bound series (text.toList ++ cs) =
      members inner series bound (text.toList ++ cs) := by
  obtain ⟨c, behind, chars, start⟩ := starts
  have notClosed : literal series.closing (c :: (behind ++ cs)) = none := by
    have follows : Follows [c] (c :: (behind ++ cs)) := follows_cons _ List.mem_cons_self
    refine follows.literal_eq_none _ ?_
    have other : c ≠ ']' ∧ c ≠ '\n' := by
      constructor <;> rintro rfl <;> cases start
    cases series <;> simp [Series.closing, other.1.symm, other.2.symm]
  rw [chars, List.cons_append, row, notClosed]

theorem recovers_none (series : Series) : Recovers (.row series) [] "" := by
  intro rest
  refine .of_forall fun fuel bound _ => ?_
  rw [String.toList_empty, List.nil_append, row, literal_append]
  rfl

theorem recovers_last {series : Series} {tree : Tree} {text : String} (starts : Starts isStart text)
    (h : Recovers .expression [tree] text) : Recovers (.row series) [tree] text := by
  intro rest
  have follows : Follows stops (series.closing.toList ++ rest) := by
    cases series <;> exact follows_literal _ rest (by decide)
  refine (h _ follows).imp fun fuel read bound le => ?_
  obtain ⟨bound, rfl⟩ := Nat.exists_eq_add_one.2 (Nat.lt_of_lt_of_le Nat.one_pos le)
  rw [row_eq_members _ _ series starts, members, read]
  simp only [Option.bind_eq_bind, Option.bind_some, literal_append]
  rfl

theorem recovers_more {series : Series} {tree : Tree} {trees : List Tree} {text more : String}
    (starts : Starts isStart text) (startsMore : Starts isStart more)
    (h : Recovers .expression [tree] text) (hr : Recovers (.row series) trees more) :
    Recovers (.row series) (tree :: trees) (text ++ series.separator ++ more) := by
  intro rest
  have chars : (text ++ series.separator ++ more).toList ++ (series.closing.toList ++ rest) =
      text.toList ++ (series.separator.toList ++
        (more.toList ++ (series.closing.toList ++ rest))) := by
    simp
  have follows (cs : List Char) : Follows stops (series.separator.toList ++ cs) ∧
      literal series.closing (series.separator.toList ++ cs) = none := by
    cases series with
    | elements =>
      have first : Follows [','] (", ".toList ++ cs) := follows_literal ", " cs (by decide)
      exact ⟨first.mono (by decide), first.literal_eq_none "]" (by decide)⟩
    | statements =>
      have first : Follows [';'] (";".toList ++ cs) := follows_literal ";" cs (by decide)
      exact ⟨first.mono (by decide), first.literal_eq_none "\n\x7d" (by decide)⟩
  obtain ⟨stopped, notClosed⟩ := follows (more.toList ++ (series.closing.toList ++ rest))
  refine ((h _ stopped).and (hr rest)).imp fun fuel reads bound le => ?_
  obtain ⟨read, readMore⟩ := reads
  obtain ⟨bound, rfl⟩ := Nat.exists_eq_add_one.2 (Nat.lt_of_lt_of_le (Nat.succ_pos _) le)
  have behind := readMore bound (Nat.le_of_succ_le_succ le)
  rw [row_eq_members _ _ series startsMore] at behind
  rw [chars, row_eq_members _ _ series starts, members, read]
  simp only [Option.bind_eq_bind, Option.bind_some, notClosed, literal_append, behind]
  rfl

end Target.Ruby.Readback

open Target.Ruby.Readback in
/-- What trees are lowered to is read as their skeletons. -/
theorem Target.Ruby.Lowers.recovers {form : Form} {trees : List Tree} {text : String}
    (h : Lowers form trees text) : Recovers form trees text := by
  induction h with
  | leaf rereads _ => exact recovers_leaf rereads
  | placeholder rereads kind index _ =>
    subst index
    exact recovers_placeholder rereads kind
  | array _ ih => exact recovers_array ih
  | lambda _ ih => exact recovers_lambda ih
  | conditional rereads name _ _ _ ihx ihy ihz => exact recovers_conditional rereads name ihx ihy ihz
  | call _ _ _ ihc ih => exact recovers_call ihc ih
  | named h _ => exact recovers_named h
  | called _ _ ih => exact recovers_called ih
  | single _ ih => exact ih
  | group _ _ ih => exact recovers_group ih
  | unary kind sign _ ih => exact recovers_unary kind sign ih
  | operator kind connective hx _ ihx ihy =>
    exact recovers_operator kind connective (begins_of_lowers hx) ihx ihy
  | assignment kind assigns rereads _ ih => exact recovers_assignment kind assigns rereads ih
  | expression h ih => exact recovers_expression (begins_of_lowers h) ih
  | none => exact recovers_none _
  | last h ih => exact recovers_last (begins_of_lowers h) ih
  | more h hr ih ihr =>
    exact recovers_more (begins_of_lowers h) (begins_of_lowers hr nofun) ih ihr

namespace Target.Ruby

/-! ## Programs -/

/-- Each part but the first stands behind a separator. -/
theorem toList_intercalate_cons (separator first : String) (parts : List String) :
    (separator.intercalate (first :: parts)).toList =
      first.toList ++ parts.flatMap fun part => separator.toList ++ part.toList := by
  induction parts generalizing first with
  | nil => simp
  | cons part parts ih => simp [String.intercalate_cons_cons, ih]

/-- The statements of a program are read one by one. -/
theorem statements_of_silent {trees : List Tree} {texts : List String}
    (faithful : ∀ tree ∈ trees, Faithful tree) (h : (trees.mapM ruby.emit).Silent texts) :
    Readback.Enough fun fuel => ∀ bound, trees.length ≤ bound →
      Readback.statements (Readback.expression fuel) bound
        (texts.flatMap fun text => "\n\n".toList ++ text.toList) =
      some (trees.map Tree.skeleton) := by
  induction trees generalizing texts with
  | nil =>
    refine .of_forall fun fuel bound _ => ?_
    rw [Emit.Silent.of_mapM_nil h, List.flatMap_nil, Readback.statements]
    rfl
  | cons tree trees ih =>
    obtain ⟨head, tail⟩ := List.forall_mem_cons.1 faithful
    obtain ⟨text, rest, silent, silents, rfl⟩ := h.of_mapM_cons fun tree _ => appends_emit tree
    have recovers : Readback.Recovers .expression [tree] text := (head silent).of_formOf.recovers
    have follows : Readback.Follows Readback.stops
        (rest.flatMap fun text => "\n\n".toList ++ text.toList) := by
      cases rest with
      | nil => nofun
      | cons text rest =>
        rw [List.flatMap_cons, List.append_assoc]
        exact Readback.follows_literal "\n\n" _ (by decide)
    refine ((recovers _ follows).and (ih tail silents)).imp fun fuel reads bound le => ?_
    obtain ⟨read, readMore⟩ := reads
    obtain ⟨bound, rfl⟩ := Nat.exists_eq_add_one.2 (Nat.lt_of_lt_of_le (Nat.succ_pos _) le)
    rw [List.flatMap_cons, List.append_assoc, Readback.statements]
    · simp only [Readback.literal_append, read, Option.bind_eq_bind, Option.bind_some,
        readMore bound (Nat.le_of_succ_le_succ le)]
      rfl
    · rintro ⟨⟩

/-- A program that is emitted in silence is read back from its text. -/
theorem program_of_silent {trees : List Tree} {output : String}
    (faithful : ∀ tree ∈ trees, Faithful tree) (h : (ruby.generate trees).Silent output) :
    Readback.Enough fun fuel =>
      Readback.program fuel output = some (trees.map Tree.skeleton) := by
  obtain ⟨texts, silents, h⟩ := h.of_bind (.mapM fun tree _ => appends_emit tree) fun _ => .pure _
  have parts : ruby.prologue ++ texts ++ ruby.epilogue = preamble :: texts := List.append_nil _
  have chars := toList_intercalate_cons ruby.separator preamble texts
  have reads := (statements_of_silent faithful silents).and (.ge trees.length)
  refine reads.imp fun fuel reads => ?_
  obtain ⟨read, le⟩ := reads
  rw [← Emit.silent_pure_iff.1 h, parts, Readback.program, chars, Readback.literal_append]
  exact read fuel le

end Target.Ruby

/-- What compiles to Ruby without a report is read back from its text. -/
theorem program_of_compile {source : String} {compiled : Compiled}
    (h : compile "ruby" source = .ok compiled) (silent : compiled.diagnostics = [])
    (terminated : ∀ token ∈ tokenize source, token.isTerminated = true) :
    ∃ forest, Forest.ofSource source = .ok forest ∧ Target.Ruby.Readback.Enough fun fuel =>
      Target.Ruby.Readback.program fuel compiled.output =
        some (forest.trees.map Tree.skeleton) := by
  have target : compile "ruby" source = compileTo Target.ruby source := rfl
  obtain ⟨forest, found, output, diagnostics⟩ := compileTo_eq_ok_iff.1 (target ▸ h)
  have appends : (Target.ruby.generate forest.trees).Appends :=
    (Emit.Appends.mapM fun tree _ => Target.Ruby.appends_emit tree).bind fun _ => .pure _
  obtain ⟨text, reported, yields⟩ := appends
  have rereads : Target.Ruby.Rereadable (Tree.flattenAll forest.trees) := fun token data mem =>
    have read := Forest.mem_tokenize found data mem
    (isScanned_of_mem_tokenize read).rereads data (terminated token read)
  obtain ⟨_, built, _, builds, rfl⟩ := Forest.ofSource_eq_ok_iff.1 found
  obtain ⟨wf, -, -⟩ := Forest.flatten_of_ofItems builds
  have faithful : ∀ tree ∈ built.trees, Target.Ruby.Faithful tree := fun tree mem =>
    Target.Ruby.lowers_of_silent (wf tree mem) (rereads.of_mem mem)
  rw [yields] at output diagnostics
  obtain ⟨-, none⟩ := List.append_eq_nil_iff.1 (diagnostics.symm.trans silent)
  obtain rfl : reported = [] := by simpa using none
  rw [output]
  exact ⟨_, found, Target.Ruby.program_of_silent faithful yields⟩

/-- Programs that compile to the same Ruby text without a report have the same trees, up to the
places of tokens and the underscores of placeholders. -/
theorem skeleton_eq_of_output_eq {first second : String} {compiled compiled' : Compiled}
    (compiles : compile "ruby" first = .ok compiled) (silent : compiled.diagnostics = [])
    (terminated : ∀ token ∈ tokenize first, token.isTerminated = true)
    (compiles' : compile "ruby" second = .ok compiled') (silent' : compiled'.diagnostics = [])
    (terminated' : ∀ token ∈ tokenize second, token.isTerminated = true)
    (same : compiled.output = compiled'.output) :
    ∃ forest forest', Forest.ofSource first = .ok forest ∧ Forest.ofSource second = .ok forest' ∧
      forest.trees.map Tree.skeleton = forest'.trees.map Tree.skeleton := by
  obtain ⟨forest, found, back⟩ := program_of_compile compiles silent terminated
  obtain ⟨forest', found', back'⟩ := program_of_compile compiles' silent' terminated'
  obtain ⟨fuel, both⟩ := back.and back'
  obtain ⟨read, read'⟩ := both fuel (Nat.le_refl fuel)
  rw [same, read'] at read
  exact ⟨forest, forest', found, found', (Option.some.inj read).symm⟩

/-- Other blanks, parentheses and underscores, and the same text. -/
theorem skeleton_eq_of_output_eq_conditional :
    ∃ forest forest', Forest.ofSource "x := If[a = \"]\", f[_2], -(b + c)]" = .ok forest ∧
      Forest.ofSource ";x:=(If[(a=\"]\"),f[__2],-((b)+c)]);" = .ok forest' ∧
      forest.trees.map Tree.skeleton = forest'.trees.map Tree.skeleton := by
  have compiles : compile "ruby" "x := If[a = \"]\", f[_2], -(b + c)]" =
      .ok ⟨"\n\n".intercalate [Target.Ruby.preamble,
        "x = ((a==\"]\") ? (f[_abstract[2]]) : (-(b+c)))"], []⟩ := by
    with_unfolding_all rfl
  have compiles' : compile "ruby" ";x:=(If[(a=\"]\"),f[__2],-((b)+c)]);" =
      .ok ⟨"\n\n".intercalate [Target.Ruby.preamble,
        "x = ((a==\"]\") ? (f[_abstract[2]]) : (-(b+c)))"], []⟩ := by
    with_unfolding_all rfl
  exact skeleton_eq_of_output_eq compiles rfl (by decide +kernel) compiles' rfl (by decide +kernel)
    rfl

end ExprCompiler
