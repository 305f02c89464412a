import ExprCompiler.Proofs.Token.Continuation
import Mathlib.Data.List.TakeWhile

/-!
# Reading what was printed

Tokens that are printed with blanks between them are read again as they were:

* `Kind.isText`: the texts of a kind;
* `unclosedBracket?`: the square bracket that a closing one belongs to, found by looking back;
* `Kind.FitsBehind`: operators and square brackets are of the kind that the tokens before them ask for;
* `Lexer.scan_of_isText`: a text of a kind that fits is scanned as one token of that kind;
* `Joined`, `Joined.cuts`: texts one behind the other with blanks between them;
* `spelling_tokenize_of_joined`: the tokens of such a text, blanks apart, have the kinds and the texts
  that were printed.
-/

namespace ExprCompiler

/-! ## What can be printed -/

namespace Lexer

/-- The characters that are a token of another kind than `other` by themselves, or begin one whatever
stands behind them. -/
def beginsToken (c : Char) : Bool :=
  isBlank c || isOperandStart c || [';', '[', ']', '(', ')', ',', '{', '}'].contains c ||
    Operator.table.any fun op => op.symbol.toList = [c]

end Lexer

/-- The texts that tokens of a kind have. Blanks are not printed as tokens. An operator that another one
stands before in the table, and begins like it, is never read. -/
def Kind.isText (kind : Kind) (text : List Char) : Bool :=
  match kind with
  | .number => text.head?.any Char.isDigit && text.all Lexer.isNumberPart
  | .string => text.head? = some '"' && Lexer.isClosed text.tail
  | .word => text.head?.any Char.isAlpha && text.all Lexer.isWordPart
  | .placeholder => text.head? = some '_' && (text.dropWhile (· = '_')).all Char.isDigit
  | .operator | .unaryOperator =>
    text ≠ ['=', '>'] && Operator.table.any fun op => op.symbol.toList = text
  | .whitespace => false
  | .separator => text = [';']
  | .callOpen | .arrayOpen => text = ['[']
  | .callClose | .arrayClose => text = [']']
  | .parenOpen => text = ['(']
  | .parenClose => text = [')']
  | .comma => text = [',']
  | .lambdaOpen => text = ['{']
  | .lambdaClose => text = ['}']
  | .other => text.length = 1 && text.all fun c => !Lexer.beginsToken c

/-- The last square bracket that is open behind the tokens, which are given the last one first, if
`closed` brackets are closed behind them. -/
def unclosedFrom (closed : Nat) : List Token → Option Kind
  | [] => none
  | token :: before =>
    match token.kind with
    | .callClose | .arrayClose => unclosedFrom (closed + 1) before
    | .callOpen | .arrayOpen =>
      if closed = 0 then some token.kind else unclosedFrom (closed - 1) before
    | _ => unclosedFrom closed before

/-- The kind of the innermost square bracket open behind the tokens. -/
def unclosedBracket? (before : List Token) : Option Kind :=
  unclosedFrom 0 before.reverse

/-- Operators and square brackets are of the kind that the tokens before them ask for: an operator
stands between two operands and a bracket opens a call exactly behind an operand, and a closing bracket
is of the pair of the innermost open one, or of an array if none is open. -/
def Kind.FitsBehind (kind : Kind) (before : List Token) : Prop :=
  match kind with
  | .operator | .callOpen => (lastSignificant before).any Kind.isDataSignifier = true
  | .unaryOperator | .arrayOpen => (lastSignificant before).any Kind.isDataSignifier = false
  | .callClose => unclosedBracket? before = some .callOpen
  | .arrayClose => unclosedBracket? before = some .arrayOpen ∨ unclosedBracket? before = none
  | _ => True

instance (kind : Kind) (before : List Token) : Decidable (kind.FitsBehind before) :=
  match kind with
  | .operator | .callOpen => inferInstanceAs (Decidable (_ = true))
  | .unaryOperator | .arrayOpen => inferInstanceAs (Decidable (_ = false))
  | .callClose => inferInstanceAs (Decidable (_ = _))
  | .arrayClose => inferInstanceAs (Decidable (_ ∨ _))
  | .number | .string | .word | .placeholder | .whitespace | .separator | .parenOpen | .parenClose
  | .comma | .lambdaOpen | .lambdaClose | .other => inferInstanceAs (Decidable True)

/-- The characters are the texts of the tokens with at least one blank between any two of them. -/
inductive Joined : List Token → List Char → Prop
  | nil : Joined [] []
  | single (token : Token) : Joined [token] token.text.toList
  | cons {token next : Token} {tokens : List Token} {blanks cs : List Char} : blanks ≠ [] →
      (∀ c ∈ blanks, Lexer.isBlank c = true) → Joined (next :: tokens) cs →
      Joined (token :: next :: tokens) (token.text.toList ++ (blanks ++ cs))

/-- The kind and the text of a token. -/
def Token.spelling (token : Token) : Kind × String :=
  (token.kind, token.text)

namespace Lexer

/-! ## The context behind printed tokens -/

/-- The context behind the tokens. -/
def contextAfter (before : List Token) : Context :=
  before.foldl (fun context token => context.next token.kind) .initial

theorem contextAfter_concat (before : List Token) (token : Token) :
    contextAfter (before ++ [token]) = (contextAfter before).next token.kind := by
  rw [contextAfter, List.foldl_append]
  rfl

theorem followsData_contextAfter (before : List Token) :
    (contextAfter before).followsData = (lastSignificant before).any Kind.isDataSignifier := by
  rw [Context.followsData, contextAfter, last_foldl_next, Context.initial, Option.or_none]

/-- How the bracket was opened. -/
def Bracket.opener : Bracket → Kind
  | call => .callOpen
  | array => .arrayOpen

/-- Looking back past closed brackets finds what the stack of open ones holds below as many. -/
theorem unclosedFrom_reverse (closed : Nat) (before : List Token) : unclosedFrom closed before.reverse =
    ((contextAfter before).brackets.drop closed).head?.map Bracket.opener := by
  -- The last token decides, so the induction is on the tokens the last one first.
  rw [← before.reverse_reverse]
  generalize before.reverse = tokens
  rw [tokens.reverse_reverse]
  induction tokens generalizing closed with
  | nil => simp [unclosedFrom, contextAfter, Context.initial]
  | cons token tokens ih =>
    rw [List.reverse_cons, contextAfter_concat]
    simp only [unclosedFrom, Context.next, Context.bracketsAfter]
    cases kind : token.kind <;> simp only [ih]
    case callOpen | arrayOpen =>
      cases closed with
      | zero => rfl
      | succ closed => simp
    case callClose | arrayClose =>
      rw [List.drop_tail]

theorem unclosedBracket?_eq (before : List Token) : unclosedBracket? before =
    (contextAfter before).brackets.head?.map Bracket.opener :=
  unclosedFrom_reverse 0 before

/-! ## Scanning one text -/

/-- All of the table's operators but one are read where they are written. -/
theorem leading?_symbol {op : Operator} (mem : op ∈ Operator.table)
    (other : op.symbol.toList ≠ ['=', '>']) : Operator.leading? op.symbol.toList = some op := by
  have all : ∀ op ∈ Operator.table, op.symbol.toList ≠ ['=', '>'] →
      Operator.leading? op.symbol.toList = some op := by decide
  exact all op mem other

theorem placeholderLength_eq {cs : List Char}
    (digits : (cs.dropWhile (· = '_')).all Char.isDigit = true) : placeholderLength cs = cs.length := by
  have split := congrArg List.length (List.takeWhile_append_dropWhile (p := (· = '_')) (l := cs))
  rw [List.length_append] at split
  rw [placeholderLength, List.takeWhile_eq_self_iff.2 (List.all_eq_true.1 digits)]
  exact split

/-- Letters are no digits. -/
theorem isDigit_of_isAlpha {c : Char} (h : c.isAlpha = true) : c.isDigit = false := by
  have letter : 'A'.val ≤ c.val := by
    rcases (Bool.or_eq_true ..).mp h with upper | lower
    · exact (of_decide_eq_true upper).1
    · have le : 'a'.val ≤ c.val := of_decide_eq_true ((Bool.and_eq_true ..).mp lower).1
      exact UInt32.le_trans (by decide) le
  have above : ¬ c.val ≤ '9'.val := fun le => absurd (UInt32.le_trans letter le) (by decide)
  show (decide (c.val ≥ '0'.val) && decide (c.val ≤ '9'.val)) = false
  rw [decide_eq_false above, Bool.and_false]

/-- A printed operand begins as one and takes all of its text. -/
theorem begins_of_isText {kind : Kind} {c : Char} {cs : List Char} (data : kind.isData = true)
    (legal : kind.isText (c :: cs) = true) : Begins kind c ∧ operandLength kind cs = cs.length := by
  cases kind <;> simp only [Kind.isData, Bool.false_eq_true] at data
  case number =>
    simp only [Kind.isText, List.head?_cons, Option.any_some, List.all_cons, Bool.and_eq_true] at legal
    refine ⟨.number legal.1, ?_⟩
    rw [operandLength, List.takeWhile_eq_self_iff.2 (List.all_eq_true.1 legal.2.2)]
  case string =>
    simp only [Kind.isText, List.head?_cons, List.tail_cons, Option.some.injEq, Bool.and_eq_true,
      decide_eq_true_eq] at legal
    obtain ⟨rfl, closed⟩ := legal
    have length := stringLength_append closed 0 []
    rw [List.append_nil, Nat.zero_add] at length
    exact ⟨.string, length⟩
  case word =>
    simp only [Kind.isText, List.head?_cons, Option.any_some, List.all_cons, Bool.and_eq_true] at legal
    refine ⟨.word (isDigit_of_isAlpha legal.1) legal.1, ?_⟩
    rw [operandLength, List.takeWhile_eq_self_iff.2 (List.all_eq_true.1 legal.2.2)]
  case placeholder =>
    simp only [Kind.isText, List.head?_cons, Option.some.injEq, Bool.and_eq_true,
      decide_eq_true_eq] at legal
    obtain ⟨rfl, digits⟩ := legal
    exact ⟨.placeholder, placeholderLength_eq digits⟩

/-- A character that begins no token of another kind is one by itself. -/
theorem scan_of_not_beginsToken {c : Char} (h : beginsToken c = false) (context : Context) :
    scan context c [] = (.other, 0) := by
  simp only [beginsToken, isOperandStart, Char.isAlphanum, Bool.or_eq_false_iff,
    decide_eq_false_iff_not] at h
  obtain ⟨⟨⟨blank, ⟨⟨alpha, digit⟩, quote⟩, underscore⟩, marks⟩, operators⟩ := h
  have leading : Operator.leading? [c] = none := by
    rw [Operator.leading?, List.find?_eq_none]
    intro op mem leads
    obtain ⟨d, ds, symbol⟩ := List.exists_cons_of_ne_nil (Operator.symbol_ne_nil mem)
    have whole : op.symbol.toList = [c] := by
      rw [symbol] at leads ⊢
      rw [List.isPrefixOf_cons_cons, Bool.and_eq_true, beq_iff_eq] at leads
      cases ds with
      | nil => rw [leads.1]
      | cons => exact absurd leads.2 (by simp)
    rw [List.any_eq_false] at operators
    exact operators op mem (by simpa using whole)
  have single : single context c = .other := by
    unfold Lexer.single
    split
    case h_9 => rfl
    all_goals exact absurd marks (by decide)
  simp only [scan, leading, blank, digit, quote, alpha, underscore, single, Bool.false_eq_true, if_false]

/-- A text of a kind that fits behind the tokens before it is one token of that kind. -/
theorem scan_of_isText {before : List Token} {kind : Kind} {c : Char} {cs : List Char}
    (legal : kind.isText (c :: cs) = true) (fits : kind.FitsBehind before) :
    scan (contextAfter before) c cs = (kind, cs.length) := by
  have data := followsData_contextAfter before
  have brackets := unclosedBracket?_eq before
  by_cases operand : kind.isData = true
  · obtain ⟨begins, length⟩ := begins_of_isText operand legal
    rw [begins.scan_eq, length]
  have mark {mark : Char} (text : kind.isText (c :: cs) = decide (c :: cs = [mark])) :
      c = mark ∧ cs = [] := by
    rw [text, decide_eq_true_eq] at legal
    exact List.cons.inj legal
  cases kind <;> simp only [Kind.FitsBehind] at fits
  case number | string | word | placeholder => exact absurd rfl operand
  case whitespace => cases legal
  case operator | unaryOperator =>
    simp only [Kind.isText, Bool.and_eq_true, decide_eq_true_eq, List.any_eq_true] at legal
    obtain ⟨other, op, mem, symbol⟩ := legal
    have leading := leading?_symbol mem (symbol ▸ other)
    rw [symbol] at leading
    simp only [scan, leading, data, fits, symbol, List.length_cons, Nat.add_sub_cancel]
    rfl
  case other =>
    simp only [Kind.isText, Bool.and_eq_true, decide_eq_true_eq, List.length_cons,
      Nat.add_eq_right, List.length_eq_zero_iff] at legal
    obtain ⟨rfl, none⟩ := legal
    exact scan_of_not_beginsToken (by simpa using none) _
  case callOpen | arrayOpen =>
    obtain ⟨rfl, rfl⟩ := mark rfl
    rw [scan_opening, data, fits]
    rfl
  case callClose =>
    obtain ⟨rfl, rfl⟩ := mark rfl
    rw [fits] at brackets
    obtain ⟨bracket, head, opener⟩ := Option.map_eq_some_iff.1 brackets.symm
    cases bracket
    · rw [scan_closing, head]
      rfl
    · cases opener
  case arrayClose =>
    obtain ⟨rfl, rfl⟩ := mark rfl
    rw [scan_closing]
    refine Prod.ext (if_neg fun head => ?_) rfl
    rw [head] at brackets
    rw [brackets] at fits
    simp [Bracket.opener] at fits
  all_goals
    obtain ⟨rfl, rfl⟩ := mark rfl
    rfl

theorem ne_nil_of_isText {kind : Kind} {text : List Char} (legal : kind.isText text = true) :
    text ≠ [] := by
  rintro rfl
  cases kind
  case operator | unaryOperator =>
    simp only [Kind.isText, Bool.and_eq_true, decide_eq_true_eq, List.any_eq_true] at legal
    obtain ⟨_, op, mem, symbol⟩ := legal
    exact Operator.symbol_ne_nil mem symbol
  all_goals cases legal

/-- A printed token is read alone. -/
theorem cuts_of_isText {before : List Token} {token : Token}
    (legal : token.kind.isText token.text.toList = true) (fits : token.kind.FitsBehind before)
    (offset : Nat) : Cuts (contextAfter before) offset token.text.toList
      [⟨token.kind, token.text, offset⟩] (contextAfter (before ++ [token])) := by
  obtain ⟨c, cs, text⟩ := List.exists_cons_of_ne_nil (ne_nil_of_isText legal)
  have scans := scan_of_isText (text ▸ legal) fits
  have same : Lexer.token (contextAfter before) offset c cs = ⟨token.kind, token.text, offset⟩ := by
    rw [Lexer.token, scans, List.take_length, ← text, String.ofList_toList]
  rw [text, ← same]
  refine .cons ?_
  rw [scans, List.drop_length, same, contextAfter_concat]
  exact .nil

end Lexer

/-! ## Printed tokens -/

theorem map_spelling_of_isText {token : Token} (legal : token.kind.isText token.text.toList = true)
    (offset : Nat) : (unspaced [⟨token.kind, token.text, offset⟩]).map Token.spelling = [token.spelling] := by
  have kind : (Token.mk token.kind token.text offset).kind ≠ .whitespace := by
    intro blank
    rw [show token.kind = .whitespace from blank] at legal
    cases legal
  rw [unspaced_cons_of_ne kind]
  rfl

theorem isTerminated_of_isText {token : Token} (legal : token.kind.isText token.text.toList = true) :
    token.isTerminated = true := by
  rw [Token.isTerminated, Bool.or_eq_true, decide_eq_true_eq]
  by_cases string : token.kind = .string
  · rw [string, Kind.isText, Bool.and_eq_true] at legal
    exact .inr legal.2
  · exact .inl string

/-- What is printed behind the tokens `before` is read from the context that they lead to. -/
theorem Joined.cuts {tokens : List Token} {cs : List Char} (h : Joined tokens cs)
    (legal : ∀ token ∈ tokens, token.kind.isText token.text.toList = true) {before : List Token}
    (fits : ∀ front token back, tokens = front ++ token :: back →
      token.kind.FitsBehind (before ++ front)) (offset : Nat) :
    ∃ read last, Lexer.Cuts (Lexer.contextAfter before) offset cs read last ∧
      (unspaced read).map Token.spelling = tokens.map Token.spelling := by
  induction h generalizing before offset with
  | nil => exact ⟨[], _, .nil, rfl⟩
  | single token =>
    have legal := legal token List.mem_cons_self
    have first := fits [] token [] rfl
    rw [List.append_nil] at first
    exact ⟨_, _, Lexer.cuts_of_isText legal first offset, map_spelling_of_isText legal offset⟩
  | @cons token next tokens blanks cs some_ all _ ih =>
    obtain ⟨legal, legals⟩ := List.forall_mem_cons.1 legal
    have first := fits [] token (next :: tokens) rfl
    rw [List.append_nil] at first
    have others : ∀ front other back, next :: tokens = front ++ other :: back →
        other.kind.FitsBehind (before ++ [token] ++ front) := by
      intro front other back split
      have behind := fits (token :: front) other back (by rw [split, List.cons_append])
      rwa [List.append_assoc]
    have cuts := Lexer.cuts_of_isText legal first offset
    obtain ⟨read, last, cuts', same⟩ := ih legals others
      (offset + token.text.utf8ByteSize + (String.ofList blanks).utf8ByteSize)
    obtain ⟨spaced, cutsSpaced, sameSpaced⟩ := cuts'.blanks all
    -- The first of the blanks ends the token.
    obtain ⟨blank, blanks, rfl⟩ := List.exists_cons_of_ne_nil some_
    have stops := Lexer.isStop_of_isBlank (all blank List.mem_cons_self)
    obtain ⟨whole, cutsWhole, sameWhole⟩ := cuts.append stops
      (fun last mem => by cases mem; exact isTerminated_of_isText legal)
      (by rw [String.ofList_toList]; exact cutsSpaced)
    refine ⟨whole, last, cutsWhole, ?_⟩
    rw [sameWhole, sameSpaced, List.map_append, same, map_spelling_of_isText legal]
    rfl

/-- Tokens printed with blanks between them are read again with the kinds and the texts that they had. -/
theorem spelling_tokenize_of_joined {tokens : List Token} {source : String}
    (legal : ∀ token ∈ tokens, token.kind.isText token.text.toList = true)
    (fits : ∀ i : Fin tokens.length, (tokens.get i).kind.FitsBehind (tokens.take i))
    (joined : Joined tokens source.toList) :
    (unspaced (tokenize source)).map Token.spelling = tokens.map Token.spelling := by
  have behind : ∀ front token back, tokens = front ++ token :: back →
      token.kind.FitsBehind ([] ++ front) := by
    rintro front token back rfl
    simpa using fits ⟨front.length, by simp⟩
  obtain ⟨_, cuts⟩ := cuts_tokenize source
  obtain ⟨read, _, cuts', same⟩ := joined.cuts legal behind 0
  rw [cuts.unique cuts', same]

/-- An array in a call, an escaped quote, and behind a separator a bracket that closes nothing with an
operator behind it. -/
theorem spelling_tokenize_brackets :
    (unspaced (tokenize "f [ -\t[  \"\\\"]\" ] ]\n; ] :=")).map Token.spelling =
      [(.word, "f"), (.callOpen, "["), (.unaryOperator, "-"), (.arrayOpen, "["), (.string, "\"\\\"]\""),
        (.arrayClose, "]"), (.callClose, "]"), (.separator, ";"), (.arrayClose, "]"), (.operator, ":=")] := by
  refine @spelling_tokenize_of_joined
    [⟨.word, "f", 0⟩, ⟨.callOpen, "[", 0⟩, ⟨.unaryOperator, "-", 0⟩, ⟨.arrayOpen, "[", 0⟩,
      ⟨.string, "\"\\\"]\"", 0⟩, ⟨.arrayClose, "]", 0⟩, ⟨.callClose, "]", 0⟩, ⟨.separator, ";", 0⟩,
      ⟨.arrayClose, "]", 0⟩, ⟨.operator, ":=", 0⟩]
    _ (by decide) (by decide) ?_
  have text : "f [ -\t[  \"\\\"]\" ] ]\n; ] :=".toList = "f".toList ++ ([' '] ++ ("[".toList ++ ([' '] ++
      ("-".toList ++ (['\t'] ++ ("[".toList ++ ([' ', ' '] ++ ("\"\\\"]\"".toList ++ ([' '] ++
      ("]".toList ++ ([' '] ++ ("]".toList ++ (['\n'] ++ (";".toList ++ ([' '] ++ ("]".toList ++
      ([' '] ++ ":=".toList))))))))))))))))) := by decide
  rw [text]
  repeat refine .cons (by simp) (by simp [Lexer.isBlank]) ?_
  exact .single _

end ExprCompiler
